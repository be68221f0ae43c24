import EdgeTts.Communication.SessionRuns

/-!
# The connections that a session asks for

Each attempt of a session is a new `Upgrade`: its identifiers, a time of the clock, and the token
for that time.  In every run the identifiers that were drawn are those of the upgrades, one after
the other, and the URLs of the connects are made of them (`SessionRun.upgrades`), so none is used
for a second attempt.
-/
namespace EdgeTts

open Interaction (Event)

/-- What the URL of a connect is made of. -/
structure Upgrade (session : SynthesisSession) where
  provider : EdgeTokenProvider
  now : TimePoint
  metadata : ConnectionMetadata
  token : Bytes
  given : provider.secMsGec session.sha256HexUpper now = .ok token

def Upgrade.url {session : SynthesisSession} (upgrade : Upgrade session) : Bytes :=
  session.url upgrade.provider upgrade.metadata upgrade.token

/-- The identifiers that were drawn. -/
def drawnMetadata (t : SessionTrace) : List ConnectionMetadata :=
  t.filterMap fun
    | ⟨.createForRequest, metadata⟩ => some metadata
    | _ => none

/-- The URLs of the connects, also of those that were refused. -/
def requestedUrls (t : SessionTrace) : List Bytes :=
  t.filterMap fun
    | ⟨.connect url, _⟩ => some url
    | _ => none

/-- The upgrades account for what was drawn and requested. -/
structure Upgraded {session : SynthesisSession} (config : EdgeServiceConfig) (t : SessionTrace)
    (upgrades : List (Upgrade session)) : Prop where
  drawn : drawnMetadata t = upgrades.map Upgrade.metadata
  requested : requestedUrls t = upgrades.map Upgrade.url
  config : ∀ upgrade ∈ upgrades, upgrade.provider.config = config
  clock : ∀ upgrade ∈ upgrades, ⟨.now, upgrade.now⟩ ∈ t

section
variable {session : SynthesisSession} {config : EdgeServiceConfig}

theorem Upgraded.append {t t' : SessionTrace} {us us' : List (Upgrade session)}
    (h : Upgraded config t us) (h' : Upgraded config t' us') :
    Upgraded config (t ++ t') (us ++ us') where
  drawn := by
    rw [List.map_append, ← h.drawn, ← h'.drawn]
    exact List.filterMap_append
  requested := by
    rw [List.map_append, ← h.requested, ← h'.requested]
    exact List.filterMap_append
  config := List.forall_mem_append.mpr ⟨h.config, h'.config⟩
  clock := List.forall_mem_append.mpr ⟨fun u hu => List.mem_append_left _ (h.clock u hu),
    fun u hu => List.mem_append_right _ (h'.clock u hu)⟩

/-- Commands that ask for no connection. -/
def asksNothing : Command → Bool
  | .createForRequest | .connect _ => false
  | _ => true

theorem upgraded_nil {t : SessionTrace} (h : ∀ ev ∈ t, asksNothing ev.1 = true) :
    Upgraded config t ([] : List (Upgrade session)) where
  drawn := List.filterMap_eq_nil_iff.mpr fun ⟨c, r⟩ hev => by
    cases c <;> first | rfl | cases h _ hev
  requested := List.filterMap_eq_nil_iff.mpr fun ⟨c, r⟩ hev => by
    cases c <;> first | rfl | cases h _ hev
  config := nofun
  clock := nofun

/-- One attempt. -/
theorem upgraded_single (upgrade : Upgrade session) (hconfig : upgrade.provider.config = config)
    (reply : Result Unit) :
    Upgraded config [⟨.createForRequest, upgrade.metadata⟩, ⟨.now, upgrade.now⟩,
      ⟨.connect upgrade.url, reply⟩] [upgrade] where
  drawn := rfl
  requested := rfl
  config := List.forall_mem_singleton.mpr hconfig
  clock := List.forall_mem_singleton.mpr (.tail _ (.head _))

end

namespace SynthesisSession
variable {session : SynthesisSession}

theorem Delivered.asksNothing {comp : Int64} {st st' : ChunkState} {msgs : List IncomingMessage}
    {t : SessionTrace} (h : Delivered comp st msgs t st') :
    ∀ ev ∈ t, asksNothing ev.1 = true := by
  rintro ⟨c, sum⟩ hev
  obtain ⟨a, b, rfl⟩ := h.adds _ hev
  rfl

theorem Listened.asksNothing {comp : Int64} {st : ChunkState} {t : SessionTrace}
    {r : Option (Outcome ChunkState)} (run : session.Listened comp st t r) :
    ∀ ev ∈ t, asksNothing ev.1 = true := by
  induction run with
  | turn _ _ delivered _ ih =>
      simp only [List.forall_mem_cons, List.forall_mem_append]
      exact ⟨rfl, rfl, Delivered.asksNothing delivered, ih⟩
  | _ => simp [EdgeTts.asksNothing]

theorem ChunkRun.asksNothing {ttsConfig : TtsConfig} {text : Bytes} {metadata : ConnectionMetadata}
    {comp : Int64} {chunks : List TtsChunk} {t : SessionTrace}
    {r : Option (Outcome (Int64 × List TtsChunk))}
    (run : session.ChunkRun ttsConfig text metadata comp chunks t r) :
    ∀ ev ∈ t, asksNothing ev.1 = true := by
  cases run with
  | listened _ _ loop =>
      simp only [List.forall_mem_cons]
      exact ⟨rfl, rfl, rfl, rfl, loop.asksNothing⟩
  | _ => simp [EdgeTts.asksNothing]

theorem Closing.asksNothing {provider : EdgeTokenProvider}
    {r : Option (Outcome (Int64 × List TtsChunk))} {t : SessionTrace}
    {r' : Option (Outcome (Int64 × List TtsChunk × EdgeTokenProvider))}
    (h : Closing provider r t r') : ∀ ev ∈ t, asksNothing ev.1 = true := by
  cases h <;> simp [EdgeTts.asksNothing]

/-- **The attempts of a chunk are upgrades**, and nothing else asks for a connection. -/
theorem Attempted.upgrades {ttsConfig : TtsConfig} {text : Bytes} {comp : Int64}
    {chunks : List TtsChunk} {provider : EdgeTokenProvider} {attempt : Int} {t : SessionTrace}
    {r : Option (Outcome (Int64 × List TtsChunk × EdgeTokenProvider))}
    (run : session.Attempted ttsConfig text comp chunks provider attempt t r) :
    ∃ upgrades : List (Upgrade session), Upgraded provider.config t upgrades := by
  induction run with
  | @refused provider _ metadata now token e given =>
      exact ⟨_, upgraded_single ⟨provider, now, metadata, token, given⟩ rfl _⟩
  | @retried provider _ metadata now token e t₁ provider' t₂ _ given _ corrected _ ih =>
      obtain ⟨upgrades, hrest⟩ := ih
      obtain ⟨hclock, hconfig⟩ := correctSkew_runs corrected
      rw [hconfig] at hrest
      have hquiet : ∀ ev ∈ t₁, EdgeTts.asksNothing ev.1 = true := fun ev hev => by
        rw [hclock ev hev]
        rfl
      exact ⟨_, (upgraded_single ⟨provider, now, metadata, token, given⟩ rfl (.error e)).append
        ((upgraded_nil hquiet).append hrest)⟩
  | @connected provider _ metadata now token t₁ _ t₂ _ given run closing =>
      exact ⟨_, (upgraded_single ⟨provider, now, metadata, token, given⟩ rfl (.ok ())).append
        (upgraded_nil (List.forall_mem_append.mpr ⟨run.asksNothing, closing.asksNothing⟩))⟩

/-- **Every run of a session is made of upgrades**, also one that is not over. -/
theorem SessionRun.upgrades {ttsConfig : TtsConfig} {texts : List Bytes} {cumulative : Int64}
    {chunks : List TtsChunk} {provider : EdgeTokenProvider} {t : SessionTrace}
    {r : Option (Outcome (List TtsChunk))}
    (run : session.SessionRun ttsConfig texts cumulative chunks provider t r) :
    ∃ upgrades : List (Upgrade session), Upgraded provider.config t upgrades := by
  have hquiet : ∀ (config : EdgeServiceConfig) (ev : Event Command Reply),
      EdgeTts.asksNothing ev.1 = true → Upgraded config [ev] ([] : List (Upgrade session)) :=
    fun _ _ h => upgraded_nil (List.forall_mem_singleton.mpr h)
  induction run with
  | done => exact ⟨[], upgraded_nil nofun⟩
  | cancelled => exact ⟨[], hquiet _ _ rfl⟩
  | running chunk | failed chunk | escaped chunk =>
      obtain ⟨upgrades, h⟩ := chunk.upgrades
      exact ⟨_, (hquiet _ ⟨.isCancelled, false⟩ rfl).append h⟩
  | @next _ _ cumulative _ _ t₁ chunkBoundaryEnd _ _ t₂ _ chunk sum rest ih =>
      obtain ⟨upgrades, h⟩ := chunk.upgrades
      obtain ⟨upgrades', h'⟩ := ih
      rw [chunk.config_eq] at h'
      exact ⟨_, ((hquiet _ ⟨.isCancelled, false⟩ rfl).append h).append
        ((hquiet _ ⟨.add cumulative chunkBoundaryEnd, sum⟩ rfl).append h')⟩

end SynthesisSession
end EdgeTts
