import EdgeTts.Communication.SessionAssembly

/-!
# What the service sees of a session

The service sees the upgrade requests that it refused and the connections that were opened, and
on each of them the frames that were sent and the messages that were received (`WireEvent`).  A
session that succeeds is one **talk** for each text, and nothing else (`SessionRun.talks`): after
no more refused requests than there are retries a connection is opened, the two frames of the text
are sent, messages are received up to the turn end, and the connection is closed.

But for the times of its boundaries, the result is what these messages hold, in order, also where
an addition of subtitle times overflows.
-/
namespace EdgeTts

open Interaction (Event)

/-- What passes between a session and the service. -/
inductive WireEvent where
  | refused (url : Bytes)
  | opened (url : Bytes)
  | sent (payload : Bytes)
  | got (message : WebSocketMessage)
  | closed
  deriving DecidableEq

/-- What the service may see of an event: every connect, every send, also one that fails, and
every close. -/
def wireEvent : Event Command Reply → Option WireEvent
  | ⟨.connect url, .error _⟩ => some (.refused url)
  | ⟨.connect url, .ok _⟩ => some (.opened url)
  | ⟨.sendText payload, _⟩ => some (.sent payload)
  | ⟨.receive, .ok message⟩ => some (.got message)
  | ⟨.close, _⟩ => some .closed
  | _ => none

def wire (t : SessionTrace) : List WireEvent := t.filterMap wireEvent

/-- One connection from its opening to its close, with the upgrade requests that were refused
before it. -/
structure Talk where
  refused : List Bytes
  url : Bytes
  config : Bytes
  ssml : Bytes
  messages : List WebSocketMessage

/-- A talk, as the service sees it. -/
def Talk.wire (talk : Talk) : List WireEvent :=
  talk.refused.map .refused ++ [.opened talk.url, .sent talk.config, .sent talk.ssml] ++
    talk.messages.map .got ++ [.closed]

/-- A chunk without its time. -/
def TtsChunk.untimed : TtsChunk → TtsChunk
  | .audio chunk => .audio chunk
  | .boundary bc => .boundary { bc with offsetTicks := 0 }

/-! ## What leaves the wire alone -/

@[simp] theorem wire_nil : wire [] = [] := rfl

@[simp] theorem wire_append (t₁ t₂ : SessionTrace) : wire (t₁ ++ t₂) = wire t₁ ++ wire t₂ :=
  List.filterMap_append

theorem wire_cons (ev : Event Command Reply) (t : SessionTrace) :
    wire (ev :: t) = (wireEvent ev).toList ++ wire t := by
  rw [wire, List.filterMap_cons]
  cases wireEvent ev <;> rfl

theorem wireEvent_of_quiet {ev : Event Command Reply} (h : isQuiet ev.1 = true) :
    wireEvent ev = none := by
  obtain ⟨c, a⟩ := ev
  cases c <;> first | rfl | cases h

theorem wire_of_quiet {t : SessionTrace} (h : ∀ ev ∈ t, isQuiet ev.1 = true) : wire t = [] :=
  List.filterMap_eq_nil_iff.mpr fun ev hev => wireEvent_of_quiet (h ev hev)

namespace SynthesisSession
variable {session : SynthesisSession}

/-! ## A talk -/

variable (session) in
/-- The URL of an upgrade request, made with identifiers and a clock time of the trace. -/
structure MakesUrl (config : EdgeServiceConfig) (t : SessionTrace) (metadata : ConnectionMetadata)
    (url : Bytes) : Prop where
  ids : ⟨.createForRequest, metadata⟩ ∈ t
  url : ∃ provider now token, provider.config = config ∧ ⟨.now, now⟩ ∈ t ∧
    provider.secMsGec session.sha256HexUpper now = .ok token ∧
    url = session.url provider metadata token

variable (session) in
/-- The talk is about the text: its URLs and its frames are made for it, with the identifiers and
the clock times of the trace. -/
structure About (ttsConfig : TtsConfig) (config : EdgeServiceConfig) (t : SessionTrace)
    (text : Bytes) (talk : Talk) : Prop where
  refused : ∀ url ∈ talk.refused, ∃ metadata, session.MakesUrl config t metadata url
  connection : ∃ metadata, session.MakesUrl config t metadata talk.url ∧
    (∃ now, ⟨.now, now⟩ ∈ t ∧ buildSpeechConfigFrame ttsConfig metadata now = .ok talk.config) ∧
    ∃ now, ⟨.now, now⟩ ∈ t ∧ buildSsmlFrame ttsConfig text metadata now = .ok talk.ssml

theorem MakesUrl.mono {config : EdgeServiceConfig} {t t' : SessionTrace}
    {metadata : ConnectionMetadata} {url : Bytes} (h : session.MakesUrl config t metadata url)
    (hsub : ∀ ev ∈ t, ev ∈ t') : session.MakesUrl config t' metadata url := by
  obtain ⟨provider, now, token, hconfig, hnow, htoken, hurl⟩ := h.url
  exact ⟨hsub _ h.ids, provider, now, token, hconfig, hsub _ hnow, htoken, hurl⟩

theorem About.mono {ttsConfig : TtsConfig} {config : EdgeServiceConfig} {t t' : SessionTrace}
    {text : Bytes} {talk : Talk} (h : session.About ttsConfig config t text talk)
    (hsub : ∀ ev ∈ t, ev ∈ t') : session.About ttsConfig config t' text talk := by
  obtain ⟨metadata, hurl, ⟨now₁, hnow₁, hcfg⟩, now₂, hnow₂, hssml⟩ := h.connection
  exact ⟨fun url hmem => (h.refused url hmem).imp fun _ hup => hup.mono hsub,
    metadata, hurl.mono hsub, ⟨now₁, hsub _ hnow₁, hcfg⟩, now₂, hsub _ hnow₂, hssml⟩

/-- A request that was refused before the others. -/
theorem About.refuse {ttsConfig : TtsConfig} {config : EdgeServiceConfig} {t : SessionTrace}
    {text url : Bytes} {talk : Talk} {metadata : ConnectionMetadata}
    (h : session.About ttsConfig config t text talk)
    (first : session.MakesUrl config t metadata url) :
    session.About ttsConfig config t text { talk with refused := url :: talk.refused } where
  refused := List.forall_mem_cons.mpr ⟨⟨metadata, first⟩, h.refused⟩
  connection := h.connection

theorem Delivered.wire_eq {comp : Int64} {st st' : ChunkState} {msgs : List IncomingMessage}
    {t : SessionTrace} (h : Delivered comp st msgs t st') : wire t = [] :=
  wire_of_quiet h.quiet

/-- Messages are handed on in order, with nothing changed but times. -/
theorem Delivered.untimed_eq {comp : Int64} {st st' : ChunkState} {msgs : List IncomingMessage}
    {t : SessionTrace} (h : Delivered comp st msgs t st') : st'.outChunks.map TtsChunk.untimed =
      st.outChunks.map TtsChunk.untimed ++ (chunksOf msgs).map TtsChunk.untimed := by
  induction h with
  | nil => simp [chunksOf]
  | ignored _ ih => exact ih
  | audio _ ih => simp [ih, chunksOf, ChunkState.pushAudio]
  | boundary rawEnd offset _ ih =>
      simp [ih, chunksOf, ChunkState.pushBoundary, TtsChunk.untimed]

/-- In the receive loop the service sees nothing but its own messages. -/
theorem Listened.wire_eq {comp : Int64} {st : ChunkState} {t : SessionTrace}
    {r : Option (Outcome ChunkState)} (run : session.Listened comp st t r) :
    wire t = (received t).map .got := by
  induction run with
  | turn _ _ delivered _ ih =>
      simp [wire_cons, wireEvent, received_cons_of_ne, delivered.received,
        Delivered.wire_eq delivered, ih]
  | _ => simp [wire_cons, wireEvent, received_cons_of_ne]

theorem Listened.untimed_eq {comp : Int64} {st st' : ChunkState} {t : SessionTrace}
    (run : session.Listened comp st t (some (.ok st'))) : st'.outChunks.map TtsChunk.untimed =
      st.outChunks.map TtsChunk.untimed ++
        (session.contents (received t)).map TtsChunk.untimed := by
  generalize hr : some (Outcome.ok st') = r at run
  induction run with
  | turn parsed _ delivered _ ih =>
      simp [ih hr, Delivered.untimed_eq delivered, received_cons_of_ne, delivered.received,
        accepted_eq parsed]
  | turnEnd parsed =>
      cases hr
      simp [received_cons_of_ne, accepted_eq parsed, turnEndMessages]
  | _ => cases hr

variable (session) in
/-- The messages complete a chunk: they end with the turn, hold audio, and are what is added to
the chunks. -/
structure Completes (chunks chunks' : List TtsChunk) (messages : List WebSocketMessage) :
    Prop where
  turn : session.WholeTurn messages
  audio : (session.contents messages).any isAudio = true
  added : chunks'.map TtsChunk.untimed =
    chunks.map TtsChunk.untimed ++ (session.contents messages).map TtsChunk.untimed

theorem Listened.completes {comp : Int64} {st st' : ChunkState} {t : SessionTrace}
    (run : session.Listened comp st t (some (.ok st'))) (before : st.audioReceived = false)
    (after : st'.audioReceived = true) :
    session.Completes st.outChunks st'.outChunks (received t) := by
  have haudio := run.audioReceived
  rw [before, after, Bool.false_or] at haudio
  exact ⟨run.wholeTurn, haudio.symm, run.untimed_eq⟩

/-- **A chunk that is completed** is one talk, after no more refused requests than the retries
that are left. -/
theorem Attempted.talk {ttsConfig : TtsConfig} {text : Bytes} {comp : Int64}
    {chunks chunks' : List TtsChunk} {provider provider' : EdgeTokenProvider} {attempt : Int}
    {t : SessionTrace} {chunkBoundaryEnd : Int64}
    (run : session.Attempted ttsConfig text comp chunks provider attempt t
      (some (.ok (chunkBoundaryEnd, chunks', provider')))) :
    ∃ talk, session.About ttsConfig provider.config t text talk ∧ wire t = talk.wire ∧
      talk.refused.length ≤ (session.retryPolicy.maxRetries - attempt).toNat ∧
      session.Completes chunks chunks' talk.messages ∧
      ∀ t', conversations (t ++ t') = talk.messages :: conversations t' := by
  generalize hr : some (Outcome.ok (chunkBoundaryEnd, chunks', provider')) = r at run
  induction run with
  | refused => cases hr
  | @retried provider _ metadata now token e t₁ provider₁ t₂ r given again corrected rest ih =>
      obtain ⟨talk, habout, hwire, hfew, hcompletes, hconvs⟩ := ih hr
      have hskew := correctSkew_quiet corrected
      refine ⟨{ talk with refused := session.url provider metadata token :: talk.refused }, ?_, ?_,
        ?_, hcompletes, fun t' => ?_⟩
      · rw [(correctSkew_runs corrected).2] at habout
        exact (habout.mono fun ev hev => by simp [hev]).refuse
          ⟨by simp, provider, now, token, rfl, by simp, given, rfl⟩
      · simp [wire_cons, wireEvent, wire_of_quiet hskew, hwire, Talk.wire]
      · simp only [RetryPolicy.shouldRetry, Bool.and_eq_true, decide_eq_true_eq] at again
        rw [List.length_cons]
        omega
      · have hopens : ∀ ev ∈ t₁, opens ev = false := by
          rintro ⟨c, a⟩ hev
          obtain rfl : c = .now := (correctSkew_runs corrected).1 _ hev
          rfl
        have hsplit : t₁ ++ t₂ ++ t' = t₁ ++ (t₂ ++ t') := List.append_assoc _ _ _
        simp only [List.cons_append, conversations, opens, Bool.false_eq_true, if_false, hsplit]
        rw [conversations_append hopens, hconvs]
  | @connected provider _ metadata now token t₁ r₁ t₂ r given run closing =>
      subst hr
      cases closing with
      | done _ _ closed =>
          have hsteady := run.steady
          generalize hr₁ : some (Outcome.ok (chunkBoundaryEnd, chunks')) = r₁ at run
          cases run with
          | @listened now₁ frame now₂ frame' t r built built' loop =>
              obtain ⟨st, rfl, haudio, hst⟩ := map_checkAudio_eq_ok.mp hr₁.symm
              cases hst
              refine ⟨⟨[], session.url provider' metadata token, frame, frame', received t⟩,
                ⟨List.forall_mem_nil _, metadata,
                  ⟨by simp, provider', now, token, rfl, by simp, given, rfl⟩,
                  ⟨now₁, by simp, built⟩, now₂, by simp, built'⟩, ?_, Nat.zero_le _,
                loop.completes rfl haudio, fun t' => ?_⟩
              · simp [wire_cons, wireEvent, loop.wire_eq, Talk.wire]
              · have hconvs := conversations_closed (session.url provider' metadata token) hsteady
                  closed t'
                have hrec : received (⟨.now, now₁⟩ :: ⟨.sendText frame, .ok ()⟩ :: ⟨.now, now₂⟩ ::
                    ⟨.sendText frame', .ok ()⟩ :: t) = received t := by
                  simp [received_cons_of_ne]
                rw [hrec] at hconvs
                simp only [List.cons_append, List.append_assoc, conversations, opens,
                  Bool.false_eq_true, if_false] at hconvs ⊢
                exact hconvs
          | _ => cases hr₁

/-- **A session that succeeds is one talk for each text**, in order. -/
theorem SessionRun.talks {ttsConfig : TtsConfig} {texts : List Bytes} {cumulative : Int64}
    {chunks out : List TtsChunk} {provider : EdgeTokenProvider} {t : SessionTrace}
    (run : session.SessionRun ttsConfig texts cumulative chunks provider t (some (.ok out))) :
    ∃ talks, List.Forall₂ (session.About ttsConfig provider.config t) texts talks ∧
      wire t = talks.flatMap Talk.wire ∧ conversations t = talks.map Talk.messages ∧
      (∀ talk ∈ talks, talk.refused.length ≤ session.retryPolicy.maxRetries.toNat ∧
        session.WholeTurn talk.messages ∧
        (session.contents talk.messages).any isAudio = true) ∧
      out.map TtsChunk.untimed = chunks.map TtsChunk.untimed ++
        (talks.flatMap fun talk => session.contents talk.messages).map TtsChunk.untimed := by
  generalize hr : some (Outcome.ok out) = r at run
  induction run with
  | done =>
      cases hr
      exact ⟨[], .nil, rfl, rfl, nofun, by simp⟩
  | @next text texts cumulative _ provider t₁ chunkBoundaryEnd chunks' provider' t₂ _ chunk sum rest
      ih =>
      obtain ⟨talk, habout, hwire, hfew, hcompletes, hconvs⟩ := chunk.talk
      rw [Int.sub_zero] at hfew
      obtain ⟨talks, htalks, hwires, hconvs', hall, hout⟩ := ih hr
      refine ⟨talk :: talks, .cons ?_ ?_, ?_, ?_,
        List.forall_mem_cons.mpr ⟨⟨hfew, hcompletes.turn, hcompletes.audio⟩, hall⟩, ?_⟩
      · exact habout.mono fun ev hev => by simp [hev]
      · rw [chunk.config_eq] at htalks
        exact htalks.imp fun text talk h => h.mono fun ev hev => by simp [hev]
      · simp [wire_cons, wireEvent, hwire, hwires]
      · simp only [conversations, opens, Bool.false_eq_true, if_false]
        rw [hconvs]
        simp [conversations, opens, hconvs']
      · simp [hout, hcompletes.added]
  | _ => cases hr

end SynthesisSession
end EdgeTts
