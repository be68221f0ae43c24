import EdgeTts.Communication.SynthesisSession

/-!
# The runs of a session

What a session does, said once: for each function of `SynthesisSession.cpp`, from
the receive loop outwards, an inductive description of its runs (`Listened`,
`ChunkRun`, `Attempted`, `SessionRun`), with one constructor for each of its exits.
`synthesize_runs` says that every run of the program is one of these; the theorems
on sessions are inductions over them.
-/
namespace EdgeTts

open Interaction (Prog Trace)
open Interaction.Prog (runs_bind runs_perform_bind runs_loop_succ)

/-- What a session has done so far, in order. -/
abbrev SessionTrace := Trace Command Reply

/-- What the parser returns for a turn end. -/
def turnEndMessages : List IncomingMessage := [⟨.turnEnd, none⟩]

/-- The runs of the loop over the parsed messages that meet no turn end. -/
inductive Delivered (offsetCompensation : Int64) :
    ChunkState → List IncomingMessage → SessionTrace → ChunkState → Prop
  | nil {st} : Delivered offsetCompensation st [] [] st
  | ignored {st msgs t st'} (rest : Delivered offsetCompensation st msgs t st') :
      Delivered offsetCompensation st (⟨.ignored, none⟩ :: msgs) t st'
  | audio {st chunk msgs t st'}
      (rest : Delivered offsetCompensation (st.pushAudio (.audio chunk)) msgs t st') :
      Delivered offsetCompensation st (⟨.audio, some (.audio chunk)⟩ :: msgs) t st'
  | boundary {st} {bc : BoundaryChunk} {msgs t st'}
      (rawEnd : Sum64 bc.offsetTicks bc.durationTicks)
      (offset : Sum64 bc.offsetTicks offsetCompensation)
      (rest : Delivered offsetCompensation (st.pushBoundary bc rawEnd.val offset.val) msgs t st') :
      Delivered offsetCompensation st (⟨.boundary, some (.boundary bc)⟩ :: msgs)
        (⟨.add bc.offsetTicks bc.durationTicks, rawEnd⟩ ::
          ⟨.add bc.offsetTicks offsetCompensation, offset⟩ :: t) st'

/-- Handling messages does nothing but additions. -/
theorem Delivered.adds {comp : Int64} {st st' : ChunkState} {msgs : List IncomingMessage}
    {t : SessionTrace} (h : Delivered comp st msgs t st') : ∀ ev ∈ t, ∃ a b, ev.1 = .add a b := by
  induction h with
  | nil => simp
  | ignored _ ih => exact ih
  | audio _ ih => exact ih
  | boundary rawEnd offset _ ih => simpa using ih

theorem dispatch_boundaries_runs {comp : Int64} {st : ChunkState} {bcs : List BoundaryChunk}
    {t : SessionTrace} {r : Outcome (ChunkState × Bool)}
    (h : (dispatch comp st (bcs.map fun bc => ⟨.boundary, some (.boundary bc)⟩)).Runs t r) :
    ∃ st', r = .ok (st', false) ∧
      Delivered comp st (bcs.map fun bc => ⟨.boundary, some (.boundary bc)⟩) t st' := by
  induction bcs generalizing st t with
  | nil =>
      obtain ⟨rfl, rfl⟩ := h
      exact ⟨st, rfl, .nil⟩
  | cons bc bcs ih =>
      obtain ⟨rawEnd, _, rfl, offset, t, rfl, h⟩ := h
      obtain ⟨st', rfl, hd⟩ := ih h
      exact ⟨st', rfl, .boundary rawEnd offset hd⟩

/-- The loop over what the parser accepts ends at a turn end, or has delivered
everything. -/
theorem dispatch_runs {comp : Int64} {st : ChunkState} {msgs : List IncomingMessage}
    {t : SessionTrace} {r : Outcome (ChunkState × Bool)} (shape : Shape msgs)
    (h : (dispatch comp st msgs).Runs t r) :
    (msgs = turnEndMessages ∧ t = [] ∧ r = .ok (st, true)) ∨
      msgs ≠ turnEndMessages ∧ ∃ st', r = .ok (st', false) ∧ Delivered comp st msgs t st' := by
  cases shape with
  | turnEnd =>
      obtain ⟨rfl, rfl⟩ := h
      exact .inl ⟨rfl, rfl, rfl⟩
  | ignored =>
      obtain ⟨rfl, rfl⟩ := h
      exact .inr ⟨by simp [turnEndMessages], st, rfl, .ignored .nil⟩
  | audio hdata =>
      obtain ⟨rfl, rfl⟩ := h
      exact .inr ⟨by simp [turnEndMessages], _, rfl, .audio .nil⟩
  | boundaries hbcs =>
      refine .inr ⟨?_, dispatch_boundaries_runs h⟩
      intro heq
      cases bcs : (‹List BoundaryChunk›) <;> simp_all [turnEndMessages]

namespace SynthesisSession
variable (session : SynthesisSession)

/-- The runs of the receive loop. -/
inductive Listened (offsetCompensation : Int64) :
    ChunkState → SessionTrace → Option (Outcome ChunkState) → Prop
  | running {st} : Listened offsetCompensation st [] none
  | cancelled {st} :
      Listened offsetCompensation st [⟨.isCancelled, true⟩] (some (.fail cancelledError))
  | notReceived {st} (e : Error) :
      Listened offsetCompensation st [⟨.isCancelled, false⟩, ⟨.receive, .error e⟩] (some (.fail e))
  | rejected {st message e} (parsed : parseIncoming session.jsonParse message = .fail e) :
      Listened offsetCompensation st [⟨.isCancelled, false⟩, ⟨.receive, .ok message⟩]
        (some (.fail e))
  | escaped {st message x} (parsed : parseIncoming session.jsonParse message = .escape x) :
      Listened offsetCompensation st [⟨.isCancelled, false⟩, ⟨.receive, .ok message⟩]
        (some (.escape x))
  | turnEnd {st message} (parsed : parseIncoming session.jsonParse message = .ok turnEndMessages) :
      Listened offsetCompensation st [⟨.isCancelled, false⟩, ⟨.receive, .ok message⟩]
        (some (.ok st))
  | turn {st message msgs t₁ st' t₂ r}
      (parsed : parseIncoming session.jsonParse message = .ok msgs)
      (notEnd : msgs ≠ turnEndMessages) (delivered : Delivered offsetCompensation st msgs t₁ st')
      (rest : Listened offsetCompensation st' t₂ r) :
      Listened offsetCompensation st
        (⟨.isCancelled, false⟩ :: ⟨.receive, .ok message⟩ :: (t₁ ++ t₂)) r

variable {session}

/-- The receive loop, after one turn. -/
theorem receiveTurn_runs {comp : Int64} {st : ChunkState} {t : SessionTrace}
    {x : ChunkState ⊕ Outcome ChunkState} (h : (session.receiveTurn comp st).Runs t x) :
    (∃ message msgs t₁ st', x = .inl st' ∧
      t = ⟨.isCancelled, false⟩ :: ⟨.receive, .ok message⟩ :: t₁ ∧
      parseIncoming session.jsonParse message = .ok msgs ∧ msgs ≠ turnEndMessages ∧
      Delivered comp st msgs t₁ st') ∨
    ∃ r, x = .inr r ∧ session.Listened comp st t (some r) := by
  rw [receiveTurn, runs_perform_bind] at h
  obtain ⟨stop, t, rfl, h⟩ := h
  cases stop with
  | true =>
      obtain ⟨rfl, rfl⟩ := h
      exact .inr ⟨_, rfl, .cancelled⟩
  | false =>
      rw [if_neg Bool.false_ne_true, runs_perform_bind] at h
      obtain ⟨received, t, rfl, h⟩ := h
      cases received with
      | error e =>
          obtain ⟨rfl, rfl⟩ := h
          exact .inr ⟨_, rfl, .notReceived e⟩
      | ok message =>
          cases hp : parseIncoming session.jsonParse message with
          | fail e =>
              simp only [hp] at h
              obtain ⟨rfl, rfl⟩ := h
              exact .inr ⟨_, rfl, .rejected hp⟩
          | escape y =>
              simp only [hp] at h
              obtain ⟨rfl, rfl⟩ := h
              exact .inr ⟨_, rfl, .escaped hp⟩
          | ok msgs =>
              simp only [hp] at h
              obtain ⟨t₁, t₂, r, rfl, hrun, h⟩ := runs_bind.mp h
              -- the parser returns a turn end alone or none at all
              rcases dispatch_runs (parseIncoming_shape hp) hrun with
                ⟨rfl, rfl, rfl⟩ | ⟨hne, st', rfl, hd⟩
              · obtain ⟨rfl, rfl⟩ := h
                exact .inr ⟨_, rfl, .turnEnd hp⟩
              · obtain ⟨rfl, rfl⟩ := h
                exact .inl ⟨message, msgs, t₁, st', rfl, by rw [List.append_nil], hp, hne, hd⟩

theorem receiveLoop_runs {comp : Int64} {fuel : Nat} {st : ChunkState} {t : SessionTrace}
    {r : Option (Outcome ChunkState)}
    (h : (Prog.loop (session.receiveTurn comp) fuel st).Runs t r) :
    session.Listened comp st t r := by
  induction fuel generalizing st t with
  | zero =>
      obtain ⟨rfl, rfl⟩ := h
      exact .running
  | succ fuel ih =>
      rcases runs_loop_succ.mp h with ⟨t₁, t₂, s', rfl, hturn, hrest⟩ | ⟨r, hturn, rfl⟩
      · rcases receiveTurn_runs hturn with
          ⟨message, msgs, a, st', hx, rfl, hp, hne, hd⟩ | ⟨r, hx, -⟩
        · cases hx
          exact .turn hp hne hd (ih hrest)
        · cases hx
      · rcases receiveTurn_runs hturn with ⟨_, _, _, _, hx, -⟩ | ⟨r', hx, hl⟩
        · cases hx
        · cases hx
          exact hl

/-! ## A chunk on an open connection -/

variable (session)

/-- The runs of `run_one_chunk`. -/
inductive ChunkRun (ttsConfig : TtsConfig) (text : Bytes) (metadata : ConnectionMetadata)
    (offsetCompensation : Int64) (outChunks : List TtsChunk) :
    SessionTrace → Option (Outcome (Int64 × List TtsChunk)) → Prop
  | configNotBuilt {now e} (built : buildSpeechConfigFrame ttsConfig metadata now = .error e) :
      ChunkRun ttsConfig text metadata offsetCompensation outChunks [⟨.now, now⟩] (some (.fail e))
  | configNotSent {now frame} (e : Error)
      (built : buildSpeechConfigFrame ttsConfig metadata now = .ok frame) :
      ChunkRun ttsConfig text metadata offsetCompensation outChunks
        [⟨.now, now⟩, ⟨.sendText frame, .error e⟩] (some (.fail e))
  | ssmlNotBuilt {now frame now' e}
      (built : buildSpeechConfigFrame ttsConfig metadata now = .ok frame)
      (built' : buildSsmlFrame ttsConfig text metadata now' = .fail e) :
      ChunkRun ttsConfig text metadata offsetCompensation outChunks
        [⟨.now, now⟩, ⟨.sendText frame, .ok ()⟩, ⟨.now, now'⟩] (some (.fail e))
  | ssmlNotSent {now frame now' frame'} (e : Error)
      (built : buildSpeechConfigFrame ttsConfig metadata now = .ok frame)
      (built' : buildSsmlFrame ttsConfig text metadata now' = .ok frame') :
      ChunkRun ttsConfig text metadata offsetCompensation outChunks
        [⟨.now, now⟩, ⟨.sendText frame, .ok ()⟩, ⟨.now, now'⟩, ⟨.sendText frame', .error e⟩]
        (some (.fail e))
  | listened {now frame now' frame' t r}
      (built : buildSpeechConfigFrame ttsConfig metadata now = .ok frame)
      (built' : buildSsmlFrame ttsConfig text metadata now' = .ok frame')
      (loop : session.Listened offsetCompensation { outChunks } t r) :
      ChunkRun ttsConfig text metadata offsetCompensation outChunks
        (⟨.now, now⟩ :: ⟨.sendText frame, .ok ()⟩ :: ⟨.now, now'⟩ ::
          ⟨.sendText frame', .ok ()⟩ :: t) (r.map checkAudio)

variable {session}

theorem runOneChunk_runs {fuel : Nat} {ttsConfig : TtsConfig} {text : Bytes}
    {metadata : ConnectionMetadata} {comp : Int64} {chunks : List TtsChunk} {t : SessionTrace}
    {r : Option (Outcome (Int64 × List TtsChunk))}
    (h : (session.runOneChunk fuel ttsConfig text metadata comp chunks).Runs t r) :
    session.ChunkRun ttsConfig text metadata comp chunks t r := by
  rw [runOneChunk, runs_perform_bind] at h
  obtain ⟨now, t, rfl, h⟩ := h
  cases hcfg : buildSpeechConfigFrame ttsConfig metadata now with
  | error e =>
      simp only [hcfg] at h
      obtain ⟨rfl, rfl⟩ := h
      exact .configNotBuilt hcfg
  | ok frame =>
      simp only [hcfg, runs_perform_bind] at h
      obtain ⟨sent, t, rfl, h⟩ := h
      cases sent with
      | error e =>
          obtain ⟨rfl, rfl⟩ := h
          exact .configNotSent e hcfg
      | ok _ =>
          simp only [runs_perform_bind] at h
          obtain ⟨now', t, rfl, h⟩ := h
          cases hssml : buildSsmlFrame ttsConfig text metadata now' with
          -- the builder of the SSML frame never throws
          | escape x => exact absurd hssml (buildSsmlFrame_returns ttsConfig text metadata now' x)
          | fail e =>
              simp only [hssml] at h
              obtain ⟨rfl, rfl⟩ := h
              exact .ssmlNotBuilt hcfg hssml
          | ok frame' =>
              simp only [hssml, runs_perform_bind] at h
              obtain ⟨sent', t, rfl, h⟩ := h
              cases sent' with
              | error e =>
                  obtain ⟨rfl, rfl⟩ := h
                  exact .ssmlNotSent e hcfg hssml
              | ok _ =>
                  simp only at h
                  obtain ⟨t₁, t₂, st, rfl, hloop, h⟩ := runs_bind.mp h
                  obtain ⟨rfl, rfl⟩ := h
                  rw [List.append_nil]
                  exact .listened hcfg hssml (receiveLoop_runs hloop)

/-- `run_one_chunk` returns a value just where its loop has, with audio. -/
theorem map_checkAudio_eq_ok {r : Option (Outcome ChunkState)} {x : Int64 × List TtsChunk} :
    r.map checkAudio = some (.ok x) ↔ ∃ st, r = some (.ok st) ∧ st.audioReceived = true ∧
      x = (st.outBoundaryEndTicks, st.outChunks) := by
  rcases r with _ | st | e | y
  · simp
  · simp only [Option.map_some, checkAudio, Option.some.injEq, Outcome.ok.injEq, exists_eq_left']
    cases haudio : st.audioReceived with
    | false => simp
    | true => simp [@eq_comm _ x]
  · simp [checkAudio]
  · simp [checkAudio]

/-- The receive loop ends with no exception but that of the JSON parser. -/
theorem Listened.escape {comp : Int64} {st : ChunkState} {t : SessionTrace}
    {r : Option (Outcome ChunkState)} (run : session.Listened comp st t r) :
    ∀ x, r = some (.escape x) → x = .jsonOutOfRange := by
  induction run with
  | escaped parsed =>
      rintro x ⟨⟩
      exact parseIncoming_escape parsed
  | turn _ _ _ _ ih => exact ih
  | _ => exact nofun

theorem ChunkRun.escape {ttsConfig : TtsConfig} {text : Bytes} {metadata : ConnectionMetadata}
    {comp : Int64} {chunks : List TtsChunk} {t : SessionTrace}
    {r : Option (Outcome (Int64 × List TtsChunk))}
    (run : session.ChunkRun ttsConfig text metadata comp chunks t r) :
    ∀ x, r = some (.escape x) → x = .jsonOutOfRange := by
  cases run with
  | @listened _ _ _ _ _ r _ _ loop =>
      intro x hx
      refine loop.escape x ?_
      rcases r with _ | st | e | y
      · cases hx
      · simp only [Option.map_some, checkAudio] at hx
        split at hx <;> cases hx
      · cases hx
      · cases hx
        rfl
  | _ => exact nofun

/-- **The unchecked accesses of the receive loop are safe.**  What the parser accepts is well
shaped, so no run of `run_one_chunk` reads a chunk that is not there or is of another kind,
and nothing follows a turn end in its message. -/
theorem receiveLoop_safe (session : SynthesisSession) :
    (∀ message msgs, parseIncoming session.jsonParse message = .ok msgs → WellShaped msgs) ∧
    ∀ fuel ttsConfig text metadata comp chunks t r,
      (session.runOneChunk fuel ttsConfig text metadata comp chunks).Runs t r →
      r ≠ some (.escape .emptyOptional) ∧ r ≠ some (.escape .badVariantAccess) ∧
      ∀ message msgs, ⟨.receive, .ok message⟩ ∈ t →
        parseIncoming session.jsonParse message = .ok msgs →
        ∀ before msg after, msgs = before ++ msg :: after → msg.kind = .turnEnd → after = [] := by
  refine ⟨fun message msgs h => (parseIncoming_shape h).wellShaped, ?_⟩
  intro fuel ttsConfig text metadata comp chunks t r run
  have hescape := (runOneChunk_runs run).escape
  refine ⟨?_, ?_, ?_⟩
  · intro hr
    cases hescape _ hr
  · intro hr
    cases hescape _ hr
  · rintro message msgs - hparsed before msg after rfl hkind
    have hone := ((parseIncoming_shape hparsed).wellShaped.turnEnd msg (by simp) hkind).2
    have hlen := congrArg List.length hone
    simp at hlen
    exact List.eq_nil_of_length_eq_zero (by omega)

/-! ## The attempts of a chunk -/

/-- How `synthesize` leaves the connection, by the way `run_one_chunk` ended. -/
inductive Closing (provider : EdgeTokenProvider) :
    Option (Outcome (Int64 × List TtsChunk)) → SessionTrace →
      Option (Outcome (Int64 × List TtsChunk × EdgeTokenProvider)) → Prop
  | running : Closing provider none [] none
  | escaped (x : Escape) : Closing provider (some (.escape x)) [] (some (.escape x))
  | failed (e : Error) (closed : Result Unit) :
      Closing provider (some (.fail e)) [⟨.close, closed⟩] (some (.fail e))
  | done (chunkBoundaryEnd : Int64) (chunks : List TtsChunk) (closed : Result Unit) :
      Closing provider (some (.ok (chunkBoundaryEnd, chunks))) [⟨.close, closed⟩]
        (some (.ok (chunkBoundaryEnd, chunks, provider)))

variable (session)

/-- The runs of the retry loop, from a given attempt on; `token` is its Sec-MS-GEC. -/
inductive Attempted (ttsConfig : TtsConfig) (text : Bytes) (offsetCompensation : Int64)
    (allChunks : List TtsChunk) :
    EdgeTokenProvider → Int → SessionTrace →
      Option (Outcome (Int64 × List TtsChunk × EdgeTokenProvider)) → Prop
  | refused {provider attempt metadata now token e}
      (given : provider.secMsGec session.sha256HexUpper now = .ok token)
      (last : session.retryPolicy.shouldRetry e attempt = false) :
      Attempted ttsConfig text offsetCompensation allChunks provider attempt
        [⟨.createForRequest, metadata⟩, ⟨.now, now⟩,
          ⟨.connect (session.url provider metadata token), .error e⟩] (some (.fail e))
  | retried {provider attempt metadata now token e t₁ provider' t₂ r}
      (given : provider.secMsGec session.sha256HexUpper now = .ok token)
      (again : session.retryPolicy.shouldRetry e attempt = true)
      (corrected : (correctSkew provider e).Runs t₁ provider')
      (rest : Attempted ttsConfig text offsetCompensation allChunks provider' (attempt + 1) t₂ r) :
      Attempted ttsConfig text offsetCompensation allChunks provider attempt
        (⟨.createForRequest, metadata⟩ :: ⟨.now, now⟩ ::
          ⟨.connect (session.url provider metadata token), .error e⟩ :: (t₁ ++ t₂)) r
  | connected {provider attempt metadata now token t₁ r₁ t₂ r}
      (given : provider.secMsGec session.sha256HexUpper now = .ok token)
      (run : session.ChunkRun ttsConfig text metadata offsetCompensation allChunks t₁ r₁)
      (closing : Closing provider r₁ t₂ r) :
      Attempted ttsConfig text offsetCompensation allChunks provider attempt
        (⟨.createForRequest, metadata⟩ :: ⟨.now, now⟩ ::
          ⟨.connect (session.url provider metadata token), .ok ()⟩ :: (t₁ ++ t₂)) r

variable {session}

/-- A skew correction reads the clock and changes nothing but the skew. -/
theorem correctSkew_runs {provider provider' : EdgeTokenProvider} {e : Error} {t : SessionTrace}
    (h : (correctSkew provider e).Runs t provider') :
    (∀ ev ∈ t, ev.1 = .now) ∧ provider'.config = provider.config := by
  rw [correctSkew] at h
  split at h
  · split at h
    · rw [runs_perform_bind] at h
      obtain ⟨now, t, rfl, rfl, rfl⟩ := h
      exact ⟨by simp, rfl⟩
    · obtain ⟨rfl, rfl⟩ := h
      exact ⟨by simp, rfl⟩
  · obtain ⟨rfl, rfl⟩ := h
    exact ⟨by simp, rfl⟩

/-- The retries of a chunk change nothing of the provider but its skew. -/
theorem Attempted.config_eq {ttsConfig : TtsConfig} {text : Bytes} {comp : Int64}
    {allChunks : List TtsChunk} {provider provider' : EdgeTokenProvider} {attempt : Int}
    {t : SessionTrace} {chunkBoundaryEnd : Int64} {chunks : List TtsChunk}
    (h : session.Attempted ttsConfig text comp allChunks provider attempt t
      (some (.ok (chunkBoundaryEnd, chunks, provider')))) :
    provider'.config = provider.config := by
  generalize hr : some (Outcome.ok (chunkBoundaryEnd, chunks, provider')) = r at h
  induction h with
  | refused => cases hr
  | retried given again corrected rest ih => exact (ih hr).trans (correctSkew_runs corrected).2
  | connected given run closing =>
      subst hr
      cases closing
      rfl

theorem runChunk_runs {fuel : Nat} {ttsConfig : TtsConfig} {text : Bytes} {comp : Int64}
    {allChunks : List TtsChunk} {provider : EdgeTokenProvider} {attempt : Int} {t : SessionTrace}
    {r : Option (Outcome (Int64 × List TtsChunk × EdgeTokenProvider))}
    (h : (session.runChunk fuel ttsConfig text comp allChunks provider attempt).Runs t r) :
    session.Attempted ttsConfig text comp allChunks provider attempt t r := by
  induction n : (session.retryPolicy.maxRetries - attempt).toNat
    using Nat.strongRecOn generalizing attempt provider t with
  | _ n ih =>
  rw [runChunk, runs_perform_bind] at h
  obtain ⟨metadata, t, rfl, h⟩ := h
  rw [runs_perform_bind] at h
  obtain ⟨now, t, rfl, h⟩ := h
  cases hgec : provider.secMsGec session.sha256HexUpper now with
  | error e => cases hgec
  | ok token =>
      simp only [hgec, runs_perform_bind] at h
      obtain ⟨connected, t, rfl, h⟩ := h
      cases connected with
      | error e =>
          simp only at h
          -- a retry leaves fewer attempts, which is the induction
          by_cases hretry : session.retryPolicy.shouldRetry e attempt = true
          · rw [dif_pos hretry, runs_bind] at h
            obtain ⟨t₁, t₂, provider', rfl, hskew, h⟩ := h
            refine .retried hgec hretry hskew (ih _ ?_ h rfl)
            simp only [RetryPolicy.shouldRetry, Bool.and_eq_true, decide_eq_true_eq] at hretry
            omega
          · rw [dif_neg hretry] at h
            obtain ⟨rfl, rfl⟩ := h
            exact .refused hgec (Bool.eq_false_iff.mpr hretry)
      | ok _ =>
          simp only at h
          obtain ⟨t₁, t₂, r₁, rfl, hrun, h⟩ := runs_bind.mp h
          refine .connected hgec (runOneChunk_runs hrun) ?_
          rcases r₁ with _ | ⟨chunkBoundaryEnd, chunks⟩ | e | x
          · obtain ⟨rfl, rfl⟩ := h
            exact .running
          · obtain ⟨closed, _, rfl, rfl, rfl⟩ := h
            exact .done chunkBoundaryEnd chunks closed
          · obtain ⟨closed, _, rfl, rfl, rfl⟩ := h
            exact .failed e closed
          · obtain ⟨rfl, rfl⟩ := h
            exact .escaped x

/-! ## The chunks -/

variable (session)

/-- The runs of `synthesize`, from a given chunk on. -/
inductive SessionRun (ttsConfig : TtsConfig) :
    List Bytes → Int64 → List TtsChunk → EdgeTokenProvider → SessionTrace →
      Option (Outcome (List TtsChunk)) → Prop
  | done {cumulative allChunks provider} :
      SessionRun ttsConfig [] cumulative allChunks provider [] (some (.ok allChunks))
  | cancelled {text texts cumulative allChunks provider} :
      SessionRun ttsConfig (text :: texts) cumulative allChunks provider
        [⟨.isCancelled, true⟩] (some (.fail cancelledError))
  | running {text texts cumulative allChunks provider t}
      (chunk : session.Attempted ttsConfig text cumulative allChunks provider 0 t none) :
      SessionRun ttsConfig (text :: texts) cumulative allChunks provider
        (⟨.isCancelled, false⟩ :: t) none
  | failed {text texts cumulative allChunks provider t e}
      (chunk : session.Attempted ttsConfig text cumulative allChunks provider 0 t
        (some (.fail e))) :
      SessionRun ttsConfig (text :: texts) cumulative allChunks provider
        (⟨.isCancelled, false⟩ :: t) (some (.fail e))
  | escaped {text texts cumulative allChunks provider t x}
      (chunk : session.Attempted ttsConfig text cumulative allChunks provider 0 t
        (some (.escape x))) :
      SessionRun ttsConfig (text :: texts) cumulative allChunks provider
        (⟨.isCancelled, false⟩ :: t) (some (.escape x))
  | next {text texts cumulative allChunks provider t₁ chunkBoundaryEnd chunks provider' t₂ r}
      (chunk : session.Attempted ttsConfig text cumulative allChunks provider 0 t₁
        (some (.ok (chunkBoundaryEnd, chunks, provider'))))
      (sum : Sum64 cumulative chunkBoundaryEnd)
      (rest : SessionRun ttsConfig texts sum.val chunks provider' t₂ r) :
      SessionRun ttsConfig (text :: texts) cumulative allChunks provider
        (⟨.isCancelled, false⟩ :: (t₁ ++ ⟨.add cumulative chunkBoundaryEnd, sum⟩ :: t₂)) r

variable {session}

theorem runChunks_runs {fuel : Nat} {ttsConfig : TtsConfig} {texts : List Bytes}
    {cumulative : Int64} {allChunks : List TtsChunk} {provider : EdgeTokenProvider}
    {t : SessionTrace} {r : Option (Outcome (List TtsChunk))}
    (h : (session.runChunks fuel ttsConfig texts cumulative allChunks provider).Runs t r) :
    session.SessionRun ttsConfig texts cumulative allChunks provider t r := by
  induction texts generalizing cumulative allChunks provider t with
  | nil =>
      obtain ⟨rfl, rfl⟩ := h
      exact .done
  | cons text texts ih =>
      rw [runChunks, runs_perform_bind] at h
      obtain ⟨stop, t, rfl, h⟩ := h
      cases stop with
      | true =>
          obtain ⟨rfl, rfl⟩ := h
          exact .cancelled
      | false =>
          rw [if_neg Bool.false_ne_true, runs_bind] at h
          obtain ⟨t₁, t₂, r₁, rfl, hchunk, h⟩ := h
          have chunk := runChunk_runs hchunk
          match r₁ with
          | none =>
              obtain ⟨rfl, rfl⟩ := h
              rw [List.append_nil]
              exact .running chunk
          | some (.fail e) =>
              obtain ⟨rfl, rfl⟩ := h
              rw [List.append_nil]
              exact .failed chunk
          | some (.escape x) =>
              obtain ⟨rfl, rfl⟩ := h
              rw [List.append_nil]
              exact .escaped chunk
          | some (.ok (chunkBoundaryEnd, chunks, provider')) =>
              obtain ⟨sum, t, rfl, hrest⟩ := h
              exact .next chunk sum (ih hrest)

/-- **Every run of a session** is one of the described ones. -/
theorem synthesize_runs {fuel : Nat} {ttsConfig : TtsConfig} {texts : List Bytes}
    {provider : EdgeTokenProvider} {t : SessionTrace} {r : Option (Outcome (List TtsChunk))}
    (h : (session.synthesize fuel ttsConfig texts provider).Runs t r) :
    session.SessionRun ttsConfig texts 0 [] provider t r :=
  runChunks_runs h

end SynthesisSession
end EdgeTts
