import EdgeTts.Api.SpokenText

/-!
# The calls that do not return

Of the loops of the stack only the one that receives has no bound of its own.  A call that has not
returned after `fuel` turns of it holds a connection open on which as many messages have come, and
none of them ends the turn (`production_unfinished`).  So a call returns on every service that ends
its turns or its connections.
-/
namespace EdgeTts

open Interaction (Prog runs_handle_none)
open Interaction.Prog (runs_bind runs_perform_bind runs_loop_succ)

/-- The session goes on to receive after the message. -/
def GoesOn (jsonParse : Bytes → JsonParse) (message : WebSocketMessage) : Prop :=
  ∃ msgs, parseIncoming jsonParse message = .ok msgs ∧ msgs ≠ turnEndMessages

/-- A connection is open on which `n` messages have come, and the session goes on after each. -/
def Held (jsonParse : Bytes → JsonParse) (n : Nat) (seen : List WireEvent) : Prop :=
  ∃ before url config ssml, ∃ messages : List WebSocketMessage,
    seen = before ++ ([.opened url, .sent config, .sent ssml] ++ messages.map .got) ∧
    messages.length = n ∧ ∀ message ∈ messages, GoesOn jsonParse message

/-- An event after which no connection is kept busy. -/
inductive Final (jsonParse : Bytes → JsonParse) : WireEvent → Prop
  | refused (url : Bytes) : Final jsonParse (.refused url)
  | closed : Final jsonParse .closed
  | stopped {message : WebSocketMessage} (stops : ¬ GoesOn jsonParse message) :
      Final jsonParse (.got message)

/-- The last thing that the service sees, if anything, is such an event. -/
def Rests (jsonParse : Bytes → JsonParse) (seen : List WireEvent) : Prop :=
  seen = [] ∨ ∃ before last, seen = before ++ [last] ∧ Final jsonParse last

section
variable {jsonParse : Bytes → JsonParse} {n : Nat} {seen seen' : List WireEvent}

theorem Held.prepend (h : Held jsonParse n seen') : Held jsonParse n (seen ++ seen') := by
  obtain ⟨before, url, config, ssml, messages, rfl, hlength, hmessages⟩ := h
  exact ⟨seen ++ before, url, config, ssml, messages, by rw [List.append_assoc], hlength,
    hmessages⟩

theorem Rests.append (h : Rests jsonParse seen) (h' : Rests jsonParse seen') :
    Rests jsonParse (seen ++ seen') := by
  rcases h' with rfl | ⟨before, last, rfl, hfinal⟩
  · rwa [List.append_nil]
  · exact .inr ⟨seen ++ before, last, (List.append_assoc _ _ _).symm, hfinal⟩

theorem Held.getLast? (h : Held jsonParse n seen) : (∃ ssml, seen.getLast? = some (.sent ssml)) ∨
    ∃ message, seen.getLast? = some (.got message) ∧ GoesOn jsonParse message := by
  obtain ⟨before, url, config, ssml, messages, rfl, -, hmessages⟩ := h
  rcases List.eq_nil_or_concat messages with rfl | ⟨messages, message, rfl⟩
  · exact .inl ⟨ssml, by simp⟩
  · exact .inr ⟨message, by simp [List.getLast?_cons], hmessages message (by simp)⟩

/-- What is held does not rest. -/
theorem Held.not_rests (h : Held jsonParse n seen) : ¬ Rests jsonParse seen := by
  have hlast := h.getLast?
  rintro (rfl | ⟨before, last, rfl, hfinal⟩)
  · simp at hlast
  · rw [List.getLast?_concat] at hlast
    cases hfinal with
    | refused url => simp at hlast
    | closed => simp at hlast
    | stopped hstops =>
        rcases hlast with ⟨ssml, heq⟩ | ⟨message', heq, hgoes⟩
        · cases heq
        · cases heq
          exact hstops hgoes

end

namespace SynthesisSession
variable {session : SynthesisSession} {ttsConfig : TtsConfig} {fuel : Nat}

/-! ## A session that is not over -/

/-- A receive loop that is out of turns has received a message in each. -/
theorem receiveLoop_unfinished {comp : Int64} {st : ChunkState} {t : SessionTrace}
    (h : (Prog.loop (session.receiveTurn comp) fuel st).Runs t none) :
    ∃ messages : List WebSocketMessage, wire t = messages.map .got ∧ messages.length = fuel ∧
      ∀ message ∈ messages, GoesOn session.jsonParse message := by
  induction fuel generalizing st t with
  | zero =>
      obtain ⟨rfl, -⟩ := h
      exact ⟨[], rfl, rfl, nofun⟩
  | succ fuel ih =>
      rcases runs_loop_succ.mp h with ⟨t₁, t₂, st', rfl, hturn, hrest⟩ | ⟨r, -, hr⟩
      · rcases receiveTurn_runs hturn with
          ⟨message, msgs, t₁, st', hx, rfl, hparsed, hne, hdelivered⟩ | ⟨r, hx, -⟩
        · cases hx
          obtain ⟨messages, hwire, hlength, hmessages⟩ := ih hrest
          refine ⟨message :: messages, ?_, by rw [List.length_cons, hlength],
            List.forall_mem_cons.mpr ⟨⟨msgs, hparsed, hne⟩, hmessages⟩⟩
          simp [wire_cons, wireEvent, Delivered.wire_eq hdelivered, hwire]
        · cases hx
      · cases hr

theorem runOneChunk_unfinished {text : Bytes} {metadata : ConnectionMetadata} {comp : Int64}
    {chunks : List TtsChunk} {t : SessionTrace}
    (h : (session.runOneChunk fuel ttsConfig text metadata comp chunks).Runs t none) :
    ∃ config ssml, ∃ messages : List WebSocketMessage,
      wire t = [.sent config, .sent ssml] ++ messages.map .got ∧ messages.length = fuel ∧
      ∀ message ∈ messages, GoesOn session.jsonParse message := by
  rw [runOneChunk, runs_perform_bind] at h
  obtain ⟨now, t, rfl, h⟩ := h
  cases hconfig : buildSpeechConfigFrame ttsConfig metadata now with
  | error e =>
      simp only [hconfig] at h
      cases h.2
  | ok config =>
      simp only [hconfig, runs_perform_bind] at h
      obtain ⟨sent, t, rfl, h⟩ := h
      cases sent with
      | error e => cases h.2
      | ok _ =>
          simp only [runs_perform_bind] at h
          obtain ⟨now', t, rfl, h⟩ := h
          cases hssml : buildSsmlFrame ttsConfig text metadata now' with
          | fail e =>
              simp only [hssml] at h
              cases h.2
          | escape x =>
              simp only [hssml] at h
              cases h.2
          | ok ssml =>
              simp only [hssml, runs_perform_bind] at h
              obtain ⟨sent', t, rfl, h⟩ := h
              cases sent' with
              | error e => cases h.2
              | ok _ =>
                  simp only at h
                  obtain ⟨t₁, t₂, st, rfl, hloop, rfl, hst⟩ := runs_bind.mp h
                  obtain rfl := Option.map_eq_none_iff.mp hst
                  obtain ⟨messages, hwire, hmessages⟩ := receiveLoop_unfinished hloop
                  refine ⟨config, ssml, messages, ?_, hmessages⟩
                  simp [wire_cons, wireEvent, hwire]

/-- The attempts that failed are refused requests before what is held. -/
theorem runChunk_unfinished {text : Bytes} {comp : Int64} {chunks : List TtsChunk}
    {provider : EdgeTokenProvider} {attempt : Int} {t : SessionTrace}
    (h : (session.runChunk fuel ttsConfig text comp chunks provider attempt).Runs t none) :
    Held session.jsonParse fuel (wire t) := by
  induction n : (session.retryPolicy.maxRetries - attempt).toNat
    using Nat.strongRecOn generalizing attempt provider t with
  | _ n ih =>
  rw [runChunk, runs_perform_bind] at h
  obtain ⟨metadata, t, rfl, h⟩ := h
  rw [runs_perform_bind] at h
  obtain ⟨now, t, rfl, h⟩ := h
  cases hgec : provider.secMsGec session.sha256HexUpper now with
  | error e => cases hgec
  | ok token =>
      simp only [hgec, runs_perform_bind] at h
      obtain ⟨connected, t, rfl, h⟩ := h
      cases connected with
      | error e =>
          simp only at h
          by_cases hretry : session.retryPolicy.shouldRetry e attempt = true
          · rw [dif_pos hretry, runs_bind] at h
            obtain ⟨t₁, t₂, provider', rfl, hskew, h⟩ := h
            have hheld := ih _ (by
              simp only [RetryPolicy.shouldRetry, Bool.and_eq_true, decide_eq_true_eq] at hretry
              omega) h rfl
            simpa [wire_cons, wireEvent, wire_of_quiet (correctSkew_quiet hskew)] using
              (show Held _ _ ([.refused (session.url provider metadata token)] ++ _) from
                hheld.prepend)
          · rw [dif_neg hretry] at h
            cases h.2
      | ok _ =>
          simp only at h
          obtain ⟨t₁, t₂, r₁, rfl, hrun, h⟩ := runs_bind.mp h
          rcases r₁ with _ | ⟨chunkBoundaryEnd, chunks⟩ | e | x
          · obtain ⟨rfl, -⟩ := h
            obtain ⟨config, ssml, messages, hwire, hmessages⟩ := runOneChunk_unfinished hrun
            refine ⟨[], session.url provider metadata token, config, ssml, messages, ?_,
              hmessages⟩
            simp [wire_cons, wireEvent, hwire]
          · obtain ⟨closed, _, rfl, -, hr⟩ := h
            cases hr
          · obtain ⟨closed, _, rfl, -, hr⟩ := h
            cases hr
          · cases h.2

theorem runChunks_unfinished {texts : List Bytes} {cumulative : Int64} {chunks : List TtsChunk}
    {provider : EdgeTokenProvider} {t : SessionTrace}
    (h : (session.runChunks fuel ttsConfig texts cumulative chunks provider).Runs t none) :
    Held session.jsonParse fuel (wire t) := by
  induction texts generalizing cumulative chunks provider t with
  | nil => cases h.2
  | cons text texts ih =>
      rw [runChunks, runs_perform_bind] at h
      obtain ⟨stop, t, rfl, h⟩ := h
      cases stop with
      | true => cases h.2
      | false =>
          rw [if_neg Bool.false_ne_true, runs_bind] at h
          obtain ⟨t₁, t₂, r₁, rfl, hchunk, h⟩ := h
          rw [wire_cons]
          cases r₁ with
          | none =>
              obtain ⟨rfl, -⟩ := h
              rw [List.append_nil]
              exact runChunk_unfinished hchunk
          | some outcome =>
              cases outcome with
              | fail e => cases h.2
              | escape x => cases h.2
              | ok chunk =>
                  obtain ⟨sum, t, rfl, hrest⟩ := h
                  rw [wire_append, wire_cons]
                  exact (ih hrest).prepend.prepend

/-! ## A session that is over -/

theorem Listened.escaped_wire {comp : Int64} {st : ChunkState} {t : SessionTrace} {x : Escape}
    (run : session.Listened comp st t (some (.escape x))) :
    ∃ before message, wire t = before ++ [.got message] ∧ ¬ GoesOn session.jsonParse message := by
  generalize hr : some (Outcome.escape x) = r at run
  induction run with
  | @escaped _ message _ parsed =>
      refine ⟨[], message, rfl, ?_⟩
      rintro ⟨msgs, hmsgs, -⟩
      rw [parsed] at hmsgs
      cases hmsgs
  | @turn _ message' _ _ _ _ _ _ _ delivered _ ih =>
      obtain ⟨before, message, hwire, hstops⟩ := ih hr
      refine ⟨.got message' :: before, message, ?_, hstops⟩
      simp [wire_cons, wireEvent, Delivered.wire_eq delivered, hwire]
  | _ => cases hr

theorem Attempted.rests {text : Bytes} {comp : Int64} {chunks : List TtsChunk}
    {provider : EdgeTokenProvider} {attempt : Int} {t : SessionTrace}
    {r : Outcome (Int64 × List TtsChunk × EdgeTokenProvider)}
    (run : session.Attempted ttsConfig text comp chunks provider attempt t (some r)) :
    Rests session.jsonParse (wire t) := by
  generalize hr : some r = o at run
  induction run with
  | @refused provider _ metadata _ token =>
      exact .inr ⟨[], .refused (session.url provider metadata token), rfl, .refused _⟩
  | @retried provider _ metadata _ token _ _ _ _ _ _ _ corrected _ ih =>
      have hfirst : Rests session.jsonParse [.refused (session.url provider metadata token)] :=
        .inr ⟨[], _, rfl, .refused _⟩
      simpa [wire_cons, wireEvent, wire_of_quiet (correctSkew_quiet corrected)] using
        hfirst.append (ih hr)
  | @connected provider _ metadata _ token t₁ _ _ _ given run closing =>
      cases closing with
      | running => cases hr
      | failed e closed | done _ _ closed =>
          refine .inr ⟨.opened (session.url provider metadata token) :: wire t₁, .closed, ?_,
            .closed⟩
          simp [wire_cons, wireEvent]
      | escaped x =>
          generalize hr₁ : some (Outcome.escape x) = r₁ at run
          cases run with
          | @listened _ frame _ frame' t r _ _ loop =>
              obtain rfl : r = some (.escape x) := by
                rcases r with _ | st | e | y
                · cases hr₁
                · simp only [Option.map_some, checkAudio] at hr₁
                  split at hr₁ <;> cases hr₁
                · cases hr₁
                · cases hr₁
                  rfl
              obtain ⟨before, message, hwire, hstops⟩ := loop.escaped_wire
              refine .inr ⟨[.opened (session.url provider metadata token), .sent frame,
                .sent frame'] ++ before, .got message, ?_, .stopped hstops⟩
              simp [wire_cons, wireEvent, hwire]
          | _ => cases hr₁

/-- **A session that is over rests.** -/
theorem SessionRun.rests {texts : List Bytes} {cumulative : Int64} {chunks : List TtsChunk}
    {provider : EdgeTokenProvider} {t : SessionTrace} {r : Outcome (List TtsChunk)}
    (run : session.SessionRun ttsConfig texts cumulative chunks provider t (some r)) :
    Rests session.jsonParse (wire t) := by
  generalize hr : some r = o at run
  induction run with
  | done | cancelled => exact .inl rfl
  | running => cases hr
  | failed chunk | escaped chunk => exact chunk.rests
  | next chunk _ _ ih =>
      rw [wire_cons, wire_append, wire_cons]
      exact chunk.rests.append (ih hr)

end SynthesisSession

/-! ## The stack -/

section
variable {synth : ProductionSynthesizer} {fuel : Nat} {t : StackTrace}

/-- Whatever a `SpeechSynthesizer` calls, the wire rests when it has returned. -/
theorem apiHandler_rests {c : ApiCommand} {r : ApiReply c}
    (run : (synth.apiHandler fuel c).Runs t (some r)) :
    Rests synth.session.jsonParse (stackWire t) := by
  cases c with
  | synthesizer config chunks =>
      obtain ⟨sessionTrace, hsession, hc⟩ := synthesizer_runs.mp run
      rw [carriedOut_wire hc]
      exact (SynthesisSession.synthesize_runs hsession).rests
  | _ =>
      rw [runs_some_perform.mp run]
      exact .inl rfl

end

/-- **A call returns**, whatever it is, unless the service keeps a connection busy: it has not
returned within its turns exactly if the wire ends in a connection on which a message has come in
each turn, and none of them ends the turn or stops the session. -/
theorem production_unfinished {α : Type} {jsonParse : Bytes → JsonParse} {fuel : Nat}
    {entry : Prog ApiCommand ApiReply α} {t : StackTrace} {r : Option α}
    (run : (production jsonParse fuel entry).Runs t r) :
    r = none ↔ Held jsonParse fuel (stackWire t) := by
  constructor
  · rintro rfl
    obtain ⟨t₁, u, synth, rfl, hdraw, hentry⟩ := runs_bind.mp run
    obtain ⟨words, rfl, hmake⟩ := runs_draw.mp hdraw
    obtain ⟨headers, -, rfl⟩ := runs_makeProductionSynthesizer.mp hmake
    obtain ⟨_, c, u₁, u₂, rfl, -, hlast⟩ := runs_handle_none hentry
    rw [stackWire_append, stackWire_append]
    refine Held.prepend (Held.prepend ?_)
    cases c with
    | synthesizer config chunks =>
        obtain ⟨sessionTrace, hsession, hc⟩ := synthesizer_runs.mp hlast
        rw [carriedOut_wire hc]
        exact SynthesisSession.runChunks_unfinished hsession
    | _ =>
        obtain ⟨_, -, hr⟩ := runs_map_perform.mp hlast
        cases hr
  · intro held
    cases r with
    | none => rfl
    | some a =>
        obtain ⟨words, synth, u, apiTrace, rfl, hmake, -, hc⟩ := stack_runs.mp run
        obtain ⟨headers, -, rfl⟩ := runs_makeProductionSynthesizer.mp hmake
        rw [stackWire_append, stackWire_drawnWords, List.nil_append] at held
        refine absurd ?_ held.not_rests
        refine hc.closed (Q := fun u => Rests jsonParse (stackWire u)) (.inl rfl) ?_ ?_
        · intro t₁ t₂ h₁ h₂
          rw [stackWire_append]
          exact h₁.append h₂
        · exact fun c r t hrun => apiHandler_rests hrun

/-- Two messages of audio, in a call that receives twice at most. -/
theorem production_unfinished_sample :
    let s : SpeechSynthesizer := { text := lit "Hi", config := .defaults }
    let run := (production sampleSession.jsonParse 2 (s.call .synthesize)).runIn
      sampleMachine [audioMessage, audioMessage]
    Held sampleSession.jsonParse 2 (stackWire run.trace) := by
  intro s run
  have hnone : run.result.isNone = true := by decide +kernel
  exact (production_unfinished (Prog.runs_runIn _ _ _)).mp (Option.isNone_iff_eq_none.mp hnone)

end EdgeTts
