import EdgeTts.Api.SpokenText
import EdgeTts.Subtitle.Captions

/-!
# What a call of `save` leaves behind

From the messages of the service to the files on the disk, over the whole stack.  The media
file holds the audio of the messages, and nothing else is done to any file but that the SRT file
is written after it; its entries are the captions of the recording (`save_spoken`).
-/
namespace EdgeTts

open Files (Action)
open SynthesisSession (Plain)
open Interaction (Prog Event CarriedOut)
open Interaction.Prog (runs_bind)

/-- What an event does to the files. -/
def stackFileAction : Event StackCommand StackReply → Option (Action Bytes Bytes)
  | ⟨.writeBinary path bytes, reply⟩ => some (.write path bytes reply.isOk)
  | ⟨.writeTextUtf8 path text, reply⟩ => some (.write path text reply.isOk)
  | _ => none

/-- What a run of the stack does to the files. -/
def stackFileActions (t : StackTrace) : List (Action Bytes Bytes) := t.filterMap stackFileAction

theorem stackFileActions_drawnWords (words : RandomTrace) :
    stackFileActions (drawnWords words) = [] := by
  refine List.filterMap_eq_nil_iff.mpr fun ev hev => ?_
  obtain ⟨c, reply⟩ := ev
  obtain rfl : c = .rng := mem_drawnWords hev
  rfl

section
variable {synth : ProductionSynthesizer}

/-- A session touches no file. -/
theorem sessionHandler_file {c : Command} {r : Reply c} {t : StackTrace}
    (h : (synth.sessionHandler c).Runs t (some r)) : ∀ ev ∈ t, stackFileAction ev = none := by
  cases c with
  | createForRequest =>
      obtain ⟨words, rfl, -⟩ := runs_draw.mp (runs_some_map.mp h)
      exact List.filterMap_eq_nil_iff.mp (stackFileActions_drawnWords words)
  | _ =>
      rw [runs_some_perform.mp h]
      exact List.forall_mem_singleton.mpr rfl

/-- **The files see the entry point**, call by call. -/
theorem apiHandler_file {fuel : Nat} (c : ApiCommand) (r : ApiReply c) (t : StackTrace)
    (h : (synth.apiHandler fuel c).Runs t (some r)) :
    t.filterMap stackFileAction = (fileAction ⟨c, r⟩).toList := by
  cases c with
  | synthesizer config chunks =>
      obtain ⟨sessionTrace, -, hc⟩ := synthesizer_runs.mp h
      exact List.filterMap_eq_nil_iff.mpr
        (hc.forall_mem fun _ _ _ hrun _ => sessionHandler_file hrun)
  | _ =>
      rw [runs_some_perform.mp h]
      rfl

end

theorem stackFileActions_eq {synth : ProductionSynthesizer} {fuel : Nat} {words : RandomTrace}
    {apiTrace : ApiTrace} {u : StackTrace} (hc : CarriedOut (synth.apiHandler fuel) apiTrace u) :
    stackFileActions (drawnWords words ++ u) = fileActions apiTrace := by
  rw [stackFileActions, List.filterMap_append, ← stackFileActions,
    stackFileActions_drawnWords, List.nil_append]
  exact hc.filterMap_eq apiHandler_file

theorem audioOf_untimed (chunks : List TtsChunk) :
    audioOf (chunks.map TtsChunk.untimed) = audioOf chunks := by
  induction chunks with
  | nil => rfl
  | cons chunk chunks ih => cases chunk <;> simp_all [audioOf, TtsChunk.untimed]

/-- What was heard in a talk. -/
def Talk.heard (jsonParse : Bytes → JsonParse) (talk : Talk) : List TtsChunk :=
  (stackSession jsonParse).contents talk.messages

/-- The captions of a recording that is made of these talks. -/
def captionsOf (jsonParse : Bytes → JsonParse) (talks : List Talk) : List Caption :=
  (stackSession jsonParse).captions (talks.map Talk.messages)

/-- The audio of a session is the audio of its talks, whatever becomes of the times. -/
theorem audioOf_of_untimed {jsonParse : Bytes → JsonParse} {out : List TtsChunk}
    {talks : List Talk} (h : out.map TtsChunk.untimed =
      (talks.flatMap (Talk.heard jsonParse)).map TtsChunk.untimed) :
    audioOf out = talks.flatMap fun talk => audioOf (talk.heard jsonParse) := by
  rw [← audioOf_untimed out, h, audioOf_untimed, audioOf, List.flatMap_assoc]
  rfl

/-- The loop over the boundaries, as a program over additions alone. -/
theorem feedAllSubtitles_runs {submaker : SubtitleBuilder} {bcs : List BoundaryChunk}
    {t : ApiTrace} {fed : Result SubtitleBuilder}
    (h : (feedAllSubtitles submaker bcs).Runs t fed) :
    ∃ t', (submaker.feedAll bcs).Runs t' fed := by
  unfold feedAllSubtitles at h
  generalize submaker.feedAll bcs = p at h
  induction p generalizing t with
  | ret r =>
      obtain ⟨-, rfl⟩ := h
      exact ⟨[], rfl, rfl⟩
  | call c k ih =>
      cases c with
      | add a b =>
          obtain ⟨sum, t, rfl, hrun⟩ := h
          obtain ⟨t', hrun'⟩ := ih sum hrun
          exact ⟨_, sum, t', rfl, hrun'⟩

/-- The subtitles show the captions of the recording, if no time is too great. -/
def Captioned (jsonParse : Bytes → JsonParse) (talks : List Talk) (srt : Bytes) : Prop :=
  ∀ type, (stackSession jsonParse).NoOverflow 0 (talks.map Talk.messages) →
    (∀ talk ∈ talks, Plain type (talk.heard jsonParse)) →
    (captionsOf jsonParse talks).length < 2 ^ 31 →
    ∃ shown, Shows srt (captionsOf jsonParse talks) shown

/-- The subtitles of a session show its captions. -/
theorem toSrt_shows {jsonParse : Bytes → JsonParse} {config : TtsConfig} {texts : List Bytes}
    {provider : EdgeTokenProvider} {sessionTrace : SessionTrace} {chunks : List TtsChunk}
    {talks : List Talk} {t : ApiTrace} {submaker : SubtitleBuilder} {srt : Bytes}
    (run : (stackSession jsonParse).SessionRun config texts 0 [] provider sessionTrace
      (some (.ok chunks)))
    (convs : conversations sessionTrace = talks.map Talk.messages)
    (fed : (feedAllSubtitles {} (boundariesOf chunks)).Runs t (.ok submaker))
    (composed : submaker.toSrt = .ok srt) : Captioned jsonParse talks srt := by
  intro type inRange plain few
  obtain ⟨t', hfeed⟩ := feedAllSubtitles_runs fed
  have hplain : ∀ messages ∈ conversations sessionTrace,
      Plain type ((stackSession jsonParse).contents messages) := by
    rw [convs]
    exact List.forall_mem_map.mpr plain
  rw [← convs] at inRange
  obtain ⟨builder, heq, hcaptions⟩ := SynthesisSession.feedAll_captions run inRange hplain hfeed
  cases heq
  rw [convs, ← captionsOf] at hcaptions
  rw [← hcaptions, List.length_map] at few
  obtain ⟨srt', shown, hsrt, hshows⟩ := SrtComposer.compose_shows few
  rw [hcaptions] at hshows
  obtain rfl := Except.ok.inj (hsrt.symm.trans composed)
  exact ⟨shown, hshows⟩

/-- **A save that succeeds** has run a session, and its files are made of the chunks. -/
theorem save_synthesis {synth : ProductionSynthesizer} {fuel : Nat} {s s' : SpeechSynthesizer}
    {mediaPath : Bytes} {subtitlesPath : Option Bytes} {t : ApiTrace} {u : StackTrace}
    (run : (s.save mediaPath subtitlesPath).Runs t (s', .ok ()))
    (hc : CarriedOut (synth.apiHandler fuel) t u) :
    ∃ texts sessionTrace chunks t' submaker srt,
      Synthesis synth s u texts sessionTrace chunks ∧
      (feedAllSubtitles {} (boundariesOf chunks)).Runs t' (.ok submaker) ∧
      submaker.toSrt = .ok srt ∧
      fileActions t = .write mediaPath (audioOf chunks) true ::
        subtitlesPath.toList.map fun path => .write path srt true := by
  have hcall : (s.call (.save mediaPath subtitlesPath)).Runs t (s', .done (.ok ())) :=
    runs_bind.mpr ⟨t, [], _, (List.append_nil t).symm, run, rfl, rfl⟩
  obtain ⟨t₁, t₂, texts, sessionTrace, chunks, heq, hpipeline, hs⟩ := call_synthesis
    (show (Call.save mediaPath subtitlesPath).Consumes from trivial) hcall trivial hc
  obtain ⟨_, rest, chunks', submaker, srt, hsplit, prepared, hsrt, hactions⟩ :=
    (save_runs run).of_ok
  -- the chunks that are saved are those of the session
  obtain ⟨t₃, t₄, rfl, hpipeline', hfed⟩ := prepared.split
  have hsame : t₁ ++ t₂ = t₃ ++ (t₄ ++ rest) := by
    rw [← heq, hsplit, List.append_assoc]
  obtain ⟨-, hchunks, -⟩ := hpipeline.unique hpipeline' hsame
  cases hchunks
  exact ⟨texts, sessionTrace, chunks, t₄, submaker, srt, hs, hfed, hsrt, hactions⟩

/-- **What `save` leaves behind is what the service has sent.**  A call that succeeds has held
its talks, each up to a turn end and with audio in it; it has written their audio to the media
file, and then the subtitles if they are wanted, and nothing else.  If no time is too great, the
subtitles show the captions of the recording, which do not overlap if the service sends those
of each talk one after another. -/
theorem save_spoken {jsonParse : Bytes → JsonParse} {fuel : Nat} {s s' : SpeechSynthesizer}
    {mediaPath : Bytes} {subtitlesPath : Option Bytes} {t : StackTrace}
    (run : (production jsonParse fuel (s.call (.save mediaPath subtitlesPath))).Runs t
      (some (s', .done (.ok ())))) :
    ∃ (talks : List Talk) (srt : Bytes), stackWire t = talks.flatMap Talk.wire ∧
      Upgrades talks ∧
      (∀ talk ∈ talks, (stackSession jsonParse).WholeTurn talk.messages ∧
        (talk.heard jsonParse).any isAudio = true) ∧
      stackFileActions t = .write mediaPath
        (talks.flatMap fun talk => audioOf (talk.heard jsonParse)) true ::
          subtitlesPath.toList.map (fun path => .write path srt true) ∧
      Captioned jsonParse talks srt ∧
      ∀ type, (∀ talk ∈ talks, Plain type (talk.heard jsonParse)) →
        (stackSession jsonParse).Sequential (talks.map Talk.messages) →
        (captionsOf jsonParse talks).Pairwise fun a b => a.stop ≤ b.start := by
  obtain ⟨words, synth, u, apiTrace, rfl, hmake, hcall, hc⟩ := stack_runs.mp run
  obtain ⟨headers, -, rfl⟩ := runs_makeProductionSynthesizer.mp hmake
  obtain ⟨_, _, ⟨s₁, result⟩, rfl, hsave, rfl, hres⟩ := runs_bind.mp hcall
  cases hres
  rw [List.append_nil] at hc
  obtain ⟨texts, sessionTrace, chunks, _, submaker, srt, hs, hfed, hsrt, hactions⟩ :=
    save_synthesis hsave hc
  obtain ⟨talks, habout, hwire, hconvs, hturns, hout⟩ := hs.run.talks
  refine ⟨talks, srt, ?_, hs.upgrades habout fun talk htalk => (hturns talk htalk).1,
    fun talk htalk => (hturns talk htalk).2, ?_, toSrt_shows hs.run hconvs hfed hsrt, ?_⟩
  · rw [stackWire_append, stackWire_drawnWords, List.nil_append, hs.wire_eq, hwire]
  · rw [stackFileActions_eq hc, hactions, audioOf_of_untimed hout]
  · intro type plain sequential
    exact SynthesisSession.captions_sequential (List.forall_mem_map.mpr plain) sequential

/-- One word, with one byte of audio before it. -/
theorem save_spoken_sample :
    let s : SpeechSynthesizer := { text := lit "Hi", config := .defaults }
    let run := (production sampleSession.jsonParse 3 (s.call
      (.save (lit "a.mp3") (some (lit "a.srt"))))).runIn sampleMachine
      [audioMessage, textMessage "audio.metadata" wordJson]
    ∃ (talks : List Talk) (srt : Bytes), stackWire run.trace = talks.flatMap Talk.wire ∧
      stackFileActions run.trace = [.write (lit "a.mp3")
        (talks.flatMap fun talk => audioOf (talk.heard sampleSession.jsonParse)) true,
        .write (lit "a.srt") srt true] ∧
      decode srt = some [⟨1, 100, 600, lit "Hi"⟩] := by
  intro s run
  have hrun : (production sampleSession.jsonParse 3 (s.call
      (.save (lit "a.mp3") (some (lit "a.srt"))))).Runs run.trace run.result :=
    Prog.runs_runIn _ _ _
  have hdone : run.result.map Prod.snd = some (.done (.ok ())) := by decide +kernel
  obtain ⟨⟨s', returned⟩, hresult, hreturned⟩ := Option.map_eq_some_iff.mp hdone
  obtain rfl : returned = .done (.ok ()) := hreturned
  obtain ⟨talks, srt, hwire, -, -, hfiles, -⟩ := save_spoken (hresult ▸ hrun)
  refine ⟨talks, srt, hwire, hfiles, ?_⟩
  have hsrt : (stackFileActions run.trace).getLast? =
      some (.write (lit "a.srt") (lit "1\n00:00:00,100 --> 00:00:00,600\nHi\n\n") true) := by
    decide +kernel
  rw [hfiles] at hsrt
  cases hsrt
  decide +kernel

end EdgeTts
