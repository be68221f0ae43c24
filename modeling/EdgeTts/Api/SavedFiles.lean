import EdgeTts.Lib.Files
import EdgeTts.Api.SingleUse

/-!
# What `save` does to the files

`SaveRun` lists the exits of `save`: nothing is written before the pipeline has returned chunks
and all their boundaries have been fed, and the subtitles come after the media.  What the files
hold afterwards follows from the list of writes (`save_files`), also where the two paths name
the same file.
-/
namespace EdgeTts

open Files (Action Disk After after_nil step_write)
open Interaction (Prog Event Environment)
open Interaction.Prog (runs_bind runs_perform mapCommands_bind
  issues_mapCommands runs_runIn replies_runIn)

/-- The audio of the chunks, in order. -/
def audioOf (chunks : List TtsChunk) : Bytes :=
  chunks.flatMap fun
    | .audio ac => ac.data
    | .boundary _ => []

/-- The boundaries of the chunks, in order. -/
def boundariesOf (chunks : List TtsChunk) : List BoundaryChunk :=
  chunks.filterMap fun
    | .audio _ => none
    | .boundary bc => some bc

/-- `SubtitleBuilder::feed` for all of the boundaries, among the other commands. -/
def feedAllSubtitles (submaker : SubtitleBuilder) (boundaries : List BoundaryChunk) :
    Prog ApiCommand ApiReply (Result SubtitleBuilder) :=
  (submaker.feedAll boundaries).mapCommands (fun | .add a b => ApiCommand.add a b)
    (fun | .add _ _ => id)

/-- What an event does to the files. -/
def fileAction : Event ApiCommand ApiReply → Option (Action Bytes Bytes)
  | ⟨.writeBinary path bytes, reply⟩ => some (.write path bytes reply.isOk)
  | ⟨.writeTextUtf8 path text, reply⟩ => some (.write path text reply.isOk)
  | _ => none

/-- What a trace does to the files. -/
def fileActions (t : ApiTrace) : List (Action Bytes Bytes) := t.filterMap fileAction

@[simp] theorem fileActions_append (t t' : ApiTrace) :
    fileActions (t ++ t') = fileActions t ++ fileActions t' :=
  List.filterMap_append

/-! ## The loop over the chunks -/

theorem feedAllSubtitles_cons (submaker : SubtitleBuilder) (bc : BoundaryChunk)
    (boundaries : List BoundaryChunk) :
    feedAllSubtitles submaker (bc :: boundaries) = (do
      match ← feedSubtitles submaker bc with
      | .error e => return .error e
      | .ok submaker => feedAllSubtitles submaker boundaries) := by
  unfold feedAllSubtitles
  rw [SubtitleBuilder.feedAll, mapCommands_bind]
  apply bind_congr
  intro fed
  cases fed with
  | error e => rfl
  | ok submaker => rfl

/-- **The loop feeds the boundaries and joins the audio**, whatever the order of the chunks. -/
theorem collectChunks_eq (audioBytes : Bytes) (submaker : SubtitleBuilder)
    (chunks : List TtsChunk) :
    collectChunks audioBytes submaker chunks = (do
      let fed ← feedAllSubtitles submaker (boundariesOf chunks)
      return fed.map fun submaker => (audioBytes ++ audioOf chunks, submaker)) := by
  induction chunks generalizing audioBytes submaker with
  | nil =>
      show _ = (return .ok (audioBytes ++ [], submaker) :
        Prog ApiCommand ApiReply (Result (Bytes × SubtitleBuilder)))
      rw [List.append_nil]
      rfl
  | cons chunk chunks ih =>
      cases chunk with
      | audio ac =>
          rw [collectChunks, ih, List.append_assoc]
          rfl
      | boundary bc =>
          show _ = feedAllSubtitles submaker (bc :: boundariesOf chunks) >>= _
          rw [collectChunks, feedAllSubtitles_cons, bind_assoc]
          apply bind_congr
          intro fed
          cases fed with
          | error e => rfl
          | ok submaker => exact ih audioBytes submaker

/-! ## The exits -/

/-- `save` has got as far as its writes. -/
structure Prepared (s : SpeechSynthesizer) (t : ApiTrace) (chunks : List TtsChunk)
    (submaker : SubtitleBuilder) : Prop where
  fresh : s.called = false
  split : ∃ t₁ t₂, t = t₁ ++ t₂ ∧ s.runPipeline.Runs t₁ (.ok chunks) ∧
    (feedAllSubtitles {} (boundariesOf chunks)).Runs t₂ (.ok submaker)

/-- The runs of `save`, one constructor for each exit. -/
inductive SaveRun (s : SpeechSynthesizer) (mediaPath : Bytes) (subtitlesPath : Option Bytes) :
    ApiTrace → Outcome Unit → Prop
  | repeated (called : s.called = true) :
      SaveRun s mediaPath subtitlesPath [] (.fail calledTwiceError)
  | noChunks {t : ApiTrace} {synthesis : Outcome (List TtsChunk)} {result : Outcome Unit}
      (pipeline : s.runPipeline.Runs t synthesis) (failed : ∀ chunks, synthesis ≠ .ok chunks)
      (passedOn : result = synthesis >>= fun _ => .ok ()) :
      SaveRun s mediaPath subtitlesPath t result
  | rejected {t₁ t₂ : ApiTrace} {chunks : List TtsChunk} {e : Error}
      (pipeline : s.runPipeline.Runs t₁ (.ok chunks))
      (fed : (feedAllSubtitles {} (boundariesOf chunks)).Runs t₂ (.error e)) :
      SaveRun s mediaPath subtitlesPath (t₁ ++ t₂) (.fail e)
  | mediaFailed {t : ApiTrace} {chunks : List TtsChunk} {submaker : SubtitleBuilder} {e : Error}
      (prepared : Prepared s t chunks submaker) :
      SaveRun s mediaPath subtitlesPath
        (t ++ [⟨.writeBinary mediaPath (audioOf chunks), .error e⟩]) (.fail e)
  | media {t : ApiTrace} {chunks : List TtsChunk} {submaker : SubtitleBuilder}
      (prepared : Prepared s t chunks submaker) (only : subtitlesPath = none) :
      SaveRun s mediaPath subtitlesPath
        (t ++ [⟨.writeBinary mediaPath (audioOf chunks), .ok ()⟩]) (.ok ())
  | subtitles {t : ApiTrace} {chunks : List TtsChunk} {submaker : SubtitleBuilder}
      {path srt : Bytes} (reply : Result Unit) (prepared : Prepared s t chunks submaker)
      (wanted : subtitlesPath = some path) (composed : submaker.toSrt = .ok srt) :
      SaveRun s mediaPath subtitlesPath
        (t ++ [⟨.writeBinary mediaPath (audioOf chunks), .ok ()⟩, ⟨.writeTextUtf8 path srt, reply⟩])
        (.ofResult reply)

theorem save_runs {s s' : SpeechSynthesizer} {mediaPath : Bytes} {subtitlesPath : Option Bytes}
    {t : ApiTrace} {result : Outcome Unit}
    (h : (s.save mediaPath subtitlesPath).Runs t (s', result)) :
    SaveRun s mediaPath subtitlesPath t result := by
  rcases runOnce_cases h with ⟨hcalled, -, rfl, rfl⟩ |
    ⟨hfresh, -, t₁, t₂, synthesis, rfl, hpipeline, hfinish⟩
  · exact .repeated hcalled
  cases synthesis with
  | fail e =>
      obtain ⟨rfl, rfl⟩ := hfinish
      rw [List.append_nil]
      exact .noChunks hpipeline nofun rfl
  | escape x =>
      obtain ⟨rfl, rfl⟩ := hfinish
      rw [List.append_nil]
      exact .noChunks hpipeline nofun rfl
  | ok chunks =>
      rw [saveFiles, collectChunks_eq, bind_assoc] at hfinish
      obtain ⟨t₂, t₃, fed, rfl, hfed, hfinish⟩ := runs_bind.mp hfinish
      cases fed with
      | error e =>
          obtain ⟨rfl, rfl⟩ := hfinish
          rw [List.append_nil]
          exact .rejected hpipeline hfed
      | ok submaker =>
          have prepared : Prepared s (t₁ ++ t₂) chunks submaker :=
            ⟨hfresh, t₁, t₂, rfl, hpipeline, hfed⟩
          have hfinish : (do
            let written ← writeFiles mediaPath subtitlesPath (audioOf chunks) submaker
            return Outcome.ofResult written : Prog ApiCommand ApiReply (Outcome Unit)).Runs
              t₃ result := hfinish
          obtain ⟨t₃, _, written, rfl, hwrite, rfl, rfl⟩ := runs_bind.mp hfinish
          obtain ⟨reply, t₃, rfl, hwrite⟩ := hwrite
          rw [List.append_nil, ← List.append_assoc]
          cases reply with
          | error e =>
              obtain ⟨rfl, rfl⟩ := hwrite
              exact .mediaFailed prepared
          | ok _ =>
              cases subtitlesPath with
              | none =>
                  obtain ⟨rfl, rfl⟩ := hwrite
                  exact .media prepared rfl
              | some path =>
                  obtain ⟨srt, hsrt⟩ : ∃ srt, submaker.toSrt = .ok srt := ⟨_, rfl⟩
                  simp only [hsrt] at hwrite
                  obtain rfl := runs_perform.mp hwrite
                  exact .subtitles written prepared rfl hsrt

/-! ## Before the writes -/

/-- The call is a repeated one, its pipeline fails, or a boundary is rejected. -/
inductive GivesUp (s : SpeechSynthesizer) : ApiTrace → Prop
  | repeated {t : ApiTrace} (called : s.called = true) : GivesUp s t
  | noChunks {t₁ t₂ : ApiTrace} {synthesis : Outcome (List TtsChunk)}
      (pipeline : s.runPipeline.Runs t₁ synthesis) (failed : ∀ chunks, synthesis ≠ .ok chunks) :
      GivesUp s (t₁ ++ t₂)
  | rejected {t₁ t₂ t₃ : ApiTrace} {chunks : List TtsChunk} {e : Error}
      (pipeline : s.runPipeline.Runs t₁ (.ok chunks))
      (fed : (feedAllSubtitles {} (boundariesOf chunks)).Runs t₂ (.error e)) :
      GivesUp s (t₁ ++ t₂ ++ t₃)

theorem fileActions_runPipeline {s : SpeechSynthesizer} {t : ApiTrace}
    {synthesis : Outcome (List TtsChunk)} (h : s.runPipeline.Runs t synthesis) :
    fileActions t = [] := by
  cases runPipeline_runs h with
  | cancelled => rfl
  | refused notReady => rfl
  | noText chunked => rfl
  | called ready reply => rfl

theorem fileActions_feedAllSubtitles {submaker : SubtitleBuilder} {boundaries : List BoundaryChunk}
    {t : ApiTrace} {fed : Result SubtitleBuilder}
    (h : (feedAllSubtitles submaker boundaries).Runs t fed) : fileActions t = [] := by
  have hissues : (feedAllSubtitles submaker boundaries).Issues fun c =>
      ∀ reply, fileAction ⟨c, reply⟩ = none :=
    issues_mapCommands (fun | .add a b => fun reply => rfl) _
  exact List.filterMap_eq_nil_iff.mpr fun ev hev => hissues.of_runs h ev hev ev.2

section
variable {s : SpeechSynthesizer} {t : ApiTrace} {chunks : List TtsChunk}
  {submaker : SubtitleBuilder}

theorem Prepared.fileActions_eq_nil (h : Prepared s t chunks submaker) : fileActions t = [] := by
  obtain ⟨t₁, t₂, rfl, hpipeline, hfed⟩ := h.split
  rw [fileActions_append, fileActions_runPipeline hpipeline, fileActions_feedAllSubtitles hfed]
  rfl

/-- A call that has got as far as its writes has not given up. -/
theorem Prepared.not_givesUp (h : Prepared s t chunks submaker) (u : ApiTrace) :
    ¬ GivesUp s (t ++ u) := by
  obtain ⟨t₁, t₂, rfl, hpipeline, hfed⟩ := h.split
  intro hup
  generalize heq : t₁ ++ t₂ ++ u = w at hup
  rw [List.append_assoc] at heq
  cases hup with
  | repeated called =>
      rw [h.fresh] at called
      cases called
  | noChunks pipeline failed =>
      obtain ⟨-, rfl, -⟩ := hpipeline.unique pipeline heq
      exact failed chunks rfl
  | rejected pipeline fed =>
      rw [List.append_assoc] at heq
      obtain ⟨-, hchunks, hrest⟩ := hpipeline.unique pipeline heq
      cases hchunks
      obtain ⟨-, hfail, -⟩ := hfed.unique fed hrest
      cases hfail

end

/-! ## The files -/

section
variable {s s' : SpeechSynthesizer} {mediaPath : Bytes} {subtitlesPath : Option Bytes}
  {t : ApiTrace} {result : Outcome Unit}

/-- **A call that gives up writes nothing.** -/
theorem SaveRun.fileActions_eq_nil (run : SaveRun s mediaPath subtitlesPath t result)
    (h : GivesUp s t) : fileActions t = [] := by
  cases run with
  | repeated called => rfl
  | noChunks pipeline failed passedOn => exact fileActions_runPipeline pipeline
  | rejected pipeline fed =>
      rw [fileActions_append, fileActions_runPipeline pipeline, fileActions_feedAllSubtitles fed]
      rfl
  | mediaFailed prepared => exact absurd h (prepared.not_givesUp _)
  | media prepared only => exact absurd h (prepared.not_givesUp _)
  | subtitles reply prepared wanted composed => exact absurd h (prepared.not_givesUp _)

/-- A call that does not succeed in writing the media writes nothing else. -/
theorem SaveRun.only_media (run : SaveRun s mediaPath subtitlesPath t result)
    {path bytes : Bytes} {e : Error} (h : ⟨.writeBinary path bytes, .error e⟩ ∈ t) :
    ∀ a ∈ fileActions t, a.path = mediaPath := by
  have hfailed : Action.write path bytes false ∈ fileActions t := by
    exact List.mem_filterMap.mpr ⟨_, h, rfl⟩
  cases run with
  | repeated called => cases hfailed
  | noChunks pipeline failed passedOn =>
      rw [fileActions_runPipeline pipeline] at hfailed
      cases hfailed
  | rejected pipeline fed =>
      rw [fileActions_append, fileActions_runPipeline pipeline,
        fileActions_feedAllSubtitles fed] at hfailed
      cases hfailed
  | mediaFailed prepared =>
      rw [fileActions_append, prepared.fileActions_eq_nil]
      exact List.forall_mem_singleton.mpr rfl
  | media prepared only =>
      rw [fileActions_append, prepared.fileActions_eq_nil] at hfailed
      cases List.mem_singleton.mp hfailed
  | subtitles reply prepared wanted composed =>
      rcases List.mem_append.mp h with h | h
      · cases List.filterMap_eq_nil_iff.mp prepared.fileActions_eq_nil _ h
      · rcases List.mem_cons.mp h with h | h
        · cases h
        · cases List.mem_singleton.mp h

/-- **A call that succeeds** has written the audio, and then the subtitles if they are wanted. -/
theorem SaveRun.of_ok (run : SaveRun s mediaPath subtitlesPath t (.ok ())) :
    ∃ before rest chunks submaker srt, t = before ++ rest ∧ Prepared s before chunks submaker ∧
      submaker.toSrt = .ok srt ∧
      fileActions t = .write mediaPath (audioOf chunks) true ::
        subtitlesPath.toList.map fun path => .write path srt true := by
  generalize hresult : Outcome.ok () = r at run
  cases run with
  | repeated called => cases hresult
  | @noChunks t synthesis r pipeline failed passedOn =>
      rw [← hresult] at passedOn
      obtain ⟨chunks, hchunks, -⟩ := Outcome.bind_eq_ok.mp passedOn.symm
      exact absurd hchunks (failed chunks)
  | rejected pipeline fed => cases hresult
  | mediaFailed prepared => cases hresult
  | @media t chunks submaker prepared only =>
      refine ⟨t, _, chunks, submaker, _, rfl, prepared, rfl, ?_⟩
      rw [fileActions_append, prepared.fileActions_eq_nil, only]
      rfl
  | @subtitles t chunks submaker path srt reply prepared wanted composed =>
      cases reply with
      | error e => cases hresult
      | ok u =>
          refine ⟨t, _, chunks, submaker, srt, rfl, prepared, composed, ?_⟩
          rw [fileActions_append, prepared.fileActions_eq_nil, wanted]
          rfl

/-- **`save` leaves the files alone until it can succeed.**  A call that gives up writes
nothing, one that fails to write the media goes on to nothing else, and after one that succeeds
the files hold the subtitles, and the audio unless the subtitles were written over it. -/
theorem save_files {F : Type} (file : Bytes → F) {disk disk' : Disk F Bytes}
    (run : (s.save mediaPath subtitlesPath).Runs t (s', result))
    (after : After file (fileActions t) disk disk') :
    (GivesUp s t → fileActions t = [] ∧ disk' = disk) ∧
    (∀ path bytes e, ⟨.writeBinary path bytes, .error e⟩ ∈ t →
      (∀ a ∈ fileActions t, a.path = mediaPath) ∧
      ∀ path, subtitlesPath = some path → file path ≠ file mediaPath →
        disk' (file path) = disk (file path)) ∧
    (result = .ok () → ∃ before rest chunks submaker srt, t = before ++ rest ∧
      Prepared s before chunks submaker ∧ submaker.toSrt = .ok srt ∧
      ((∀ path, subtitlesPath = some path → file path ≠ file mediaPath) →
        disk' (file mediaPath) = some (audioOf chunks)) ∧
      ∀ path, subtitlesPath = some path → disk' (file path) = some srt) := by
  have hrun := save_runs run
  refine ⟨fun hup => ?_, fun path bytes e hmem => ?_, ?_⟩
  · have hnone := hrun.fileActions_eq_nil hup
    rw [hnone] at after
    exact ⟨hnone, after_nil.mp after⟩
  · have honly := hrun.only_media hmem
    refine ⟨honly, fun path _ hfile => after.frame fun a ha => ?_⟩
    rw [honly a ha]
    exact hfile.symm
  · rintro rfl
    obtain ⟨before, rest, chunks, submaker, srt, hsplit, prepared, hsrt, hactions⟩ := hrun.of_ok
    rw [hactions] at after
    refine ⟨before, rest, chunks, submaker, srt, hsplit, prepared, hsrt, fun hfile => ?_, ?_⟩
    · refine After.written [] after fun a ha => ?_
      obtain ⟨path, hpath, rfl⟩ := List.mem_map.mp ha
      exact hfile path (Option.mem_toList.mp hpath)
    · rintro path rfl
      exact After.written [_] after nofun

end

/-! ## A call that fails -/

/-- An environment in which nobody cancels, and neither the service nor the disk works. -/
def nothingWorks : Environment ApiCommand ApiReply Unit
  | .isCancelled, s => (false, s)
  | .cancel, s => ((), s)
  | .synthesizer _ _, s => (.fail ⟨.networkError, lit "connection failed", []⟩, s)
  | .onAudio _, s => ((), s)
  | .onBoundary _, s => ((), s)
  | .onComplete, s => ((), s)
  | .onError _, s => ((), s)
  | .add a b, s => (Sum64.wrapping a b, s)
  | .writeBinary path _, s =>
      (.error ⟨.ioError, lit "Failed to open file for binary write", path⟩, s)
  | .writeTextUtf8 path _, s =>
      (.error ⟨.ioError, lit "Failed to open file for text write", path⟩, s)

/-- There the pipeline fails, or has no text to work on. -/
theorem runPipeline_nothingWorks (s : SpeechSynthesizer) :
    ∃ t synthesis, s.runPipeline.Runs t synthesis ∧ ⟨.isCancelled, true⟩ ∉ t ∧
      ((∃ e, synthesis = .fail e) ∨ synthesis = .ok []) := by
  have hrun := runs_runIn nothingWorks s.runPipeline ()
  have hreplies := replies_runIn nothingWorks s.runPipeline ()
  refine ⟨_, _, hrun, fun hmem => ?_, ?_⟩
  · obtain ⟨_, hreply⟩ := hreplies _ hmem
    cases hreply
  · generalize (s.runPipeline.runIn nothingWorks ()).trace = t at hrun hreplies
    generalize (s.runPipeline.runIn nothingWorks ()).result = synthesis at hrun
    cases runPipeline_runs hrun with
    | cancelled => exact .inl ⟨_, rfl⟩
    | refused notReady => exact .inl ⟨_, rfl⟩
    | noText chunked => exact .inr rfl
    | @called chunks ready reply =>
        obtain ⟨_, hreply⟩ := hreplies ⟨.synthesizer s.config chunks, synthesis⟩ (by simp)
        exact .inl ⟨_, hreply⟩

/-- **Every first call of `save` can fail** without a cancellation, and leave the files alone. -/
theorem save_fails {s : SpeechSynthesizer} (fresh : s.called = false) (mediaPath : Bytes)
    (subtitlesPath : Option Bytes) :
    ∃ t e, (s.save mediaPath subtitlesPath).Runs t ({ s with called := true }, .fail e) ∧
      ⟨.isCancelled, true⟩ ∉ t ∧
      ∀ {F : Type} (file : Bytes → F) (disk : Disk F Bytes),
        After file (fileActions t) disk disk := by
  obtain ⟨t, synthesis, hpipeline, hcancelled, hend⟩ := runPipeline_nothingWorks s
  have hsave : ∀ t' e, (saveFiles mediaPath subtitlesPath synthesis).Runs t' (.fail e) →
      (s.save mediaPath subtitlesPath).Runs (t ++ (t' ++ []))
        ({ s with called := true }, .fail e) := by
    intro t' e hfiles
    rw [SpeechSynthesizer.save, SpeechSynthesizer.runOnce, if_neg (by rw [fresh]; decide)]
    exact runs_bind.mpr ⟨t, _, synthesis, rfl, hpipeline,
      runs_bind.mpr ⟨t', [], .fail e, rfl, hfiles, rfl, rfl⟩⟩
  have hquiet := fileActions_runPipeline hpipeline
  rcases hend with ⟨e, rfl⟩ | rfl
  · refine ⟨_, e, hsave [] e ⟨rfl, rfl⟩, ?_, fun file disk => ?_⟩
    · simpa using hcancelled
    · rw [fileActions_append, hquiet]
      exact .nil disk
  · -- the media cannot be written
    have hwrite := hsave
      [⟨.writeBinary mediaPath [], (nothingWorks (.writeBinary mediaPath []) ()).1⟩] _
      ⟨_, [], rfl, rfl, rfl⟩
    refine ⟨_, _, hwrite, ?_, fun file disk => ?_⟩
    · simpa using hcancelled
    · rw [fileActions_append, hquiet]
      exact .cons ⟨id, fun _ _ => rfl⟩ (.nil disk)

/-! ## A greeting -/

def greeting : SpeechSynthesizer := { text := lit "Hi", config := {} }

def greetingChunks : List TtsChunk :=
  [.audio ⟨lit "mp3"⟩, .boundary { text := lit "Hi", durationTicks := 10000000 }]

def greetingSrt : Bytes := lit "1\n00:00:00,000 --> 00:00:01,000\nHi\n\n"

/-- The greeting is saved, with its subtitles. -/
def greetingTrace (subtitlesPath : Bytes) : ApiTrace :=
  [⟨.isCancelled, false⟩, ⟨.synthesizer {} [lit "Hi"], .ok greetingChunks⟩,
    ⟨.add 0 10000000, ⟨10000000, by decide⟩⟩,
    ⟨.writeBinary (lit "hi.mp3") (lit "mp3"), .ok ()⟩,
    ⟨.writeTextUtf8 subtitlesPath greetingSrt, .ok ()⟩]

/-- What the greeting leaves on a disk whose files are named by their paths. -/
theorem greeting_after (subtitlesPath : Bytes) (disk : Disk Bytes Bytes) :
    After id (fileActions (greetingTrace subtitlesPath)) disk
      (Function.update (Function.update disk (lit "hi.mp3") (some (lit "mp3"))) subtitlesPath
        (some greetingSrt)) :=
  .cons (step_write _ _ _) (.cons (step_write _ _ _) (.nil _))

theorem greeting_runs (subtitlesPath : Bytes) :
    (greeting.save (lit "hi.mp3") (some subtitlesPath)).Runs (greetingTrace subtitlesPath)
      ({ greeting with called := true }, .ok ()) := by
  have ready : greeting.Ready [lit "Hi"] := ⟨rfl, by decide, by decide +kernel, by decide⟩
  have hpipeline := runPipeline_of_ready ready (.ok greetingChunks)
  have hfiles : (saveFiles (lit "hi.mp3") (some subtitlesPath) (.ok greetingChunks)).Runs
      ((greetingTrace subtitlesPath).drop 2) (.ok ()) := by
    have hsrt : SrtComposer.compose [⟨⟨0, by decide⟩, ⟨1000, by decide⟩, lit "Hi"⟩] =
        .ok greetingSrt := by decide +kernel
    refine ⟨⟨10000000, by decide⟩, _, rfl, .ok (), _, rfl, .ok (), _, ?_, rfl, rfl⟩
    exact congrArg (fun srt => ([⟨.writeTextUtf8 subtitlesPath srt, .ok ()⟩] : ApiTrace))
      (Except.ok.inj hsrt).symm
  exact runs_bind.mpr ⟨_, (greetingTrace subtitlesPath).drop 2, .ok greetingChunks, rfl, hpipeline,
    runs_bind.mpr ⟨_, [], _, (List.append_nil _).symm, hfiles, rfl, rfl⟩⟩

theorem save_files_greeting :
    ∃ disk' : Disk Bytes Bytes,
      (greeting.save (lit "hi.mp3") (some (lit "hi.srt"))).Runs (greetingTrace (lit "hi.srt"))
        ({ greeting with called := true }, .ok ()) ∧
      After id (fileActions (greetingTrace (lit "hi.srt"))) (fun _ => none) disk' ∧
      ∃ before rest chunks submaker srt, greetingTrace (lit "hi.srt") = before ++ rest ∧
        Prepared greeting before chunks submaker ∧ submaker.toSrt = .ok srt ∧
        disk' (lit "hi.mp3") = some (audioOf chunks) ∧ disk' (lit "hi.srt") = some srt := by
  have run := greeting_runs (lit "hi.srt")
  have after := greeting_after (lit "hi.srt") fun _ => none
  refine ⟨_, run, after, ?_⟩
  obtain ⟨before, rest, chunks, submaker, srt, hsplit, prepared, hsrt, hmedia, hsubtitles⟩ :=
    (save_files id run after).2.2 rfl
  refine ⟨before, rest, chunks, submaker, srt, hsplit, prepared, hsrt, hmedia ?_, hsubtitles _ rfl⟩
  rintro path ⟨⟩
  decide +kernel

/-- Where the subtitles go to the file of the media, the audio is lost. -/
theorem not_save_files :
    (greeting.save (lit "hi.mp3") (some (lit "hi.mp3"))).Runs (greetingTrace (lit "hi.mp3"))
      ({ greeting with called := true }, .ok ()) ∧
    ∃ disk' : Disk Bytes Bytes,
      After id (fileActions (greetingTrace (lit "hi.mp3"))) (fun _ => none) disk' ∧
      disk' (lit "hi.mp3") = some greetingSrt ∧ greetingSrt ≠ audioOf greetingChunks := by
  have after := greeting_after (lit "hi.mp3") fun _ => none
  refine ⟨greeting_runs (lit "hi.mp3"), _, after, ?_, by decide +kernel⟩
  rw [Function.update_self]

end EdgeTts
