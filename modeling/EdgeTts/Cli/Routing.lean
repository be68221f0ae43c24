import EdgeTts.Cli.EdgeTtsCommandDispatcher
import EdgeTts.Cli.PlaybackCommandDispatcher

/-!
# Where the output of edge-tts goes

The audio goes to a file or to the standard output, and the subtitles go to a file, to the
standard error or nowhere, as the arguments say (`synthesizeTo_routes`).  A run with the exit code
0 has sent each of them there in full, or the user has cancelled it (`synthesizeText_routes`).
-/
namespace EdgeTts

open Files (Action)
open Interaction (Prog Event)
open Interaction.Prog (perform runs_bind issues_mapCommands)
open PlaybackCommandDispatcher (cliAction cliActions cliActions_append cliActions_map)

namespace EdgeTtsCommandDispatcher

/-- `dispatch_synthesize`, once the text is loaded. -/
def synthesizeText (d : EdgeTtsCommandDispatcher) (args : EdgeTtsArguments) (text : Bytes) :
    Prog CliCommand CliReply (Except CliEscape Int) := do
  let synthesizer := d.synthesizerFactory text (configOf args) (optionsOf args)
  if ← d.warnTerminal args then return .ok 0
  else synthesizeTo synthesizer args

theorem dispatchSynthesize_load (d : EdgeTtsCommandDispatcher) (args : EdgeTtsArguments) :
    d.dispatchSynthesize args = (do
      match ← InputLoader.load args with
      | .error x => return .error x
      | .ok (.error e) => fail e
      | .ok (.ok text) => d.synthesizeText args text) := rfl

/-- What goes to the standard output. -/
def outBytes : Event CliCommand CliReply → Bytes
  | ⟨.out bytes, _⟩ => bytes
  | _ => []

/-- What goes to the standard error. -/
def errBytes : Event CliCommand CliReply → Bytes
  | ⟨.err bytes, _⟩ => bytes
  | _ => []

/-- The output of a run: to the standard output, to the standard error and to files. -/
structure Output where
  out : Bytes := []
  err : Bytes := []
  files : List (Action Bytes Bytes) := []

instance : Append Output where
  append o o' := ⟨o.out ++ o'.out, o.err ++ o'.err, o.files ++ o'.files⟩

def outputOf (t : CliTrace) : Output where
  out := t.flatMap outBytes
  err := t.flatMap errBytes
  files := cliActions t

@[simp] theorem append_empty (o : Output) : o ++ ({} : Output) = o := by
  show (⟨o.out ++ [], o.err ++ [], o.files ++ []⟩ : Output) = o
  simp only [List.append_nil]

theorem append_assoc (o o' o'' : Output) : o ++ o' ++ o'' = o ++ (o' ++ o'') := by
  show Output.mk _ _ _ = Output.mk _ _ _
  congr 1
  · exact List.append_assoc ..
  · exact List.append_assoc ..
  · exact List.append_assoc ..

theorem outputOf_append (t t' : CliTrace) : outputOf (t ++ t') = outputOf t ++ outputOf t' := by
  show Output.mk _ _ _ = Output.mk _ _ _
  rw [List.flatMap_append, List.flatMap_append, cliActions_append]
  rfl

theorem outputOf_cons (ev : Event CliCommand CliReply) (t : CliTrace) :
    outputOf (ev :: t) = outputOf [ev] ++ outputOf t := outputOf_append [ev] t

theorem outputOf_out (bytes : Bytes) (reply : Unit) :
    outputOf [⟨.out bytes, reply⟩] = { out := bytes } := by
  show Output.mk (bytes ++ []) _ _ = _
  rw [List.append_nil]
  rfl

theorem outputOf_err (bytes : Bytes) (reply : Unit) :
    outputOf [⟨.err bytes, reply⟩] = { err := bytes } := by
  show Output.mk _ (bytes ++ []) _ = _
  rw [List.append_nil]
  rfl

/-- The library writes to files only. -/
theorem outputOf_map (u : ApiTrace) :
    outputOf (u.map libraryEvent) = { files := fileActions u } := by
  show Output.mk _ _ _ = Output.mk _ _ _
  rw [cliActions_map, List.flatMap_map, List.flatMap_map]
  congr 1
  · exact List.flatMap_eq_nil_iff.mpr fun _ _ => rfl
  · exact List.flatMap_eq_nil_iff.mpr fun _ _ => rfl

/-- Events that are no output. -/
theorem outputOf_eq_empty {t : CliTrace}
    (h : ∀ ev ∈ t, outBytes ev = [] ∧ errBytes ev = [] ∧ cliAction ev = none) :
    outputOf t = {} := by
  show Output.mk _ _ _ = Output.mk _ _ _
  congr 1
  · exact List.flatMap_eq_nil_iff.mpr fun ev hev => (h ev hev).1
  · exact List.flatMap_eq_nil_iff.mpr fun ev hev => (h ev hev).2.1
  · exact List.filterMap_eq_nil_iff.mpr fun ev hev => (h ev hev).2.2

theorem outputOf_load {args : EdgeTtsArguments} {t : CliTrace}
    {loaded : Except CliEscape (Result Bytes)} (h : (InputLoader.load args).Runs t loaded) :
    outputOf t = {} ∧ libraryEvents t = [] := by
  have hreads : ∀ ev ∈ t, InputLoader.Reads ev.1 := (InputLoader.loadInput_issues _ _ _).of_runs h
  refine ⟨outputOf_eq_empty fun ev hev => ?_, libraryEvents_eq_nil fun ev hev =>
    (hreads ev hev).isOwn⟩
  obtain ⟨c, reply⟩ := ev
  cases c with
  | readStdin => exact ⟨rfl, rfl, rfl⟩
  | isDirectory path => exact ⟨rfl, rfl, rfl⟩
  | readFile path => exact ⟨rfl, rfl, rfl⟩
  | _ => exact (hreads _ hev).elim

/-! ## The terminal -/

/-- The user has been warned, and has cancelled. -/
def warning : Bytes :=
  lit "Warning: TTS output will be written to the terminal. " ++
    lit "Use --write-media to write to a file.\n" ++
    lit "Press Ctrl+C to cancel the operation. " ++ lit "Press Enter to continue.\n"

/-- The audio would go to a terminal, and there is nothing to read. -/
structure Cancelled (d : EdgeTtsCommandDispatcher) (args : EdgeTtsArguments) (t : CliTrace) :
    Prop where
  toTerminal : args.writeMedia = none ∧ d.ttyCheck = true ∧ ⟨.ttyCheck, true⟩ ∈ t
  nothingRead : ⟨.getline, none⟩ ∈ t
  library : libraryEvents t = []
  output : outputOf t = { err := warning ++ lit "\nOperation canceled.\n" }

theorem warnTerminal_runs {d : EdgeTtsCommandDispatcher} {args : EdgeTtsArguments} {t : CliTrace}
    {cancelled : Bool} (h : (d.warnTerminal args).Runs t cancelled) :
    if cancelled then Cancelled d args t
    else libraryEvents t = [] ∧ (outputOf t = {} ∨ outputOf t = { err := warning }) := by
  unfold warnTerminal at h
  by_cases hcheck : (args.writeMedia.isNone && d.ttyCheck) = true
  · rw [if_pos hcheck] at h
    obtain ⟨tty, t, rfl, h⟩ := h
    cases tty with
    | false =>
        obtain ⟨rfl, rfl⟩ := h
        exact ⟨rfl, .inl rfl⟩
    | true =>
        obtain ⟨_, t, rfl, line, t, rfl, h⟩ := h
        cases line with
        | none =>
            obtain ⟨_, t, rfl, rfl, rfl⟩ := h
            rw [Bool.and_eq_true, Option.isNone_iff_eq_none] at hcheck
            exact ⟨⟨hcheck.1, hcheck.2, by simp⟩, by simp, rfl, rfl⟩
        | some line =>
            obtain ⟨rfl, rfl⟩ := h
            exact ⟨rfl, .inr rfl⟩
  · rw [if_neg hcheck] at h
    obtain ⟨rfl, rfl⟩ := h
    exact ⟨rfl, .inl rfl⟩

/-! ## The routes -/

/-- The file that is meant, if it is one. -/
def fileOf (path : Option Bytes) : List Bytes := (path.filter (· ≠ lit "-")).toList

theorem fileOf_of_ne {path : Bytes} (h : path ≠ lit "-") : fileOf (some path) = [path] := by
  simp [fileOf, Option.filter, h]

theorem fileOf_writeMedia {args : EdgeTtsArguments} (h : mediaToFile args = false) :
    fileOf args.writeMedia = [] := by
  unfold mediaToFile at h
  cases hmedia : args.writeMedia with
  | none => rfl
  | some path =>
      rw [hmedia, Option.any_some, decide_eq_false_iff_not, not_not] at h
      rw [h]
      rfl

/-- Where the arguments want the audio and the subtitles. -/
def routed (args : EdgeTtsArguments) (audio srt : Bytes) : Output where
  out := if mediaToFile args then [] else audio
  err := if args.writeSubtitles = some (lit "-") then srt else []
  files := (fileOf args.writeMedia).map (.write · audio true) ++
    (fileOf args.writeSubtitles).map (.write · srt true)

theorem fileActions_feedSubtitles {submaker : SubtitleBuilder} {bc : BoundaryChunk} {t : ApiTrace}
    {fed : Result SubtitleBuilder} (h : (feedSubtitles submaker bc).Runs t fed) :
    fileActions t = [] := by
  have hissues : (feedSubtitles submaker bc).Issues fun c =>
      ∀ reply, fileAction ⟨c, reply⟩ = none :=
    issues_mapCommands (fun | .add a b => fun reply => rfl) _
  exact List.filterMap_eq_nil_iff.mpr fun ev hev => hissues.of_runs h ev hev ev.2

/-- **The loop** sends the audio on its way, and feeds the boundaries. -/
theorem routeChunks_runs {toFile : Bool} {audio audio' : Bytes}
    {submaker submaker' : SubtitleBuilder} {chunks : List TtsChunk} {t : CliTrace}
    (h : (routeChunks toFile audio submaker chunks).Runs t (.ok (audio', submaker'))) :
    outputOf t = { out := if toFile then [] else audioOf chunks } ∧
      audio' = audio ++ (if toFile then audioOf chunks else []) ∧
      (feedAllSubtitles submaker (boundariesOf chunks)).Runs (libraryEvents t) (.ok submaker') := by
  induction chunks generalizing audio submaker t with
  | nil =>
      obtain ⟨rfl, heq⟩ := h
      cases heq
      cases toFile <;> exact ⟨rfl, (List.append_nil _).symm, rfl, rfl⟩
  | cons chunk chunks ih =>
      cases chunk with
      | audio ac =>
          rw [routeChunks] at h
          have haudio : audioOf (.audio ac :: chunks) = ac.data ++ audioOf chunks := rfl
          rw [haudio]
          cases toFile with
          | true =>
              obtain ⟨hout, rfl, hfed⟩ := ih h
              exact ⟨hout, List.append_assoc .., hfed⟩
          | false =>
              obtain ⟨_, t, rfl, h⟩ := h
              obtain ⟨hout, rfl, hfed⟩ := ih h
              rw [outputOf_cons, outputOf_out, hout]
              exact ⟨rfl, rfl, hfed⟩
      | boundary bc =>
          rw [routeChunks] at h
          obtain ⟨t₁, t₂, fed, rfl, hcall, h⟩ := runs_bind.mp h
          obtain ⟨u, rfl, hfeed⟩ := callLibrary_runs hcall
          cases fed with
          | error e => cases h.2
          | ok submaker =>
              obtain ⟨hout, rfl, hfed⟩ := ih h
              rw [outputOf_append, hout, outputOf_map, fileActions_feedSubtitles hfeed]
              refine ⟨rfl, rfl, ?_⟩
              rw [libraryEvents_append, libraryEvents_map]
              show (feedAllSubtitles _ (bc :: boundariesOf chunks)).Runs _ _
              rw [feedAllSubtitles_cons]
              exact runs_bind.mpr ⟨_, _, _, rfl, hfeed, hfed⟩

theorem writeMediaFile_runs {writeMedia : Option Bytes} {audio : Bytes} {t : CliTrace}
    (h : (writeMediaFile writeMedia audio).Runs t (.ok ())) :
    outputOf t = { files := (fileOf writeMedia).map (.write · audio true) } := by
  unfold writeMediaFile at h
  cases writeMedia with
  | none =>
      obtain ⟨rfl, -⟩ := h
      rfl
  | some path =>
      dsimp only at h
      by_cases hpath : path ≠ lit "-"
      · rw [if_pos hpath] at h
        obtain ⟨_, _, rfl, rfl, rfl⟩ := h
        rw [fileOf_of_ne hpath]
        rfl
      · rw [if_neg hpath] at h
        obtain ⟨rfl, -⟩ := h
        rw [not_not.mp hpath]
        rfl

theorem routeSubtitles_runs {writeSubtitles : Option Bytes} {submaker : SubtitleBuilder}
    {srt : Bytes} {t : CliTrace} (composed : submaker.toSrt = .ok srt)
    (h : (routeSubtitles writeSubtitles submaker).Runs t (.ok 0)) :
    outputOf t = {
      err := if writeSubtitles = some (lit "-") then srt else []
      files := (fileOf writeSubtitles).map (.write · srt true) } := by
  have hfinish : ∀ {t}, finish.Runs t (.ok 0) → outputOf t = {} := by
    rintro t ⟨_, _, rfl, rfl, -⟩
    rfl
  unfold routeSubtitles at h
  cases writeSubtitles with
  | none => exact hfinish h
  | some path =>
      rw [composed] at h
      dsimp only at h
      by_cases hpath : path ≠ lit "-"
      · rw [if_pos hpath] at h
        obtain ⟨written, t, rfl, h⟩ := h
        cases written with
        | error e =>
            obtain ⟨_, _, -, -, heq⟩ := h
            cases heq
        | ok _ =>
            have hdash : some path ≠ some (lit "-") := fun heq => hpath (Option.some.inj heq)
            rw [outputOf_cons, hfinish h, append_empty, fileOf_of_ne hpath, if_neg hdash]
            rfl
      · rw [if_neg hpath] at h
        obtain ⟨_, t, rfl, h⟩ := h
        rw [outputOf_cons, hfinish h, append_empty, outputOf_err, not_not.mp hpath, if_pos rfl]
        rfl

theorem fileActions_synthesize {s s' : SpeechSynthesizer} {t : ApiTrace}
    {chunks : List TtsChunk} (h : s.synthesize.Runs t (s', .ok chunks)) : fileActions t = [] := by
  rcases runOnce_cases h with ⟨-, -, -, heq⟩ | ⟨-, -, t₁, t₂, synthesis, rfl, hpipeline, rfl, -⟩
  · cases heq
  · rw [List.append_nil]
    exact fileActions_runPipeline hpipeline

/-- The subtitles of the chunks. -/
def Subtitled (chunks : List TtsChunk) (srt : Bytes) : Prop :=
  ∃ u submaker, (feedAllSubtitles {} (boundariesOf chunks)).Runs u (.ok submaker) ∧
    submaker.toSrt = .ok srt

/-- A command that does not call the synthesizer. -/
def CallsNothing (c : CliCommand) : Prop := ∀ config chunks, c ≠ .api (.synthesizer config chunks)

theorem notSynthesizer_of_callsNothing {t : CliTrace} (h : ∀ ev ∈ t, CallsNothing ev.1) :
    ∀ ev ∈ libraryEvents t, NotSynthesizer ev.1 := by
  intro ev hev config chunks heq
  obtain ⟨⟨c, reply⟩, hmem, hsome⟩ := List.mem_filterMap.mp hev
  cases c with
  | api command =>
      cases hsome
      exact h _ hmem config chunks (congrArg CliCommand.api heq)
  | _ => cases hsome

theorem writeMediaFile_issues (writeMedia : Option Bytes) (audio : Bytes) :
    (writeMediaFile writeMedia audio).Issues CallsNothing := by
  unfold writeMediaFile
  cases writeMedia with
  | none => trivial
  | some path =>
      dsimp only
      by_cases hpath : path ≠ lit "-"
      · rw [if_pos hpath]
        exact ⟨nofun, fun _ => trivial⟩
      · rw [if_neg hpath]
        trivial

theorem routeSubtitles_issues (writeSubtitles : Option Bytes) (submaker : SubtitleBuilder) :
    (routeSubtitles writeSubtitles submaker).Issues CallsNothing := by
  have hfinish : finish.Issues CallsNothing := ⟨nofun, fun _ => trivial⟩
  have hfail : ∀ e, (fail e).Issues CallsNothing := fun e => ⟨nofun, fun _ => trivial⟩
  unfold routeSubtitles
  cases writeSubtitles with
  | none => exact hfinish
  | some path =>
      dsimp only
      cases submaker.toSrt with
      | error e => exact hfail e
      | ok srt =>
          dsimp only
          by_cases hpath : path ≠ lit "-"
          · rw [if_pos hpath]
            refine ⟨nofun, fun written => ?_⟩
            cases written with
            | error e => exact hfail e
            | ok _ => exact hfinish
          · rw [if_neg hpath]
            exact ⟨nofun, fun _ => hfinish⟩

theorem feedAllSubtitles_issues (submaker : SubtitleBuilder) (boundaries : List BoundaryChunk) :
    (feedAllSubtitles submaker boundaries).Issues NotSynthesizer :=
  issues_mapCommands (fun | .add _ _ => nofun) _

/-- **Steps 6 to 9**, where they come to a good end: the chunks of the synthesizer go where the
arguments want them. -/
theorem synthesizeTo_routes {s : SpeechSynthesizer} {args : EdgeTtsArguments} {t : CliTrace}
    (h : (synthesizeTo s args).Runs t (.ok 0)) :
    ∃ u₁ u₂ s' chunks srt, libraryEvents t = u₁ ++ u₂ ∧
      s.synthesize.Runs u₁ (s', .ok chunks) ∧ (∀ ev ∈ u₂, NotSynthesizer ev.1) ∧
      Subtitled chunks srt ∧ outputOf t = routed args (audioOf chunks) srt := by
  obtain ⟨t₁, t₂, ⟨s', synthesis⟩, rfl, hcall, hrest⟩ := runs_bind.mp h
  obtain ⟨u₁, rfl, hsynthesize⟩ := callLibrary_runs hcall
  cases synthesis with
  | escape x => cases hrest.2
  | fail e =>
      obtain ⟨_, _, -, -, heq⟩ := hrest
      cases heq
  | ok chunks =>
      obtain ⟨t₃, t₄, collected, rfl, hroute, hwrites⟩ := runs_bind.mp hrest
      cases collected with
      | error e =>
          obtain ⟨_, _, -, -, heq⟩ := hwrites
          cases heq
      | ok collected =>
          obtain ⟨audio, submaker⟩ := collected
          obtain ⟨hout, rfl, hfed⟩ := routeChunks_runs hroute
          obtain ⟨t₅, t₆, written, rfl, hmedia, hsubtitles⟩ := runs_bind.mp hwrites
          cases written with
          | error e =>
              obtain ⟨_, _, -, -, heq⟩ := hsubtitles
              cases heq
          | ok _ =>
              obtain ⟨srt, hsrt⟩ : ∃ srt, submaker.toSrt = .ok srt := ⟨_, rfl⟩
              refine ⟨u₁, libraryEvents t₃ ++ libraryEvents (t₅ ++ t₆), s', chunks, srt, ?_,
                hsynthesize, ?_, ⟨_, submaker, hfed, hsrt⟩, ?_⟩
              · rw [libraryEvents_append, libraryEvents_append, libraryEvents_map]
              · have hwrites : ∀ ev ∈ t₅ ++ t₆, CallsNothing ev.1 := List.forall_mem_append.mpr
                  ⟨(writeMediaFile_issues _ _).of_runs hmedia,
                    (routeSubtitles_issues _ _).of_runs hsubtitles⟩
                exact List.forall_mem_append.mpr ⟨(feedAllSubtitles_issues _ _).of_runs hfed,
                  notSynthesizer_of_callsNothing hwrites⟩
              · rw [outputOf_append, outputOf_append, outputOf_append, outputOf_map,
                  fileActions_synthesize hsynthesize, hout, writeMediaFile_runs hmedia,
                  routeSubtitles_runs hsrt hsubtitles, routed]
                cases hfile : mediaToFile args with
                | true => rfl
                | false =>
                    rw [fileOf_writeMedia hfile]
                    show Output.mk (audioOf chunks ++ []) _ _ = _
                    rw [List.append_nil]
                    rfl

/-- **Every output goes where the arguments say, in full.**  A synthesis with the exit code 0 has
called the synthesizer once and got chunks from it: their audio is all that is on the standard
output or in the media file, and their subtitles are all that is in the other file or, but for the
warning, on the standard error.  Otherwise the user has cancelled it at the terminal, and then
nothing has been done. -/
theorem synthesizeText_routes {d : EdgeTtsCommandDispatcher} {args : EdgeTtsArguments}
    {text : Bytes} {t : CliTrace} (h : (d.synthesizeText args text).Runs t (.ok 0)) :
    Cancelled d args t ∨
    ∃ u₁ u₂ s' chunks srt warned, libraryEvents t = u₁ ++ u₂ ∧
      (d.synthesizerFactory text (configOf args) (optionsOf args)).synthesize.Runs u₁
        (s', .ok chunks) ∧ (∀ ev ∈ u₂, NotSynthesizer ev.1) ∧
      Subtitled chunks srt ∧ (warned = [] ∨ warned = warning) ∧
      outputOf t = { err := warned } ++ routed args (audioOf chunks) srt := by
  obtain ⟨t₁, t₂, cancelled, rfl, hwarn, hrest⟩ := runs_bind.mp h
  have hterminal := warnTerminal_runs hwarn
  cases cancelled with
  | true =>
      obtain ⟨rfl, -⟩ := hrest
      rw [List.append_nil]
      exact .inl hterminal
  | false =>
      obtain ⟨hlibrary, hwarned⟩ := hterminal
      obtain ⟨u₁, u₂, s', chunks, srt, hevents, hsynthesize, honce, hsubtitled, hout⟩ :=
        synthesizeTo_routes hrest
      have hwarning : ∃ warned, (warned = [] ∨ warned = warning) ∧
          outputOf t₁ = { err := warned } :=
        hwarned.elim (fun h => ⟨[], .inl rfl, h⟩) (fun h => ⟨warning, .inr rfl, h⟩)
      obtain ⟨warned, hwarned, hout₁⟩ := hwarning
      refine .inr ⟨u₁, u₂, s', chunks, srt, warned, ?_, hsynthesize, honce, hsubtitled, hwarned,
        ?_⟩
      · rw [libraryEvents_append, hlibrary, hevents]
        rfl
      · rw [outputOf_append, hout₁, hout]

end EdgeTtsCommandDispatcher
end EdgeTts
