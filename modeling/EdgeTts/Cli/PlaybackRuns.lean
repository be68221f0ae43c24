import EdgeTts.Cli.PlaybackCommandDispatcher

/-!
# What a run of `PlaybackCommandDispatcher` comes to

Either nothing is played, or all of it happens in its order: the text is loaded, the paths are
provided, `save` succeeds, the file is played, and what is not to be kept is removed
(`dispatch_plays`).
-/
namespace EdgeTts
namespace PlaybackCommandDispatcher

open Interaction (Prog Event)
open Interaction.Prog (perform runs_bind)

/-- A command that leaves the library, the player and the files of the playback alone. -/
def Aside : CliCommand → Prop
  | .api _ | .playMp3 _ | .remove _ => False
  | _ => True

/-- Nothing is played. -/
def Silent (t : CliTrace) : Prop := ∀ ev ∈ t, ∀ path, ev.1 ≠ .playMp3 path

theorem silent_of_aside {t : CliTrace} (h : ∀ ev ∈ t, Aside ev.1) : Silent t := by
  rintro ⟨c, reply⟩ hev path rfl
  exact h _ hev

theorem quiet_of_aside {t : CliTrace} (h : ∀ ev ∈ t, Aside ev.1) : Quiet t := by
  refine ⟨libraryEvents_eq_nil fun ev hev command heq => ?_,
    List.filterMap_eq_nil_iff.mpr fun ev hev => ?_⟩
  · have haside := h ev hev
    rw [heq] at haside
    exact haside
  · obtain ⟨c, reply⟩ := ev
    have haside := h _ hev
    cases c with
    | api command => exact haside.elim
    | remove path => exact haside.elim
    | _ => rfl

theorem silent_nil : Silent [] := fun _ h => absurd h List.not_mem_nil

theorem Silent.append {t t' : CliTrace} (h : Silent t) (h' : Silent t') : Silent (t ++ t') :=
  List.forall_mem_append.mpr ⟨h, h'⟩

theorem fail_aside (e : Error) : (fail e).Issues Aside := ⟨trivial, fun _ => trivial⟩

theorem loadPlayback_aside (args : PlaybackArguments) :
    (InputLoader.loadPlayback args).Issues Aside := by
  refine (InputLoader.loadInput_issues _ _ _).mono fun c hc => ?_
  cases c with
  | api command => exact hc.elim
  | playMp3 path => exact hc.elim
  | remove path => exact hc.elim
  | _ => trivial

theorem silent_map (u : ApiTrace) : Silent (u.map libraryEvent) := by
  intro ev hev path heq
  obtain ⟨ev', -, rfl⟩ := List.mem_map.mp hev
  cases heq

/-- What the guard removes. -/
theorem cleanUp_actions {keep : Bool} {mp3 : Bytes} {srt : Option Bytes} {t : CliTrace} {u : Unit}
    (h : (cleanUp keep mp3 srt).Runs t u) :
    libraryEvents t = [] ∧ Silent t ∧ ∃ mp3Removed srtRemoved, cliActions t =
      if keep then [] else .remove mp3 mp3Removed :: srt.toList.map fun path =>
        .remove path srtRemoved := by
  unfold cleanUp at h
  cases keep with
  | true =>
      obtain ⟨rfl, -⟩ := h
      exact ⟨rfl, silent_nil, false, false, rfl⟩
  | false =>
      obtain ⟨mp3Removed, t, rfl, h⟩ := h
      cases srt with
      | none =>
          obtain ⟨rfl, -⟩ := h
          exact ⟨rfl, by simp [Silent], mp3Removed, false, rfl⟩
      | some srt =>
          obtain ⟨srtRemoved, t, rfl, rfl, -⟩ := h
          exact ⟨rfl, by simp [Silent], mp3Removed, srtRemoved, rfl⟩

/-- The exit code, when the file has been played. -/
def playedCode : Result Unit → Int
  | .ok _ => 0
  | .error _ => 1

/-- Saving and playing: nothing is played, or the file has been saved before. -/
theorem saveAndPlay_plays {synthesizer : SpeechSynthesizer} {tmpMp3 : Bytes} {srt : Option Bytes}
    {t : CliTrace} {result : Except CliEscape Int}
    (h : (saveAndPlay synthesizer tmpMp3 srt).Runs t result) :
    Silent t ∧ result ≠ .ok 0 ∨
    ∃ u s' played told, t = u.map libraryEvent ++ ⟨.playMp3 tmpMp3, played⟩ :: told ∧
      (synthesizer.save tmpMp3 srt).Runs u (s', .ok ()) ∧ (∀ ev ∈ told, Aside ev.1) ∧
      result = .ok (playedCode played) := by
  obtain ⟨t₁, t₂, ⟨s', saved⟩, rfl, hcall, hrest⟩ := runs_bind.mp h
  obtain ⟨u, rfl, hsave⟩ := callLibrary_runs hcall
  cases saved with
  | escape x =>
      obtain ⟨rfl, rfl⟩ := hrest
      exact .inl ⟨(silent_map u).append silent_nil, nofun⟩
  | fail e =>
      have haside := (fail_aside e).of_runs hrest
      obtain ⟨_, _, -, -, rfl⟩ := hrest
      exact .inl ⟨(silent_map u).append (silent_of_aside haside), by decide⟩
  | ok _ =>
      obtain ⟨played, t, rfl, hplayed⟩ := hrest
      refine .inr ⟨u, s', played, t, rfl, hsave, ?_⟩
      cases played with
      | error e =>
          have haside := (fail_aside e).of_runs hplayed
          obtain ⟨_, _, -, -, rfl⟩ := hplayed
          exact ⟨haside, rfl⟩
      | ok _ =>
          obtain ⟨rfl, rfl⟩ := hplayed
          exact ⟨nofun, rfl⟩

/-- **What has been done before a file is played, and what is done after it.** -/
structure Played (d : PlaybackCommandDispatcher) (args : PlaybackArguments) (mp3 : Bytes)
    (srt : Option Bytes) (before after : CliTrace) : Prop where
  providedMp3 : ∃ t₁, (d.tempProvider (lit ".mp3")).Runs t₁ (.ok (some mp3)) ∧ t₁ ⊆ before
  providedSrt : ∃ t₁, (d.tempProvider (lit ".srt")).Runs t₁ (.ok srt) ∧ t₁ ⊆ before
  saved : ∃ t₁ text s', (InputLoader.loadPlayback args).Runs t₁ (.ok (.ok text)) ∧
    t₁ ⊆ before ∧ ((d.synthesizerFactory text (configOf args) (optionsOf args)).save mp3 srt).Runs
      (libraryEvents before) (s', .ok ())
  files : cliActions before = fileActions (libraryEvents before)
  silent : Silent before ∧ Silent after
  afterwards : libraryEvents after = []
  cleaned : ∃ mp3Removed srtRemoved, cliActions after =
    if d.keepTemp then [] else .remove mp3 mp3Removed :: srt.toList.map fun path =>
      .remove path srtRemoved

section
variable {d : PlaybackCommandDispatcher} {t : CliTrace} {result : Except CliEscape Int}

/-- What is played is the audio of the text that was loaded. -/
theorem Played.writes {args : PlaybackArguments} {mp3 : Bytes} {srt : Option Bytes}
    {before after : CliTrace} (h : d.Played args mp3 srt before after) :
    ∃ t₀ text t₁ t₂ chunks subtitles, (InputLoader.loadPlayback args).Runs t₀ (.ok (.ok text)) ∧
      t₀ ⊆ before ∧ libraryEvents before = t₁ ++ t₂ ∧
      (d.synthesizerFactory text (configOf args) (optionsOf args)).runPipeline.Runs t₁
        (.ok chunks) ∧
      cliActions before = .write mp3 (audioOf chunks) true ::
        srt.toList.map fun path => .write path subtitles true := by
  obtain ⟨t₀, text, s', hload, hsub, hsave⟩ := h.saved
  obtain ⟨prepare, rest, chunks, submaker, subtitles, hsplit, prepared, -, hactions⟩ :=
    (save_runs hsave).of_ok
  obtain ⟨t₁, t₂, rfl, hpipeline, -⟩ := prepared.split
  refine ⟨t₀, text, t₁, t₂ ++ rest, chunks, subtitles, hload, hsub, ?_, hpipeline, ?_⟩
  · rw [hsplit, List.append_assoc]
  · rw [h.files, hactions]

theorem playText_plays {args : PlaybackArguments} {text : Bytes} {t₀ : CliTrace}
    (aside : ∀ suffix, (d.tempProvider suffix).Issues Aside)
    (loaded : (InputLoader.loadPlayback args).Runs t₀ (.ok (.ok text)))
    (h : (d.playText args text).Runs t result) :
    Silent (t₀ ++ t) ∧ result ≠ .ok 0 ∨
    ∃ before mp3 srt played after, t₀ ++ t = before ++ ⟨.playMp3 mp3, played⟩ :: after ∧
      d.Played args mp3 srt before after ∧ result = .ok (playedCode played) := by
  have hloaded := (loadPlayback_aside args).of_runs loaded
  have hsilent := silent_of_aside hloaded
  obtain ⟨t₁, t', mp3, rfl, hmp3, hrest⟩ := runs_bind.mp h
  have haside₁ := (aside _).of_runs hmp3
  rcases mp3 with x | _ | mp3
  · obtain ⟨rfl, rfl⟩ := hrest
    exact .inl ⟨hsilent.append ((silent_of_aside haside₁).append silent_nil), nofun⟩
  · obtain ⟨_, _, rfl, rfl, rfl⟩ := hrest
    refine .inl ⟨hsilent.append ((silent_of_aside haside₁).append ?_), by decide⟩
    simp [Silent]
  · obtain ⟨t₂, t', srt, rfl, hsrt, hrest⟩ := runs_bind.mp hrest
    have haside₂ := (aside _).of_runs hsrt
    rcases srt with x | srt
    · obtain ⟨rfl, rfl⟩ := hrest
      exact .inl ⟨hsilent.append ((silent_of_aside haside₁).append
        ((silent_of_aside haside₂).append silent_nil)), nofun⟩
    · obtain ⟨t₃, t', result, rfl, hsaved, hrest⟩ := runs_bind.mp hrest
      obtain ⟨t₄, t', u, rfl, hclean, rfl, rfl⟩ := runs_bind.mp hrest
      obtain ⟨hafterwards, hcleanSilent, hcleaned⟩ := cleanUp_actions hclean
      rcases saveAndPlay_plays hsaved with
        ⟨hsilent₃, hresult⟩ | ⟨u, s', played, told, rfl, hsave, htold, rfl⟩
      · refine .inl ⟨?_, hresult⟩
        exact hsilent.append ((silent_of_aside haside₁).append ((silent_of_aside haside₂).append
          (hsilent₃.append (hcleanSilent.append silent_nil))))
      · have hquiet := quiet_of_aside hloaded
        have hquiet₁ := quiet_of_aside haside₁
        have hquiet₂ := quiet_of_aside haside₂
        have hquiet₄ := quiet_of_aside htold
        -- what the library has done is the call of `save`
        have hlibrary : libraryEvents (t₀ ++ (t₁ ++ (t₂ ++ u.map libraryEvent))) = u := by
          simp [hquiet.library, hquiet₁.library, hquiet₂.library]
        refine .inr ⟨t₀ ++ (t₁ ++ (t₂ ++ u.map libraryEvent)), mp3, srt, played, told ++ t₄, ?_, ?_,
          rfl⟩
        · simp
        · constructor
          · exact ⟨t₁, hmp3, fun ev hev => by simp [hev]⟩
          · exact ⟨t₂, hsrt, fun ev hev => by simp [hev]⟩
          · exact ⟨t₀, text, s', loaded, fun ev hev => by simp [hev], hlibrary.symm ▸ hsave⟩
          · rw [hlibrary]
            simp [hquiet.files, hquiet₁.files, hquiet₂.files]
          · exact ⟨hsilent.append ((silent_of_aside haside₁).append
              ((silent_of_aside haside₂).append (silent_map u))),
              (silent_of_aside htold).append hcleanSilent⟩
          · rw [libraryEvents_append, hquiet₄.library, hafterwards, List.nil_append]
          · rw [cliActions_append, hquiet₄.files, List.nil_append]
            exact hcleaned

/-- **A run of the dispatcher** plays nothing and does not end with 0, unless it was not asked to
play, or it plays one file, which has been saved before and is removed after. -/
theorem dispatch_plays {parsed : PlaybackParseResult}
    (aside : ∀ suffix, (d.tempProvider suffix).Issues Aside)
    (h : (d.dispatch parsed).Runs t result) :
    Silent t ∧ (parsed.action = .play → result ≠ .ok 0) ∨
    ∃ before mp3 srt played after, t = before ++ ⟨.playMp3 mp3, played⟩ :: after ∧
      parsed.action = .play ∧ parsed.arguments.useMpv = false ∧
      d.Played parsed.arguments mp3 srt before after ∧ result = .ok (playedCode played) := by
  rw [dispatch] at h
  cases haction : parsed.action with
  | help =>
      rw [haction] at h
      obtain ⟨_, _, rfl, rfl, rfl⟩ := h
      exact .inl ⟨by simp [Silent], fun h => by cases h⟩
  | error =>
      rw [haction] at h
      obtain ⟨_, _, rfl, rfl, rfl⟩ := h
      exact .inl ⟨by simp [Silent], fun h => by cases h⟩
  | play =>
      rw [haction] at h
      dsimp only at h
      rw [dispatchPlay] at h
      by_cases hmpv : parsed.arguments.useMpv = true
      · rw [if_pos hmpv] at h
        obtain ⟨_, _, rfl, rfl, rfl⟩ := h
        exact .inl ⟨by simp [Silent], by decide⟩
      · rw [if_neg hmpv] at h
        obtain ⟨t₀, t', loaded, rfl, hload, hrest⟩ := runs_bind.mp h
        have hsilent := silent_of_aside ((loadPlayback_aside _).of_runs hload)
        rcases loaded with x | e | text
        · obtain ⟨rfl, rfl⟩ := hrest
          exact .inl ⟨hsilent.append silent_nil, fun _ h => by cases h⟩
        · have haside := (fail_aside e).of_runs hrest
          obtain ⟨_, _, -, -, rfl⟩ := hrest
          exact .inl ⟨hsilent.append (silent_of_aside haside), by decide⟩
        · refine (playText_plays aside hload hrest).imp (fun h => ⟨h.1, fun _ => h.2⟩) ?_
          rintro ⟨before, mp3, srt, played, after, heq, hplayed, hresult⟩
          exact ⟨before, mp3, srt, played, after, heq, rfl, by simpa using hmpv, hplayed, hresult⟩

end

end PlaybackCommandDispatcher
end EdgeTts
