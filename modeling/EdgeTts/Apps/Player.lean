import EdgeTts.Api.ProductionSynthesizer
import EdgeTts.Apps.EdgePlayback
import EdgeTts.Cli.EdgeTtsCommandDispatcher
import EdgeTts.Cli.PlaybackRuns
import EdgeTts.Media.FfmpegAudioConverter

/-!
# edge-playback and its player

`main` gives the dispatcher a `FfmpegAudioConverter`, so what is played is played by a process.
A process is started once at most, and only for a file that has been written in full
(`player_runs`).
-/
namespace EdgeTts
namespace EdgePlayback

open EdgeTtsCommandDispatcher (greetingEnvironment)
open Files (Disk)
open Interaction (Prog Event Trace Environment Handler CarriedOut runs_handle_some)
open Interaction.Prog (perform runs_mapCommands)
open ExecutableDiscovery (candidates Searched)
open PlaybackCommandDispatcher (Aside Silent Played playedCode cliActions)

/-- What the program asks of its machine, with the files and processes of the converter. -/
inductive PlayerCommand where
  | cli (command : CliCommand)
  | media (command : MediaCommand)

abbrev PlayerReply : PlayerCommand → Type
  | .cli command => CliReply command
  | .media command => MediaReply command

abbrev PlayerTrace := Trace PlayerCommand PlayerReply

def cliEvent (ev : Event CliCommand CliReply) : Event PlayerCommand PlayerReply :=
  ⟨.cli ev.1, ev.2⟩

def mediaEvent (ev : Event MediaCommand MediaReply) : Event PlayerCommand PlayerReply :=
  ⟨.media ev.1, ev.2⟩

/-- A call of the converter. -/
def callConverter {α : Type} (p : Prog MediaCommand MediaReply α) :
    Prog PlayerCommand PlayerReply α :=
  p.mapCommands PlayerCommand.media fun _ => id

/-- The dispatcher plays with a converter. -/
def playerHandler (converter : FfmpegAudioConverter) :
    Handler CliCommand CliReply PlayerCommand PlayerReply
  | .playMp3 path => some <$> callConverter (converter.playMp3 path)
  | command => some <$> perform (PlayerCommand.cli command)

/-- `main`, with its converter; `raw_path` may be missing. -/
def mainWithPlayer (env : Env) (rawPath : Option Bytes) (tokens : List Bytes) :
    Prog PlayerCommand PlayerReply (Option (Except CliEscape Int)) :=
  (main env tokens).handle (playerHandler ⟨rawPath.getD []⟩)

/-! ## The levels -/

theorem callConverter_runs {α : Type} {p : Prog MediaCommand MediaReply α} {t : PlayerTrace}
    {a : α} (h : (callConverter p).Runs t a) : ∃ u, t = u.map mediaEvent ∧ p.Runs u a := by
  obtain ⟨u, rfl, hrun⟩ := runs_mapCommands.mp h
  exact ⟨u, rfl, List.map_id u ▸ hrun⟩

/-- Where nothing is played there is nothing to carry out. -/
theorem carriedOut_silent {converter : FfmpegAudioConverter} {t : CliTrace} {t' : PlayerTrace}
    (hc : CarriedOut (playerHandler converter) t t') (silent : Silent t) :
    t' = t.map cliEvent := by
  induction hc with
  | nil => rfl
  | @cons c r t t₁ t' first rest ih =>
      obtain ⟨hfirst, hrest⟩ := List.forall_mem_cons.mp silent
      rw [ih hrest]
      cases c with
      | playMp3 path => exact absurd rfl (hfirst path)
      | _ =>
          rw [runs_some_perform.mp first]
          rfl

theorem tempProvider_aside (env : Env) (suffix : Bytes) :
    (tempProvider env suffix).Issues Aside := by
  have hreported : ∀ label path, (reported env.debug label path).Issues Aside := by
    intro label path
    unfold reported report
    cases env.debug with
    | true => exact ⟨trivial, fun _ => trivial⟩
    | false => trivial
  unfold tempProvider
  by_cases hmp3 : suffix = lit ".mp3"
  · rw [if_pos hmp3]
    cases named env.mp3File with
    | some path => trivial
    | none =>
        refine ⟨trivial, fun tick => ⟨trivial, fun dir => ?_⟩⟩
        cases dir with
        | none => trivial
        | some dir => exact hreported _ _
  · rw [if_neg hmp3]
    by_cases hsrt : suffix = lit ".srt"
    · rw [if_pos hsrt]
      cases named env.srtFile with
      | some path => exact hreported _ _
      | none => trivial
    · rw [if_neg hsrt]
      trivial

/-- No process is started. -/
def Idle (t : PlayerTrace) : Prop := ∀ ev ∈ t, ∀ cmd, ev.1 ≠ .media (.run cmd)

theorem idle_cliEvent (t : CliTrace) : Idle (t.map cliEvent) := by
  intro ev hev cmd heq
  obtain ⟨ev', -, rfl⟩ := List.mem_map.mp hev
  cases heq

theorem idle_searched {paths : List Bytes} {t : MediaTrace}
    (h : Searched paths t none) : Idle (t.map mediaEvent) := by
  obtain ⟨misses, -, rfl, -⟩ := h
  intro ev hev cmd heq
  simp only [ExecutableDiscovery.lookedAt, List.map_map, List.mem_map] at hev
  obtain ⟨file, -, rfl⟩ := hev
  cases heq

theorem playedCode_finished (name : Bytes) (reply : Result ProcessResult) :
    playedCode (FfmpegAudioConverter.finished name reply) = 0 ↔
      ∃ played, reply = .ok played ∧ played.exitCode = 0 := by
  cases reply with
  | error e => simp [FfmpegAudioConverter.finished, playedCode]
  | ok played =>
      by_cases hcode : played.exitCode = 0 <;>
        simp [FfmpegAudioConverter.finished, playedCode, hcode]

/-- **edge-playback starts one process at most, and only for a file that is there in full.**  In
every run either no process is started, and the exit code of a playback is not 0; or the text has
been loaded and its audio written to the media file (and its subtitles to theirs), then the first
executable `ffplay` in the segments of `PATH` is started with that file, and what is not to be kept
is removed after it has ended.  The exit code is 0 exactly if that of the process is. -/
theorem player_runs {env : Env} {rawPath : Option Bytes} {tokens : List Bytes} {t : PlayerTrace}
    {result : Except CliEscape Int}
    (h : (mainWithPlayer env rawPath tokens).Runs t (some result)) :
    Idle t ∧ ((PlaybackArgumentParser.parse tokens).action = .play → result ≠ .ok 0) ∨
    ∃ before looked tool mp3 srt reply after,
      t = before.map cliEvent ++ (looked.map mediaEvent ++
        ⟨.media (.run ⟨tool, [lit "-nodisp", lit "-autoexit", mp3]⟩), reply⟩ ::
          after.map cliEvent) ∧
      Plays tokens ∧
      (dispatcher env).Played (PlaybackArgumentParser.parse tokens).arguments mp3 srt before after ∧
      (∃ text t₁ t₂ chunks subtitles, libraryEvents before = t₁ ++ t₂ ∧
        (SpeechSynthesizer.runPipeline ⟨text, PlaybackCommandDispatcher.configOf
          (PlaybackArgumentParser.parse tokens).arguments, PlaybackCommandDispatcher.optionsOf
          (PlaybackArgumentParser.parse tokens).arguments, false⟩).Runs t₁ (.ok chunks) ∧
        cliActions before = .write mp3 (audioOf chunks) true ::
          srt.toList.map fun path => .write path subtitles true) ∧
      Searched (candidates (lit "ffplay") (rawPath.getD [])) looked (some tool) ∧
      (result = .ok 0 ↔ ∃ played, reply = .ok played ∧ played.exitCode = 0) := by
  obtain ⟨u, hmain, hc⟩ := runs_handle_some.mp h
  rcases PlaybackCommandDispatcher.dispatch_plays (tempProvider_aside env) hmain with
    ⟨hsilent, hcode⟩ | ⟨before, mp3, srt, played, after, rfl, haction, hmpv, hplayed, rfl⟩
  · rw [carriedOut_silent hc hsilent]
    exact .inl ⟨idle_cliEvent u, hcode⟩
  · obtain ⟨t₁, t', rfl, hbefore, hrest⟩ := hc.split
    rw [carriedOut_silent hbefore hplayed.silent.1]
    cases hrest with
    | @cons _ _ _ t₂ t₃ first rest =>
        rw [carriedOut_silent rest hplayed.silent.2]
        obtain ⟨looked, rfl, htool⟩ := callConverter_runs (runs_some_map.mp first)
        rcases FfmpegAudioConverter.runTool_runs htool with
          ⟨hsearched, rfl⟩ | ⟨looked, tool, reply, rfl, hsearched, rfl⟩
        · refine .inl ⟨?_, fun _ => nofun⟩
          exact List.forall_mem_append.mpr ⟨idle_cliEvent before,
            List.forall_mem_append.mpr ⟨idle_searched hsearched, idle_cliEvent after⟩⟩
        · refine .inr ⟨before, looked, tool, mp3, srt, reply, after, by simp [mediaEvent],
            ⟨haction, hmpv⟩, hplayed, ?_, hsearched, ?_⟩
          · obtain ⟨t₀, text, t₁, t₂, chunks, subtitles, -, -, hlibrary, hpipeline, hactions⟩ :=
              hplayed.writes
            exact ⟨text, t₁, t₂, chunks, subtitles, hlibrary, hpipeline, hactions⟩
          · rw [← playedCode_finished (lit "ffplay") reply]
            simp

/-- There is an `ffplay` in one of two directories. -/
def playerMachine : Environment PlayerCommand PlayerReply (Disk Bytes Bytes)
  | .cli command, disk => greetingEnvironment command disk
  | .media (.status path), disk =>
      (if path = lit "/usr/bin/ffplay" then some ⟨true, 0o755⟩ else none, disk)
  | .media (.run _), disk => (.ok ⟨0, [], []⟩, disk)

theorem player_runs_sample :
    let run := (mainWithPlayer namedEnv (some (lit "/bin::/usr/bin"))
      [lit "--text", lit "Hi"]).runIn playerMachine fun _ => none
    ∃ (before : CliTrace) (looked : MediaTrace) (tool mp3 : Bytes) (reply : Result ProcessResult)
      (after : CliTrace), run.trace = before.map cliEvent ++ (looked.map mediaEvent ++
        ⟨.media (.run ⟨tool, [lit "-nodisp", lit "-autoexit", mp3]⟩), reply⟩ ::
          after.map cliEvent) := by
  intro run
  have hrun : (mainWithPlayer namedEnv (some (lit "/bin::/usr/bin"))
      [lit "--text", lit "Hi"]).Runs run.trace run.result := Prog.runs_runIn _ _ _
  have hzero : run.result = some (.ok 0) := by decide +kernel
  rcases player_runs (hzero ▸ hrun) with
    ⟨-, hcode⟩ | ⟨before, looked, tool, mp3, srt, reply, after, htrace, -⟩
  · exact absurd rfl (hcode (by decide +kernel))
  · exact ⟨before, looked, tool, mp3, reply, after, htrace⟩

end EdgePlayback
end EdgeTts
