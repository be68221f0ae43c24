import EdgeTts.Common.Error
import EdgeTts.Lib.Options

/-!
# `cli/PlaybackArgumentParser.cpp`

The loop of edge-playback's `do_parse`, in the terms of `Options.Grammar.scan`.  The source
has its own copy of the loop of edge-tts, so the definitions here do not use those of
`EdgeTtsArgumentParser`.  Arguments that are accepted name a text or a file (`parse_play_input`).
-/
namespace EdgeTts

open Options (Grammar)

def PlaybackArguments.kDefaultVoice : Bytes := lit "en-US-EmmaMultilingualNeural"

structure PlaybackArguments where
  text : Option Bytes := none
  file : Option Bytes := none
  voice : Bytes := PlaybackArguments.kDefaultVoice
  rate : Bytes := lit "+0%"
  volume : Bytes := lit "+0%"
  pitch : Bytes := lit "+0Hz"
  proxy : Option Bytes := none
  useMpv : Bool := false
  deriving DecidableEq, Repr

inductive PlaybackParseAction where
  | play
  | help
  | error
  deriving DecidableEq, Repr

structure PlaybackParseResult where
  action : PlaybackParseAction := .error
  arguments : PlaybackArguments := {}
  message : Bytes := []
  exitCode : Int := 2
  deriving DecidableEq, Repr

namespace PlaybackArgumentParser

/-- The variables of `do_parse`. -/
structure State where
  args : PlaybackArguments := {}
  seenText : Bool := false
  seenFile : Bool := false
  deriving DecidableEq, Repr

/-- The options with a value. -/
inductive Valued where
  | text
  | file
  | voice
  | rate
  | volume
  | pitch
  | proxy
  deriving DecidableEq, Repr

/-- The chain of comparisons with the key of a long option. -/
def longOption (key : Bytes) : Except Bytes Valued :=
  if key = lit "--text" then .ok .text
  else if key = lit "--file" then .ok .file
  else if key = lit "--voice" then .ok .voice
  else if key = lit "--rate" then .ok .rate
  else if key = lit "--volume" then .ok .volume
  else if key = lit "--pitch" then .ok .pitch
  else if key = lit "--proxy" then .ok .proxy
  else if key = lit "--write-media" ∨ key = lit "--write-subtitles" ∨
      key = lit "--list-voices" then
    .error (key ++ lit " is not supported by edge-playback")
  else .error (lit "unrecognized option: " ++ key)

/-- The switch over the letter of a short option. -/
def shortOption (flag : UInt8) (tok : Bytes) : Except Bytes Valued :=
  if flag = 0x74 then .ok .text
  else if flag = 0x66 then .ok .file
  else if flag = 0x76 then .ok .voice
  else if flag = 0x6C then .error (lit "-l / --list-voices is not supported by edge-playback")
  else .error (lit "unrecognized option: " ++ tok)

/-- What an option does with its value. -/
def setValue (option : Valued) (value : Bytes) (st : State) : Except Bytes State :=
  match option with
  | .text => .ok { st with args.text := some value, seenText := true }
  | .file => .ok { st with args.file := some value, seenFile := true }
  | .voice => .ok { st with args.voice := value }
  | .rate => .ok { st with args.rate := value }
  | .volume => .ok { st with args.volume := value }
  | .pitch => .ok { st with args.pitch := value }
  | .proxy =>
      if value.isEmpty then .error (lit "--proxy URL must not be empty")
      else if (Search.find (lit "://") value).isNone then
        .error (lit "--proxy URL must include a scheme (example: http://host:port)")
      else .ok { st with args.proxy := some value }

/-- The options of edge-playback; characters are bytes. -/
def grammar : Grammar UInt8 Bytes Valued State where
  dash := 0x2D
  equals := 0x3D
  flag tok :=
    if tok = lit "--mpv" then some fun st => { st with args.useMpv := true } else none
  long := longOption
  short := shortOption
  set := setValue
  missing name := name ++ lit " requires an argument"
  positional tok := lit "unexpected positional argument: " ++ tok

/-- `help_text`. -/
def helpText (programName : Bytes) : Bytes :=
  lit "Usage: " ++ programName ++ lit " [OPTIONS]\n" ++
  lit "\n" ++
  lit "Speak text using Microsoft Edge's online text-to-speech API.\n" ++
  lit "See `edge-tts` for additional details on TTS options.\n" ++
  lit "\n" ++
  lit "Options:\n" ++
  lit "  -h, --help          Show this help message and exit\n" ++
  lit "  -t, --text TEXT     What TTS will say\n" ++
  lit "  -f, --file PATH     Same as --text but read from file;\n" ++
  lit "                        use - or /dev/stdin for stdin\n" ++
  lit "  -v, --voice VOICE   Voice for TTS.\n" ++
  lit "                        Default: " ++ PlaybackArguments.kDefaultVoice ++ lit "\n" ++
  lit "      --rate RATE     Set TTS rate. Default +0%.\n" ++
  lit "      --volume VOL    Set TTS volume. Default +0%.\n" ++
  lit "      --pitch PITCH   Set TTS pitch. Default +0Hz.\n" ++
  lit "      --proxy URL     Proxy URL — parsed and validated but not supported\n" ++
  lit "                        at runtime (returns exit 1 if set)\n" ++
  lit "      --mpv           Not supported in this build (only ffplay is available);\n" ++
  lit "                        passing this flag returns an error\n" ++
  lit "\n" ++
  lit "Note: --text and --file are mutually exclusive; exactly one must be provided.\n" ++
  lit "Note: Use --rate=-50% syntax (not --rate -50%) for negative values.\n"

/-- What a token asks for that is handled before anything else. -/
def specialResult (tok : Bytes) : Option PlaybackParseResult :=
  if tok = lit "-h" ∨ tok = lit "--help" then
    some { action := .help, message := helpText (lit "edge-playback"), exitCode := 0 }
  else none

/-- The check of the required group, and the result. -/
def finish (st : State) : PlaybackParseResult :=
  let groupCount := st.seenText.toNat + st.seenFile.toNat
  if groupCount = 0 then { message := lit "one of --text/-t or --file/-f is required" }
  else if groupCount > 1 then { message := lit "--text and --file are mutually exclusive" }
  else { action := .play, arguments := st.args, exitCode := 0 }

/-- `do_parse`, which is `PlaybackArgumentParser::parse`. -/
def parse (tokens : List Bytes) : PlaybackParseResult :=
  match tokens.findSome? specialResult with
  | some result => result
  | none =>
      match grammar.scan {} tokens with
      | .error message => { message }
      | .ok st => finish st

/-! ## An input for every playback -/

/-- An input that has been seen is there. -/
structure Seen (st : State) : Prop where
  text : st.seenText = true → st.args.text ≠ none
  file : st.seenFile = true → st.args.file ≠ none

theorem setValue_seen {option : Valued} {value : Bytes} {st st' : State}
    (h : setValue option value st = .ok st') (hst : Seen st) : Seen st' := by
  cases option with
  | text =>
      obtain rfl := Except.ok.inj h
      exact ⟨fun _ => Option.some_ne_none value, hst.file⟩
  | file =>
      obtain rfl := Except.ok.inj h
      exact ⟨hst.text, fun _ => Option.some_ne_none value⟩
  | proxy =>
      simp only [setValue] at h
      by_cases hempty : value.isEmpty = true
      · rw [if_pos hempty] at h
        cases h
      · rw [if_neg hempty] at h
        by_cases hscheme : (Search.find (lit "://") value).isNone = true
        · rw [if_pos hscheme] at h
          cases h
        · rw [if_neg hscheme] at h
          obtain rfl := Except.ok.inj h
          exact ⟨hst.text, hst.file⟩
  | _ =>
      obtain rfl := Except.ok.inj h
      exact ⟨hst.text, hst.file⟩

theorem scan_seen {tokens : List Bytes} {st : State} (h : grammar.scan {} tokens = .ok st) :
    Seen st := by
  refine Grammar.scan_preserves (by decide) ?_ (fun _ _ _ _ => setValue_seen) h
    ⟨nofun, nofun⟩
  intro tok set hflag st hst
  simp only [grammar] at hflag
  split at hflag
  · cases hflag
    exact ⟨hst.text, hst.file⟩
  · cases hflag

theorem finish_input {st : State} (hseen : Seen st) (h : (finish st).action = .play) :
    (finish st).arguments.text ≠ none ∨ (finish st).arguments.file ≠ none := by
  rw [finish] at h ⊢
  by_cases hnone : st.seenText.toNat + st.seenFile.toNat = 0
  · rw [if_pos hnone] at h
    cases h
  · rw [if_neg hnone] at h ⊢
    by_cases hmany : st.seenText.toNat + st.seenFile.toNat > 1
    · rw [if_pos hmany] at h
      cases h
    · rw [if_neg hmany]
      cases htext : st.seenText with
      | true => exact .inl (hseen.text htext)
      | false =>
          refine .inr (hseen.file ?_)
          by_contra hfile
          exact hnone (by rw [htext, Bool.eq_false_iff.mpr hfile]; rfl)

/-- **What is to be played has an input.** -/
theorem parse_play_input {tokens : List Bytes} (h : (parse tokens).action = .play) :
    (parse tokens).arguments.text ≠ none ∨ (parse tokens).arguments.file ≠ none := by
  unfold parse at h ⊢
  cases hspecial : tokens.findSome? specialResult with
  | some result =>
      -- only help is special
      obtain ⟨tok, -, htok⟩ := List.exists_of_findSome?_eq_some hspecial
      rw [specialResult] at htok
      split at htok
      · cases htok
        rw [hspecial] at h
        cases h
      · cases htok
  | none =>
      simp only [hspecial] at h ⊢
      cases hscan : grammar.scan {} tokens with
      | error message =>
          simp only [hscan] at h
          cases h
      | ok st =>
          simp only [hscan] at h ⊢
          exact finish_input (scan_seen hscan) h

end PlaybackArgumentParser
end EdgeTts
