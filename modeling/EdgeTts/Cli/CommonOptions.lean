import EdgeTts.Cli.EdgeTtsArgumentParser
import EdgeTts.Cli.PlaybackArgumentParser

/-!
# The options that both programs have

edge-playback accepts a subset of the options of edge-tts, and its parser is a copy of the
other's.  On command lines without the options that only one of the programs has, the two
loops are in step: their states agree on the arguments both programs know.
-/
namespace EdgeTts

open Options (Agree AgreesOn splitAtEquals)

/-- The arguments that both programs have are equal. -/
structure SameArguments (args : EdgeTtsArguments) (args' : PlaybackArguments) : Prop where
  text : args.text = args'.text
  file : args.file = args'.file
  voice : args.voice = args'.voice
  rate : args.rate = args'.rate
  volume : args.volume = args'.volume
  pitch : args.pitch = args'.pitch
  proxy : args.proxy = args'.proxy

/-- Both return help, both an error, or both the same arguments. -/
inductive SameOutcome (r : ParseResult) (r' : PlaybackParseResult) : Prop where
  | help : r.action = .help → r'.action = .help → SameOutcome r r'
  | error : r.action = .error ∧ r.exitCode = 2 → r'.action = .error ∧ r'.exitCode = 2 →
      SameOutcome r r'
  | success : r.action = .synthesize ∧ r.exitCode = 0 → r'.action = .play ∧ r'.exitCode = 0 →
      SameArguments r.arguments r'.arguments → SameOutcome r r'

/-- A token that is no flag of one program only, and no option of edge-tts only. -/
def CommonToken (tok : Bytes) : Prop :=
  tok ≠ lit "-l" ∧ tok ≠ lit "--list-voices" ∧ tok ≠ lit "--version" ∧ tok ≠ lit "--mpv" ∧
  (splitAtEquals 0x3D tok).1 ≠ lit "--write-media" ∧
  (splitAtEquals 0x3D tok).1 ≠ lit "--write-subtitles"

instance : DecidablePred CommonToken := fun tok =>
  inferInstanceAs (Decidable (tok ≠ lit "-l" ∧ tok ≠ lit "--list-voices" ∧ _))

/-- The option of edge-tts of the same name. -/
def PlaybackArgumentParser.Valued.toEdgeTts :
    PlaybackArgumentParser.Valued → EdgeTtsArgumentParser.Valued
  | .text => .text
  | .file => .file
  | .voice => .voice
  | .rate => .rate
  | .volume => .volume
  | .pitch => .pitch
  | .proxy => .proxy

/-- The states of the two loops agree. -/
structure InStep (st : EdgeTtsArgumentParser.State) (st' : PlaybackArgumentParser.State) :
    Prop where
  args : SameArguments st.args st'.args
  seenText : st.seenText = st'.seenText
  seenFile : st.seenFile = st'.seenFile
  seenListVoices : st.seenListVoices = false

theorem inStep_initial : InStep {} {} :=
  ⟨⟨rfl, rfl, rfl, rfl, rfl, rfl, rfl⟩, rfl, rfl, rfl⟩

theorem longOption_agree {key : Bytes} (hmedia : key ≠ lit "--write-media")
    (hsubtitles : key ≠ lit "--write-subtitles") :
    Agree (fun option option' => option = option'.toEdgeTts)
      (EdgeTtsArgumentParser.longOption key) (PlaybackArgumentParser.longOption key) := by
  rw [EdgeTtsArgumentParser.longOption, PlaybackArgumentParser.longOption]
  simp only [hmedia, hsubtitles, if_false, false_or]
  repeat' refine Agree.ite rfl ?_
  -- both refuse any other key, with messages that may differ
  split
  · trivial
  · trivial

theorem shortOption_agree (flag : UInt8) (tok : Bytes) :
    Agree (fun option option' => option = option'.toEdgeTts)
      (EdgeTtsArgumentParser.shortOption flag tok)
      (PlaybackArgumentParser.shortOption flag tok) := by
  rw [EdgeTtsArgumentParser.shortOption, PlaybackArgumentParser.shortOption]
  repeat' refine Agree.ite rfl ?_
  split
  · trivial
  · trivial

theorem agreesOn_of_commonToken {tok : Bytes} (h : CommonToken tok) :
    AgreesOn EdgeTtsArgumentParser.grammar PlaybackArgumentParser.grammar
      (fun option option' => option = option'.toEdgeTts) tok := by
  obtain ⟨hl, hlist, _, hmpv, hmedia, hsubtitles⟩ := h
  exact {
    flag := EdgeTtsArgumentParser.flag_eq_none_iff.mpr ⟨hl, hlist⟩
    flag' := if_neg hmpv
    long := longOption_agree hmedia hsubtitles
    short := fun c => shortOption_agree c tok }

theorem setValue_agree (option : PlaybackArgumentParser.Valued) (value : Bytes)
    {st : EdgeTtsArgumentParser.State} {st' : PlaybackArgumentParser.State} (h : InStep st st') :
    Agree InStep (EdgeTtsArgumentParser.setValue option.toEdgeTts value st)
      (PlaybackArgumentParser.setValue option value st') := by
  obtain ⟨hargs, hseenText, hseenFile, hseenListVoices⟩ := h
  cases option with
  | text => exact ⟨{ hargs with text := rfl }, rfl, hseenFile, hseenListVoices⟩
  | file => exact ⟨{ hargs with file := rfl }, hseenText, rfl, hseenListVoices⟩
  | voice => exact ⟨{ hargs with voice := rfl }, hseenText, hseenFile, hseenListVoices⟩
  | rate => exact ⟨{ hargs with rate := rfl }, hseenText, hseenFile, hseenListVoices⟩
  | volume => exact ⟨{ hargs with volume := rfl }, hseenText, hseenFile, hseenListVoices⟩
  | pitch => exact ⟨{ hargs with pitch := rfl }, hseenText, hseenFile, hseenListVoices⟩
  | proxy =>
      simp only [PlaybackArgumentParser.Valued.toEdgeTts, EdgeTtsArgumentParser.setValue,
        PlaybackArgumentParser.setValue]
      by_cases hempty : value.isEmpty = true
      · rw [if_pos hempty, if_pos hempty]
        trivial
      · rw [if_neg hempty, if_neg hempty]
        by_cases hscheme : (Search.find (lit "://") value).isNone = true
        · rw [if_pos hscheme, if_pos hscheme]
          trivial
        · rw [if_neg hscheme, if_neg hscheme]
          exact ⟨{ hargs with proxy := rfl }, hseenText, hseenFile, hseenListVoices⟩

theorem scan_inStep {tokens : List Bytes} (h : ∀ tok ∈ tokens, CommonToken tok) :
    Agree InStep (EdgeTtsArgumentParser.grammar.scan {} tokens)
      (PlaybackArgumentParser.grammar.scan {} tokens) := by
  have hagrees : ∀ tok ∈ tokens, AgreesOn EdgeTtsArgumentParser.grammar
      PlaybackArgumentParser.grammar (fun option option' => option = option'.toEdgeTts) tok :=
    fun tok htok => agreesOn_of_commonToken (h tok htok)
  refine Options.scan_agree (by rfl) (by rfl) ?_ hagrees inStep_initial
  rintro option option' rfl value st st' hst
  exact setValue_agree option' value hst

theorem finish_sameOutcome {st : EdgeTtsArgumentParser.State}
    {st' : PlaybackArgumentParser.State} (h : InStep st st') :
    SameOutcome (EdgeTtsArgumentParser.finish st) (PlaybackArgumentParser.finish st') := by
  obtain ⟨hargs, htext, hfile, hlist⟩ := h
  rw [EdgeTtsArgumentParser.finish, PlaybackArgumentParser.finish, hlist, ← htext, ← hfile]
  cases st.seenText with
  | false =>
      cases st.seenFile with
      | false => exact .error ⟨rfl, rfl⟩ ⟨rfl, rfl⟩
      | true => exact .success ⟨rfl, rfl⟩ ⟨rfl, rfl⟩ hargs
  | true =>
      cases st.seenFile with
      | false => exact .success ⟨rfl, rfl⟩ ⟨rfl, rfl⟩ hargs
      | true => exact .error ⟨rfl, rfl⟩ ⟨rfl, rfl⟩

/-- A token asks for help in both programs or in none of them. -/
theorem specialResult_agree {tok : Bytes} (h : CommonToken tok) :
    (∃ r r', EdgeTtsArgumentParser.specialResult tok = some r ∧
        PlaybackArgumentParser.specialResult tok = some r' ∧
        r.action = .help ∧ r'.action = .help) ∨
      (EdgeTtsArgumentParser.specialResult tok = none ∧
        PlaybackArgumentParser.specialResult tok = none) := by
  obtain ⟨_, _, hversion, _⟩ := h
  rw [EdgeTtsArgumentParser.specialResult, PlaybackArgumentParser.specialResult]
  by_cases hhelp : tok = lit "-h" ∨ tok = lit "--help"
  · rw [if_pos hhelp, if_pos hhelp]
    exact Or.inl ⟨_, _, rfl, rfl, rfl, rfl⟩
  · rw [if_neg hhelp, if_neg hhelp, if_neg hversion]
    exact Or.inr ⟨rfl, rfl⟩

theorem findSome?_specialResult_agree {tokens : List Bytes}
    (h : ∀ tok ∈ tokens, CommonToken tok) :
    (∃ r r', tokens.findSome? EdgeTtsArgumentParser.specialResult = some r ∧
        tokens.findSome? PlaybackArgumentParser.specialResult = some r' ∧
        r.action = .help ∧ r'.action = .help) ∨
      (tokens.findSome? EdgeTtsArgumentParser.specialResult = none ∧
        tokens.findSome? PlaybackArgumentParser.specialResult = none) := by
  induction tokens with
  | nil => exact Or.inr ⟨rfl, rfl⟩
  | cons tok tokens ih =>
      obtain ⟨htok, hrest⟩ := List.forall_mem_cons.mp h
      rw [List.findSome?_cons, List.findSome?_cons]
      rcases specialResult_agree htok with ⟨r, r', hr, hr', hhelp⟩ | ⟨hr, hr'⟩
      · rw [hr, hr']
        exact Or.inl ⟨r, r', rfl, rfl, hhelp⟩
      · rw [hr, hr']
        exact ih hrest

/-- The two parsers agree on the command lines of their common options. -/
theorem parse_sameOutcome {tokens : List Bytes} (h : ∀ tok ∈ tokens, CommonToken tok) :
    SameOutcome (EdgeTtsArgumentParser.parse tokens) (PlaybackArgumentParser.parse tokens) := by
  rw [EdgeTtsArgumentParser.parse, PlaybackArgumentParser.parse]
  rcases findSome?_specialResult_agree h with ⟨r, r', hr, hr', hhelp, hhelp'⟩ | ⟨hr, hr'⟩
  · rw [hr, hr']
    exact .help hhelp hhelp'
  · rw [hr, hr']
    rcases Options.agree_iff.mp (scan_inStep h) with
      ⟨e, e', hscan, hscan'⟩ | ⟨st, st', hscan, hscan', hst⟩
    · simp only [hscan, hscan']
      exact .error ⟨rfl, rfl⟩ ⟨rfl, rfl⟩
    · simp only [hscan, hscan']
      exact finish_sameOutcome hst

theorem parse_sameOutcome_repeated :
    SameOutcome
      (EdgeTtsArgumentParser.parse [lit "-tOne", lit "--rate=-5%", lit "--text", lit "Two"])
      (PlaybackArgumentParser.parse [lit "-tOne", lit "--rate=-5%", lit "--text", lit "Two"]) :=
  parse_sameOutcome (by decide)

end EdgeTts
