import EdgeTts.Common.Error
import EdgeTts.Lib.Options

/-!
# `cli/EdgeTtsArgumentParser.cpp`

The loop of `do_parse` is that of `Options.Grammar.scan`, over the options of edge-tts.  Its
state keeps the flags of the required group beside the arguments, as the source does.
-/
namespace EdgeTts

open Options (Grammar Item IsOption)

def EdgeTtsArguments.kDefaultVoice : Bytes := lit "en-US-EmmaMultilingualNeural"

structure EdgeTtsArguments where
  text : Option Bytes := none
  file : Option Bytes := none
  listVoices : Bool := false
  voice : Bytes := EdgeTtsArguments.kDefaultVoice
  rate : Bytes := lit "+0%"
  volume : Bytes := lit "+0%"
  pitch : Bytes := lit "+0Hz"
  writeMedia : Option Bytes := none
  writeSubtitles : Option Bytes := none
  proxy : Option Bytes := none
  deriving DecidableEq, Repr

inductive ParseAction where
  | synthesize
  | listVoices
  | help
  | version
  | error
  deriving DecidableEq, Repr

structure ParseResult where
  action : ParseAction := .error
  arguments : EdgeTtsArguments := {}
  message : Bytes := []
  exitCode : Int := 2
  deriving DecidableEq, Repr

namespace EdgeTtsArgumentParser

/-- The variables of `do_parse`. -/
structure State where
  args : EdgeTtsArguments := {}
  seenText : Bool := false
  seenFile : Bool := false
  seenListVoices : Bool := false
  deriving DecidableEq, Repr

/-- The options with a value. -/
inductive Valued where
  | text
  | file
  | voice
  | rate
  | volume
  | pitch
  | writeMedia
  | writeSubtitles
  | proxy
  deriving DecidableEq, Repr

/-- The chain of comparisons with the key of a long option. -/
def longOption (key : Bytes) : Except Bytes Valued :=
  if key = lit "--text" then .ok .text
  else if key = lit "--file" then .ok .file
  else if key = lit "--voice" then .ok .voice
  else if key = lit "--rate" then .ok .rate
  else if key = lit "--volume" then .ok .volume
  else if key = lit "--pitch" then .ok .pitch
  else if key = lit "--write-media" then .ok .writeMedia
  else if key = lit "--write-subtitles" then .ok .writeSubtitles
  else if key = lit "--proxy" then .ok .proxy
  else .error (lit "unrecognized option: " ++ key)

/-- The switch over the letter of a short option. -/
def shortOption (flag : UInt8) (tok : Bytes) : Except Bytes Valued :=
  if flag = 0x74 then .ok .text
  else if flag = 0x66 then .ok .file
  else if flag = 0x76 then .ok .voice
  else .error (lit "unrecognized option: " ++ tok)

/-- What an option does with its value. -/
def setValue (option : Valued) (value : Bytes) (st : State) : Except Bytes State :=
  match option with
  | .text => .ok { st with args.text := some value, seenText := true }
  | .file => .ok { st with args.file := some value, seenFile := true }
  | .voice => .ok { st with args.voice := value }
  | .rate => .ok { st with args.rate := value }
  | .volume => .ok { st with args.volume := value }
  | .pitch => .ok { st with args.pitch := value }
  | .writeMedia => .ok { st with args.writeMedia := some value }
  | .writeSubtitles => .ok { st with args.writeSubtitles := some value }
  | .proxy =>
      if value.isEmpty then .error (lit "--proxy URL must not be empty")
      else if (Search.find (lit "://") value).isNone then
        .error (lit "--proxy URL must include a scheme (example: http://host:port)")
      else .ok { st with args.proxy := some value }

/-- The options of edge-tts; characters are bytes. -/
def grammar : Grammar UInt8 Bytes Valued State where
  dash := 0x2D
  equals := 0x3D
  flag tok :=
    if tok = lit "-l" ∨ tok = lit "--list-voices" then
      some fun st => { st with seenListVoices := true, args.listVoices := true }
    else none
  long := longOption
  short := shortOption
  set := setValue
  missing name := name ++ lit " requires an argument"
  positional tok := lit "unexpected positional argument: " ++ tok

/-- `help_text`. -/
def helpText (programName : Bytes) : Bytes :=
  lit "Usage: " ++ programName ++ lit " [OPTIONS]\n" ++
  lit "\n" ++
  lit "Text-to-speech using Microsoft Edge's online TTS service.\n" ++
  lit "\n" ++
  lit "Options:\n" ++
  lit "  -h, --help                    Show this help message and exit\n" ++
  lit "      --version                 Show version information and exit\n" ++
  lit "  -t, --text TEXT               What TTS will say\n" ++
  lit "  -f, --file PATH               Same as --text but read from file;\n" ++
  lit "                                  use - or /dev/stdin for stdin\n" ++
  lit "  -l, --list-voices             List available voices and exit\n" ++
  lit "  -v, --voice VOICE             Voice for TTS.\n" ++
  lit "                                  Default: " ++ EdgeTtsArguments.kDefaultVoice ++ lit "\n" ++
  lit "      --rate RATE               Set TTS rate. Default +0%.\n" ++
  lit "      --volume VOL              Set TTS volume. Default +0%.\n" ++
  lit "      --pitch PITCH             Set TTS pitch. Default +0Hz.\n" ++
  lit "      --write-media PATH        Send media output to file instead of stdout\n" ++
  lit "      --write-subtitles PATH    Send subtitle output to file;\n" ++
  lit "                                  use - to send to stderr\n" ++
  lit "      --proxy URL               Proxy URL — parsed and validated but not\n" ++
  lit "                                  supported at runtime (returns exit 1 if set)\n" ++
  lit "\n" ++
  lit "Note: --text, --file, and --list-voices are mutually exclusive;\n" ++
  lit "      exactly one must be provided.\n" ++
  lit "\n" ++
  lit "Note: Use --rate=-50% syntax (not --rate -50%) for negative values.\n"

/-- `version_string`. -/
def versionString : Bytes := lit "edge-tts-cpp 0.1.0"

/-- What a token asks for that is handled before anything else. -/
def specialResult (tok : Bytes) : Option ParseResult :=
  if tok = lit "-h" ∨ tok = lit "--help" then
    some { action := .help, message := helpText (lit "edge-tts"), exitCode := 0 }
  else if tok = lit "--version" then
    some { action := .version, message := versionString, exitCode := 0 }
  else none

/-- The check of the required group, and the result. -/
def finish (st : State) : ParseResult :=
  let groupCount := st.seenText.toNat + st.seenFile.toNat + st.seenListVoices.toNat
  if groupCount = 0 then
    { message := lit "one of --text/-t, --file/-f, or --list-voices/-l is required" }
  else if groupCount > 1 then
    { message := lit "--text, --file, and --list-voices are mutually exclusive" }
  else
    { arguments := st.args
      exitCode := 0
      action := if st.seenListVoices then .listVoices else .synthesize }

/-- `do_parse`, which is `EdgeTtsArgumentParser::parse`. -/
def parse (tokens : List Bytes) : ParseResult :=
  match tokens.findSome? specialResult with
  | some result => result
  | none =>
      match grammar.scan {} tokens with
      | .error message => { message }
      | .ok st => finish st

/-! ## The names of the options -/

/-- The long name of an option. -/
def Valued.longName : Valued → Bytes
  | .text => lit "--text"
  | .file => lit "--file"
  | .voice => lit "--voice"
  | .rate => lit "--rate"
  | .volume => lit "--volume"
  | .pitch => lit "--pitch"
  | .writeMedia => lit "--write-media"
  | .writeSubtitles => lit "--write-subtitles"
  | .proxy => lit "--proxy"

/-- The letter of an option, if it has one. -/
def Valued.shortName : Valued → Option UInt8
  | .text => some 0x74
  | .file => some 0x66
  | .voice => some 0x76
  | _ => none

/-- The option takes the value. -/
def Valued.Accepts (option : Valued) (value : Bytes) : Prop :=
  option = .proxy → value ≠ [] ∧ lit "://" <:+: value

/-- One link of a chain of comparisons. -/
theorem ok_of_ite {ε α : Type} {p : Prop} [Decidable p] {a b : α} {e : Except ε α}
    (h : (if p then .ok a else e) = .ok b) : p ∧ a = b ∨ e = .ok b := by
  by_cases hp : p
  · rw [if_pos hp] at h
    exact Or.inl ⟨hp, Except.ok.inj h⟩
  · rw [if_neg hp] at h
    exact Or.inr h

theorem longOption_eq_ok_iff {key : Bytes} {option : Valued} :
    longOption key = .ok option ↔ key = option.longName := by
  constructor
  · intro h
    rw [longOption] at h
    repeat'
      obtain ⟨hkey, rfl⟩ | h := ok_of_ite h
      · exact hkey
    cases h
  · rintro rfl
    cases option <;> decide

theorem shortOption_eq_ok_iff {flag : UInt8} {tok : Bytes} {option : Valued} :
    shortOption flag tok = .ok option ↔ option.shortName = some flag := by
  constructor
  · intro h
    rw [shortOption] at h
    repeat'
      obtain ⟨rfl, rfl⟩ | h := ok_of_ite h
      · rfl
    cases h
  · intro h
    cases option <;> cases h <;> rfl

theorem setValue_accepts {option : Valued} {value : Bytes} {st st' : State}
    (h : setValue option value st = .ok st') : option.Accepts value := by
  rintro rfl
  simp only [setValue] at h
  split at h
  · cases h
  · rename_i hempty
    split at h
    · cases h
    · rename_i hfind
      refine ⟨by simpa using hempty, ?_⟩
      by_contra hn
      rw [Search.find, Search.splitFirst_eq_none_iff.mpr hn] at hfind
      exact hfind rfl

/-! ## The command lines of edge-tts -/

/-- The item is one of edge-tts: a flag, or an option it knows with a value it takes. -/
def WellFormed : Item UInt8 Valued → Prop
  | .flag tok => tok = lit "-l" ∨ tok = lit "--list-voices"
  | .long key option value attached =>
      key = option.longName ∧ option.Accepts value ∧
      (attached = false → ¬ IsOption 0x2D value)
  | .short c option value attached =>
      option.shortName = some c ∧ option.Accepts value ∧
      if attached then value ≠ [] else ¬ IsOption 0x2D value

/-- The item is `-l` or `--list-voices`. -/
def listsVoices : Item UInt8 Valued → Bool
  | .flag _ => true
  | _ => false

/-- The value that an item gives to an option. -/
def valueOf (option : Valued) : Item UInt8 Valued → Option Bytes
  | .flag _ => none
  | .long _ option' value _ => if option' = option then some value else none
  | .short _ option' value _ => if option' = option then some value else none

/-- The value of the last item that sets an option. -/
def lastValue (option : Valued) (items : List (Item UInt8 Valued)) : Option Bytes :=
  (items.filterMap (valueOf option)).getLast?

/-- An item sets the option. -/
def sets (option : Valued) (items : List (Item UInt8 Valued)) : Bool :=
  items.any fun item => (valueOf option item).isSome

/-- The fields, each with the value of the last item that sets it, or its default. -/
def argumentsOf (items : List (Item UInt8 Valued)) : EdgeTtsArguments where
  text := lastValue .text items
  file := lastValue .file items
  listVoices := items.any listsVoices
  voice := (lastValue .voice items).getD EdgeTtsArguments.kDefaultVoice
  rate := (lastValue .rate items).getD (lit "+0%")
  volume := (lastValue .volume items).getD (lit "+0%")
  pitch := (lastValue .pitch items).getD (lit "+0Hz")
  writeMedia := lastValue .writeMedia items
  writeSubtitles := lastValue .writeSubtitles items
  proxy := lastValue .proxy items

/-- What the loop's variables hold after the items. -/
def stateOf (items : List (Item UInt8 Valued)) : State where
  args := argumentsOf items
  seenText := sets .text items
  seenFile := sets .file items
  seenListVoices := items.any listsVoices

/-- Exactly one of the three holds. -/
def ExactlyOne (a b c : Bool) : Prop := [a, b, c].count true = 1

instance (a b c : Bool) : Decidable (ExactlyOne a b c) :=
  inferInstanceAs (Decidable (_ = 1))

/-- The tokens are a command line of edge-tts, cut into its items. -/
structure Accepted (items : List (Item UInt8 Valued)) (tokens : List Bytes) : Prop where
  wellFormed : ∀ item ∈ items, WellFormed item
  tokens_eq : tokens = items.flatMap grammar.tokens
  oneGroup : ExactlyOne (sets .text items) (sets .file items) (items.any listsVoices)

theorem lastValue_concat (option : Valued) (items : List (Item UInt8 Valued))
    (item : Item UInt8 Valued) :
    lastValue option (items ++ [item]) = (valueOf option item).or (lastValue option items) := by
  have hsingle : [item].filterMap (valueOf option) = (valueOf option item).toList := by
    cases h : valueOf option item <;> simp [h]
  rw [lastValue, List.filterMap_append, List.getLast?_append, hsingle, lastValue]
  cases valueOf option item <;> rfl

theorem sets_concat (option : Valued) (items : List (Item UInt8 Valued))
    (item : Item UInt8 Valued) :
    sets option (items ++ [item]) = (sets option items || (valueOf option item).isSome) := by
  simp [sets]

theorem isSome_lastValue (option : Valued) (items : List (Item UInt8 Valued)) :
    (lastValue option items).isSome = sets option items := by
  induction items using List.reverseRecOn with
  | nil => rfl
  | append_singleton items item ih =>
      rw [lastValue_concat, sets_concat, ← ih]
      cases valueOf option item <;> simp

theorem setValue_stateOf {option : Valued} {value : Bytes} (h : option.Accepts value)
    (items : List (Item UInt8 Valued)) (item : Item UInt8 Valued)
    (hvalue : ∀ option', valueOf option' item = if option = option' then some value else none)
    (hflag : listsVoices item = false) :
    setValue option value (stateOf items) = .ok (stateOf (items ++ [item])) := by
  have hlast : ∀ option', lastValue option' (items ++ [item]) =
      if option = option' then some value else lastValue option' items := by
    intro option'
    rw [lastValue_concat, hvalue]
    by_cases heq : option = option' <;> simp [heq]
  have hsets : ∀ option', sets option' (items ++ [item]) =
      (sets option' items || decide (option = option')) := by
    intro option'
    rw [sets_concat, hvalue]
    by_cases heq : option = option' <;> simp [heq]
  have hlists : (items ++ [item]).any listsVoices = items.any listsVoices := by
    simp [hflag]
  cases option with
  | proxy =>
      obtain ⟨hne, hscheme⟩ := h rfl
      have hfind : (Search.find (lit "://") value).isNone = false := by
        rw [Search.find, Option.isNone_map]
        by_contra hn
        exact Search.splitFirst_eq_none_iff.mp (by simpa using hn) hscheme
      simp [setValue, hne, hfind, stateOf, argumentsOf, hlast, hsets, hlists]
  | _ => simp [setValue, stateOf, argumentsOf, hlast, hsets, hlists]

theorem flag_eq_some {tok : Bytes} (h : tok = lit "-l" ∨ tok = lit "--list-voices") :
    grammar.flag tok =
      some fun st => { st with seenListVoices := true, args.listVoices := true } :=
  if_pos h

/-- **A well-formed item extends what has been read.** -/
theorem effect_stateOf {item : Item UInt8 Valued} (h : WellFormed item)
    (items : List (Item UInt8 Valued)) :
    grammar.effect item (stateOf items) = .ok (stateOf (items ++ [item])) := by
  cases item with
  | flag tok =>
      rw [Grammar.effect, flag_eq_some h]
      simp [stateOf, argumentsOf, lastValue_concat, sets, valueOf, listsVoices]
  | long key option value attached =>
      obtain ⟨_, haccepts, _⟩ := h
      exact setValue_stateOf haccepts items _ (fun _ => rfl) rfl
  | short c option value attached =>
      obtain ⟨_, haccepts, _⟩ := h
      exact setValue_stateOf haccepts items _ (fun _ => rfl) rfl

theorem flag_eq_none_iff {tok : Bytes} :
    grammar.flag tok = none ↔ tok ≠ lit "-l" ∧ tok ≠ lit "--list-voices" := by
  simp [grammar]

/-- No flag holds an equals sign. -/
theorem flag_eq_none_of_equals {tok : Bytes} (h : (0x3D : UInt8) ∈ tok) :
    grammar.flag tok = none := by
  rw [flag_eq_none_iff]
  constructor
  · rintro rfl
    revert h
    decide
  · rintro rfl
    revert h
    decide

/-- Both flags have an `l` or a dash as their second character. -/
theorem flag_eq_none_of_second {c : UInt8} (hl : c ≠ 0x6C) (hdash : c ≠ 0x2D) (rest : Bytes) :
    grammar.flag (0x2D :: c :: rest) = none := by
  rw [flag_eq_none_iff]
  constructor
  · intro heq
    exact hl (List.cons.inj (List.cons.inj heq).2).1
  · intro heq
    exact hdash (List.cons.inj (List.cons.inj heq).2).1

theorem take_two_longName (option : Valued) : option.longName.take 2 = [0x2D, 0x2D] := by
  cases option <;> decide

theorem equals_not_mem_longName (option : Valued) : (0x3D : UInt8) ∉ option.longName := by
  cases option <;> decide

theorem longName_ne_flag (option : Valued) :
    option.longName ≠ lit "-l" ∧ option.longName ≠ lit "--list-voices" := by
  cases option <;> decide

/-- No letter of an option is that of a flag, or a dash. -/
theorem shortName_ne {option : Valued} {c : UInt8} (h : option.shortName = some c) :
    c ≠ 0x6C ∧ c ≠ 0x2D := by
  cases option <;> cases h <;> decide

theorem fits_of_wellFormed {item : Item UInt8 Valued} (h : WellFormed item) :
    grammar.Fits item := by
  cases item with
  | flag tok =>
      rw [Grammar.Fits, flag_eq_some h]
      rfl
  | long key option value attached =>
      obtain ⟨rfl, _, hseparate⟩ := h
      refine ⟨?_, take_two_longName option, equals_not_mem_longName option,
        longOption_eq_ok_iff.mpr rfl, hseparate⟩
      cases attached with
      | true =>
          apply flag_eq_none_of_equals
          simp [Grammar.head, grammar]
      | false => exact flag_eq_none_iff.mpr (longName_ne_flag option)
  | short c option value attached =>
      obtain ⟨hname, _, hvalue⟩ := h
      obtain ⟨hl, hdash⟩ := shortName_ne hname
      refine ⟨?_, hdash, shortOption_eq_ok_iff.mpr hname, hvalue⟩
      cases attached with
      | true => exact flag_eq_none_of_second hl hdash value
      | false => exact flag_eq_none_of_second hl hdash []

theorem wellFormed_of_effect {item : Item UInt8 Valued} {st st' : State}
    (hfits : grammar.Fits item) (heffect : grammar.effect item st = .ok st') :
    WellFormed item := by
  cases item with
  | flag tok =>
      by_contra hn
      have hflag : grammar.flag tok = none := if_neg hn
      rw [Grammar.Fits, hflag] at hfits
      cases hfits
  | long key option value attached =>
      obtain ⟨_, _, _, hlong, hseparate⟩ := hfits
      exact ⟨longOption_eq_ok_iff.mp hlong, setValue_accepts heffect, hseparate⟩
  | short c option value attached =>
      obtain ⟨_, _, hshort, hvalue⟩ := hfits
      exact ⟨shortOption_eq_ok_iff.mp hshort, setValue_accepts heffect, hvalue⟩

/-- The effects of items, one after the other: all of them are well formed, and the state
is that of the items. -/
theorem foldlM_effect_iff {items : List (Item UInt8 Valued)}
    (hfits : ∀ item ∈ items, grammar.Fits item) {st : State} :
    items.foldlM (fun st item => grammar.effect item st) {} = .ok st ↔
      (∀ item ∈ items, WellFormed item) ∧ st = stateOf items := by
  induction items using List.reverseRecOn generalizing st with
  | nil =>
      rw [List.foldlM_nil]
      constructor
      · intro h
        cases h
        exact ⟨by simp, rfl⟩
      · rintro ⟨_, rfl⟩
        rfl
  | append_singleton items item ih =>
      simp only [List.mem_append, List.mem_singleton, or_imp, forall_and, forall_eq] at hfits ⊢
      obtain ⟨hfits, hitem⟩ := hfits
      rw [List.foldlM_append]
      simp only [List.foldlM_cons, List.foldlM_nil, bind_pure]
      constructor
      · intro h
        cases hfold : items.foldlM (fun st item => grammar.effect item st) {} with
        | error e =>
            rw [hfold] at h
            cases h
        | ok st₁ =>
            obtain ⟨hall, rfl⟩ := (ih hfits).mp hfold
            rw [hfold] at h
            have heffect : grammar.effect item (stateOf items) = .ok st := h
            have hwell := wellFormed_of_effect hitem heffect
            rw [effect_stateOf hwell] at heffect
            cases heffect
            exact ⟨⟨hall, hwell⟩, rfl⟩
      · rintro ⟨⟨hall, hwell⟩, rfl⟩
        rw [(ih hfits).mpr ⟨hall, rfl⟩]
        exact effect_stateOf hwell items

/-- **The loop accepts the concatenations of items**, and nothing else. -/
theorem scan_eq_ok_iff {tokens : List Bytes} {st : State} :
    grammar.scan {} tokens = .ok st ↔
      ∃ items, (∀ item ∈ items, WellFormed item) ∧ tokens = items.flatMap grammar.tokens ∧
        st = stateOf items := by
  rw [Grammar.scan_eq_ok_iff (by decide)]
  constructor
  · rintro ⟨items, hfits, htokens, hfold⟩
    obtain ⟨hall, hst⟩ := (foldlM_effect_iff hfits).mp hfold
    exact ⟨items, hall, htokens, hst⟩
  · rintro ⟨items, hall, htokens, hst⟩
    have hfits : ∀ item ∈ items, grammar.Fits item := fun item h => fits_of_wellFormed (hall item h)
    exact ⟨items, hfits, htokens, (foldlM_effect_iff hfits).mpr ⟨hall, hst⟩⟩

/-! ## The result -/

/-- A token that is handled before anything else. -/
def IsSpecial (tok : Bytes) : Prop :=
  tok = lit "-h" ∨ tok = lit "--help" ∨ tok = lit "--version"

theorem specialResult_eq_none_iff {tok : Bytes} : specialResult tok = none ↔ ¬ IsSpecial tok := by
  rw [specialResult, IsSpecial]
  by_cases hhelp : tok = lit "-h" ∨ tok = lit "--help"
  · rw [if_pos hhelp]
    simp only [reduceCtorEq, false_iff, not_not]
    tauto
  · rw [if_neg hhelp]
    by_cases hversion : tok = lit "--version"
    · simp [hversion]
    · rw [if_neg hversion]
      tauto

theorem findSome?_specialResult {tokens : List Bytes} (h : ∀ tok ∈ tokens, ¬ IsSpecial tok) :
    tokens.findSome? specialResult = none :=
  List.findSome?_eq_none_iff.mpr fun tok htok => specialResult_eq_none_iff.mpr (h tok htok)

/-- **The first special token decides**, whatever follows it. -/
theorem parse_special {before after : List Bytes} {tok : Bytes} {result : ParseResult}
    (hbefore : ∀ t ∈ before, ¬ IsSpecial t) (htok : specialResult tok = some result) :
    parse (before ++ tok :: after) = result := by
  rw [parse, List.findSome?_append, findSome?_specialResult hbefore, Option.none_or,
    List.findSome?_cons, htok]

theorem exactlyOne_iff {a b c : Bool} : ExactlyOne a b c ↔ a.toNat + b.toNat + c.toNat = 1 := by
  cases a <;> cases b <;> cases c <;> decide

theorem finish_of_exactlyOne {st : State}
    (h : ExactlyOne st.seenText st.seenFile st.seenListVoices) :
    finish st = { arguments := st.args, exitCode := 0,
                  action := if st.seenListVoices then .listVoices else .synthesize } := by
  rw [exactlyOne_iff] at h
  simp [finish, h]

theorem finish_of_not_exactlyOne {st : State}
    (h : ¬ ExactlyOne st.seenText st.seenFile st.seenListVoices) :
    (finish st).action = .error ∧ (finish st).exitCode = 2 := by
  rw [exactlyOne_iff] at h
  rw [finish]
  by_cases hzero : st.seenText.toNat + st.seenFile.toNat + st.seenListVoices.toNat = 0
  · simp [hzero]
  · have hmany : 1 < st.seenText.toNat + st.seenFile.toNat + st.seenListVoices.toNat := by omega
    simp only [hzero, if_false, gt_iff_lt, hmany, if_true, and_self]

theorem parse_accepted {items : List (Item UInt8 Valued)} {tokens : List Bytes}
    (h : Accepted items tokens) (hspecial : ∀ tok ∈ tokens, ¬ IsSpecial tok) :
    parse tokens = { arguments := argumentsOf items, exitCode := 0,
                     action := if items.any listsVoices then .listVoices else .synthesize } := by
  have hscan := scan_eq_ok_iff.mpr ⟨items, h.wellFormed, h.tokens_eq, rfl⟩
  rw [parse, findSome?_specialResult hspecial]
  simp only [hscan]
  exact finish_of_exactlyOne h.oneGroup

theorem parse_rejected {tokens : List Bytes} (h : ¬ ∃ items, Accepted items tokens)
    (hspecial : ∀ tok ∈ tokens, ¬ IsSpecial tok) :
    (parse tokens).action = .error ∧ (parse tokens).exitCode = 2 := by
  rw [parse, findSome?_specialResult hspecial]
  cases hscan : grammar.scan {} tokens with
  | error message => exact ⟨rfl, rfl⟩
  | ok st =>
      obtain ⟨items, hall, htokens, rfl⟩ := scan_eq_ok_iff.mp hscan
      apply finish_of_not_exactlyOne
      intro hgroup
      exact h ⟨items, hall, htokens, hgroup⟩

/-- The parser accepts exactly its grammar.  Without a special token, the result is a
success for the command lines made of items with one of the three groups, and then it is
read off the items; it is an error for all others. -/
theorem parse_grammar (tokens : List Bytes) :
    (∀ before tok after, tokens = before ++ tok :: after → (∀ t ∈ before, ¬ IsSpecial t) →
      (tok = lit "-h" ∨ tok = lit "--help" →
        (parse tokens).action = .help ∧ (parse tokens).exitCode = 0) ∧
      (tok = lit "--version" →
        (parse tokens).action = .version ∧ (parse tokens).exitCode = 0)) ∧
    ((∀ tok ∈ tokens, ¬ IsSpecial tok) →
      ((parse tokens).exitCode = 0 ↔ ∃ items, Accepted items tokens) ∧
      (∀ items, Accepted items tokens →
        (parse tokens).arguments = argumentsOf items ∧
        ExactlyOne (parse tokens).arguments.text.isSome (parse tokens).arguments.file.isSome
          (parse tokens).arguments.listVoices ∧
        (parse tokens).action =
          if (parse tokens).arguments.listVoices then .listVoices else .synthesize) ∧
      ((¬ ∃ items, Accepted items tokens) →
        (parse tokens).action = .error ∧ (parse tokens).exitCode = 2)) := by
  refine ⟨?_, ?_⟩
  · rintro before tok after rfl hbefore
    constructor
    · intro hhelp
      have htok : specialResult tok =
          some { action := .help, message := helpText (lit "edge-tts"), exitCode := 0 } :=
        if_pos hhelp
      rw [parse_special hbefore htok]
      exact ⟨rfl, rfl⟩
    · rintro rfl
      have htok : specialResult (lit "--version") =
          some { action := .version, message := versionString, exitCode := 0 } := by
        rw [specialResult, if_neg (by decide), if_pos rfl]
      rw [parse_special hbefore htok]
      exact ⟨rfl, rfl⟩
  · intro hspecial
    refine ⟨⟨?_, ?_⟩, ?_, ?_⟩
    · intro hcode
      by_contra hnone
      rw [(parse_rejected hnone hspecial).2] at hcode
      cases hcode
    · rintro ⟨items, haccepted⟩
      rw [parse_accepted haccepted hspecial]
    · intro items haccepted
      rw [parse_accepted haccepted hspecial]
      refine ⟨rfl, ?_, rfl⟩
      show ExactlyOne (lastValue .text items).isSome (lastValue .file items).isSome _
      rw [isSome_lastValue, isSome_lastValue]
      exact haccepted.oneGroup
    · intro hnone
      exact parse_rejected hnone hspecial

/-- The text given last is spoken, and a value that starts with a dash follows an equals
sign. -/
theorem parse_grammar_repeated :
    let tokens := [lit "-tOne", lit "--rate=-5%", lit "--text", lit "Two"]
    (parse tokens).exitCode = 0 ∧ (parse tokens).action = .synthesize ∧
      (parse tokens).arguments = { text := some (lit "Two"), rate := lit "-5%" } := by
  intro tokens
  let items : List (Item UInt8 Valued) := [.short 0x74 .text (lit "One") true,
    .long (lit "--rate") .rate (lit "-5%") true, .long (lit "--text") .text (lit "Two") false]
  have accepted : Accepted items tokens := by
    refine ⟨?_, by decide, by decide⟩
    intro item hitem
    simp only [items, List.mem_cons, List.not_mem_nil, or_false] at hitem
    rcases hitem with rfl | rfl | rfl
    · exact ⟨rfl, nofun, by decide⟩
    · exact ⟨rfl, nofun, nofun⟩
    · exact ⟨rfl, nofun, fun _ => by decide⟩
  have special : ∀ tok ∈ tokens, ¬ IsSpecial tok := by
    simp only [tokens, IsSpecial]
    decide
  obtain ⟨hcode, hresult, -⟩ := (parse_grammar tokens).2 special
  obtain ⟨harguments, -, haction⟩ := hresult items accepted
  rw [harguments] at haction ⊢
  exact ⟨hcode.mpr ⟨items, accepted⟩, haction, by decide⟩

end EdgeTtsArgumentParser
end EdgeTts
