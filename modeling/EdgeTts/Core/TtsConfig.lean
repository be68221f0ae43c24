import EdgeTts.Lib.Regex
import EdgeTts.Lib.Search
import EdgeTts.Common.Error

/-!
# `core/TtsConfig.cpp` and `core/OutputFormat.cpp`

The configuration of a synthesis and its validation.  The patterns are anchored
and used with `regex_match`, so `^` and `$` add nothing and are left out.
-/
namespace EdgeTts

open Regex (Expr fullMatch)

/-- `KNOWN_FORMATS`. -/
def knownFormats : List Bytes := [lit "audio-24khz-48kbitrate-mono-mp3"]

/-- `core::OutputFormat`; its constructor is private, so a value is a known format. -/
structure OutputFormat where
  value : Bytes
  known : value ∈ knownFormats
  deriving DecidableEq

namespace OutputFormat

def defaultFormat : OutputFormat :=
  ⟨lit "audio-24khz-48kbitrate-mono-mp3", List.mem_singleton.mpr rfl⟩

end OutputFormat

inductive BoundaryType where
  | word
  | sentence
  deriving DecidableEq, Repr

structure TtsConfig where
  voice : Bytes := lit "en-US-EmmaMultilingualNeural"
  rate : Bytes := lit "+0%"
  volume : Bytes := lit "+0%"
  pitch : Bytes := lit "+0Hz"
  outputFormat : OutputFormat := .defaultFormat
  boundaryType : BoundaryType := .sentence
  deriving DecidableEq

def TtsConfig.defaults : TtsConfig := {}

/-! ## Patterns -/

/-- `.`, in the ECMAScript grammar any character but a line terminator. -/
def anyChar (c : UInt8) : Bool := c != 0x0A && c != 0x0D

/-- `[a-z]`. -/
def lowerCase (c : UInt8) : Bool := 0x61 ≤ c && c ≤ 0x7A

/-- `[A-Z]`. -/
def upperCase (c : UInt8) : Bool := 0x41 ≤ c && c ≤ 0x5A

/-- `\d`. -/
def digit (c : UInt8) : Bool := 0x30 ≤ c && c ≤ 0x39

/-- `[+-]`. -/
def sign (c : UInt8) : Bool := c == 0x2B || c == 0x2D

/-- `Microsoft Server Speech Text to Speech Voice \(.+, .+\)`. -/
def fullVoiceRe : Expr UInt8 :=
  .seq (.lit (lit "Microsoft Server Speech Text to Speech Voice ("))
    (.seq (.atLeast 1 anyChar) (.seq (.lit (lit ", "))
      (.seq (.atLeast 1 anyChar) (.lit (lit ")")))))

/-- `([a-z]{2,})-([A-Z]{2,})-(.+Neural)`. -/
def shortVoiceRe : Expr UInt8 :=
  .seq (.group (.atLeast 2 lowerCase)) (.seq (.lit (lit "-"))
    (.seq (.group (.atLeast 2 upperCase)) (.seq (.lit (lit "-"))
      (.group (.seq (.atLeast 1 anyChar) (.lit (lit "Neural")))))))

/-- `[+-]\d+` and a unit, the pattern of the prosody fields. -/
def prosodyRe (unit : Bytes) : Expr UInt8 :=
  .seq (.one sign) (.seq (.atLeast 1 digit) (.lit unit))

def rateRe : Expr UInt8 := prosodyRe (lit "%")

def volumeRe : Expr UInt8 := prosodyRe (lit "%")

def pitchRe : Expr UInt8 := prosodyRe (lit "Hz")

/-! ## Validation -/

/-- `normalize_voice_name`. -/
def normalizeVoiceName (voice : Bytes) : Option Bytes :=
  if (fullMatch fullVoiceRe voice).isSome then some voice
  else
    match fullMatch shortVoiceRe voice with
    | some [lang, region, name] =>
        let (region, name) :=
          match Search.find [0x2D] name with
          | some dash => (region ++ lit "-" ++ name.take dash, name.drop (dash + 1))
          | none => (region, name)
        some (lit "Microsoft Server Speech Text to Speech Voice" ++ lit " (" ++ lang ++ lit "-" ++
          region ++ lit ", " ++ name ++ lit ")")
    | _ => none

/-- The error of a field that fails its check. -/
def invalidValue (field value : Bytes) : Error :=
  ⟨.invalidArgument, field ++ lit ": invalid value", value⟩

/-- `validate_tts_config`. -/
def validateTtsConfig (config : TtsConfig) : Result Unit :=
  if (normalizeVoiceName config.voice).isNone then .error (invalidValue (lit "voice") config.voice)
  else if (fullMatch rateRe config.rate).isNone then .error (invalidValue (lit "rate") config.rate)
  else if (fullMatch volumeRe config.volume).isNone then
    .error (invalidValue (lit "volume") config.volume)
  else if (fullMatch pitchRe config.pitch).isNone then
    .error (invalidValue (lit "pitch") config.pitch)
  else .ok ()

/-- `common::ConfigurationError`. -/
structure ConfigurationError where
  what : Bytes
  deriving DecidableEq, Repr

/-- `TtsConfig::validate`: what it throws, if anything, and the configuration that it leaves. -/
def TtsConfig.validate (config : TtsConfig) : Except ConfigurationError Unit × TtsConfig :=
  match normalizeVoiceName config.voice with
  | none => (.error ⟨lit "Invalid voice '" ++ config.voice ++ lit "'"⟩, config)
  | some normalized =>
      let config := { config with voice := normalized }
      match validateTtsConfig config with
      | .error e => (.error ⟨e.message ++ lit ": " ++ e.context⟩, config)
      | .ok () => (.ok (), config)

/-- What a valid configuration holds. -/
theorem validateTtsConfig_ok {config : TtsConfig} (h : validateTtsConfig config = .ok ()) :
    (∃ w, normalizeVoiceName config.voice = some w) ∧
      (∃ caps, Regex.Matches rateRe config.rate caps) ∧
      (∃ caps, Regex.Matches volumeRe config.volume caps) ∧
      ∃ caps, Regex.Matches pitchRe config.pitch caps := by
  have some_of : ∀ {r : Expr UInt8} {s : Bytes}, ¬ (fullMatch r s).isNone = true →
      ∃ caps, Regex.Matches r s caps := fun hn =>
    Regex.fullMatch_isSome_iff.mp (by simpa [Option.isSome_iff_ne_none] using hn)
  rw [validateTtsConfig] at h
  split at h
  · cases h
  rename_i hvoice
  split at h
  · cases h
  rename_i hrate
  split at h
  · cases h
  rename_i hvolume
  split at h
  · cases h
  rename_i hpitch
  refine ⟨Option.isSome_iff_exists.mp ?_, some_of hrate, some_of hvolume, some_of hpitch⟩
  simpa [Option.isSome_iff_ne_none] using hvoice

/-- The characters of a prosody field. -/
theorem mem_of_prosodyRe {unit s : Bytes} {caps : List Bytes}
    (h : Regex.Matches (prosodyRe unit) s caps) {c : UInt8} (hc : c ∈ s) :
    sign c = true ∨ digit c = true ∨ c ∈ unit := by
  obtain ⟨u, v, _, _, rfl, -, ⟨⟨x, rfl, hx⟩, -⟩, d, w, _, _, rfl, -, ⟨-, hd, -⟩, rfl, -⟩ := h
  rcases List.mem_append.mp hc with hc | hc
  · exact Or.inl (List.mem_singleton.mp hc ▸ hx)
  · rcases List.mem_append.mp hc with hc | hc
    · exact Or.inr (Or.inl (hd c hc))
    · exact Or.inr (Or.inr hc)

/-! ## What `validate` leaves behind -/

/-- The exits of `validate`: the voice is assigned before the other fields are checked. -/
theorem TtsConfig.validate_cases (config : TtsConfig) :
    (normalizeVoiceName config.voice = none ∧ ∃ e, config.validate = (.error e, config)) ∨
    ∃ full, normalizeVoiceName config.voice = some full ∧
      ((∃ e e', validateTtsConfig { config with voice := full } = .error e ∧
          config.validate = (.error e', { config with voice := full })) ∨
        (validateTtsConfig { config with voice := full } = .ok () ∧
          config.validate = (.ok (), { config with voice := full }))) := by
  rw [validate]
  cases hvoice : normalizeVoiceName config.voice with
  | none => exact .inl ⟨rfl, _, rfl⟩
  | some full =>
      refine .inr ⟨full, rfl, ?_⟩
      dsimp only
      cases hvalid : validateTtsConfig { config with voice := full } with
      | error e => exact .inl ⟨e, _, rfl, rfl⟩
      | ok u => exact .inr ⟨rfl, rfl⟩

/-- A configuration that `validate` leaves without an exception. -/
theorem TtsConfig.validate_eq_ok {config config' : TtsConfig}
    (h : config.validate = (.ok (), config')) :
    ∃ full, normalizeVoiceName config.voice = some full ∧
      config' = { config with voice := full } ∧ validateTtsConfig config' = .ok () := by
  rcases config.validate_cases with
    ⟨-, e, herror⟩ | ⟨full, hfull, ⟨e, e', -, herror⟩ | ⟨hvalid, hok⟩⟩
  · rw [herror] at h
    cases h
  · rw [herror] at h
    cases h
  · rw [hok] at h
    cases h
    exact ⟨full, hfull, rfl, hvalid⟩

/-- A configuration that `validate` leaves with an exception. -/
theorem TtsConfig.validate_eq_error {config config' : TtsConfig} {e : ConfigurationError}
    (h : config.validate = (.error e, config')) :
    (normalizeVoiceName config.voice = none ∧ config' = config) ∨
    ∃ full, normalizeVoiceName config.voice = some full ∧
      config' = { config with voice := full } ∧ ∃ e', validateTtsConfig config' = .error e' := by
  rcases config.validate_cases with
    ⟨hnone, e', herror⟩ | ⟨full, hfull, ⟨e', e'', hinvalid, herror⟩ | ⟨-, hok⟩⟩
  · rw [herror] at h
    cases h
    exact .inl ⟨hnone, rfl⟩
  · rw [herror] at h
    cases h
    exact .inr ⟨full, hfull, rfl, e', hinvalid⟩
  · rw [hok] at h
    cases h

/-- **What `validate` leaves behind.**  Without a voice name it throws and has changed nothing.
Otherwise the voice is the normal form of the old one and no other field has changed: it returns
when this configuration is valid, and throws when it is not.  So an exception has changed
nothing just where there is no normal form but the voice itself. -/
theorem TtsConfig.validate_effect (config : TtsConfig) :
    (∀ config', config.validate = (.ok (), config') →
      ∃ full, normalizeVoiceName config.voice = some full ∧
        config' = { config with voice := full } ∧ validateTtsConfig config' = .ok ()) ∧
    ∀ e config', config.validate = (.error e, config') →
      ((normalizeVoiceName config.voice = none ∧ config' = config) ∨
        ∃ full, normalizeVoiceName config.voice = some full ∧
          config' = { config with voice := full } ∧ ∃ e', validateTtsConfig config' = .error e') ∧
      (config' = config ↔ ∀ full, normalizeVoiceName config.voice = some full →
        full = config.voice) := by
  refine ⟨fun config' h => validate_eq_ok h, fun e config' h => ?_⟩
  have heffect := validate_eq_error h
  refine ⟨heffect, ?_⟩
  rcases heffect with ⟨hnone, rfl⟩ | ⟨full, hfull, rfl, -⟩
  · simp [hnone]
  · constructor
    · intro hsame full' hfull'
      rw [hfull] at hfull'
      exact (Option.some.inj hfull').symm.trans (congrArg TtsConfig.voice hsame)
    · intro hvoice
      rw [hvoice full hfull]

/-- A short voice name is accepted and replaced before the rate is refused. -/
theorem TtsConfig.not_validate_atomic :
    ∃ e config', ({ rate := lit "fast" } : TtsConfig).validate = (.error e, config') ∧
      config'.voice =
        lit "Microsoft Server Speech Text to Speech Voice (en-US, EmmaMultilingualNeural)" ∧
      config'.voice ≠ ({ rate := lit "fast" } : TtsConfig).voice := by
  exact ⟨_, _, rfl, by decide +kernel, by decide +kernel⟩

/-- The defaults pass their own check. -/
theorem validateTtsConfig_defaults : validateTtsConfig .defaults = .ok () := by decide

end EdgeTts
