import EdgeTts.Core.VoiceNames
import EdgeTts.Serialization.XmlEscaper
import EdgeTts.Serialization.TextNormalizer

/-!
# `serialization/SsmlBuilder.cpp`

One SSML document for one text chunk.  `readSsml` reads a document back by the
rules of XML that matter here: an attribute value ends at the first single quote
and element content runs to the next `<`.  The prosody values and the escaped text
are always read back; the voice name is embedded as it is, and is read back just
when it holds neither of the two characters (`SsmlBuilder.readsBack_iff`).
-/
namespace EdgeTts

open Search (splitFirst)

/-- `assemble_ssml`. -/
def assembleSsml (voice : Bytes) (config : TtsConfig) (escapedContent : Bytes) : Bytes :=
  lit "<speak version='1.0' xmlns='http://www.w3.org/2001/10/synthesis' xml:lang='en-US'>" ++
    lit "<voice name='" ++ voice ++ lit "'>" ++
    lit "<prosody pitch='" ++ config.pitch ++ lit "' rate='" ++ config.rate ++
    lit "' volume='" ++ config.volume ++ lit "'>" ++
    escapedContent ++ lit "</prosody>" ++ lit "</voice>" ++ lit "</speak>"

/-- `validate_and_normalize_voice`. -/
def validateAndNormalizeVoice (config : TtsConfig) : Outcome Bytes := do
  Outcome.ofResult (validateTtsConfig config)
  match normalizeVoiceName config.voice with
  | some voice => return voice
  | none => .escape .emptyOptional

namespace SsmlBuilder

def build (config : TtsConfig) (rawText : Bytes) : Outcome Bytes := do
  let voice ← validateAndNormalizeVoice config
  let norm ← Outcome.ofResult (TextNormalizer.normalize rawText)
  return assembleSsml voice config (xmlEscape norm)

def buildFromEscapedText (config : TtsConfig) (escapedText : Bytes) : Outcome Bytes := do
  let voice ← validateAndNormalizeVoice config
  return assembleSsml voice config escapedText

end SsmlBuilder

/-- Validation has accepted the voice, so the empty optional is not reached. -/
theorem validateAndNormalizeVoice_eq (config : TtsConfig) :
    (∃ voice, validateTtsConfig config = .ok () ∧ normalizeVoiceName config.voice = some voice ∧
      validateAndNormalizeVoice config = .ok voice) ∨
    ∃ e, validateTtsConfig config = .error e ∧ validateAndNormalizeVoice config = .fail e := by
  cases h : validateTtsConfig config with
  | error e => exact Or.inr ⟨e, rfl, by rw [validateAndNormalizeVoice, h]; rfl⟩
  | ok _ =>
      obtain ⟨voice, hv⟩ := (validateTtsConfig_ok h).1
      exact Or.inl ⟨voice, rfl, hv, by rw [validateAndNormalizeVoice, h, hv]; rfl⟩

theorem SsmlBuilder.buildFromEscapedText_returns (config : TtsConfig) (escapedText : Bytes) :
    (buildFromEscapedText config escapedText).Returns := by
  intro x h
  rw [buildFromEscapedText] at h
  rcases validateAndNormalizeVoice_eq config with ⟨voice, -, -, hv⟩ | ⟨e, -, hv⟩ <;>
    rw [hv] at h <;> cases h

theorem SsmlBuilder.build_eq_ok {config : TtsConfig} {text doc : Bytes}
    (h : build config text = .ok doc) : ∃ voice norm, validateTtsConfig config = .ok () ∧
      normalizeVoiceName config.voice = some voice ∧ TextNormalizer.normalize text = .ok norm ∧
      doc = assembleSsml voice config (xmlEscape norm) := by
  rcases validateAndNormalizeVoice_eq config with ⟨voice, hval, hvoice, hv⟩ | ⟨e, -, hv⟩
  · rw [build, hv, Outcome.ok_bind] at h
    cases hn : TextNormalizer.normalize text with
    | error e =>
        rw [hn] at h
        cases h
    | ok norm =>
        rw [hn] at h
        cases h
        exact ⟨voice, norm, hval, hvoice, rfl, rfl⟩
  · rw [build, hv] at h
    cases h

/-- A valid configuration and a valid text make a document. -/
theorem SsmlBuilder.build_of_valid {config : TtsConfig} {text : Bytes}
    (hval : validateTtsConfig config = .ok ()) (htext : Utf8.Valid text) :
    ∃ doc, build config text = .ok doc := by
  rcases validateAndNormalizeVoice_eq config with ⟨voice, -, -, hv⟩ | ⟨e, he, -⟩
  · rw [build, hv, Outcome.ok_bind, (TextNormalizer.normalize_of_valid htext).1]
    exact ⟨_, rfl⟩
  · rw [hval] at he
    cases he

/-! ## Reading a document back -/

/-- The values of a document. -/
structure SsmlFields where
  voice : Bytes
  pitch : Bytes
  rate : Bytes
  volume : Bytes
  content : Bytes
  deriving DecidableEq, Repr

/-- The text after an expected piece. -/
def expect (piece text : Bytes) : Option Bytes :=
  if piece <+: text then some (text.drop piece.length) else none

/-- Read a document by the rules of the module's introduction. -/
def readSsml (doc : Bytes) : Option SsmlFields := do
  let doc ← expect
    (lit "<speak version='1.0' xmlns='http://www.w3.org/2001/10/synthesis' xml:lang='en-US'>") doc
  let doc ← expect (lit "<voice name='") doc
  let (voice, doc) ← splitFirst [0x27] doc
  let doc ← expect (lit "><prosody pitch='") doc
  let (pitch, doc) ← splitFirst [0x27] doc
  let doc ← expect (lit " rate='") doc
  let (rate, doc) ← splitFirst [0x27] doc
  let doc ← expect (lit " volume='") doc
  let (volume, doc) ← splitFirst [0x27] doc
  let doc ← expect (lit ">") doc
  let (content, doc) ← splitFirst [0x3C] doc
  let doc ← expect (lit "/prosody></voice></speak>") doc
  if doc.isEmpty then some { voice, pitch, rate, volume, content } else none

/-- The reader passes an expected piece. -/
theorem expect_bind {α : Type} (piece text : Bytes) (k : Bytes → Option α) :
    (expect piece (piece ++ text) >>= k) = k text := by
  rw [expect, if_pos (List.prefix_append piece text), List.drop_left]
  rfl

/-- The reader takes a value up to the byte that ends it. -/
theorem splitFirst_bind {α : Type} {q : UInt8} {a : Bytes} (h : q ∉ a) (b : Bytes)
    (k : Bytes × Bytes → Option α) : (splitFirst [q] (a ++ ([q] ++ b)) >>= k) = k (a, b) := by
  have hsplit : splitFirst [q] (a ++ [q] ++ b) = some (a, b) :=
    Search.splitFirst_append b (Search.fresh_of_not_mem h)
  rw [← List.append_assoc, hsplit]
  rfl

/-- The document, cut where the reader cuts it. -/
theorem assembleSsml_eq (voice : Bytes) (config : TtsConfig) (content : Bytes) :
    assembleSsml voice config content =
      lit "<speak version='1.0' xmlns='http://www.w3.org/2001/10/synthesis' xml:lang='en-US'>" ++
      (lit "<voice name='" ++ (voice ++ ([0x27] ++ (lit "><prosody pitch='" ++
      (config.pitch ++ ([0x27] ++ (lit " rate='" ++ (config.rate ++ ([0x27] ++
      (lit " volume='" ++ (config.volume ++ ([0x27] ++ (lit ">" ++ (content ++ ([0x3C] ++
      (lit "/prosody></voice></speak>" ++ [])))))))))))))))) := by
  have h1 : lit "><prosody pitch='" = lit ">" ++ lit "<prosody pitch='" := rfl
  have h2 : lit "'>" = [0x27] ++ lit ">" := rfl
  have h3 : lit "' rate='" = [0x27] ++ lit " rate='" := rfl
  have h4 : lit "' volume='" = [0x27] ++ lit " volume='" := rfl
  have h5 : lit "</prosody>" = [0x3C] ++ lit "/prosody>" := rfl
  have h6 : lit "/prosody></voice></speak>" =
    lit "/prosody>" ++ (lit "</voice>" ++ lit "</speak>") := rfl
  simp only [assembleSsml, h1, h2, h3, h4, h5, h6, List.append_assoc, List.append_nil]

theorem readSsml_assembleSsml {voice content : Bytes} {config : TtsConfig}
    (hvoice : (0x27 : UInt8) ∉ voice) (hpitch : (0x27 : UInt8) ∉ config.pitch)
    (hrate : (0x27 : UInt8) ∉ config.rate) (hvolume : (0x27 : UInt8) ∉ config.volume)
    (hcontent : (0x3C : UInt8) ∉ content) :
    readSsml (assembleSsml voice config content) =
      some ⟨voice, config.pitch, config.rate, config.volume, content⟩ := by
  rw [assembleSsml_eq]
  -- step by step from the outside, so that no step looks into the rest of the reader
  simp only [readSsml, ↓expect_bind, ↓splitFirst_bind hvoice, ↓splitFirst_bind hpitch,
    ↓splitFirst_bind hrate, ↓splitFirst_bind hvolume, ↓splitFirst_bind hcontent,
    List.isEmpty_nil, if_true]

/-- What the reader finds as the voice ends at the first quote. -/
theorem quote_not_mem_of_readSsml {voice content : Bytes} {config : TtsConfig} {fields : SsmlFields}
    (h : readSsml (assembleSsml voice config content) = some fields) (hv : fields.voice = voice) :
    (0x27 : UInt8) ∉ voice := by
  rw [assembleSsml_eq] at h
  simp only [readSsml, ↓expect_bind] at h
  obtain ⟨⟨found, rest⟩, hs, h⟩ := Option.bind_eq_some_iff.mp h
  have hfound : fields.voice = found := by
    simp only [Option.bind_eq_bind, Option.bind_eq_some_iff, Option.ite_none_right_eq_some,
      Option.some.injEq] at h
    obtain ⟨_, -, _, -, _, -, _, -, _, -, _, -, _, -, _, -, _, -, -, rfl⟩ := h
    rfl
  obtain ⟨-, hf⟩ := Search.splitFirst_sound hs
  rw [← hfound, hv] at hf
  exact Search.fresh_singleton_iff.mp hf

/-- The template holds six `<`; the others come from the values. -/
theorem count_lt_assembleSsml (voice : Bytes) (config : TtsConfig) (content : Bytes) :
    (assembleSsml voice config content).count 0x3C = 6 + voice.count 0x3C +
      config.pitch.count 0x3C + config.rate.count 0x3C + config.volume.count 0x3C +
      content.count 0x3C := by
  have h0 : List.count 0x3C (lit
    "<speak version='1.0' xmlns='http://www.w3.org/2001/10/synthesis' xml:lang='en-US'>") = 1 := by
    decide
  have h1 : (lit "<voice name='").count 0x3C = 1 := by decide
  have h2 : (lit "'>").count 0x3C = 0 := by decide
  have h3 : (lit "<prosody pitch='").count 0x3C = 1 := by decide
  have h4 : (lit "' rate='").count 0x3C = 0 := by decide
  have h5 : (lit "' volume='").count 0x3C = 0 := by decide
  have h6 : (lit "</prosody>").count 0x3C = 1 := by decide
  have h7 : (lit "</voice>").count 0x3C = 1 := by decide
  have h8 : (lit "</speak>").count 0x3C = 1 := by decide
  simp only [assembleSsml, List.count_append, h0, h1, h2, h3, h4, h5, h6, h7, h8]
  omega

/-- A valid prosody value holds no quote and no `<`. -/
theorem prosody_plain {unit s : Bytes} {caps : List Bytes}
    (h : Regex.Matches (prosodyRe unit) s caps) (hunit : ∀ c ∈ unit, c ≠ 0x27 ∧ c ≠ 0x3C) :
    (0x27 : UInt8) ∉ s ∧ (0x3C : UInt8) ∉ s := by
  constructor <;> intro hm
  · rcases mem_of_prosodyRe h hm with hc | hc | hc
    · revert hc
      decide
    · revert hc
      decide
    · exact (hunit _ hc).1 rfl
  · rcases mem_of_prosodyRe h hm with hc | hc | hc
    · revert hc
      decide
    · revert hc
      decide
    · exact (hunit _ hc).2 rfl

/-- The document reads back as the configuration and the text it was built from,
and its only `<` are those of the template's six tags. -/
def ReadsBack (config : TtsConfig) (text doc : Bytes) : Prop :=
  (∃ fields norm, readSsml doc = some fields ∧
    normalizeVoiceName config.voice = some fields.voice ∧ fields.pitch = config.pitch ∧
    fields.rate = config.rate ∧ fields.volume = config.volume ∧
    TextNormalizer.normalize text = .ok norm ∧ xmlUnescape fields.content = norm) ∧
  doc.count 0x3C = 6

/-- A document that reads back has a voice name without quote and `<`. -/
theorem ReadsBack.voice_plain {config : TtsConfig} {text doc : Bytes}
    (h : SsmlBuilder.build config text = .ok doc) (hr : ReadsBack config text doc) :
    (0x27 : UInt8) ∉ config.voice ∧ (0x3C : UInt8) ∉ config.voice := by
  obtain ⟨voice, norm, hval, hvoice, hnorm, rfl⟩ := SsmlBuilder.build_eq_ok h
  obtain ⟨⟨fields, _, hread, hfv, -⟩, hcount⟩ := hr
  rw [← mem_normalizeVoiceName hvoice (c := 0x27) (by decide),
    ← mem_normalizeVoiceName hvoice (c := 0x3C) (by decide)]
  refine ⟨quote_not_mem_of_readSsml hread (Option.some.inj (hfv.symm.trans hvoice)), ?_⟩
  rw [count_lt_assembleSsml] at hcount
  exact List.count_eq_zero.mp (by omega)

/-- **When the document is unambiguous.**  A built document reads back exactly when
the voice name holds no single quote and no `<`. -/
theorem SsmlBuilder.readsBack_iff {config : TtsConfig} {text doc : Bytes}
    (h : build config text = .ok doc) :
    ReadsBack config text doc ↔
      (0x27 : UInt8) ∉ config.voice ∧ (0x3C : UInt8) ∉ config.voice := by
  refine ⟨ReadsBack.voice_plain h, fun hplain => ?_⟩
  obtain ⟨voice, norm, hval, hvoice, hnorm, rfl⟩ := build_eq_ok h
  obtain ⟨-, ⟨_, hrate⟩, ⟨_, hvolume⟩, ⟨_, hpitch⟩⟩ := validateTtsConfig_ok hval
  have hunit : ∀ c ∈ lit "%", c ≠ 0x27 ∧ c ≠ 0x3C := by decide +kernel
  obtain ⟨hpq, hpl⟩ := prosody_plain hpitch (by decide +kernel)
  obtain ⟨hrq, hrl⟩ := prosody_plain hrate hunit
  obtain ⟨hvq, hvl⟩ := prosody_plain hvolume hunit
  have hcl := lt_not_mem_xmlEscape norm
  rw [← mem_normalizeVoiceName hvoice (c := 0x27) (by decide),
    ← mem_normalizeVoiceName hvoice (c := 0x3C) (by decide)] at hplain
  obtain ⟨hq, hl⟩ := hplain
  refine ⟨⟨_, norm, readSsml_assembleSsml hq hpq hrq hvq hcl, hvoice, rfl, rfl, rfl, hnorm,
    xmlUnescape_xmlEscape norm⟩, ?_⟩
  rw [count_lt_assembleSsml, List.count_eq_zero.mpr hl, List.count_eq_zero.mpr hpl,
    List.count_eq_zero.mpr hrl, List.count_eq_zero.mpr hvl, List.count_eq_zero.mpr hcl]

/-- The default voice with a text that has to be escaped. -/
theorem SsmlBuilder.readsBack_defaults :
    ∃ doc, build .defaults (lit "a<b") = .ok doc ∧ ReadsBack .defaults (lit "a<b") doc := by
  obtain ⟨doc, h⟩ := @build_of_valid _ (lit "a<b") validateTtsConfig_defaults
    ⟨['a', '<', 'b'], by decide⟩
  exact ⟨doc, h, (readsBack_iff h).mpr ⟨by decide, by decide⟩⟩

/-- A voice name that validation accepts and that closes its attribute. -/
theorem SsmlBuilder.not_readsBack_quote :
    let config : TtsConfig := { voice := lit "en-US-'><break/>Neural" }
    validateTtsConfig config = .ok () ∧
      ∃ doc, build config (lit "Hi") = .ok doc ∧ ¬ ReadsBack config (lit "Hi") doc := by
  intro config
  have hval : validateTtsConfig config = .ok () := by decide
  obtain ⟨doc, h⟩ := @build_of_valid _ (lit "Hi") hval ⟨['H', 'i'], by decide⟩
  exact ⟨hval, doc, h, fun hr => (hr.voice_plain h).1 (by decide)⟩

end EdgeTts
