import EdgeTts.Lib.Parts
import EdgeTts.Serialization.Json
import Mathlib.Data.List.TakeWhile

/-!
# Voice list documents

What `VoiceJsonParser::parse` makes of a voice list: `Describes` says which voice an entry
describes, field by field, and the parser returns the voices of all entries or none.
-/
namespace EdgeTts

namespace VoiceJsonParser

/-- The entry describes the voice.  Only objects have fields. -/
structure Describes (entry : Json) (voice : Voice) : Prop where
  name : entry.find (lit "Name") = some (.string voice.name)
  shortName : entry.find (lit "ShortName") = some (.string voice.shortName)
  gender : ∃ value, entry.find (lit "Gender") = some (.string value) ∧
    voiceGenderFromString value = .ok voice.gender
  locale : entry.find (lit "Locale") = some (.string voice.locale)
  suggestedCodec : entry.find (lit "SuggestedCodec") = some (.string voice.suggestedCodec)
  friendlyName : entry.find (lit "FriendlyName") = some (.string voice.friendlyName)
  status : entry.find (lit "Status") = some (.string voice.status)
  tags : voiceTag entry = .ok (voice.contentCategories, voice.voicePersonalities)
  language : voice.language = voice.locale.takeWhile (· ≠ 0x2D)

/-- The fields that have to be strings, besides `Gender`. -/
def stringFields : List Bytes :=
  [lit "Name", lit "ShortName", lit "Locale", lit "SuggestedCodec", lit "FriendlyName",
    lit "Status"]

/-- An object with its string fields and a recognised gender, whatever else it has. -/
structure IsVoiceEntry (entry : Json) : Prop where
  strings : ∀ key ∈ stringFields, ∃ value, entry.find key = some (.string value)
  gender : ∃ value, entry.find (lit "Gender") = some (.string value) ∧
    (value = lit "Female" ∨ value = lit "Male")

theorem requireString_eq_ok_iff {obj : Json} {key s : Bytes} :
    requireString obj key = .ok s ↔ obj.find key = some (.string s) := by
  rw [requireString]
  cases hfind : obj.find key with
  | none =>
      constructor
      · intro h
        cases h
      · intro h
        cases h
  | some v =>
      rw [Option.some.injEq]
      cases v with
      | string s' =>
          show Outcome.ok s' = .ok s ↔ _
          rw [Outcome.ok.injEq, Json.string.injEq]
      | _ =>
          constructor
          · intro h
            cases h
          · intro h
            cases h

/-- The part of a text before its first `c`. -/
theorem takeWhile_ne_append {c : UInt8} {a : Bytes} (h : c ∉ a) (b : Bytes) :
    (a ++ c :: b).takeWhile (· ≠ c) = a ∧ a.takeWhile (· ≠ c) = a := by
  have hall : ∀ x ∈ a, decide (x ≠ c) = true := by
    intro x hx
    rw [decide_eq_true_iff]
    rintro rfl
    exact h hx
  constructor
  · exact Search.takeWhile_append_stop hall (by simp) b
  · exact List.takeWhile_eq_self_iff.mpr hall

theorem languageOf_eq (locale : Bytes) : languageOf locale = .ok (locale.takeWhile (· ≠ 0x2D)) := by
  rw [languageOf]
  cases hdash : Search.find [0x2D] locale with
  | none =>
      have hnone := Search.splitFirst_eq_none_iff.mp (Search.find_eq_none hdash)
      rw [List.singleton_infix_iff] at hnone
      exact congrArg Outcome.ok (takeWhile_ne_append hnone []).2.symm
  | some dash =>
      obtain ⟨⟨a, b⟩, hsplit, rfl⟩ := Option.map_eq_some_iff.mp hdash
      obtain ⟨rfl, hfresh⟩ := Search.splitFirst_sound hsplit
      rw [List.append_assoc, List.singleton_append,
        (takeWhile_ne_append (Search.fresh_singleton_iff.mp hfresh) b).1]
      show substr _ 0 (some a.length) = _
      rw [substr_of_le (Nat.zero_le _)]
      simp

/-- The optional tags are never an error. -/
theorem exists_voiceTag (entry : Json) : ∃ tags, voiceTag entry = .ok tags := by
  have hparse := voiceTag_okOr .parseError entry
  have hargument := voiceTag_okOr .invalidArgument entry
  cases h : voiceTag entry with
  | ok tags => exact ⟨tags, rfl⟩
  | fail e =>
      rw [h, Outcome.okOr_fail] at hparse hargument
      rw [hparse] at hargument
      cases hargument
  | escape x =>
      rw [h] at hparse
      exact hparse.elim

/-- **An entry is read as the voice that it describes.** -/
theorem parseEntry_eq_ok_iff {entry : Json} {voice : Voice} :
    parseEntry entry = .ok voice ↔ Describes entry voice := by
  rw [parseEntry]
  constructor
  · intro h
    split at h
    · cases h
    obtain ⟨name, hname, h⟩ := Outcome.bind_eq_ok.mp h
    obtain ⟨shortName, hshort, h⟩ := Outcome.bind_eq_ok.mp h
    obtain ⟨value, hvalue, h⟩ := Outcome.bind_eq_ok.mp h
    cases hgender : voiceGenderFromString value with
    | error e =>
        rw [hgender] at h
        cases h
    | ok gender =>
        simp only [hgender] at h
        obtain ⟨locale, hlocale, h⟩ := Outcome.bind_eq_ok.mp h
        obtain ⟨codec, hcodec, h⟩ := Outcome.bind_eq_ok.mp h
        obtain ⟨friendly, hfriendly, h⟩ := Outcome.bind_eq_ok.mp h
        obtain ⟨status, hstatus, h⟩ := Outcome.bind_eq_ok.mp h
        obtain ⟨⟨categories, personalities⟩, htags, h⟩ := Outcome.bind_eq_ok.mp h
        obtain ⟨language, hlanguage, heq⟩ := Outcome.bind_eq_ok.mp h
        obtain rfl := Outcome.ok.inj ((languageOf_eq locale).symm.trans hlanguage)
        obtain rfl := Outcome.ok.inj heq
        rw [requireString_eq_ok_iff] at hname hshort hvalue hlocale hcodec hfriendly hstatus
        exact ⟨hname, hshort, ⟨value, hvalue, hgender⟩, hlocale, hcodec, hfriendly, hstatus,
          htags, rfl⟩
  · rintro ⟨hname, hshort, ⟨value, hvalue, hgender⟩, hlocale, hcodec, hfriendly, hstatus, htags,
      hlanguage⟩
    rw [if_neg (by simp [Json.isObject_of_find hname]), requireString_eq_ok_iff.mpr hname,
      Outcome.ok_bind, requireString_eq_ok_iff.mpr hshort, Outcome.ok_bind,
      requireString_eq_ok_iff.mpr hvalue, Outcome.ok_bind, hgender]
    simp only [requireString_eq_ok_iff.mpr hlocale, requireString_eq_ok_iff.mpr hcodec,
      requireString_eq_ok_iff.mpr hfriendly, requireString_eq_ok_iff.mpr hstatus, htags,
      languageOf_eq, ← hlanguage, Outcome.ok_bind]
    rfl

/-- A gender is recognised by its name. -/
theorem exists_gender_iff {value : Bytes} :
    (∃ gender, voiceGenderFromString value = .ok gender) ↔
      value = lit "Female" ∨ value = lit "Male" := by
  rw [voiceGenderFromString]
  split
  · exact iff_of_true ⟨_, rfl⟩ (.inl ‹_›)
  · split
    · exact iff_of_true ⟨_, rfl⟩ (.inr ‹_›)
    · apply iff_of_false
      · rintro ⟨gender, h⟩
        cases h
      · rintro (h | h) <;> contradiction

theorem exists_describes_iff {entry : Json} : (∃ voice, Describes entry voice) ↔
    IsVoiceEntry entry := by
  constructor
  · rintro ⟨voice, d⟩
    obtain ⟨value, hvalue, hgender⟩ := d.gender
    refine ⟨?_, value, hvalue, exists_gender_iff.mp ⟨_, hgender⟩⟩
    simp only [stringFields, List.forall_mem_cons]
    exact ⟨⟨_, d.name⟩, ⟨_, d.shortName⟩, ⟨_, d.locale⟩, ⟨_, d.suggestedCodec⟩,
      ⟨_, d.friendlyName⟩, ⟨_, d.status⟩, nofun⟩
  · rintro ⟨hstrings, value, hvalue, hknown⟩
    simp only [stringFields, List.forall_mem_cons] at hstrings
    obtain ⟨⟨name, hname⟩, ⟨shortName, hshort⟩, ⟨locale, hlocale⟩, ⟨suggestedCodec, hcodec⟩,
      ⟨friendlyName, hfriendly⟩, ⟨status, hstatus⟩, -⟩ := hstrings
    obtain ⟨gender, hgender⟩ := exists_gender_iff.mpr hknown
    obtain ⟨⟨contentCategories, voicePersonalities⟩, htags⟩ := exists_voiceTag entry
    exact ⟨⟨name, shortName, gender, locale, friendlyName, status, suggestedCodec,
      contentCategories, voicePersonalities, locale.takeWhile (· ≠ 0x2D)⟩,
      hname, hshort, ⟨value, hvalue, hgender⟩, hlocale, hcodec, hfriendly, hstatus, htags, rfl⟩

theorem parseEntries_eq_ok_iff {entries : List Json} {voices : List Voice} :
    parseEntries entries = .ok voices ↔ List.Forall₂ Describes entries voices := by
  induction entries generalizing voices with
  | nil => rw [parseEntries, List.forall₂_nil_left_iff, Outcome.ok.injEq, eq_comm]
  | cons entry entries ih =>
      rw [parseEntries, Outcome.bind_eq_ok, List.forall₂_cons_left_iff]
      constructor
      · rintro ⟨voice, hvoice, hrest⟩
        obtain ⟨voices', hvoices, heq⟩ := Outcome.bind_eq_ok.mp hrest
        exact ⟨voice, voices', parseEntry_eq_ok_iff.mp hvoice, ih.mp hvoices,
          (Outcome.ok.inj heq).symm⟩
      · rintro ⟨voice, voices', hvoice, hvoices, rfl⟩
        refine ⟨voice, parseEntry_eq_ok_iff.mpr hvoice, ?_⟩
        rw [ih.mpr hvoices]
        rfl

/-- **A voice list is read whole**, or not at all. -/
theorem parse_eq_ok_iff {jsonParse : Bytes → JsonParse} {body : Bytes} {voices : List Voice} :
    parse jsonParse body = .ok voices ↔ ∃ entries, jsonParse body = .value (.array entries) ∧
      List.Forall₂ Describes entries voices := by
  rw [parse]
  cases hroot : jsonParse body with
  | parseError what =>
      constructor
      · intro h
        cases h
      · rintro ⟨entries, heq, -⟩
        cases heq
  | outOfRange =>
      constructor
      · intro h
        cases h
      · rintro ⟨entries, heq, -⟩
        cases heq
  | value root =>
      simp only [JsonParse.value.injEq]
      cases root with
      | array entries =>
          show parseEntries entries = .ok voices ↔ _
          rw [parseEntries_eq_ok_iff]
          constructor
          · intro h
            exact ⟨entries, rfl, h⟩
          · rintro ⟨entries', heq, h⟩
            cases heq
            exact h
      | _ =>
          constructor
          · intro h
            cases h
          · rintro ⟨entries, heq, -⟩
            cases heq

end VoiceJsonParser
end EdgeTts
