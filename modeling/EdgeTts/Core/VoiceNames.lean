import EdgeTts.Core.TtsConfig

/-!
# Voice names

What `normalize_voice_name` accepts and what it makes of it: a full name (`IsFullName`) is left
as it is, and a short one (`IsShortName`) becomes the full name of its parts, of which the first
dash of its third part moves one into the region (`normalizeVoiceName_cases`).
-/
namespace EdgeTts

open Regex (Matches fullMatch)

/-- The full name of a voice. -/
def fullName (locale name : Bytes) : Bytes :=
  lit "Microsoft Server Speech Text to Speech Voice (" ++ locale ++ lit ", " ++ name ++ lit ")"

/-- A text on one line, with at least one character. -/
structure IsPart (s : Bytes) : Prop where
  nonempty : s ≠ []
  oneLine : ∀ c ∈ s, anyChar c = true

/-- What matches `full_voice_re`. -/
def IsFullName (voice : Bytes) : Prop :=
  ∃ locale name, IsPart locale ∧ IsPart name ∧ voice = fullName locale name

/-- What matches `short_voice_re`, with what it captures. -/
structure IsShortName (voice lang region name : Bytes) : Prop where
  lowerCase : 2 ≤ lang.length ∧ ∀ c ∈ lang, lowerCase c = true
  upperCase : 2 ≤ region.length ∧ ∀ c ∈ region, upperCase c = true
  neural : ∃ stem, IsPart stem ∧ name = stem ++ lit "Neural"
  joined : voice = lang ++ lit "-" ++ region ++ lit "-" ++ name

theorem IsPart.iff {s : Bytes} : IsPart s ↔ 1 ≤ s.length ∧ ∀ c ∈ s, anyChar c = true := by
  rw [Nat.one_le_iff_ne_zero, ne_eq, List.length_eq_zero_iff]
  constructor
  · rintro ⟨hne, hline⟩
    exact ⟨hne, hline⟩
  · rintro ⟨hne, hline⟩
    exact ⟨hne, hline⟩

theorem IsPart.append {s t : Bytes} (hs : IsPart s) (ht : ∀ c ∈ t, anyChar c = true) :
    IsPart (s ++ t) := by
  refine ⟨?_, ?_⟩
  · simp [hs.nonempty]
  · intro c hc
    rcases List.mem_append.mp hc with hc | hc
    · exact hs.oneLine c hc
    · exact ht c hc

theorem isFullName_iff {voice : Bytes} :
    (fullMatch fullVoiceRe voice).isSome = true ↔ IsFullName voice := by
  rw [Regex.fullMatch_isSome_iff]
  constructor
  · rintro ⟨_, _, _, _, _, rfl, -, ⟨rfl, -⟩, locale, _, _, _, rfl, -, hlocale, _, _, _, _, rfl, -,
      ⟨rfl, -⟩, name, _, _, _, rfl, -, hname, ⟨rfl, -⟩⟩
    refine ⟨locale, name, IsPart.iff.mpr ⟨hlocale.1, hlocale.2.1⟩,
      IsPart.iff.mpr ⟨hname.1, hname.2.1⟩, ?_⟩
    simp only [fullName, List.append_assoc]
  · rintro ⟨locale, name, hlocale, hname, rfl⟩
    obtain ⟨hlocale, hlocale'⟩ := IsPart.iff.mp hlocale
    obtain ⟨hname, hname'⟩ := IsPart.iff.mp hname
    refine ⟨[], _, _, [], [], ?_, rfl, ⟨rfl, rfl⟩, locale, _, [], [], rfl, rfl,
      ⟨hlocale, hlocale', rfl⟩, _, _, [], [], rfl, rfl, ⟨rfl, rfl⟩, name, _, [], [], rfl, rfl,
      ⟨hname, hname', rfl⟩, rfl, rfl⟩
    simp only [fullName, List.append_assoc]

theorem isShortName_of_matches {voice : Bytes} {caps : List Bytes}
    (h : Matches shortVoiceRe voice caps) :
    ∃ lang region name, caps = [lang, region, name] ∧ IsShortName voice lang region name := by
  obtain ⟨lang, _, _, _, rfl, rfl, ⟨_, rfl, hlang, hlang', rfl⟩, _, _, _, _, rfl, rfl, ⟨rfl, rfl⟩,
    region, _, _, _, rfl, rfl, ⟨_, rfl, hregion, hregion', rfl⟩, _, name, _, _, rfl, rfl,
    ⟨rfl, rfl⟩, _, rfl, stem, _, _, _, rfl, rfl, ⟨hstem, hstem', rfl⟩, rfl, rfl⟩ := h
  refine ⟨lang, region, _, rfl, ⟨hlang, hlang'⟩, ⟨hregion, hregion'⟩,
    ⟨stem, IsPart.iff.mpr ⟨hstem, hstem'⟩, rfl⟩, ?_⟩
  simp only [List.append_assoc]

/-! ## Normalization -/

theorem anyChar_of_lowerCase {c : UInt8} (h : lowerCase c = true) : anyChar c = true := by
  rw [anyChar, Bool.and_eq_true, bne_iff_ne, bne_iff_ne]
  constructor
  · rintro rfl
    cases h
  · rintro rfl
    cases h

theorem anyChar_of_upperCase {c : UInt8} (h : upperCase c = true) : anyChar c = true := by
  rw [anyChar, Bool.and_eq_true, bne_iff_ne, bne_iff_ne]
  constructor
  · rintro rfl
    cases h
  · rintro rfl
    cases h

/-- A full name is left as it is. -/
theorem normalizeVoiceName_of_isFullName {voice : Bytes} (h : IsFullName voice) :
    normalizeVoiceName voice = some voice := by
  rw [normalizeVoiceName, if_pos (isFullName_iff.mpr h)]

/-- The locale starts with the language and the region. -/
theorem IsShortName.locale {voice lang region name : Bytes}
    (h : IsShortName voice lang region name) : IsPart (lang ++ lit "-" ++ region) := by
  have hlang : IsPart lang :=
    IsPart.iff.mpr ⟨by have := h.lowerCase.1; omega, fun c hc =>
      anyChar_of_lowerCase (h.lowerCase.2 c hc)⟩
  have hdash : ∀ c ∈ lit "-", anyChar c = true := by decide +kernel
  exact (hlang.append hdash).append fun c hc => anyChar_of_upperCase (h.upperCase.2 c hc)

theorem IsShortName.name {voice lang region name : Bytes}
    (h : IsShortName voice lang region name) : IsPart name := by
  obtain ⟨stem, hstem, rfl⟩ := h.neural
  exact hstem.append (by decide +kernel)

/-- What stands before a dash of the name continues the region. -/
theorem IsShortName.before_dash {voice lang region name a b : Bytes}
    (h : IsShortName voice lang region name) (hcut : name = a ++ [0x2D] ++ b) :
    ∀ c ∈ lit "-" ++ a, anyChar c = true := by
  have hdash : ∀ c ∈ lit "-", anyChar c = true := by decide +kernel
  intro c hc
  rcases List.mem_append.mp hc with hc | hc
  · exact hdash c hc
  · apply h.name.oneLine
    rw [hcut, List.append_assoc]
    exact List.mem_append_left _ hc

/-- Something follows each dash of the name, which ends in `Neural`. -/
theorem IsShortName.after_dash {voice lang region name a b : Bytes}
    (h : IsShortName voice lang region name) (hcut : name = a ++ [0x2D] ++ b) : IsPart b := by
  constructor
  · rintro rfl
    obtain ⟨stem, -, hname⟩ := h.neural
    have hlast := congrArg List.getLast? (hcut.symm.trans hname)
    rw [List.append_nil, List.getLast?_concat,
      show lit "Neural" = lit "Neura" ++ [0x6C] from rfl, ← List.append_assoc,
      List.getLast?_concat] at hlast
    cases hlast
  · intro c hc
    apply h.name.oneLine
    rw [hcut]
    exact List.mem_append_right _ hc

/-- **What a voice name is turned into.** -/
theorem normalizeVoiceName_cases {voice full : Bytes} (h : normalizeVoiceName voice = some full) :
    (IsFullName voice ∧ full = voice) ∨
    ∃ lang region name, IsShortName voice lang region name ∧
      (full = fullName (lang ++ lit "-" ++ region) name ∨
        ∃ a b, name = a ++ [0x2D] ++ b ∧
          full = fullName (lang ++ lit "-" ++ region ++ (lit "-" ++ a)) b) := by
  rw [normalizeVoiceName] at h
  split at h
  · rename_i hfull
    obtain rfl := Option.some.inj h
    exact Or.inl ⟨isFullName_iff.mp hfull, rfl⟩
  split at h
  · rename_i lang region name hcaps
    obtain ⟨_, _, _, heq, hshort⟩ := isShortName_of_matches (Regex.matches_of_fullMatch hcaps)
    cases heq
    refine Or.inr ⟨lang, region, name, hshort, ?_⟩
    cases hdash : Search.find [0x2D] name with
    | none =>
        simp only [hdash] at h
        obtain rfl := Option.some.inj h
        refine Or.inl ?_
        simp only [fullName, List.append_assoc]
        rfl
    | some dash =>
        simp only [hdash] at h
        obtain rfl := Option.some.inj h
        obtain ⟨hcut, -⟩ := Search.splitFirst_sound (Search.find_eq_some hdash)
        refine Or.inr ⟨_, _, hcut, ?_⟩
        simp only [fullName, List.append_assoc]
        rfl
  · cases h

/-- **Normal forms are full names**, wherever the dashes of the short name are. -/
theorem isFullName_of_normalizeVoiceName {voice full : Bytes}
    (h : normalizeVoiceName voice = some full) : IsFullName full := by
  rcases normalizeVoiceName_cases h with ⟨hfull, rfl⟩ | ⟨lang, region, name, hshort, hname⟩
  · exact hfull
  · rcases hname with rfl | ⟨a, b, hcut, rfl⟩
    · exact ⟨_, name, hshort.locale, hshort.name, rfl⟩
    · exact ⟨_, b, hshort.locale.append (hshort.before_dash hcut), hshort.after_dash hcut, rfl⟩

/-- The characters of the full form that do not come from the name given. -/
def voiceTemplate : Bytes := lit "Microsoft Server Speech Text to Speech Voice (-, )"

/-- Normalizing a voice name changes its punctuation only. -/
theorem mem_normalizeVoiceName {voice full : Bytes} (h : normalizeVoiceName voice = some full)
    {c : UInt8} (hc : c ∉ voiceTemplate) : c ∈ full ↔ c ∈ voice := by
  have template : ∀ s : Bytes, (∀ x ∈ s, x ∈ voiceTemplate) → c ∉ s := fun s hs hm => hc (hs c hm)
  have hdash : c ∉ lit "-" := template _ (by decide +kernel)
  have hdash' : c ∉ [0x2D] := hdash
  have hcomma : c ∉ lit ", " := template _ (by decide +kernel)
  have hclose : c ∉ lit ")" := template _ (by decide +kernel)
  have hprefix : c ∉ lit "Microsoft Server Speech Text to Speech Voice (" :=
    template _ (by decide +kernel)
  rcases normalizeVoiceName_cases h with ⟨-, rfl⟩ | ⟨lang, region, name, hshort, hname⟩
  · rfl
  · rw [hshort.joined]
    rcases hname with rfl | ⟨a, b, rfl, rfl⟩
    · simp only [fullName, List.mem_append, hdash, hcomma, hclose, hprefix, false_or, or_false]
    · simp only [fullName, List.mem_append, hdash, hdash', hcomma, hclose, hprefix, false_or,
        or_false, or_assoc]

end EdgeTts
