import EdgeTts.Common.Utf8

/-!
# `serialization/TextNormalizer.cpp`

`normalize` rejects invalid UTF-8 and walks a valid text by code points, replacing
incompatible control characters by spaces.  Since every byte of a longer code
point is at least `0x80`, the walk is a map over bytes (`normalizeLoop_eq_map`),
and that map is the one over code points (`normalizeLoop_encode`).
-/
namespace EdgeTts

open Utf8 (Valid)
open String (utf8EncodeChar)

/-- U+0000–U+0008, U+000B–U+000C, U+000E–U+001F. -/
def isReplacedControl (byte : UInt8) : Bool :=
  byte ≤ 8 || byte == 11 || byte == 12 || (byte ≥ 14 && byte ≤ 31)

/-- The loop of `TextNormalizer::normalize`, on the text from `i` on. -/
def normalizeLoop : Bytes → Bytes
  | [] => []
  | byte :: input =>
      if byte < 0x80 then
        (if isReplacedControl byte then 0x20 else byte) :: normalizeLoop input
      else
        let next := nextCodePointBoundary (byte :: input)
        (byte :: input).take next ++ normalizeLoop ((byte :: input).drop next)
  termination_by input => input.length
  decreasing_by all_goals simp [nextCodePointBoundary]; try omega

/-- `TextNormalizer::normalize`. -/
def TextNormalizer.normalize (input : Bytes) : Result Bytes :=
  if !isValidUtf8 input then
    .error { code := .invalidArgument, message := lit "TextNormalizer: invalid UTF-8 input" }
  else .ok (normalizeLoop input)

/-- What the loop makes of one byte. -/
def normalizeByte (byte : UInt8) : UInt8 := if isReplacedControl byte then 0x20 else byte

set_option maxRecDepth 10000 in
theorem normalizeByte_high {byte : UInt8} (h : 0x80 ≤ byte.toNat) : normalizeByte byte = byte :=
  forall_uint8 (p := fun b => 0x80 ≤ b.toNat → normalizeByte b = b) (by decide) byte h

set_option maxRecDepth 10000 in
theorem normalizeByte_ascii {byte : UInt8} (h : byte.toNat < 0x80) :
    (normalizeByte byte).toNat < 0x80 :=
  forall_uint8 (p := fun b => b.toNat < 0x80 → (normalizeByte b).toNat < 0x80) (by decide) byte h

/-- The loop copies and replaces bytes one for one. -/
theorem normalizeLoop_eq_map (input : Bytes) : normalizeLoop input = input.map normalizeByte := by
  induction hn : input.length using Nat.strongRecOn generalizing input with
  | ind n ih =>
      cases input with
      | nil => simp [normalizeLoop]
      | cons byte input =>
          rw [List.length_cons] at hn
          rw [normalizeLoop]
          split
          · rw [ih input.length (by omega) input rfl, List.map_cons]
            rfl
          · rename_i hb
            -- a longer code point: its first byte and the continuation bytes after it
            have hhigh : 0x80 ≤ byte.toNat := by
              rw [UInt8.lt_iff_toNat_lt] at hb
              simpa using hb
            have hrun := List.takeWhile_prefix isContinuation (l := input)
            have hkeep : (input.takeWhile isContinuation).map normalizeByte =
                input.takeWhile isContinuation := by
              refine (List.map_congr_left fun x hx => normalizeByte_high ?_).trans
                (List.map_id (input.takeWhile isContinuation))
              have hall := List.all_takeWhile (p := isContinuation) (l := input)
              exact ((isContinuation_iff x).mp (List.all_eq_true.mp hall x hx)).1
            simp only [nextCodePointBoundary, Nat.add_comm 1, List.take_succ_cons,
              List.drop_succ_cons, ← List.prefix_iff_eq_take.mp hrun]
            rw [ih _ (by rw [List.length_drop]; omega) _ rfl, List.map_cons,
              normalizeByte_high hhigh, List.cons_append, ← hkeep, List.length_map,
              ← List.map_append, List.prefix_iff_eq_append.mp hrun]

theorem valid_normalizeLoop {input : Bytes} (h : Valid input) : Valid (normalizeLoop input) := by
  rw [normalizeLoop_eq_map, List.map_eq_flatMap]
  exact h.flatMap (fun b hb => Utf8.valid_ascii (normalizeByte_ascii hb))
    fun b hb => by rw [normalizeByte_high hb]

/-- **Valid UTF-8 is normalized to valid UTF-8.** -/
theorem TextNormalizer.normalize_of_valid {input : Bytes} (h : Valid input) :
    normalize input = .ok (normalizeLoop input) ∧ Valid (normalizeLoop input) := by
  rw [normalize, (isValidUtf8_iff input).mpr h]
  exact ⟨rfl, valid_normalizeLoop h⟩

theorem TextNormalizer.normalize_of_not_valid {input : Bytes} (h : ¬ Valid input) :
    normalize input =
      .error ⟨.invalidArgument, lit "TextNormalizer: invalid UTF-8 input", []⟩ := by
  have : isValidUtf8 input = false := by
    rw [Bool.eq_false_iff]
    exact fun ht => h ((isValidUtf8_iff input).mp ht)
  rw [normalize, this]
  rfl

/-! ## By code points -/

/-- What normalizing makes of one code point. -/
def replaceControl (c : Char) : Char :=
  if c.toNat ≤ 0x08 ∨ c.toNat = 0x0B ∨ c.toNat = 0x0C ∨ 0x0E ≤ c.toNat ∧ c.toNat ≤ 0x1F then ' '
  else c

theorem isReplacedControl_iff (b : UInt8) : isReplacedControl b = true ↔
    b.toNat ≤ 0x08 ∨ b.toNat = 0x0B ∨ b.toNat = 0x0C ∨ 0x0E ≤ b.toNat ∧ b.toNat ≤ 0x1F := by
  simp only [isReplacedControl, Bool.or_eq_true, Bool.and_eq_true, decide_eq_true_eq, beq_iff_eq,
    UInt8.le_iff_toNat_le, ge_iff_le, ← UInt8.toNat_inj, UInt8.reduceToNat, or_assoc]

theorem replaceControl_idem (c : Char) : replaceControl (replaceControl c) = replaceControl c := by
  by_cases h : replaceControl c = c
  · rw [h, h]
  · have hspace : replaceControl c = ' ' := by
      unfold replaceControl at h ⊢
      split
      · rfl
      · rename_i hc
        exact absurd (if_neg hc) h
    rw [hspace]
    rfl

/-- The byte map is the code-point map on one encoding. -/
theorem map_normalizeByte_encode (c : Char) :
    (utf8EncodeChar c).map normalizeByte = utf8EncodeChar (replaceControl c) := by
  rcases Nat.lt_or_ge c.toNat 0x80 with h | h
  · have hb := Utf8.toNat_ofNat_of_lt (n := c.toNat) (by omega)
    rw [Utf8.encode_one h, List.map_singleton, normalizeByte, replaceControl]
    simp only [isReplacedControl_iff, hb]
    split
    · rfl
    · exact (Utf8.encode_one h).symm
  · -- every byte of a longer encoding is kept, and so is its code point
    have hkeep : replaceControl c = c := if_neg (by omega)
    rw [hkeep]
    refine (List.map_congr_left fun b hb => ?_).trans (List.map_id (utf8EncodeChar c))
    exact normalizeByte_high (Utf8.encode_high h b hb)

/-- **The walk over the bytes is the code-point map.** -/
theorem normalizeLoop_encode (cs : List Char) : normalizeLoop (cs.flatMap utf8EncodeChar) =
    (cs.map replaceControl).flatMap utf8EncodeChar := by
  rw [normalizeLoop_eq_map, List.map_flatMap, List.flatMap_map]
  exact List.flatMap_congr fun c _ => map_normalizeByte_encode c

theorem TextNormalizer.normalize_eq_ok {s out : Bytes} (h : normalize s = .ok out) :
    Valid s ∧ out = normalizeLoop s := by
  by_cases hs : Valid s
  · rw [(normalize_of_valid hs).1] at h
    exact ⟨hs, (Except.ok.inj h).symm⟩
  · rw [normalize_of_not_valid hs] at h
    cases h

/-- **Normalizing replaces the control characters and nothing else.**  Exactly the
valid texts are accepted; the result is the text with each of its code points mapped,
has the length of the text and is its own normal form. -/
theorem TextNormalizer.normalize_codePoints (s : Bytes) :
    ((∃ out, normalize s = .ok out) ↔ Valid s) ∧
    ∀ out, normalize s = .ok out →
      (∀ cs ds : List Char, s = cs.flatMap utf8EncodeChar → out = ds.flatMap utf8EncodeChar →
        ds = cs.map replaceControl) ∧
      Valid out ∧ out.length = s.length ∧ normalize out = .ok out := by
  refine ⟨⟨?_, fun hs => ⟨_, (normalize_of_valid hs).1⟩⟩, fun out hout => ?_⟩
  · rintro ⟨out, hout⟩
    exact (normalize_eq_ok hout).1
  · obtain ⟨hs, rfl⟩ := normalize_eq_ok hout
    have hv := valid_normalizeLoop hs
    refine ⟨?_, hv, by rw [normalizeLoop_eq_map, List.length_map], ?_⟩
    · rintro cs ds rfl hds
      rw [normalizeLoop_encode] at hds
      exact Utf8.flatMap_encode_inj hds.symm
    · obtain ⟨cs, rfl⟩ := hs
      rw [(normalize_of_valid hv).1, normalizeLoop_encode, normalizeLoop_encode, List.map_map]
      have hidem : replaceControl ∘ replaceControl = replaceControl :=
        funext replaceControl_idem
      rw [hidem]

/-- A text with control characters, a line break and a two-byte code point. -/
theorem TextNormalizer.normalize_codePoints_controls :
    normalize [0x00, 0x41, 0x0A, 0xC3, 0xA9, 0x1F] = .ok [0x20, 0x41, 0x0A, 0xC3, 0xA9, 0x20] := by
  have hs : [0x00, 0x41, 0x0A, 0xC3, 0xA9, 0x1F] =
      ['\x00', 'A', '\n', 'é', '\x1f'].flatMap utf8EncodeChar := by decide
  obtain ⟨out, hout⟩ := (TextNormalizer.normalize_codePoints _).1.mpr ⟨_, hs⟩
  obtain ⟨hmap, ⟨ds, hds⟩, -, -⟩ := (TextNormalizer.normalize_codePoints _).2 out hout
  rw [hout, hds, hmap _ ds hs hds]
  decide

end EdgeTts
