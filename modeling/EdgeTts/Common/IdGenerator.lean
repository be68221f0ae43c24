import EdgeTts.Lib.Interaction
import EdgeTts.Common.Hex

/-!
# `common/IdGenerator.cpp`

Identifiers are made of the words of the random generator, which stand in memory as on a
little-endian machine.  An identifier without version bits determines the words it was made of
(`random32Hex_inj`); a UUID determines all but the six bits that it stamps
(`uuidV4WithoutHyphens_inj`), which are always the same.
-/
namespace EdgeTts

open Interaction (Prog Trace)
open Interaction.Prog (perform runs_bind runs_perform_bind)

inductive RandomCommand where
  | rng

/-- `rng_()`, of the `mt19937_64`. -/
abbrev RandomReply : RandomCommand → Type
  | .rng => UInt64

abbrev RandomTrace := Trace RandomCommand RandomReply

/-- The bytes of a word in memory. -/
def wordBytes (word : UInt64) : Bytes :=
  (List.range 8).map fun i => (word >>> (8 * i).toUInt64).toUInt8

namespace IdGenerator

/-- The loop of `fill_random_bytes`, with `n` bytes to go. -/
def fillRandomBytes (n : Nat) : Prog RandomCommand RandomReply Bytes :=
  if n = 0 then return []
  else do
    let word ← perform RandomCommand.rng
    let chunk := min 8 n
    let rest ← fillRandomBytes (n - chunk)
    return (wordBytes word).take chunk ++ rest
  termination_by n
  decreasing_by omega

/-- The version in byte 6 and the variant in byte 8. -/
def stamp (b : Bytes) : Bytes :=
  (b.modify 6 fun x => (x &&& 0x0F) ||| 0x40).modify 8 fun x => (x &&& 0x3F) ||| 0x80

/-- The loop `for (i = lo; i < hi; ++i) push(i)`. -/
def pushes (b : Bytes) (lo hi : Nat) : Bytes :=
  (List.range' lo (hi - lo)).flatMap fun i =>
    let v := b.getD i 0
    [Hex.kLower.getD (v >>> 4).toNat 0, Hex.kLower.getD (v &&& 0x0F).toNat 0]

/-- The format 8-4-4-4-12. -/
def format (b : Bytes) : Bytes :=
  pushes b 0 4 ++ lit "-" ++ pushes b 4 6 ++ lit "-" ++ pushes b 6 8 ++ lit "-" ++
    pushes b 8 10 ++ lit "-" ++ pushes b 10 16

def uuidV4 : Prog RandomCommand RandomReply Bytes := do
  let b ← fillRandomBytes 16
  return format (stamp b)

def uuidV4WithoutHyphens : Prog RandomCommand RandomReply Bytes := do
  let uuid ← uuidV4
  return uuid.filter (· != 0x2D)

def random32Hex : Prog RandomCommand RandomReply Bytes := do
  let b ← fillRandomBytes 16
  return Hex.hexEncodeLower b

/-! ## Words and bytes -/

theorem length_wordBytes (word : UInt64) : (wordBytes word).length = 8 := by
  simp [wordBytes]

theorem wordBytes_getElem {word : UInt64} {i : Nat} (h : i < 8) :
    (wordBytes word)[i]? = some (word >>> (8 * i).toUInt64).toUInt8 := by
  simp [wordBytes, h]

/-- Bit `8 i + j` of a word is bit `j` of its byte `i`. -/
theorem getLsbD_byte (word : UInt64) {i j : Nat} (hi : i < 8) (hj : j < 8) :
    (word >>> (8 * i).toUInt64).toUInt8.toBitVec.getLsbD j = word.toBitVec.getLsbD (8 * i + j) := by
  have hshift : (8 * i).toUInt64.toBitVec.toNat = 8 * i := by
    show (8 * i) % 2 ^ 64 = 8 * i
    omega
  have hmod : ((8 * i).toUInt64.toBitVec % 64).toNat = 8 * i := by
    rw [BitVec.toNat_umod, hshift]
    exact Nat.mod_eq_of_lt (by show 8 * i < 64; omega)
  rw [UInt64.toBitVec_toUInt8, BitVec.getLsbD_setWidth, UInt64.toBitVec_shiftRight,
    BitVec.ushiftRight_eq', BitVec.getLsbD_ushiftRight, hmod]
  simp [hj]

/-- A word is determined by its bytes. -/
theorem wordBytes_inj {v w : UInt64} (h : wordBytes v = wordBytes w) : v = w := by
  apply UInt64.toBitVec_inj.mp
  apply BitVec.eq_of_getLsbD_eq
  intro k hk
  have hbyte := congrArg (·[k / 8]?) h
  simp only [wordBytes_getElem (show k / 8 < 8 by omega), Option.some.injEq] at hbyte
  have hbit := congrArg (fun b : UInt8 => b.toBitVec.getLsbD (k % 8)) hbyte
  simp only [getLsbD_byte _ (show k / 8 < 8 by omega) (show k % 8 < 8 by omega)] at hbit
  rwa [Nat.div_add_mod] at hbit

/-! ## Random bytes -/

/-- What the words are as events. -/
def drawn (words : List UInt64) : RandomTrace := words.map fun word => ⟨.rng, word⟩

theorem runs_fillRandomBytes_pos {n : Nat} (h : 0 < n) {t : RandomTrace} {b : Bytes} :
    (fillRandomBytes n).Runs t b ↔ ∃ word t' rest, t = ⟨.rng, word⟩ :: t' ∧
      (fillRandomBytes (n - min 8 n)).Runs t' rest ∧
      b = (wordBytes word).take (min 8 n) ++ rest := by
  rw [fillRandomBytes, if_neg (by omega), runs_perform_bind]
  constructor
  · rintro ⟨word, t', rfl, hrun⟩
    obtain ⟨t₁, t₂, rest, rfl, hrest, rfl, rfl⟩ := runs_bind.mp hrun
    rw [List.append_nil]
    exact ⟨word, t₁, rest, rfl, hrest, rfl⟩
  · rintro ⟨word, t', rest, rfl, hrest, rfl⟩
    exact ⟨word, t', rfl, runs_bind.mpr ⟨t', [], rest, (List.append_nil t').symm, hrest, rfl, rfl⟩⟩

/-- **Random bytes are the bytes of the words drawn**, as many as are needed. -/
theorem runs_fillRandomBytes {n : Nat} {t : RandomTrace} {b : Bytes} :
    (fillRandomBytes n).Runs t b ↔ ∃ words, t = drawn words ∧ words.length = (n + 7) / 8 ∧
      b = (words.flatMap wordBytes).take n := by
  induction n using Nat.strongRecOn generalizing t b with
  | _ n ih =>
  by_cases hn : n = 0
  · subst hn
    rw [fillRandomBytes, if_pos rfl]
    constructor
    · rintro ⟨rfl, rfl⟩
      exact ⟨[], rfl, rfl, rfl⟩
    · rintro ⟨words, rfl, hlen, rfl⟩
      rw [List.eq_nil_of_length_eq_zero hlen]
      exact ⟨rfl, rfl⟩
  · have hpos : 0 < n := Nat.pos_of_ne_zero hn
    -- the first word gives its bytes, all of them or as many as are left to fill
    have hsplit : ∀ (word : UInt64) (words : List UInt64),
        (((word :: words).flatMap wordBytes).take n) =
          (wordBytes word).take (min 8 n) ++ (words.flatMap wordBytes).take (n - min 8 n) := by
      intro word words
      have hsub : n - 8 = n - min 8 n := by omega
      rw [List.flatMap_cons, List.take_append, length_wordBytes, hsub]
      congr 1
      rw [Nat.min_comm, ← List.take_take,
        List.take_of_length_le (Nat.le_of_eq (length_wordBytes word))]
    rw [runs_fillRandomBytes_pos hpos]
    constructor
    · rintro ⟨word, t', rest, rfl, hrest, rfl⟩
      obtain ⟨words, rfl, hlen, rfl⟩ := (ih _ (by omega)).mp hrest
      refine ⟨word :: words, rfl, ?_, (hsplit word words).symm⟩
      rw [List.length_cons, hlen]
      omega
    · rintro ⟨words, rfl, hlen, rfl⟩
      cases words with
      | nil =>
          rw [List.length_nil] at hlen
          omega
      | cons word words =>
          refine ⟨word, drawn words, _, rfl, (ih _ (by omega)).mpr ⟨words, rfl, ?_, rfl⟩,
            hsplit word words⟩
          rw [List.length_cons] at hlen
          omega

/-- Sixteen bytes take two words. -/
theorem runs_sixteen {t : RandomTrace} {b : Bytes} :
    (fillRandomBytes 16).Runs t b ↔
      ∃ v w : UInt64, t = drawn [v, w] ∧ b = wordBytes v ++ wordBytes w := by
  have htake : ∀ v w : UInt64, ([v, w].flatMap wordBytes).take 16 = wordBytes v ++ wordBytes w := by
    intro v w
    rw [List.take_of_length_le] <;> simp [length_wordBytes]
  rw [runs_fillRandomBytes]
  constructor
  · rintro ⟨words, rfl, hlen, rfl⟩
    obtain ⟨v, w, rfl⟩ := List.length_eq_two.mp hlen
    exact ⟨v, w, rfl, htake v w⟩
  · rintro ⟨v, w, rfl, rfl⟩
    exact ⟨[v, w], rfl, rfl, (htake v w).symm⟩

/-! ## Version and variant -/

/-- The free bits of the first word: all but the upper half of its byte 6. -/
def versionMask : UInt64 := 0xFF0FFFFFFFFFFFFF

/-- The free bits of the second word: all but two of its first byte. -/
def variantMask : UInt64 := 0xFFFFFFFFFFFFFF3F

def versionBits : UInt64 := 0x0040000000000000

def variantBits : UInt64 := 0x80

theorem wordBytes_and_or (word mask bits : UInt64) :
    wordBytes (word &&& mask ||| bits) =
      (List.range 8).map fun i => (word >>> (8 * i).toUInt64).toUInt8 &&&
        (mask >>> (8 * i).toUInt64).toUInt8 ||| (bits >>> (8 * i).toUInt64).toUInt8 := by
  refine List.map_congr_left fun i hi => ?_
  have hi : i < 8 := List.mem_range.mp hi
  apply UInt8.toBitVec_inj.mp
  apply BitVec.eq_of_getLsbD_eq
  intro j hj
  simp only [UInt8.toBitVec_or, UInt8.toBitVec_and, BitVec.getLsbD_or, BitVec.getLsbD_and,
    getLsbD_byte _ hi hj, UInt64.toBitVec_or, UInt64.toBitVec_and]

/-- **Stamping clears six bits and sets two of them.** -/
theorem stamp_eq (v w : UInt64) :
    stamp (wordBytes v ++ wordBytes w) =
      wordBytes (v &&& versionMask ||| versionBits) ++
        wordBytes (w &&& variantMask ||| variantBits) := by
  have hfull : ∀ x : UInt8, x &&& 255 ||| 0 = x := by
    intro x
    rw [UInt8.or_zero]
    exact UInt8.and_neg_one
  have hmask : (List.range 8).map (fun i => (versionMask >>> (8 * i).toUInt64).toUInt8) =
      [255, 255, 255, 255, 255, 255, 0x0F, 255] ∧
      (List.range 8).map (fun i => (versionBits >>> (8 * i).toUInt64).toUInt8) =
        [0, 0, 0, 0, 0, 0, 0x40, 0] ∧
      (List.range 8).map (fun i => (variantMask >>> (8 * i).toUInt64).toUInt8) =
        [0x3F, 255, 255, 255, 255, 255, 255, 255] ∧
      (List.range 8).map (fun i => (variantBits >>> (8 * i).toUInt64).toUInt8) =
        [0x80, 0, 0, 0, 0, 0, 0, 0] := by decide
  simp only [List.range_succ, List.range_zero, List.nil_append, List.cons_append, List.map_cons,
    List.map_nil, List.cons.injEq, and_true] at hmask
  rw [wordBytes_and_or, wordBytes_and_or, wordBytes, wordBytes]
  simp only [List.range_succ, List.range_zero, List.nil_append, List.cons_append, List.map_cons,
    List.map_nil, hmask, hfull]
  rfl

/-- What is stamped can be told from the free bits, and from nothing else. -/
theorem stamped_inj {mask bits : UInt64} (disjoint : bits &&& mask = 0) {v w : UInt64} :
    v &&& mask ||| bits = w &&& mask ||| bits ↔ v &&& mask = w &&& mask := by
  have hfree : ∀ x : UInt64, (x &&& mask ||| bits) &&& mask = x &&& mask := by
    intro x
    have hdistrib : (x &&& mask ||| bits) &&& mask = x &&& mask &&& mask ||| bits &&& mask := by
      apply UInt64.toBitVec_inj.mp
      simp only [UInt64.toBitVec_and, UInt64.toBitVec_or, BitVec.and_or_distrib_right]
    rw [hdistrib, UInt64.and_assoc, UInt64.and_self, disjoint, UInt64.or_zero]
  constructor
  · intro h
    rw [← hfree v, h, hfree w]
  · intro h
    rw [h]

/-! ## Identifiers -/

theorem pushes_eq {b : Bytes} {lo hi : Nat} (h : hi ≤ b.length) :
    pushes b lo hi = Hex.encode ((b.drop lo).take (hi - lo)) Hex.kLower := by
  have hbytes : (b.drop lo).take (hi - lo) =
      (List.range' lo (hi - lo)).map fun i => b.getD i 0 := by
    apply List.ext_getElem
    · simp
      omega
    · intro i hi₁ hi₂
      have hlt : lo + i < b.length := by
        rw [List.length_map, List.length_range'] at hi₂
        omega
      simp [List.getElem?_eq_getElem hlt]
  rw [hbytes, Hex.encode, List.flatMap_map]
  rfl

/-- The groups of a UUID. -/
def groups (b : Bytes) : List Bytes :=
  [b.take 4, (b.drop 4).take 2, (b.drop 6).take 2, (b.drop 8).take 2, (b.drop 10).take 6].map
    Hex.hexEncodeLower

theorem format_eq {b : Bytes} (h : b.length = 16) :
    format b = (lit "-").intercalate (groups b) := by
  rw [format, pushes_eq (by omega), pushes_eq (by omega), pushes_eq (by omega),
    pushes_eq (by omega), pushes_eq (by omega)]
  simp [groups, Hex.hexEncodeLower, List.intercalate, List.intersperse]

theorem flatten_groups {b : Bytes} (h : b.length = 16) :
    (groups b).flatten = Hex.hexEncodeLower b := by
  have hparts : b = b.take 4 ++ ((b.drop 4).take 2 ++ ((b.drop 6).take 2 ++
      ((b.drop 8).take 2 ++ (b.drop 10).take 6))) := by
    have hlast : (b.drop 10).take 6 = b.drop 10 := List.take_of_length_le (by simp [h])
    have hjoin : ∀ i n : Nat, (b.drop i).take n ++ b.drop (i + n) = b.drop i := by
      intro i n
      rw [← List.drop_drop, List.take_append_drop]
    rw [hlast, hjoin 8 2, hjoin 6 2, hjoin 4 2, List.take_append_drop]
  conv_rhs => rw [hparts]
  simp [groups, Hex.hexEncodeLower, Hex.encode_append]

/-- The hyphens are all that the two forms differ in. -/
theorem filter_format {b : Bytes} (h : b.length = 16) :
    (format b).filter (· != 0x2D) = Hex.hexEncodeLower b := by
  have hdigits : ∀ bytes, (Hex.hexEncodeLower bytes).filter (· != 0x2D) =
      Hex.hexEncodeLower bytes := by
    intro bytes
    refine List.filter_eq_self.mpr fun c hc => ?_
    have hnone : (0x2D : UInt8) ∉ Hex.kLower := by decide
    simp only [bne_iff_ne, ne_eq]
    rintro rfl
    exact hnone (Hex.mem_encode Hex.alphabet_lower hc)
  have hhyphen : (lit "-").filter (· != 0x2D) = [] := by decide
  rw [format_eq h, ← flatten_groups h]
  simp [groups, List.intercalate, List.intersperse, hdigits, hhyphen]

/-- The bytes of a UUID that is made of these words. -/
def uuidBytes (v w : UInt64) : Bytes :=
  wordBytes (v &&& versionMask ||| versionBits) ++ wordBytes (w &&& variantMask ||| variantBits)

theorem length_uuidBytes (v w : UInt64) : (uuidBytes v w).length = 16 := by
  simp [uuidBytes, length_wordBytes]

theorem runs_uuidV4 {t : RandomTrace} {uuid : Bytes} :
    uuidV4.Runs t uuid ↔ ∃ v w, t = drawn [v, w] ∧ uuid = format (uuidBytes v w) := by
  rw [uuidV4, runs_bind]
  constructor
  · rintro ⟨t₁, t₂, b, rfl, hb, rfl, rfl⟩
    obtain ⟨v, w, rfl, rfl⟩ := runs_sixteen.mp hb
    exact ⟨v, w, List.append_nil _, by rw [stamp_eq, uuidBytes]⟩
  · rintro ⟨v, w, rfl, rfl⟩
    exact ⟨_, [], _, (List.append_nil _).symm, runs_sixteen.mpr ⟨v, w, rfl, rfl⟩, rfl,
      by rw [stamp_eq, uuidBytes]⟩

theorem runs_uuidV4WithoutHyphens {t : RandomTrace} {id : Bytes} :
    uuidV4WithoutHyphens.Runs t id ↔
      ∃ v w, t = drawn [v, w] ∧ id = Hex.hexEncodeLower (uuidBytes v w) := by
  rw [uuidV4WithoutHyphens, runs_bind]
  constructor
  · rintro ⟨t₁, t₂, uuid, rfl, huuid, rfl, rfl⟩
    obtain ⟨v, w, rfl, rfl⟩ := runs_uuidV4.mp huuid
    exact ⟨v, w, List.append_nil _, filter_format (length_uuidBytes v w)⟩
  · rintro ⟨v, w, rfl, rfl⟩
    exact ⟨_, [], _, (List.append_nil _).symm, runs_uuidV4.mpr ⟨v, w, rfl, rfl⟩, rfl,
      filter_format (length_uuidBytes v w)⟩

theorem runs_random32Hex {t : RandomTrace} {hex : Bytes} :
    random32Hex.Runs t hex ↔
      ∃ v w, t = drawn [v, w] ∧ hex = Hex.hexEncodeLower (wordBytes v ++ wordBytes w) := by
  rw [random32Hex, runs_bind]
  constructor
  · rintro ⟨t₁, t₂, b, rfl, hb, rfl, rfl⟩
    obtain ⟨v, w, rfl, rfl⟩ := runs_sixteen.mp hb
    exact ⟨v, w, List.append_nil _, rfl⟩
  · rintro ⟨v, w, rfl, rfl⟩
    exact ⟨_, [], _, (List.append_nil _).symm, runs_sixteen.mpr ⟨v, w, rfl, rfl⟩, rfl, rfl⟩

/-- A UUID and the bytes it shows determine each other. -/
theorem uuidBytes_inj {v w v' w' : UInt64} : uuidBytes v w = uuidBytes v' w' ↔
    v &&& versionMask = v' &&& versionMask ∧ w &&& variantMask = w' &&& variantMask := by
  rw [← stamped_inj (show versionBits &&& versionMask = 0 by decide),
    ← stamped_inj (show variantBits &&& variantMask = 0 by decide)]
  constructor
  · intro h
    obtain ⟨hv, hw⟩ := List.append_inj h (by rw [length_wordBytes, length_wordBytes])
    exact ⟨wordBytes_inj hv, wordBytes_inj hw⟩
  · rintro ⟨hv, hw⟩
    rw [uuidBytes, uuidBytes, hv, hw]

/-- The version and the variant are the same in every UUID. -/
theorem uuidBytes_stamped (v w : UInt64) :
    (∃ x : UInt8, (uuidBytes v w)[6]? = some x ∧ x >>> 4 = 4) ∧
    ∃ x : UInt8, (uuidBytes v w)[8]? = some x ∧ x >>> 6 = 2 := by
  have hbits : ∀ x y m b : UInt8, (x &&& m ||| b) >>> y = (x >>> y) &&& (m >>> y) ||| b >>> y := by
    intro x y m b
    apply UInt8.toBitVec_inj.mp
    apply BitVec.eq_of_getLsbD_eq
    intro i hi
    simp
  rw [uuidBytes, ← stamp_eq]
  refine ⟨⟨_, rfl, ?_⟩, _, rfl, ?_⟩
  · show ((v >>> 48).toUInt8 &&& 0x0F ||| 0x40) >>> 4 = 4
    rw [hbits, show (0x0F : UInt8) >>> 4 = 0 from rfl, UInt8.and_zero]
    rfl
  · show ((w >>> 0).toUInt8 &&& 0x3F ||| 0x80) >>> 6 = 2
    rw [hbits, show (0x3F : UInt8) >>> 6 = 0 from rfl, UInt8.and_zero]
    rfl

/-- **UUIDs keep all their randomness.**  The form with hyphens is the form without, in groups of
8, 4, 4, 4 and 12 lower-case digits with version 4 and the RFC variant; and two identifiers are
the same exactly if the 122 bits that are not stamped agree. -/
theorem uuid_faithful {t t' : RandomTrace} {uuid uuid' : Bytes} (run : uuidV4.Runs t uuid)
    (run' : uuidV4.Runs t' uuid') :
    ∃ id parts v w v' w', t = drawn [v, w] ∧ t' = drawn [v', w'] ∧
      uuidV4WithoutHyphens.Runs t id ∧ (∀ c ∈ id, c ∈ Hex.kLower) ∧
      uuid = (lit "-").intercalate parts ∧ parts.flatten = id ∧
      parts.map List.length = [8, 4, 4, 4, 12] ∧
      (∃ (bytes : Bytes) (x y : UInt8), Hex.decode id = some bytes ∧ bytes[6]? = some x ∧
        x >>> 4 = 4 ∧ bytes[8]? = some y ∧ y >>> 6 = 2) ∧
      (uuid = uuid' ↔
        v &&& versionMask = v' &&& versionMask ∧ w &&& variantMask = w' &&& variantMask) := by
  obtain ⟨v, w, rfl, rfl⟩ := runs_uuidV4.mp run
  obtain ⟨v', w', rfl, rfl⟩ := runs_uuidV4.mp run'
  have hlen := length_uuidBytes v w
  obtain ⟨⟨x, hx, hversion⟩, y, hy, hvariant⟩ := uuidBytes_stamped v w
  refine ⟨Hex.hexEncodeLower (uuidBytes v w), groups (uuidBytes v w), v, w, v', w', rfl, rfl,
    runs_uuidV4WithoutHyphens.mpr ⟨v, w, rfl, rfl⟩,
    fun c hc => Hex.mem_encode Hex.alphabet_lower hc, format_eq hlen, flatten_groups hlen, ?_,
    ⟨_, x, y, Hex.decode_encode Hex.alphabet_lower _, hx, hversion, hy, hvariant⟩, ?_⟩
  · simp [groups, Hex.hexEncodeLower, Hex.length_encode, hlen]
  · rw [← uuidBytes_inj]
    constructor
    · intro h
      -- without its hyphens a UUID is read back
      have hfilter := congrArg (List.filter (· != 0x2D)) h
      rw [filter_format hlen, filter_format (length_uuidBytes v' w')] at hfilter
      exact Hex.encode_inj Hex.alphabet_lower hfilter
    · intro h
      rw [h]

/-- Two UUIDs of words that differ in the stamped bits only. -/
theorem uuid_faithful_stamped : ∃ uuid, uuidV4.Runs (drawn [0, 0]) uuid ∧
    uuidV4.Runs (drawn [0x00F0000000000000, 0xC0]) uuid := by
  have run : uuidV4.Runs (drawn [0, 0]) _ := runs_uuidV4.mpr ⟨0, 0, rfl, rfl⟩
  have run' : uuidV4.Runs (drawn [0x00F0000000000000, 0xC0]) _ := runs_uuidV4.mpr ⟨_, _, rfl, rfl⟩
  obtain ⟨id, parts, v, w, v', w', hwords, hwords', -, -, -, -, -, -, hiff⟩ :=
    uuid_faithful run run'
  obtain ⟨rfl, rfl⟩ : v = 0 ∧ w = 0 := by
    simp only [drawn, List.map_cons, List.cons.injEq, Sigma.mk.injEq, heq_eq_eq, true_and] at hwords
    exact ⟨hwords.1.symm, hwords.2.1.symm⟩
  obtain ⟨rfl, rfl⟩ : v' = 0x00F0000000000000 ∧ w' = 0xC0 := by
    simp only [drawn, List.map_cons, List.cons.injEq, Sigma.mk.injEq, heq_eq_eq, true_and]
      at hwords'
    exact ⟨hwords'.1.symm, hwords'.2.1.symm⟩
  exact ⟨_, run, (hiff.mpr ⟨by decide, by decide⟩) ▸ run'⟩

end IdGenerator
end EdgeTts
