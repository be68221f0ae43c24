import Mathlib.Tactic.IntervalCases
import EdgeTts.Lib.Fips180
import EdgeTts.Common.Hex

/-!
# `common/Sha256.cpp`

The digest of a byte string.  Full blocks are taken from the string as they come; what
remains is padded in a buffer of two blocks, of which one or two are used.  A pointer into
bytes is the list of the bytes from there on.
-/
namespace EdgeTts.Sha256

def rotr32 (x : UInt32) (n : UInt32) : UInt32 := (x >>> n) ||| (x <<< (32 - n))

/-- `K`, the round constants. -/
def kRound : Vector UInt32 64 := #v[
  0x428a2f98, 0x71374491, 0xb5c0fbcf, 0xe9b5dba5, 0x3956c25b, 0x59f111f1, 0x923f82a4, 0xab1c5ed5,
  0xd807aa98, 0x12835b01, 0x243185be, 0x550c7dc3, 0x72be5d74, 0x80deb1fe, 0x9bdc06a7, 0xc19bf174,
  0xe49b69c1, 0xefbe4786, 0x0fc19dc6, 0x240ca1cc, 0x2de92c6f, 0x4a7484aa, 0x5cb0a9dc, 0x76f988da,
  0x983e5152, 0xa831c66d, 0xb00327c8, 0xbf597fc7, 0xc6e00bf3, 0xd5a79147, 0x06ca6351, 0x14292967,
  0x27b70a85, 0x2e1b2138, 0x4d2c6dfc, 0x53380d13, 0x650a7354, 0x766a0abb, 0x81c2c92e, 0x92722c85,
  0xa2bfe8a1, 0xa81a664b, 0xc24b8b70, 0xc76c51a3, 0xd192e819, 0xd6990624, 0xf40e3585, 0x106aa070,
  0x19a4c116, 0x1e376c08, 0x2748774c, 0x34b0bcb5, 0x391c0cb3, 0x4ed8aa4a, 0x5b9cca4f, 0x682e6ff3,
  0x748f82ee, 0x78a5636f, 0x84c87814, 0x8cc70208, 0x90befffa, 0xa4506ceb, 0xbef9a3f7, 0xc67178f2]

/-- `H0`, the initial hash values. -/
def kInitial : Vector UInt32 8 := #v[
  0x6a09e667, 0xbb67ae85, 0x3c6ef372, 0xa54ff53a, 0x510e527f, 0x9b05688c, 0x1f83d9ab, 0x5be0cd19]

/-- The first loop of the message schedule. -/
def loadWord (block : Bytes) (i : Nat) : UInt32 :=
  (block.getD (i * 4 + 0) 0).toUInt32 <<< 24 ||| (block.getD (i * 4 + 1) 0).toUInt32 <<< 16 |||
    (block.getD (i * 4 + 2) 0).toUInt32 <<< 8 ||| (block.getD (i * 4 + 3) 0).toUInt32

/-- The second loop of the message schedule. -/
def extendWord (w : List UInt32) (i : Nat) : UInt32 :=
  let w15 := w.getD (i - 15) 0
  let w2 := w.getD (i - 2) 0
  let s0 := rotr32 w15 7 ^^^ rotr32 w15 18 ^^^ (w15 >>> 3)
  let s1 := rotr32 w2 17 ^^^ rotr32 w2 19 ^^^ (w2 >>> 10)
  w.getD (i - 16) 0 + s0 + w.getD (i - 7) 0 + s1

/-- The message schedule `w`. -/
def schedule (block : Bytes) : List UInt32 :=
  let w := (List.range 16).foldl (fun w i => w.set i (loadWord block i)) (List.replicate 64 0)
  (List.range' 16 48).foldl (fun w i => w.set i (extendWord w i)) w

/-- The working variables. -/
structure Working where
  a : UInt32
  b : UInt32
  c : UInt32
  d : UInt32
  e : UInt32
  f : UInt32
  g : UInt32
  hh : UInt32

/-- One of the 64 rounds. -/
def round (k w : UInt32) (v : Working) : Working :=
  let s1 := rotr32 v.e 6 ^^^ rotr32 v.e 11 ^^^ rotr32 v.e 25
  let ch := (v.e &&& v.f) ^^^ (~~~v.e &&& v.g)
  let tmp1 := v.hh + s1 + ch + k + w
  let s0 := rotr32 v.a 2 ^^^ rotr32 v.a 13 ^^^ rotr32 v.a 22
  let maj := (v.a &&& v.b) ^^^ (v.a &&& v.c) ^^^ (v.b &&& v.c)
  let tmp2 := s0 + maj
  { hh := v.g, g := v.f, f := v.e, e := v.d + tmp1
    d := v.c, c := v.b, b := v.a, a := tmp1 + tmp2 }

/-- `sha256_block`. -/
def sha256Block (h : Vector UInt32 8) (block : Bytes) : Vector UInt32 8 :=
  let w := schedule block
  let v := (List.range 64).foldl (fun v i => round kRound[i]! (w.getD i 0) v)
    ⟨h[0], h[1], h[2], h[3], h[4], h[5], h[6], h[7]⟩
  #v[h[0] + v.a, h[1] + v.b, h[2] + v.c, h[3] + v.d, h[4] + v.e, h[5] + v.f, h[6] + v.g,
    h[7] + v.hh]

/-- The loop over the full blocks, with the count `processed`, which no string is long
enough to overflow. -/
def fullBlocks (data : Bytes) (h : Vector UInt32 8) (processed : Nat) : Vector UInt32 8 × Nat :=
  if processed + 64 ≤ data.length then
    fullBlocks data (sha256Block h (data.drop processed)) (processed + 64)
  else (h, processed)
  termination_by data.length - processed

/-- `pad_blocks`. -/
def padBlocks (remaining : Nat) : Nat := if remaining < 56 then 1 else 2

/-- The buffer `pad`: the remaining bytes, a one bit and the length. -/
def padBuffer (rest : Bytes) (bitLen : UInt64) : Bytes :=
  let pad := rest ++ (List.replicate 128 0).drop rest.length
  let pad := pad.set rest.length 0x80
  let lenField := padBlocks rest.length * 64 - 8
  (List.range 8).foldl
    (fun pad i => pad.set (lenField + (7 - i)) (bitLen >>> (8 * i).toUInt64).toUInt8) pad

/-- The bytes of one `h[i]` in the digest. -/
def digestBytes (x : UInt32) : Bytes :=
  [(x >>> 24).toUInt8, (x >>> 16).toUInt8, (x >>> 8).toUInt8, x.toUInt8]

/-- `sha256_raw`. -/
def sha256Raw (data : Bytes) : Bytes :=
  let bitLen := data.length.toUInt64 * 8
  let (h, processed) := fullBlocks data kInitial 0
  let rest := data.drop processed
  let pad := padBuffer rest bitLen
  let h := (List.range (padBlocks rest.length)).foldl
    (fun h b => sha256Block h (pad.drop (b * 64))) h
  h.toList.flatMap digestBytes

/-! ## The words -/

theorem toBitVec_rotr32 (x : UInt32) {n : UInt32} (hn : 0 < n.toNat ∧ n.toNat < 32) :
    (rotr32 x n).toBitVec = x.toBitVec.rotateRight n.toNat := by
  have hsub : (32 - n).toNat = 32 - n.toNat :=
    UInt32.toNat_sub_of_le _ _ (UInt32.le_iff_toNat_le.mpr hn.2.le)
  rw [BitVec.rotateRight_eq_rotateRightAux_of_lt hn.2, rotr32, UInt32.toBitVec_or,
    UInt32.toBitVec_shiftRight, UInt32.toBitVec_shiftLeft, BitVec.rotateRightAux,
    BitVec.ushiftRight_eq', BitVec.shiftLeft_eq', BitVec.toNat_umod, BitVec.toNat_umod]
  show x.toBitVec >>> (n.toNat % 32) ||| x.toBitVec <<< ((32 - n).toNat % 32) = _
  rw [hsub, Nat.mod_eq_of_lt hn.2, Nat.mod_eq_of_lt (by omega)]

theorem toBitVec_loadWord (block : Bytes) (i : Nat) :
    (loadWord block i).toBitVec = Fips180.word block i := by
  rw [loadWord, Fips180.word, Nat.mul_comm i 4]
  apply BitVec.eq_of_getLsbD_eq
  intro j hj
  simp only [UInt32.toBitVec_or, UInt32.toBitVec_shiftLeft, UInt8.toBitVec_toUInt32,
    BitVec.getLsbD_or, BitVec.getLsbD_append, BitVec.shiftLeft_eq', BitVec.getLsbD_shiftLeft,
    BitVec.getLsbD_setWidth]
  simp
  grind

/-- The schedule is filled in up to `n`. -/
structure Filled (block : Bytes) (w : List UInt32) (n : Nat) : Prop where
  length_eq : w.length = 64
  words : ∀ t < n, (w.getD t 0).toBitVec = Fips180.schedule block t

theorem Filled.set {block : Bytes} {w : List UInt32} {n : Nat} (filled : Filled block w n)
    (hn : n < 64) {v : UInt32} (hv : v.toBitVec = Fips180.schedule block n) :
    Filled block (w.set n v) (n + 1) := by
  obtain ⟨hlen, hwords⟩ := filled
  refine ⟨by rw [List.length_set, hlen], ?_⟩
  intro t ht
  rw [List.getD_eq_getElem?_getD, List.getElem?_set]
  by_cases htn : n = t
  · subst htn
    rw [if_pos rfl, if_pos (by omega), Option.getD_some, hv]
  · rw [if_neg htn, ← List.getD_eq_getElem?_getD]
    exact hwords t (by omega)

/-- A loop that fills in one word a turn. -/
theorem Filled.loop {block : Bytes} (value : List UInt32 → Nat → UInt32) (k : Nat) :
    ∀ {w : List UInt32} {n : Nat}, Filled block w n → n + k ≤ 64 →
      (∀ w i, n ≤ i → i < n + k → Filled block w i →
        (value w i).toBitVec = Fips180.schedule block i) →
      Filled block ((List.range' n k).foldl (fun w i => w.set i (value w i)) w) (n + k) := by
  induction k with
  | zero =>
      intro w n filled _ _
      exact filled
  | succ k ih =>
      intro w n filled hle hvalue
      rw [List.range'_succ, List.foldl_cons, show n + (k + 1) = n + 1 + k from by omega]
      apply ih
      · exact filled.set (by omega) (hvalue w n (by omega) (by omega) filled)
      · omega
      · intro w i hi hlt
        exact hvalue w i (by omega) (by omega)

theorem toBitVec_extendWord {block : Bytes} {w : List UInt32} {i : Nat} (hi : 16 ≤ i)
    (filled : Filled block w i) : (extendWord w i).toBitVec = Fips180.schedule block i := by
  rw [Fips180.schedule_of_le hi, ← filled.words (i - 2) (by omega),
    ← filled.words (i - 7) (by omega), ← filled.words (i - 15) (by omega),
    ← filled.words (i - 16) (by omega)]
  simp (disch := decide) only [extendWord, Fips180.smallSigma0, Fips180.smallSigma1,
    UInt32.toBitVec_add, UInt32.toBitVec_xor, UInt32.toBitVec_shiftRight, toBitVec_rotr32]
  ac_rfl

/-- **The message schedule** is that of the block. -/
theorem filled_schedule (block : Bytes) : Filled block (schedule block) 64 := by
  have hload : Filled block ((List.range 16).foldl (fun w i => w.set i (loadWord block i))
      (List.replicate 64 0)) 16 := by
    rw [List.range_eq_range']
    refine Filled.loop (fun _ => loadWord block) 16 (n := 0) ?_ (by decide) ?_
    · exact ⟨List.length_replicate, fun t ht => absurd ht (Nat.not_lt_zero t)⟩
    · intro w i _ hi _
      rw [Fips180.schedule_of_lt hi]
      exact toBitVec_loadWord block i
  refine hload.loop extendWord 48 (by decide) ?_
  intro w i hi _ filled
  exact toBitVec_extendWord hi filled

/-! ## The compression function -/

theorem toBitVec_kRound {t : Nat} (ht : t < 64) : kRound[t]!.toBitVec = Fips180.K t := by
  have hall : ∀ t < 64, ∃ whole < 7,
      (whole * 2 ^ 32 + kRound[t]!.toBitVec.toNat) ^ 3 ≤ Fips180.primes.getD t 0 * 2 ^ 96 ∧
      Fips180.primes.getD t 0 * 2 ^ 96 < (whole * 2 ^ 32 + kRound[t]!.toBitVec.toNat + 1) ^ 3 := by
    decide +kernel
  obtain ⟨whole, -, hle, hlt⟩ := hall t ht
  exact (Fips180.fraction_prime (by decide) ht hle hlt).symm

def Working.toFips (v : Working) : Fips180.State where
  a := v.a.toBitVec
  b := v.b.toBitVec
  c := v.c.toBitVec
  d := v.d.toBitVec
  e := v.e.toBitVec
  f := v.f.toBitVec
  g := v.g.toBitVec
  h := v.hh.toBitVec

/-- The hash value in the array `h`. -/
def toFips (h : Vector UInt32 8) : Fips180.State where
  a := h[0].toBitVec
  b := h[1].toBitVec
  c := h[2].toBitVec
  d := h[3].toBitVec
  e := h[4].toBitVec
  f := h[5].toBitVec
  g := h[6].toBitVec
  h := h[7].toBitVec

theorem toFips_kInitial : toFips kInitial = Fips180.initial := by
  have hall : ∀ t < 8, ∃ whole < 5,
      (whole * 2 ^ 32 + kInitial[t]!.toBitVec.toNat) ^ 2 ≤ Fips180.primes.getD t 0 * 2 ^ 64 ∧
      Fips180.primes.getD t 0 * 2 ^ 64 < (whole * 2 ^ 32 + kInitial[t]!.toBitVec.toNat + 1) ^ 2 :=
    by decide +kernel
  have hword : ∀ t < 8, kInitial[t]!.toBitVec = Fips180.fraction 2 (Nat.nth Nat.Prime t) := by
    intro t ht
    obtain ⟨whole, -, hle, hlt⟩ := hall t ht
    exact (Fips180.fraction_prime (by decide) (by omega) hle hlt).symm
  rw [Fips180.initial, ← hword 0 (by decide), ← hword 1 (by decide), ← hword 2 (by decide),
    ← hword 3 (by decide), ← hword 4 (by decide), ← hword 5 (by decide), ← hword 6 (by decide),
    ← hword 7 (by decide)]
  rfl

theorem toFips_round (k w : UInt32) (v : Working) :
    (round k w v).toFips = Fips180.round k.toBitVec w.toBitVec v.toFips := by
  simp (disch := decide) only [round, Working.toFips, Fips180.round, Fips180.bigSigma0,
    Fips180.bigSigma1, Fips180.ch, Fips180.maj, UInt32.toBitVec_add, UInt32.toBitVec_xor,
    UInt32.toBitVec_and, UInt32.toBitVec_not, toBitVec_rotr32]
  rfl

/-- The rounds of a block, one after the other. -/
theorem toFips_rounds (block : Bytes) {l : List Nat} (h : ∀ t ∈ l, t < 64) (v : Working) :
    (l.foldl (fun v i => round kRound[i]! ((schedule block).getD i 0) v) v).toFips =
      l.foldl (fun v t => Fips180.round (Fips180.K t) (Fips180.schedule block t) v) v.toFips := by
  induction l generalizing v with
  | nil => rfl
  | cons t l ih =>
      obtain ⟨ht, hl⟩ := List.forall_mem_cons.mp h
      rw [List.foldl_cons, List.foldl_cons, ih hl, toFips_round, toBitVec_kRound ht,
        (filled_schedule block).words t ht]

/-- **A block is compressed** as it should be. -/
theorem toFips_sha256Block (h : Vector UInt32 8) (block : Bytes) :
    toFips (sha256Block h block) = Fips180.compress (toFips h) block := by
  rw [sha256Block, Fips180.compress]
  have hstart : toFips h =
      Working.toFips ⟨h[0], h[1], h[2], h[3], h[4], h[5], h[6], h[7]⟩ := rfl
  rw [hstart, ← toFips_rounds block fun t ht => List.mem_range.mp ht]
  rfl

/-! ## Padding -/

/-- The loop over the full blocks takes blocks off what is left, whatever follows. -/
theorem fullBlocks_spec (data tail : Bytes) (h : Vector UInt32 8) (processed : Nat)
    (hle : processed ≤ data.length) :
    ∃ h' processed', fullBlocks data h processed = (h', processed') ∧
      processed' ≤ data.length ∧ data.length - processed' = (data.length - processed) % 64 ∧
      (Fips180.blocks (data.drop processed ++ tail)).foldl Fips180.compress (toFips h) =
        (Fips180.blocks (data.drop processed' ++ tail)).foldl Fips180.compress (toFips h') := by
  induction hn : data.length - processed using Nat.strongRecOn generalizing h processed with
  | ind n ih =>
      rw [fullBlocks]
      by_cases hfull : processed + 64 ≤ data.length
      · rw [if_pos hfull]
        have hlen : 64 ≤ (data.drop processed).length := by
          rw [List.length_drop]
          omega
        obtain ⟨h', processed', heq, hle', hmod, hfold⟩ :=
          ih (n - 64) (by omega) (sha256Block h (data.drop processed)) (processed + 64) hfull
            (by omega)
        refine ⟨h', processed', heq, hle', by omega, ?_⟩
        rw [← hfold, Fips180.blocks_of_le (by rw [List.length_append]; omega), List.foldl_cons,
          List.take_append_of_le_length hlen, List.drop_append_of_le_length hlen, List.drop_drop,
          Fips180.compress_take, toFips_sha256Block]
      · rw [if_neg hfull]
        exact ⟨h, processed, rfl, hle, by omega, rfl⟩

/-- Bytes set behind a prefix. -/
theorem foldl_set_append (pre : Bytes) (pos : Nat → Nat) (value : Nat → UInt8) (is : List Nat) :
    ∀ l : Bytes, is.foldl (fun pad i => pad.set (pre.length + pos i) (value i)) (pre ++ l) =
      pre ++ is.foldl (fun pad i => pad.set (pos i) (value i)) l := by
  induction is with
  | nil =>
      intro l
      rfl
  | cons i is ih =>
      intro l
      rw [List.foldl_cons, List.foldl_cons, List.set_append_right _ _ (Nat.le_add_right _ _),
        Nat.add_sub_cancel_left, ih]

/-- The byte of the length field that stands `i` bytes before its last one. -/
theorem lengthByte_eq {n i : Nat} (hn : n < 2 ^ 61) (hi : i < 8) :
    ((n.toUInt64 * 8) >>> (8 * i).toUInt64).toUInt8 = UInt8.ofNat (8 * n / 256 ^ i) := by
  have hlen : (n.toUInt64 * 8).toNat = 8 * n := by
    rw [UInt64.toNat_mul, UInt64.toNat_ofNat']
    show n % 2 ^ 64 * 8 % 2 ^ 64 = 8 * n
    omega
  have hshift : (8 * i).toUInt64.toNat = 8 * i := by
    rw [UInt64.toNat_ofNat']
    omega
  apply UInt8.toNat_inj.mp
  rw [UInt64.toNat_toUInt8, UInt64.toNat_shiftRight, hlen, hshift, UInt8.toNat_ofNat',
    Nat.mod_eq_of_lt (show 8 * i < 64 by omega), Nat.shiftRight_eq_div_pow, Nat.pow_mul]

/-- The padded rest fills one or two blocks of the buffer. -/
theorem padBlocks_eq {remaining n : Nat} (hrest : remaining = n % 64) :
    padBlocks remaining * 64 = remaining + 1 + Fips180.zeros n + 8 ∧
      padBlocks remaining * 64 ≤ 128 := by
  rw [Fips180.zeros_eq, padBlocks, hrest]
  split <;> omega

/-- The buffer before the length is written, cut around its place. -/
theorem set_marker {rest : Bytes} {n : Nat} (hrest : rest.length = n % 64) :
    (rest ++ (List.replicate 128 0).drop rest.length).set rest.length 0x80 =
      (rest ++ 0x80 :: List.replicate (Fips180.zeros n) 0) ++ (List.replicate 8 0 ++
        List.replicate (128 - padBlocks rest.length * 64) 0) := by
  obtain ⟨hblocks, hle⟩ := padBlocks_eq hrest
  have hzeros : 128 - rest.length =
      Fips180.zeros n + (8 + (128 - padBlocks rest.length * 64)) + 1 := by omega
  rw [List.drop_replicate, List.set_append_right _ _ (Nat.le_refl _), Nat.sub_self, hzeros,
    List.replicate_succ, List.set_cons_zero, List.replicate_add, List.replicate_add]
  simp only [List.append_assoc, List.cons_append]

/-- The loop that writes the length, the last byte first. -/
theorem set_length {n : Nat} (hn : n < 2 ^ 61) (post : Bytes) :
    (List.range 8).foldl (fun pad i =>
        pad.set (7 - i) ((n.toUInt64 * 8) >>> (8 * i).toUInt64).toUInt8)
      (List.replicate 8 0 ++ post) = Fips180.bigEndian64 (8 * n) ++ post := by
  have hfield : ∀ i < 8, ((n.toUInt64 * 8) >>> (8 * i).toUInt64).toUInt8 =
      UInt8.ofNat (8 * n / 256 ^ i) := fun i hi => lengthByte_eq hn hi
  simp only [List.range, List.range.loop, List.foldl_cons, List.foldl_nil,
    hfield 0 (by decide), hfield 1 (by decide), hfield 2 (by decide), hfield 3 (by decide),
    hfield 4 (by decide), hfield 5 (by decide), hfield 6 (by decide), hfield 7 (by decide)]
  rfl

/-- **The buffer holds what is left of the message and its padding.** -/
theorem padBuffer_take {rest : Bytes} {n : Nat} (hrest : rest.length = n % 64) (hn : n < 2 ^ 61) :
    (padBuffer rest (n.toUInt64 * 8)).take (64 * padBlocks rest.length) =
      rest ++ Fips180.padding n ∧
    64 * padBlocks rest.length ≤ (padBuffer rest (n.toUInt64 * 8)).length := by
  obtain ⟨hblocks, -⟩ := padBlocks_eq hrest
  have hprefix : padBlocks rest.length * 64 - 8 =
      (rest ++ 0x80 :: List.replicate (Fips180.zeros n) (0 : UInt8)).length := by
    simp only [List.length_append, List.length_cons, List.length_replicate]
    omega
  have heq : padBuffer rest (n.toUInt64 * 8) = (rest ++ Fips180.padding n) ++
      List.replicate (128 - padBlocks rest.length * 64) 0 := by
    rw [padBuffer, set_marker hrest, hprefix, foldl_set_append _ (fun i => 7 - i)
      (fun i => ((n.toUInt64 * 8) >>> (8 * i).toUInt64).toUInt8), set_length hn, Fips180.padding]
    simp only [List.append_assoc, List.cons_append]
  have hlength : (rest ++ Fips180.padding n).length = 64 * padBlocks rest.length := by
    rw [List.length_append, Fips180.length_padding]
    omega
  rw [heq, ← hlength]
  refine ⟨List.take_left, ?_⟩
  exact (List.sublist_append_left _ _).length_le

/-! ## The digest -/

theorem toUInt8_shiftRight (x : UInt32) {k : UInt32} (hk : k.toNat < 32) :
    (x >>> k).toUInt8 = ⟨x.toBitVec.extractLsb' k.toNat 8⟩ := by
  apply UInt8.toNat_inj.mp
  rw [UInt32.toNat_toUInt8, UInt32.toNat_shiftRight, Nat.mod_eq_of_lt hk]
  rw [UInt8.toNat, BitVec.extractLsb'_toNat, UInt32.toNat_toBitVec]

theorem digestBytes_eq (x : UInt32) : digestBytes x = Fips180.wordBytes x.toBitVec := by
  have hlast : x.toUInt8 = (x >>> 0).toUInt8 := by rw [UInt32.shiftRight_zero]
  rw [digestBytes, hlast, toUInt8_shiftRight x (by decide), toUInt8_shiftRight x (by decide),
    toUInt8_shiftRight x (by decide), toUInt8_shiftRight x (by decide)]
  rfl

theorem digest_eq (h : Vector UInt32 8) : h.toList.flatMap digestBytes = (toFips h).bytes := by
  have hlist : h.toList = [h[0], h[1], h[2], h[3], h[4], h[5], h[6], h[7]] := by
    apply List.ext_getElem
    · simp
    · intro i hi hi'
      simp only [List.length_cons, List.length_nil] at hi'
      interval_cases i <;> simp
  rw [hlist, funext digestBytes_eq]
  rfl

/-- The blocks of a buffer, compressed one after another. -/
theorem toFips_foldl (buffer : Bytes) (bs : List Nat) (h : Vector UInt32 8) :
    toFips (bs.foldl (fun h b => sha256Block h (buffer.drop (b * 64))) h) =
      (bs.map fun b => (buffer.drop (64 * b)).take 64).foldl Fips180.compress (toFips h) := by
  induction bs generalizing h with
  | nil => rfl
  | cons b bs ih =>
      rw [List.foldl_cons, List.map_cons, List.foldl_cons, ih, toFips_sha256Block,
        Fips180.compress_take, Nat.mul_comm]

/-- **`sha256_raw` is SHA-256** of every string below 2^61 bytes. -/
theorem sha256Raw_eq_sha256 (data : Bytes) (hlen : data.length < 2 ^ 61) :
    sha256Raw data = Fips180.sha256 data := by
  obtain ⟨h, processed, hfull, hle, hmod, hfold⟩ :=
    fullBlocks_spec data (Fips180.padding data.length) kInitial 0 (Nat.zero_le _)
  have hrest : (data.drop processed).length = data.length % 64 := by
    rw [List.length_drop]
    exact hmod
  obtain ⟨htake, hbuffer⟩ := padBuffer_take hrest hlen
  have hpadded : toFips ((List.range (padBlocks (data.drop processed).length)).foldl
      (fun h b => sha256Block h ((padBuffer (data.drop processed)
        (data.length.toUInt64 * 8)).drop (b * 64))) h) =
      (Fips180.blocks (Fips180.pad data)).foldl Fips180.compress Fips180.initial := by
    rw [toFips_foldl, ← Fips180.blocks_take hbuffer, htake, ← hfold, toFips_kInitial]
    rfl
  rw [sha256Raw, hfull, Fips180.sha256, ← hpadded, ← digest_eq]

/-- The digest of a short string, which is also what the definition gives. -/
theorem sha256_abc : Fips180.sha256 (lit "abc") = [
    0xBA, 0x78, 0x16, 0xBF, 0x8F, 0x01, 0xCF, 0xEA, 0x41, 0x41, 0x40, 0xDE, 0x5D, 0xAE, 0x22, 0x23,
    0xB0, 0x03, 0x61, 0xA3, 0x96, 0x17, 0x7A, 0x9C, 0xB4, 0x10, 0xFF, 0x61, 0xF2, 0x00, 0x15,
    0xAD] :=
  (sha256Raw_eq_sha256 (lit "abc") (by decide)).symm.trans (by decide +kernel)

/-! ## Hexadecimal digests -/

/-- `to_hex`. -/
def toHex (digest alphabet : Bytes) : Bytes :=
  digest.flatMap fun b : UInt8 =>
    [alphabet.getD (b >>> 4).toNat 0, alphabet.getD (b &&& 0xF).toNat 0]

def sha256Hex (data : Bytes) : Bytes := toHex (sha256Raw data) (lit "0123456789abcdef")

def sha256HexUpper (data : Bytes) : Bytes := toHex (sha256Raw data) (lit "0123456789ABCDEF")

theorem length_sha256Raw (data : Bytes) : (sha256Raw data).length = 32 := by
  rw [sha256Raw]
  simp [digestBytes, List.length_flatMap]

/-- The digits are those of the digest. -/
theorem sha256HexUpper_eq (data : Bytes) :
    sha256HexUpper data = Hex.hexEncodeUpper (sha256Raw data) := rfl

end EdgeTts.Sha256
