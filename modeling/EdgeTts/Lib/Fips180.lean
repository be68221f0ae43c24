import Mathlib.Data.BitVec
import Mathlib.Data.Nat.Find
import Mathlib.Data.Nat.Prime.Nth

/-!
# SHA-256 as FIPS 180-4 defines it

The message is padded as a whole and cut into blocks, and the compression function is
folded over the blocks.  Words are bit vectors, the message schedule is its recurrence, and
the constants are the fractional parts of roots of primes, so nothing here depends on how
an implementation stores or streams them.
-/
namespace Fips180

abbrev Word := BitVec 32

/-! ## Constants -/

/-- The greatest `r` with `r ^ k ≤ n`. -/
def root (k n : Nat) : Nat := Nat.findGreatest (fun r => r ^ k ≤ n) n

/-- The first 32 bits of the fractional part of the `k`-th root of `p`. -/
def fraction (k p : Nat) : Word := BitVec.ofNat 32 (root k (p * 2 ^ (32 * k)))

/-- `K_t`: cube roots of the first 64 primes. -/
noncomputable def K (t : Nat) : Word := fraction 3 (Nat.nth Nat.Prime t)

theorem root_eq {k n r : Nat} (hk : 0 < k) (hle : r ^ k ≤ n) (hlt : n < (r + 1) ^ k) :
    root k n = r := by
  rw [root, Nat.findGreatest_eq_iff]
  refine ⟨(Nat.le_self_pow (by omega) r).trans hle, fun _ => hle, ?_⟩
  intro m hm _
  rw [not_le]
  exact hlt.trans_le (Nat.pow_le_pow_left hm k)

/-- A word is the fraction of a root when it is so with some whole part before it. -/
theorem fraction_eq {k p whole : Nat} {w : Word} (hk : 0 < k)
    (hle : (whole * 2 ^ 32 + w.toNat) ^ k ≤ p * 2 ^ (32 * k))
    (hlt : p * 2 ^ (32 * k) < (whole * 2 ^ 32 + w.toNat + 1) ^ k) : fraction k p = w := by
  rw [fraction, root_eq hk hle hlt, BitVec.ofNat_add, BitVec.ofNat_toNat, BitVec.setWidth_eq]
  rw [show BitVec.ofNat 32 (whole * 2 ^ 32) = 0#32 from by
    apply BitVec.eq_of_toNat_eq
    rw [BitVec.toNat_ofNat, Nat.mul_mod_left]
    rfl, BitVec.zero_add]

/-- The first 64 primes. -/
def primes : List Nat := [
  2, 3, 5, 7, 11, 13, 17, 19, 23, 29, 31, 37, 41, 43, 47, 53, 59, 61, 67, 71, 73, 79, 83, 89, 97,
  101, 103, 107, 109, 113, 127, 131, 137, 139, 149, 151, 157, 163, 167, 173, 179, 181, 191, 193,
  197, 199, 211, 223, 227, 229, 233, 239, 241, 251, 257, 263, 269, 271, 277, 281, 283, 293, 307,
  311]

/-- Below 18², a prime is a number without small divisors. -/
theorem prime_iff {n : Nat} (hn : n < 324) :
    n.Prime ↔ 2 ≤ n ∧ ∀ d < 18, 2 ≤ d → d < n → ¬ d ∣ n := by
  rw [Nat.prime_def_lt']
  apply and_congr_right
  intro h2
  constructor
  · intro h d _ hd hlt
    exact h d hd hlt
  · intro h m hm hlt hdvd
    obtain ⟨k, rfl⟩ := hdvd
    -- the smaller one of the two factors is below 18
    rcases Nat.lt_or_ge m 18 with hsmall | hbig
    · exact h m hsmall hm hlt (Nat.dvd_mul_right m k)
    · have hk : k < 18 := by
        by_contra hge
        have := Nat.mul_le_mul hbig (Nat.le_of_not_lt hge)
        omega
      have hk2 : 2 ≤ k := by
        by_contra hlt2
        have : k = 0 ∨ k = 1 := by omega
        rcases this with rfl | rfl <;> omega
      have hkm : k < m * k := by
        calc k < 2 * k := by omega
          _ ≤ m * k := Nat.mul_le_mul_right k hm
      exact h k hk hk2 hkm (Nat.dvd_mul_left k m)

theorem filter_primes :
    (List.range 312).filter (fun n => 2 ≤ n ∧ ∀ d < 18, 2 ≤ d → d < n → ¬ d ∣ n) = primes := by
  decide +kernel

theorem prime_iff_mem {n : Nat} (hn : n < 312) : n.Prime ↔ n ∈ primes := by
  rw [prime_iff (by omega), ← filter_primes, List.mem_filter, List.mem_range, decide_eq_true_iff,
    and_iff_right hn]

theorem count_prime {x : Nat} (hx : x ≤ 312) :
    Nat.count Nat.Prime x = (primes.filter (· < x)).length := by
  have hnodup : primes.Nodup := by decide +kernel
  rw [Nat.count_eq_card_filter_range, ← List.toFinset_card_of_nodup (hnodup.filter _)]
  congr 1
  ext y
  rw [Finset.mem_filter, Finset.mem_range, List.mem_toFinset, List.mem_filter, decide_eq_true_iff,
    and_comm]
  apply and_congr_left
  intro hy
  exact prime_iff_mem (by omega)

theorem nth_prime {t : Nat} (ht : t < 64) : Nat.nth Nat.Prime t = primes.getD t 0 := by
  have hall : ∀ t < 64, primes.getD t 0 < 312 ∧ primes.getD t 0 ∈ primes ∧
      (primes.filter (· < primes.getD t 0)).length = t := by decide +kernel
  obtain ⟨hlt, hmem, hlength⟩ := hall t ht
  have hcount := Nat.nth_count ((prime_iff_mem hlt).mpr hmem)
  rwa [count_prime hlt.le, hlength] at hcount

/-- The fraction of the root of a prime, read off the table of primes. -/
theorem fraction_prime {k t whole : Nat} {w : Word} (hk : 0 < k) (ht : t < 64)
    (hle : (whole * 2 ^ 32 + w.toNat) ^ k ≤ primes.getD t 0 * 2 ^ (32 * k))
    (hlt : primes.getD t 0 * 2 ^ (32 * k) < (whole * 2 ^ 32 + w.toNat + 1) ^ k) :
    fraction k (Nat.nth Nat.Prime t) = w := by
  rw [nth_prime ht, fraction_eq hk hle hlt]

/-! ## Functions -/

def ch (x y z : Word) : Word := (x &&& y) ^^^ (~~~x &&& z)

def maj (x y z : Word) : Word := (x &&& y) ^^^ (x &&& z) ^^^ (y &&& z)

def bigSigma0 (x : Word) : Word := x.rotateRight 2 ^^^ x.rotateRight 13 ^^^ x.rotateRight 22

def bigSigma1 (x : Word) : Word := x.rotateRight 6 ^^^ x.rotateRight 11 ^^^ x.rotateRight 25

def smallSigma0 (x : Word) : Word := x.rotateRight 7 ^^^ x.rotateRight 18 ^^^ x >>> 3

def smallSigma1 (x : Word) : Word := x.rotateRight 17 ^^^ x.rotateRight 19 ^^^ x >>> 10

/-! ## Compression -/

/-- Eight words: a hash value, or the working variables. -/
@[ext] structure State where
  a : Word
  b : Word
  c : Word
  d : Word
  e : Word
  f : Word
  g : Word
  h : Word

/-- `H^(0)`: square roots of the first eight primes. -/
noncomputable def initial : State where
  a := fraction 2 (Nat.nth Nat.Prime 0)
  b := fraction 2 (Nat.nth Nat.Prime 1)
  c := fraction 2 (Nat.nth Nat.Prime 2)
  d := fraction 2 (Nat.nth Nat.Prime 3)
  e := fraction 2 (Nat.nth Nat.Prime 4)
  f := fraction 2 (Nat.nth Nat.Prime 5)
  g := fraction 2 (Nat.nth Nat.Prime 6)
  h := fraction 2 (Nat.nth Nat.Prime 7)

/-- The `t`-th word of a block, big-endian. -/
def word (block : List UInt8) (t : Nat) : Word :=
  (block.getD (4 * t) 0).toBitVec ++ (block.getD (4 * t + 1) 0).toBitVec ++
    (block.getD (4 * t + 2) 0).toBitVec ++ (block.getD (4 * t + 3) 0).toBitVec

/-- The message schedule `W_t`. -/
def schedule (block : List UInt8) (t : Nat) : Word :=
  if t < 16 then word block t
  else smallSigma1 (schedule block (t - 2)) + schedule block (t - 7) +
    smallSigma0 (schedule block (t - 15)) + schedule block (t - 16)

/-- One round, with `K_t` and `W_t`. -/
def round (k w : Word) (v : State) : State :=
  let t₁ := v.h + bigSigma1 v.e + ch v.e v.f v.g + k + w
  let t₂ := bigSigma0 v.a + maj v.a v.b v.c
  { a := t₁ + t₂, b := v.a, c := v.b, d := v.c, e := v.d + t₁, f := v.e, g := v.f, h := v.g }

def State.add (v w : State) : State :=
  ⟨v.a + w.a, v.b + w.b, v.c + w.c, v.d + w.d, v.e + w.e, v.f + w.f, v.g + w.g, v.h + w.h⟩

/-- The compression function. -/
noncomputable def compress (hash : State) (block : List UInt8) : State :=
  hash.add ((List.range 64).foldl (fun v t => round (K t) (schedule block t) v) hash)

theorem schedule_of_lt {block : List UInt8} {t : Nat} (ht : t < 16) :
    schedule block t = word block t := by
  rw [schedule, if_pos ht]

theorem schedule_of_le {block : List UInt8} {t : Nat} (ht : 16 ≤ t) :
    schedule block t = smallSigma1 (schedule block (t - 2)) + schedule block (t - 7) +
      smallSigma0 (schedule block (t - 15)) + schedule block (t - 16) := by
  rw [schedule, if_neg (by omega)]

theorem getD_take {l : List UInt8} {n i : Nat} (hi : i < n) : (l.take n).getD i 0 = l.getD i 0 := by
  rw [List.getD_eq_getElem?_getD, List.getD_eq_getElem?_getD, List.getElem?_take_of_lt hi]

/-- Only the first 64 bytes of a block are read. -/
theorem schedule_take (block : List UInt8) (t : Nat) :
    schedule (block.take 64) t = schedule block t := by
  induction t using Nat.strongRecOn with
  | ind t ih =>
      by_cases ht : t < 16
      · rw [schedule_of_lt ht, schedule_of_lt ht, word, word, getD_take (by omega),
          getD_take (by omega), getD_take (by omega), getD_take (by omega)]
      · have hle : 16 ≤ t := by omega
        rw [schedule_of_le hle, schedule_of_le hle, ih _ (by omega), ih _ (by omega),
          ih _ (by omega), ih _ (by omega)]

theorem compress_take (hash : State) (block : List UInt8) :
    compress hash (block.take 64) = compress hash block := by
  rw [compress, compress, funext (schedule_take block)]

/-! ## Padding -/

theorem exists_zeros (n : Nat) : ∃ z, (n + 1 + z) % 64 = 56 := ⟨(119 - n % 64) % 64, by omega⟩

/-- The least number of zero bytes that makes the length 56 modulo 64. -/
def zeros (n : Nat) : Nat := Nat.find (exists_zeros n)

/-- A number of 64 bits, big-endian. -/
def bigEndian64 (n : Nat) : List UInt8 :=
  (List.range 8).map fun i => UInt8.ofNat (n / 256 ^ (7 - i))

/-- What is appended to a message of `n` bytes. -/
def padding (n : Nat) : List UInt8 :=
  0x80 :: List.replicate (zeros n) 0 ++ bigEndian64 (8 * n)

def pad (message : List UInt8) : List UInt8 := message ++ padding message.length

/-- The blocks of 64 bytes. -/
def blocks (padded : List UInt8) : List (List UInt8) :=
  (List.range (padded.length / 64)).map fun i => (padded.drop (64 * i)).take 64

theorem zeros_eq (n : Nat) : zeros n = (119 - n % 64) % 64 := by
  rw [zeros, Nat.find_eq_iff]
  constructor
  · omega
  · intro m hm
    omega

theorem length_bigEndian64 (n : Nat) : (bigEndian64 n).length = 8 := by
  rw [bigEndian64, List.length_map, List.length_range]

theorem length_padding (n : Nat) : (padding n).length = zeros n + 9 := by
  rw [padding, List.length_append, List.length_cons, List.length_replicate, length_bigEndian64]

theorem blocks_of_le {l : List UInt8} (h : 64 ≤ l.length) :
    blocks l = l.take 64 :: blocks (l.drop 64) := by
  have hcount : l.length / 64 = (l.drop 64).length / 64 + 1 := by
    rw [List.length_drop]
    omega
  rw [blocks, hcount, List.range_succ_eq_map, List.map_cons, List.map_map, blocks]
  congr 1
  apply List.map_congr_left
  intro i _
  rw [Function.comp_apply, List.drop_drop, Nat.mul_succ, Nat.add_comm]

/-- The blocks of a buffer that is used up to the `k`-th one. -/
theorem blocks_take {l : List UInt8} {k : Nat} (h : 64 * k ≤ l.length) :
    blocks (l.take (64 * k)) = (List.range k).map fun i => (l.drop (64 * i)).take 64 := by
  rw [blocks, List.length_take, Nat.min_eq_left h, Nat.mul_div_cancel_left k (by decide)]
  apply List.map_congr_left
  intro i hi
  rw [List.mem_range] at hi
  rw [List.drop_take, List.take_take, Nat.min_eq_left (by omega)]

/-! ## The hash -/

/-- The four bytes of a word, big-endian. -/
def wordBytes (w : Word) : List UInt8 :=
  [⟨w.extractLsb' 24 8⟩, ⟨w.extractLsb' 16 8⟩, ⟨w.extractLsb' 8 8⟩, ⟨w.extractLsb' 0 8⟩]

def State.bytes (v : State) : List UInt8 :=
  [v.a, v.b, v.c, v.d, v.e, v.f, v.g, v.h].flatMap wordBytes

/-- SHA-256. -/
noncomputable def sha256 (message : List UInt8) : List UInt8 :=
  ((blocks (pad message)).foldl compress initial).bytes

end Fips180
