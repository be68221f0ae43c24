import Mathlib.Algebra.Order.Ring.Int
import Mathlib.Data.List.Basic

/-!
# Decimal numerals as bytes

`%d` and its zero-padded forms, and reading a numeral back.  The digits are those
of `Nat.toDigits`; a numeral holds digits only and `toNat` inverts the printing,
padded or not.
-/
namespace Decimal

def IsDigit (c : UInt8) : Prop := 0x30 ≤ c.toNat ∧ c.toNat ≤ 0x39

instance (c : UInt8) : Decidable (IsDigit c) :=
  inferInstanceAs (Decidable (0x30 ≤ c.toNat ∧ c.toNat ≤ 0x39))

/-- `%d` of a natural number. -/
def ofNat (n : Nat) : List UInt8 := (Nat.toDigits 10 n).map Char.toUInt8

/-- Zeros in front, up to a width. -/
def pad (width : Nat) (s : List UInt8) : List UInt8 :=
  List.replicate (width - s.length) 0x30 ++ s

/-- `%0{width}d`; a minus sign counts for the width. -/
def ofInt (width : Nat) (n : Int) : List UInt8 :=
  if n < 0 then 0x2D :: pad (width - 1) (ofNat n.natAbs) else pad width (ofNat n.natAbs)

/-- The number that a numeral denotes. -/
def toNat (s : List UInt8) : Nat := s.foldl (fun n c => 10 * n + (c.toNat - 0x30)) 0

theorem toNat_toUInt8 {c : Char} (h : c.isDigit = true) :
    c.toUInt8.toNat = c.toNat ∧ 0x30 ≤ c.toNat ∧ c.toNat ≤ 0x39 := by
  have hb : 0x30 ≤ c.toNat ∧ c.toNat ≤ 0x39 := by
    simp only [Char.isDigit, Bool.and_eq_true, decide_eq_true_eq, ge_iff_le,
      UInt32.le_iff_toNat_le] at h
    exact h
  refine ⟨?_, hb⟩
  show c.val.toUInt8.toNat = c.val.toNat
  have hv : c.val.toNat = c.toNat := rfl
  rw [UInt32.toNat_toUInt8, Nat.mod_eq_of_lt (by omega)]

theorem isDigit_of_mem_ofNat {n : Nat} {c : UInt8} (h : c ∈ ofNat n) : IsDigit c := by
  obtain ⟨d, hd, rfl⟩ := List.mem_map.mp h
  obtain ⟨he, hb⟩ := toNat_toUInt8 (Nat.isDigit_of_mem_toDigits (by decide) (by decide) hd)
  unfold IsDigit
  rwa [he]

theorem isDigit_of_mem_pad {width : Nat} {s : List UInt8} (hs : ∀ c ∈ s, IsDigit c) {c : UInt8}
    (h : c ∈ pad width s) : IsDigit c := by
  rcases List.mem_append.mp h with h | h
  · rw [List.eq_of_mem_replicate h]
    decide
  · exact hs c h

theorem ofNat_ne_nil (n : Nat) : ofNat n ≠ [] := by
  simp [ofNat, Nat.toDigits_ne_nil]

theorem pad_ne_nil {width : Nat} {s : List UInt8} (h : s ≠ []) : pad width s ≠ [] := by
  simp [pad, h]

theorem length_ofNat_le_iff {n k : Nat} (h : 0 < k) : (ofNat n).length ≤ k ↔ n < 10 ^ k := by
  rw [ofNat, List.length_map]
  exact Nat.length_toDigits_le_iff (by decide) h

theorem length_pad (width : Nat) (s : List UInt8) : (pad width s).length = max width s.length := by
  rw [pad, List.length_append, List.length_replicate]
  omega

/-- A number of at most `width` digits fills exactly the width. -/
theorem length_pad_ofNat {n width : Nat} (hw : 0 < width) (h : n < 10 ^ width) :
    (pad width (ofNat n)).length = width := by
  have := (length_ofNat_le_iff hw).mpr h
  rw [length_pad]
  omega

/-- A numeral denotes the same number as bytes and as characters. -/
theorem foldl_toUInt8 {digits : List Char} (h : ∀ c ∈ digits, c.isDigit = true) (n : Nat) :
    digits.foldl (fun n c => 10 * n + (c.toUInt8.toNat - 0x30)) n =
      digits.foldl (fun n c => 10 * n + (c.toNat - '0'.toNat)) n := by
  induction digits generalizing n with
  | nil => rfl
  | cons c digits ih =>
      obtain ⟨hc, hdigits⟩ := List.forall_mem_cons.mp h
      rw [List.foldl_cons, List.foldl_cons, (toNat_toUInt8 hc).1]
      exact ih hdigits _

/-- **A numeral is read back.** -/
theorem toNat_ofNat (n : Nat) : toNat (ofNat n) = n := by
  conv => rhs; rw [← Nat.ofDigitChars_ten_toDigits (n := n)]
  rw [toNat, ofNat, List.foldl_map, Nat.ofDigitChars_eq_foldl]
  exact foldl_toUInt8 (fun c hc => Nat.isDigit_of_mem_toDigits (by decide) (by decide) hc) 0

theorem toNat_replicate_zero (k : Nat) : toNat (List.replicate k 0x30) = 0 := by
  induction k with
  | zero => rfl
  | succ k ih =>
      rw [List.replicate_succ]
      exact ih

theorem toNat_pad (width : Nat) (s : List UInt8) : toNat (pad width s) = toNat s := by
  have hzeros := toNat_replicate_zero (width - s.length)
  rw [toNat] at hzeros
  rw [toNat, pad, List.foldl_append, hzeros]
  rfl

theorem ofInt_of_nonneg {width : Nat} {n : Int} (h : 0 ≤ n) :
    ofInt width n = pad width (ofNat n.toNat) := by
  rw [ofInt, if_neg (by omega), show n.natAbs = n.toNat from by omega]

example : ofInt 2 7 = [0x30, 0x37] := by decide

end Decimal
