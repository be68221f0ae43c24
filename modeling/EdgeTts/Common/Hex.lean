import EdgeTts.Common.Error
import Mathlib.Tactic.IntervalCases

/-!
# `common/Hex.cpp`

`encode` writes two digits for each byte.  `decode` is what a reader makes of them, in either
case of the letters: it is the inverse of both encoders (`decode_encode`), so an encoded string
determines its bytes (`encode_inj`).
-/
namespace EdgeTts.Hex

/-- `LOWER`. -/
def kLower : Bytes := lit "0123456789abcdef"

/-- `UPPER`. -/
def kUpper : Bytes := lit "0123456789ABCDEF"

def encode (bytes digits : Bytes) : Bytes :=
  bytes.flatMap fun v : UInt8 => [digits.getD (v >>> 4).toNat 0, digits.getD (v &&& 0x0F).toNat 0]

/-- `hex_encode_lower`. -/
def hexEncodeLower (bytes : Bytes) : Bytes := encode bytes kLower

/-- `hex_encode_upper`. -/
def hexEncodeUpper (bytes : Bytes) : Bytes := encode bytes kUpper

/-! ## Reading the digits -/

/-- What a digit stands for. -/
def digitValue (c : UInt8) : Option UInt8 :=
  if 0x30 ≤ c ∧ c ≤ 0x39 then some (c - 0x30)
  else if 0x61 ≤ c ∧ c ≤ 0x66 then some (c - 0x57)
  else if 0x41 ≤ c ∧ c ≤ 0x46 then some (c - 0x37)
  else none

/-- The bytes that pairs of digits stand for. -/
def decode : Bytes → Option Bytes
  | [] => some []
  | [_] => none
  | hi :: lo :: rest => do
      let h ← digitValue hi
      let l ← digitValue lo
      let bytes ← decode rest
      return ((h <<< 4 ||| l) :: bytes)

/-- An alphabet of sixteen digits, each standing for its place. -/
def Alphabet (digits : Bytes) : Prop :=
  digits.length = 16 ∧ ∀ i < 16, digitValue (digits.getD i 0) = some i.toUInt8

instance (digits : Bytes) : Decidable (Alphabet digits) := by
  unfold Alphabet
  infer_instance

theorem alphabet_lower : Alphabet kLower := by decide

theorem alphabet_upper : Alphabet kUpper := by decide

/-- A byte is put together from its halves. -/
theorem halves (v : UInt8) : (v >>> 4) <<< 4 ||| (v &&& 0x0F) = v := by
  apply UInt8.toBitVec_inj.mp
  apply BitVec.eq_of_getLsbD_eq
  intro i hi
  interval_cases i <;> simp

theorem high_lt (v : UInt8) : (v >>> 4).toNat < 16 := by
  have hv := v.toNat_lt
  rw [UInt8.toNat_shiftRight, show (4 : UInt8).toNat % 8 = 4 from rfl, Nat.shiftRight_eq_div_pow]
  omega

theorem low_lt (v : UInt8) : (v &&& 0x0F).toNat < 16 := by
  rw [UInt8.toNat_and]
  exact Nat.lt_of_le_of_lt Nat.and_le_right (by decide)

section
variable {digits : Bytes}

@[simp] theorem encode_nil : encode [] digits = [] := rfl

@[simp] theorem encode_cons (v : UInt8) (bytes : Bytes) :
    encode (v :: bytes) digits =
      digits.getD (v >>> 4).toNat 0 :: digits.getD (v &&& 0x0F).toNat 0 :: encode bytes digits :=
  rfl

theorem encode_append (xs ys : Bytes) :
    encode (xs ++ ys) digits = encode xs digits ++ encode ys digits := List.flatMap_append

theorem length_encode (bytes : Bytes) : (encode bytes digits).length = 2 * bytes.length := by
  induction bytes with
  | nil => rfl
  | cons v bytes ih =>
      rw [encode_cons, List.length_cons, List.length_cons, List.length_cons, ih]
      omega

/-- **Encoded bytes are read back**, in either alphabet. -/
theorem decode_encode (halphabet : Alphabet digits) (bytes : Bytes) :
    decode (encode bytes digits) = some bytes := by
  induction bytes with
  | nil => rfl
  | cons v bytes ih =>
      have hhigh : digitValue (digits.getD (v >>> 4).toNat 0) = some (v >>> 4) := by
        rw [halphabet.2 _ (high_lt v), Nat.toUInt8, UInt8.ofNat_toNat]
      have hlow : digitValue (digits.getD (v &&& 0x0F).toNat 0) = some (v &&& 0x0F) := by
        rw [halphabet.2 _ (low_lt v), Nat.toUInt8, UInt8.ofNat_toNat]
      rw [encode_cons, decode, hhigh, hlow, ih]
      show some (((v >>> 4) <<< 4 ||| (v &&& 0x0F)) :: bytes) = _
      rw [halves]

theorem encode_inj (halphabet : Alphabet digits) {xs ys : Bytes}
    (h : encode xs digits = encode ys digits) : xs = ys := by
  have hdecode := congrArg decode h
  rw [decode_encode halphabet, decode_encode halphabet] at hdecode
  exact Option.some.inj hdecode

/-- Nothing but digits is written. -/
theorem mem_encode (halphabet : Alphabet digits) {bytes : Bytes} {c : UInt8}
    (h : c ∈ encode bytes digits) : c ∈ digits := by
  obtain ⟨v, -, hc⟩ := List.mem_flatMap.mp h
  have hget : ∀ i < 16, digits.getD i 0 ∈ digits := by
    intro i hi
    have hlt : i < digits.length := by
      rw [halphabet.1]
      exact hi
    simp only [List.getD, List.getElem?_eq_getElem hlt, Option.getD_some, List.getElem_mem]
  rcases List.mem_cons.mp hc with rfl | hc
  · exact hget _ (high_lt v)
  · rw [List.mem_singleton.mp hc]
    exact hget _ (low_lt v)

end

end EdgeTts.Hex
