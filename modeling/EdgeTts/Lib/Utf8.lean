import Mathlib.Algebra.Order.Ring.Int
import Mathlib.Data.List.Basic

/-!
# UTF-8 on byte lists

A byte list is valid UTF-8 when it is the concatenation of the encodings of
Unicode scalar values, each in its shortest form.  `Char` is exactly the type of
scalar values and `String.utf8EncodeChar` the encoding, so validity needs no
table of its own (`Valid`); `valid_iff_scalars` gives the table all the same.

Every encoding is a first byte followed by at most three continuation bytes
(`encode_shape`).  So the continuation bytes say where a valid text may be cut: a
cut is between two characters exactly when no continuation byte follows it
(`Valid.cut`).
-/
namespace Utf8

open String (utf8EncodeChar)

/-- The byte list encodes a sequence of Unicode scalar values. -/
def Valid (s : List UInt8) : Prop := ∃ cs : List Char, s = cs.flatMap utf8EncodeChar

/-- A continuation byte, `0b10xxxxxx`. -/
def Cont (b : UInt8) : Prop := 0x80 ≤ b.toNat ∧ b.toNat < 0xC0

instance (b : UInt8) : Decidable (Cont b) :=
  inferInstanceAs (Decidable (0x80 ≤ b.toNat ∧ b.toNat < 0xC0))

/-! ## One encoding, by the length of the code point -/

theorem encode_one {c : Char} (h : c.toNat < 0x80) :
    utf8EncodeChar c = [UInt8.ofNat c.toNat] := by
  have hv : c.val.toNat = c.toNat := rfl
  simp only [utf8EncodeChar, hv]
  rw [if_pos (by omega)]

theorem encode_two {c : Char} (h : 0x80 ≤ c.toNat) (h' : c.toNat < 0x800) :
    utf8EncodeChar c =
      [UInt8.ofNat (0xC0 + c.toNat / 64), UInt8.ofNat (0x80 + c.toNat % 64)] := by
  have hv : c.val.toNat = c.toNat := rfl
  simp only [utf8EncodeChar, hv]
  rw [if_neg (by omega), if_pos (by omega), Nat.mod_eq_of_lt (a := c.toNat / 64) (by omega)]
  simp only [Nat.add_comm]

theorem encode_three {c : Char} (h : 0x800 ≤ c.toNat) (h' : c.toNat < 0x10000) :
    utf8EncodeChar c =
      [UInt8.ofNat (0xE0 + c.toNat / 4096), UInt8.ofNat (0x80 + c.toNat / 64 % 64),
        UInt8.ofNat (0x80 + c.toNat % 64)] := by
  have hv : c.val.toNat = c.toNat := rfl
  simp only [utf8EncodeChar, hv]
  rw [if_neg (by omega), if_neg (by omega), if_pos (by omega),
    Nat.mod_eq_of_lt (a := c.toNat / 4096) (by omega)]
  simp only [Nat.add_comm]

theorem toNat_lt (c : Char) : c.toNat < 0x110000 := by
  have := c.valid
  have hv : c.val.toNat = c.toNat := rfl
  simp only [UInt32.isValidChar, Nat.isValidChar] at this
  omega

theorem encode_four {c : Char} (h : 0x10000 ≤ c.toNat) :
    utf8EncodeChar c =
      [UInt8.ofNat (0xF0 + c.toNat / 262144), UInt8.ofNat (0x80 + c.toNat / 4096 % 64),
        UInt8.ofNat (0x80 + c.toNat / 64 % 64), UInt8.ofNat (0x80 + c.toNat % 64)] := by
  have hv : c.val.toNat = c.toNat := rfl
  have hlt := toNat_lt c
  simp only [utf8EncodeChar, hv]
  rw [if_neg (by omega), if_neg (by omega), if_neg (by omega),
    Nat.mod_eq_of_lt (a := c.toNat / 262144) (by omega)]
  simp only [Nat.add_comm]

theorem toNat_ofNat_of_lt {n : Nat} (h : n < 256) : (UInt8.ofNat n).toNat = n := by
  simpa using h

theorem ofNat_eq {n : Nat} {b : UInt8} (h : n = b.toNat) : UInt8.ofNat n = b := by
  subst h
  simp

/-- The scalar value with a given number. -/
theorem exists_char {v : Nat} (h : v < 0xD800 ∨ 0xDFFF < v ∧ v < 0x110000) :
    ∃ c : Char, c.toNat = v :=
  ⟨Char.ofNatAux v h, rfl⟩

/-! ## From bytes to the code point they encode -/

theorem exists_encode_one {a : UInt8} (ha : a.toNat < 0x80) : ∃ c, utf8EncodeChar c = [a] := by
  obtain ⟨c, hc⟩ := exists_char (v := a.toNat) (by omega)
  exact ⟨c, by rw [encode_one (by omega), hc, ofNat_eq rfl]⟩

theorem exists_encode_two {a b : UInt8} (ha : 0xC2 ≤ a.toNat) (ha' : a.toNat < 0xE0)
    (hb : Cont b) : ∃ c, utf8EncodeChar c = [a, b] := by
  obtain ⟨hb, hb'⟩ := hb
  obtain ⟨c, hc⟩ := exists_char (v := (a.toNat - 0xC0) * 64 + (b.toNat - 0x80)) (by omega)
  refine ⟨c, ?_⟩
  rw [encode_two (by omega) (by omega), hc, ofNat_eq (b := a) (by omega),
    ofNat_eq (b := b) (by omega)]

theorem exists_encode_three {a b d : UInt8} (ha : 0xE0 ≤ a.toNat) (ha' : a.toNat < 0xF0)
    (hb : Cont b) (hd : Cont d) {v : Nat}
    (hv : v = (a.toNat - 0xE0) * 4096 + (b.toNat - 0x80) * 64 + (d.toNat - 0x80))
    (hmin : 0x800 ≤ v) (hsur : v < 0xD800 ∨ 0xDFFF < v) : ∃ c, utf8EncodeChar c = [a, b, d] := by
  obtain ⟨hb, hb'⟩ := hb
  obtain ⟨hd, hd'⟩ := hd
  obtain ⟨c, hc⟩ := exists_char (v := v) (by omega)
  refine ⟨c, ?_⟩
  rw [encode_three (by omega) (by omega), hc, ofNat_eq (b := a) (by omega),
    ofNat_eq (b := b) (by omega), ofNat_eq (b := d) (by omega)]

theorem exists_encode_four {a b d e : UInt8} (ha : 0xF0 ≤ a.toNat)
    (hb : Cont b) (hd : Cont d) (he : Cont e) {v : Nat}
    (hv : v = (a.toNat - 0xF0) * 262144 + (b.toNat - 0x80) * 4096 + (d.toNat - 0x80) * 64
      + (e.toNat - 0x80))
    (hmin : 0x10000 ≤ v) (hmax : v < 0x110000) : ∃ c, utf8EncodeChar c = [a, b, d, e] := by
  obtain ⟨hb, hb'⟩ := hb
  obtain ⟨hd, hd'⟩ := hd
  obtain ⟨he, he'⟩ := he
  obtain ⟨c, hc⟩ := exists_char (v := v) (by omega)
  refine ⟨c, ?_⟩
  rw [encode_four (by omega), hc, ofNat_eq (b := a) (by omega), ofNat_eq (b := b) (by omega),
    ofNat_eq (b := d) (by omega), ofNat_eq (b := e) (by omega)]

/-! ## Cutting valid text -/

theorem cont_ofNat {n : Nat} (h : n < 64) : Cont (UInt8.ofNat (0x80 + n)) := by
  unfold Cont
  rw [toNat_ofNat_of_lt (by omega)]
  omega

theorem not_cont_ofNat {n : Nat} (h : n < 0x80 ∨ 0xC0 ≤ n ∧ n < 256) :
    ¬ Cont (UInt8.ofNat n) := by
  unfold Cont
  rw [toNat_ofNat_of_lt (by omega)]
  omega

/-- **An encoding is a first byte and at most three continuation bytes**, none of
them when the first byte is ASCII. -/
theorem encode_shape (c : Char) : ∃ b t, utf8EncodeChar c = b :: t ∧ ¬ Cont b ∧
    (∀ x ∈ t, Cont x) ∧ t.length ≤ 3 ∧ (b.toNat < 0x80 → t = []) := by
  have hlt := toNat_lt c
  have first : ∀ n, 0xC0 ≤ n → n < 256 → ∀ t : List UInt8,
      (UInt8.ofNat n).toNat < 0x80 → t = [] := by
    intro n hn hn' t ht
    rw [toNat_ofNat_of_lt hn'] at ht
    omega
  rcases Nat.lt_or_ge c.toNat 0x80 with h1 | h1
  · exact ⟨_, _, encode_one h1, not_cont_ofNat (by omega), by simp, by simp, fun _ => rfl⟩
  rcases Nat.lt_or_ge c.toNat 0x800 with h2 | h2
  · refine ⟨_, _, encode_two h1 h2, not_cont_ofNat (by omega), ?_, by simp,
      first _ (by omega) (by omega) _⟩
    intro x hx
    obtain rfl := List.mem_singleton.mp hx
    exact cont_ofNat (by omega)
  rcases Nat.lt_or_ge c.toNat 0x10000 with h3 | h3
  · refine ⟨_, _, encode_three h2 h3, not_cont_ofNat (by omega), ?_, by simp,
      first _ (by omega) (by omega) _⟩
    simp only [List.mem_cons, List.not_mem_nil, or_false, forall_eq_or_imp, forall_eq]
    exact ⟨cont_ofNat (by omega), cont_ofNat (by omega)⟩
  · refine ⟨_, _, encode_four h3, not_cont_ofNat (by omega), ?_, by simp,
      first _ (by omega) (by omega) _⟩
    simp only [List.mem_cons, List.not_mem_nil, or_false, forall_eq_or_imp, forall_eq]
    exact ⟨cont_ofNat (by omega), cont_ofNat (by omega), cont_ofNat (by omega)⟩

theorem length_encode_le (c : Char) : (utf8EncodeChar c).length ≤ 4 := by
  obtain ⟨b, t, hc, -, -, hlen, -⟩ := encode_shape c
  rw [hc]
  exact Nat.succ_le_succ hlen

/-- A code point beyond ASCII is encoded without ASCII bytes. -/
theorem encode_high {c : Char} (h : 0x80 ≤ c.toNat) : ∀ b ∈ utf8EncodeChar c, 0x80 ≤ b.toNat := by
  obtain ⟨b, t, hc, -, ht, -, hnil⟩ := encode_shape c
  have hfirst : 0x80 ≤ b.toNat := by
    apply Nat.le_of_not_lt
    intro hlt
    -- its encoding would be one byte long
    rw [hnil hlt] at hc
    rcases Nat.lt_or_ge c.toNat 0x800 with h2 | h2
    · rw [encode_two h h2] at hc
      cases hc
    rcases Nat.lt_or_ge c.toNat 0x10000 with h3 | h3
    · rw [encode_three h2 h3] at hc
      cases hc
    · rw [encode_four h3] at hc
      cases hc
  rw [hc]
  exact List.forall_mem_cons.mpr ⟨hfirst, fun x hx => (ht x hx).1⟩

@[simp] theorem valid_nil : Valid [] := ⟨[], rfl⟩

theorem Valid.append {a b : List UInt8} : Valid a → Valid b → Valid (a ++ b) := by
  rintro ⟨cs, rfl⟩ ⟨ds, rfl⟩
  exact ⟨cs ++ ds, List.flatMap_append.symm⟩

theorem valid_encode (c : Char) : Valid (utf8EncodeChar c) := ⟨[c], by simp⟩

theorem valid_ascii {b : UInt8} (h : b.toNat < 0x80) : Valid [b] := by
  obtain ⟨c, hc⟩ := exists_encode_one h
  exact hc ▸ valid_encode c

/-- A valid text that is not empty starts with one whole encoding. -/
theorem Valid.cons_inv {b : UInt8} {s : List UInt8} (h : Valid (b :: s)) :
    ∃ c t r, utf8EncodeChar c = b :: t ∧ s = t ++ r ∧ Valid r := by
  obtain ⟨cs, hs⟩ := h
  cases cs with
  | nil => cases hs
  | cons c cs =>
      obtain ⟨b', t, hc, -⟩ := encode_shape c
      rw [List.flatMap_cons, hc, List.cons_append, List.cons.injEq] at hs
      obtain ⟨rfl, rfl⟩ := hs
      exact ⟨c, t, _, hc, rfl, cs, rfl⟩

theorem Valid.exists_encode {s : List UInt8} (h : Valid s) (hne : s ≠ []) :
    ∃ c r, s = utf8EncodeChar c ++ r ∧ Valid r := by
  obtain ⟨b, s, rfl⟩ := List.exists_cons_of_ne_nil hne
  obtain ⟨c, t, r, hc, rfl, hr⟩ := h.cons_inv
  exact ⟨c, r, by rw [hc, List.cons_append], hr⟩

theorem Valid.head {b : UInt8} {s : List UInt8} (h : Valid (b :: s)) : ¬ Cont b := by
  obtain ⟨c, t, r, hc, -⟩ := h.cons_inv
  obtain ⟨b', t', hc', hb, -⟩ := encode_shape c
  rw [hc] at hc'
  cases hc'
  exact hb

/-- **Where a valid text may be cut.**  A cut that no continuation byte follows
leaves two valid texts. -/
theorem Valid.cut {b : List UInt8} (hb : ∀ x, b.head? = some x → ¬ Cont x) :
    ∀ {a : List UInt8}, Valid (a ++ b) → Valid a ∧ Valid b := by
  intro a h
  obtain ⟨cs, hcs⟩ := h
  induction cs generalizing a with
  | nil =>
      obtain ⟨rfl, rfl⟩ := List.append_eq_nil_iff.mp hcs
      exact ⟨valid_nil, valid_nil⟩
  | cons c cs ih =>
      cases a with
      | nil => exact ⟨valid_nil, c :: cs, hcs⟩
      | cons x a =>
          obtain ⟨y, t, hc, -, ht, -⟩ := encode_shape c
          rw [List.flatMap_cons, hc, List.cons_append, List.cons_append, List.cons.injEq] at hcs
          obtain ⟨rfl, hcs⟩ := hcs
          rcases List.append_eq_append_iff.mp hcs with ⟨u, rfl, hu⟩ | ⟨u, rfl, hu⟩
          · -- the cut falls inside the encoding of `c`, or right after it
            cases u with
            | nil =>
                rw [List.append_nil] at hc
                exact ⟨hc ▸ valid_encode c, by rw [hu]; exact ⟨cs, rfl⟩⟩
            | cons z u =>
                exact absurd (ht z (by simp)) (hb z (by rw [hu]; rfl))
          · obtain ⟨ha, hb'⟩ := ih hu.symm
            exact ⟨(hc ▸ valid_encode c : Valid (x :: t)).append ha, hb'⟩

/-- An ASCII byte is a character of its own. -/
theorem Valid.ascii_tail {b : UInt8} {s : List UInt8} (h : Valid (b :: s))
    (hb : b.toNat < 0x80) : Valid s := by
  obtain ⟨c, t, r, hc, rfl, hr⟩ := h.cons_inv
  obtain ⟨b', t', hc', -, -, -, hnil⟩ := encode_shape c
  rw [hc] at hc'
  cases hc'
  rw [hnil hb]
  exact hr

theorem Valid.drop_ascii : ∀ {u m : List UInt8}, (∀ b ∈ u, b.toNat < 0x80) → Valid (u ++ m) →
    Valid m
  | [], _, _, h => h
  | b :: _, _, hu, h => Valid.drop_ascii (fun x hx => hu x (List.mem_cons_of_mem b hx))
      (h.ascii_tail (hu b List.mem_cons_self))

theorem not_cont_of_ascii {b : UInt8} (h : b.toNat < 0x80) : ¬ Cont b := fun hc => by
  have := hc.1
  omega

/-- A valid text splits around each of its ASCII bytes. -/
theorem Valid.split_ascii {a b : List UInt8} {c : UInt8} (hc : c.toNat < 0x80)
    (h : Valid (a ++ c :: b)) : Valid a ∧ Valid b := by
  obtain ⟨ha, hb⟩ := h.cut (b := c :: b) (by
    intro x hx
    cases hx
    exact not_cont_of_ascii hc)
  exact ⟨ha, hb.ascii_tail hc⟩

/-- **A translation of ASCII bytes keeps a text valid**: the other bytes stand
for themselves, each ASCII byte for some valid text. -/
theorem Valid.flatMap {f : UInt8 → List UInt8} (hf : ∀ b, b.toNat < 0x80 → Valid (f b))
    (hf' : ∀ b, 0x80 ≤ b.toNat → f b = [b]) {s : List UInt8} (h : Valid s) :
    Valid (s.flatMap f) := by
  obtain ⟨cs, rfl⟩ := h
  induction cs with
  | nil => simp
  | cons c cs ih =>
      rw [List.flatMap_cons, List.flatMap_append]
      refine Valid.append ?_ ih
      obtain ⟨b, t, hc, -, ht, -, hnil⟩ := encode_shape c
      rw [hc]
      rcases Nat.lt_or_ge b.toNat 0x80 with hb | hb
      · rw [hnil hb]
        simpa using hf b hb
      · have hkeep : (b :: t).flatMap f = b :: t := by
          have hall : ∀ x ∈ b :: t, f x = [x] := by
            intro x hx
            rcases List.mem_cons.mp hx with rfl | hx
            · exact hf' x hb
            · exact hf' x (ht x hx).1
          rw [List.flatMap_congr hall, List.flatMap_singleton']
        rw [hkeep, ← hc]
        exact valid_encode c

/-! ## The numbers behind the characters -/

/-- A Unicode scalar value: a code point that is not a surrogate. -/
def IsScalar (v : Nat) : Prop := v < 0xD800 ∨ 0xDFFF < v ∧ v < 0x110000

/-- The shortest form of a scalar value, by the number of bits it takes. -/
def encodeScalar (v : Nat) : List UInt8 :=
  if v < 0x80 then [UInt8.ofNat v]
  else if v < 0x800 then [UInt8.ofNat (0xC0 + v / 64), UInt8.ofNat (0x80 + v % 64)]
  else if v < 0x10000 then
    [UInt8.ofNat (0xE0 + v / 4096), UInt8.ofNat (0x80 + v / 64 % 64), UInt8.ofNat (0x80 + v % 64)]
  else
    [UInt8.ofNat (0xF0 + v / 262144), UInt8.ofNat (0x80 + v / 4096 % 64),
      UInt8.ofNat (0x80 + v / 64 % 64), UInt8.ofNat (0x80 + v % 64)]

theorem encodeScalar_toNat (c : Char) : encodeScalar c.toNat = utf8EncodeChar c := by
  unfold encodeScalar
  split
  · rename_i h
    exact (encode_one h).symm
  · split
    · rename_i h h'
      exact (encode_two (Nat.le_of_not_lt h) h').symm
    · split
      · rename_i h h'
        exact (encode_three (Nat.le_of_not_lt h) h').symm
      · rename_i h
        exact (encode_four (Nat.le_of_not_lt h)).symm

theorem isScalar_toNat (c : Char) : IsScalar c.toNat := by
  have := c.valid
  have hv : c.val.toNat = c.toNat := rfl
  simp only [UInt32.isValidChar, Nat.isValidChar] at this
  unfold IsScalar
  omega

/-- Valid text, spelled out with numbers. -/
theorem valid_iff_scalars {s : List UInt8} :
    Valid s ↔ ∃ vs : List Nat, (∀ v ∈ vs, IsScalar v) ∧ s = vs.flatMap encodeScalar := by
  constructor
  · rintro ⟨cs, rfl⟩
    refine ⟨cs.map Char.toNat, ?_, ?_⟩
    · intro v hv
      obtain ⟨c, -, rfl⟩ := List.mem_map.mp hv
      exact isScalar_toNat c
    · rw [List.flatMap_map]
      exact List.flatMap_congr fun c _ => (encodeScalar_toNat c).symm
  · rintro ⟨vs, hvs, rfl⟩
    induction vs with
    | nil => exact valid_nil
    | cons v vs ih =>
        obtain ⟨c, rfl⟩ := exists_char (hvs v List.mem_cons_self)
        rw [List.flatMap_cons, encodeScalar_toNat]
        exact (valid_encode c).append (ih fun w hw => hvs w (List.mem_cons_of_mem _ hw))

/-- The first character of a text can be read in one way only. -/
theorem encode_append_inj {c d : Char} {r s : List UInt8}
    (h : utf8EncodeChar c ++ r = utf8EncodeChar d ++ s) : c = d ∧ r = s := by
  have hread := congrArg (fun l => ByteArray.utf8DecodeChar? l.toByteArray 0) h
  simp only [List.toByteArray_append, ByteArray.utf8DecodeChar?_utf8EncodeChar_append] at hread
  obtain rfl : c = d := Option.some.inj hread
  exact ⟨rfl, List.append_cancel_left h⟩

/-- A valid text decodes in one way only. -/
theorem flatMap_encode_inj : ∀ {cs ds : List Char},
    cs.flatMap utf8EncodeChar = ds.flatMap utf8EncodeChar → cs = ds
  | [], [], _ => rfl
  | [], d :: ds, h => by
      obtain ⟨b, t, hd, -⟩ := encode_shape d
      rw [List.flatMap_cons, hd] at h
      cases h
  | c :: cs, [], h => by
      obtain ⟨b, t, hc, -⟩ := encode_shape c
      rw [List.flatMap_cons, hc] at h
      cases h
  | c :: cs, d :: ds, h => by
      rw [List.flatMap_cons, List.flatMap_cons] at h
      obtain ⟨rfl, htail⟩ := encode_append_inj h
      rw [flatMap_encode_inj htail]

end Utf8
