import EdgeTts.Lib.Utf8
import EdgeTts.Common.Error

/-!
# `common/Utf8.cpp`

`is_valid_utf8` decodes one code point after the other and checks its length
class, the surrogate range and the Unicode maximum.  `isValidUtf8_iff` says that
what it accepts is exactly the valid UTF-8 of `Utf8.Valid`.
-/
namespace EdgeTts

open Utf8 (Valid Cont)

/-- `is_continuation`. -/
def isContinuation (c : UInt8) : Bool := (c &&& 0xC0) == 0x80

/-- What a first byte of a multi-byte sequence announces. -/
structure Lead where
  extra : Nat
  minCp : UInt32
  codepoint : UInt32
  deriving DecidableEq, Repr

/-- The branches of `is_valid_utf8` for `b0 >= 0x80`; `none` is `return false`. -/
def lead (b0 : UInt8) : Option Lead :=
  if b0 &&& 0xE0 = 0xC0 then
    -- 0xC0 and 0xC1 would start overlong forms
    if b0 < 0xC2 then none else some ⟨1, 0x80, (b0 &&& 0x1F).toUInt32⟩
  else if b0 &&& 0xF0 = 0xE0 then
    some ⟨2, 0x800, (b0 &&& 0x0F).toUInt32⟩
  else if b0 &&& 0xF8 = 0xF0 then
    if b0 > 0xF4 then none else some ⟨3, 0x10000, (b0 &&& 0x07).toUInt32⟩
  else none

/-- The inner loop of `is_valid_utf8`: the code point after `extra` continuation
bytes and the text after them; `none` is `return false`. -/
def readContinuations : Nat → UInt32 → Bytes → Option (UInt32 × Bytes)
  | 0, codepoint, text => some (codepoint, text)
  | _ + 1, _, [] => none
  | extra + 1, codepoint, b :: text =>
      if b &&& 0xC0 ≠ 0x80 then none
      else readContinuations extra ((codepoint <<< 6) ||| (b &&& 0x3F).toUInt32) text

theorem readContinuations_length : ∀ {extra : Nat} {cp cp' : UInt32} {text rest : Bytes},
    readContinuations extra cp text = some (cp', rest) → rest.length ≤ text.length
  | 0, _, _, _, _, h => by
      cases h
      exact Nat.le_refl _
  | extra + 1, _, _, b :: text, _, h => by
      rw [readContinuations] at h
      split at h
      · cases h
      · exact Nat.le_succ_of_le (readContinuations_length h)

/-- `is_valid_utf8`. -/
def isValidUtf8 : Bytes → Bool
  | [] => true
  | b0 :: text =>
      if b0 < 0x80 then isValidUtf8 text
      else
        match lead b0 with
        | none => false
        | some l =>
            match h : readContinuations l.extra l.codepoint text with
            | none => false
            | some (codepoint, rest) =>
                have := readContinuations_length h
                -- overlong, surrogate, beyond the Unicode maximum
                if codepoint < l.minCp then false
                else if 0xD800 ≤ codepoint ∧ codepoint ≤ 0xDFFF then false
                else if codepoint > 0x10FFFF then false
                else isValidUtf8 rest
  termination_by text => text.length

/-- `next_code_point_boundary(text, 0)` on the text from the current position:
past the byte there and the continuation bytes that follow it. -/
def nextCodePointBoundary : Bytes → Nat
  | [] => 0
  | _ :: text => 1 + (text.takeWhile isContinuation).length

/-! ## Masks as ranges -/

theorem forall_uint8 {p : UInt8 → Prop} (h : ∀ i : Fin 256, p (UInt8.ofFin i)) (b : UInt8) :
    p b := by
  simpa using h b.toFin

set_option maxRecDepth 10000 in
/-- What the masks of the first byte and of a continuation byte test. -/
theorem masks (b : UInt8) :
    (b &&& 0xC0 = 0x80 ↔ Cont b) ∧
    (b &&& 0xE0 = 0xC0 ↔ 0xC0 ≤ b.toNat ∧ b.toNat < 0xE0) ∧
    (b &&& 0xF0 = 0xE0 ↔ 0xE0 ≤ b.toNat ∧ b.toNat < 0xF0) ∧
    (b &&& 0xF8 = 0xF0 ↔ 0xF0 ≤ b.toNat ∧ b.toNat < 0xF8) := by
  revert b
  exact forall_uint8 (by decide)

theorem isContinuation_iff (b : UInt8) : isContinuation b = true ↔ Cont b := by
  rw [isContinuation, beq_iff_eq, (masks b).1]

theorem toNat_and_ones (b : UInt8) {k : Nat} {m : UInt8} (hm : m.toNat = 2 ^ k - 1) :
    (b &&& m).toUInt32.toNat = b.toNat % 2 ^ k := by
  rw [UInt8.toNat_toUInt32, UInt8.toNat_and, hm]
  exact Nat.and_two_pow_sub_one_eq_mod b.toNat k

/-- One step of the inner loop appends six bits to the code point. -/
theorem shift_or_toNat (cp : UInt32) {b : UInt8} (h : cp.toNat < 0x4000000) (hb : Cont b) :
    ((cp <<< 6) ||| (b &&& 0x3F).toUInt32).toNat = cp.toNat * 64 + (b.toNat - 0x80) := by
  have hlow : (b &&& 0x3F).toUInt32.toNat = b.toNat - 0x80 := by
    rw [toNat_and_ones b (k := 6) rfl]
    have := hb.1
    have := hb.2
    omega
  have hhigh : (cp <<< 6).toNat = cp.toNat <<< 6 := by
    rw [UInt32.toNat_shiftLeft, show (6 : UInt32).toNat % 32 = 6 from rfl,
      Nat.mod_eq_of_lt (by rw [Nat.shiftLeft_eq]; omega)]
  have := hb.2
  rw [UInt32.toNat_or, hhigh, hlow, ← Nat.shiftLeft_add_eq_or_of_lt (by omega), Nat.shiftLeft_eq]

theorem readContinuations_cons {extra : Nat} {cp : UInt32} {b : UInt8} {text : Bytes}
    (hb : Cont b) : readContinuations (extra + 1) cp (b :: text) =
      readContinuations extra ((cp <<< 6) ||| (b &&& 0x3F).toUInt32) text := by
  rw [readContinuations, if_neg (by rw [not_not]; exact (masks b).1.mpr hb)]

theorem readContinuations_cons_inv {extra : Nat} {cp cp' : UInt32} {text rest : Bytes}
    (h : readContinuations (extra + 1) cp text = some (cp', rest)) :
    ∃ b text', text = b :: text' ∧ Cont b ∧
      readContinuations extra ((cp <<< 6) ||| (b &&& 0x3F).toUInt32) text' = some (cp', rest) := by
  cases text with
  | nil => cases h
  | cons b text =>
      rw [readContinuations] at h
      split at h
      · cases h
      · rename_i hb
        exact ⟨b, text, rfl, (masks b).1.mp (not_not.mp hb), h⟩

/-- The code point with the bits of continuation bytes appended. -/
def appendBits (cp : Nat) (ts : Bytes) : Nat :=
  ts.foldl (fun v b => v * 64 + (b.toNat - 0x80)) cp

/-- **The inner loop reads continuation bytes** and appends their bits, as long as there is
room for them in the code point. -/
theorem readContinuations_append : ∀ (ts rest : Bytes) (cp : UInt32), (∀ b ∈ ts, Cont b) →
    (cp.toNat + 1) * 64 ^ ts.length ≤ 2 ^ 32 →
      ∃ cp', readContinuations ts.length cp (ts ++ rest) = some (cp', rest) ∧
        cp'.toNat = appendBits cp.toNat ts
  | [], _, cp, _, _ => ⟨cp, rfl, rfl⟩
  | b :: ts, rest, cp, hts, hroom => by
      obtain ⟨hb, hts⟩ := List.forall_mem_cons.mp hts
      rw [List.length_cons] at hroom
      have hone : (cp.toNat + 1) * 64 ≤ 2 ^ 32 :=
        Nat.le_trans (Nat.mul_le_mul_left _ (Nat.le_self_pow (Nat.succ_ne_zero _) 64)) hroom
      have hstep := shift_or_toNat cp (by omega) hb
      have hnext : (cp.toNat * 64 + (b.toNat - 0x80) + 1) * 64 ^ ts.length ≤ 2 ^ 32 :=
        calc
          _ ≤ (cp.toNat + 1) * 64 * 64 ^ ts.length := by
            apply Nat.mul_le_mul_right
            have := hb.2
            omega
          _ = (cp.toNat + 1) * 64 ^ (ts.length + 1) := by rw [Nat.pow_succ', Nat.mul_assoc]
          _ ≤ 2 ^ 32 := hroom
      rw [← hstep] at hnext
      obtain ⟨cp', hread, hval⟩ := readContinuations_append ts rest _ hts hnext
      refine ⟨cp', ?_, ?_⟩
      · rw [List.cons_append, List.length_cons, readContinuations_cons hb, hread]
      · rw [hval, hstep, appendBits, appendBits, List.foldl_cons]

/-- What the inner loop has read are continuation bytes. -/
theorem readContinuations_inv : ∀ {extra : Nat} {cp cp' : UInt32} {text rest : Bytes},
    readContinuations extra cp text = some (cp', rest) →
      ∃ ts, ts.length = extra ∧ (∀ b ∈ ts, Cont b) ∧ text = ts ++ rest
  | 0, _, _, _, _, h => by
      cases h
      exact ⟨[], rfl, nofun, rfl⟩
  | extra + 1, _, _, _, _, h => by
      obtain ⟨b, text, rfl, hb, h⟩ := readContinuations_cons_inv h
      obtain ⟨ts, hlen, hts, rfl⟩ := readContinuations_inv h
      exact ⟨b :: ts, congrArg (· + 1) hlen, List.forall_mem_cons.mpr ⟨hb, hts⟩, rfl⟩

/-- What `lead` accepts, by the number of bytes announced. -/
theorem lead_eq_some {b0 : UInt8} {l : Lead} (h : lead b0 = some l) :
    (l.extra = 1 ∧ l.minCp = 0x80 ∧ l.codepoint.toNat = b0.toNat - 0xC0 ∧
      0xC2 ≤ b0.toNat ∧ b0.toNat < 0xE0) ∨
    (l.extra = 2 ∧ l.minCp = 0x800 ∧ l.codepoint.toNat = b0.toNat - 0xE0 ∧
      0xE0 ≤ b0.toNat ∧ b0.toNat < 0xF0) ∨
    (l.extra = 3 ∧ l.minCp = 0x10000 ∧ l.codepoint.toNat = b0.toNat - 0xF0 ∧
      0xF0 ≤ b0.toNat ∧ b0.toNat ≤ 0xF4) := by
  obtain ⟨-, h2, h3, h4⟩ := masks b0
  simp only [lead, h2, h3, h4] at h
  split at h
  · rename_i hr
    split at h
    · cases h
    · rename_i hlow
      rw [UInt8.lt_iff_toNat_lt] at hlow
      cases h
      refine Or.inl ⟨rfl, rfl, ?_, by simpa using hlow, hr.2⟩
      rw [toNat_and_ones b0 (k := 5) rfl]
      omega
  · split at h
    · rename_i hr
      cases h
      refine Or.inr (Or.inl ⟨rfl, rfl, ?_, hr.1, hr.2⟩)
      rw [toNat_and_ones b0 (k := 4) rfl]
      omega
    · split at h
      · rename_i hr
        split at h
        · cases h
        · rename_i hhigh
          rw [gt_iff_lt, UInt8.lt_iff_toNat_lt] at hhigh
          cases h
          have hle : b0.toNat ≤ 0xF4 := by simpa using hhigh
          refine Or.inr (Or.inr ⟨rfl, rfl, ?_, hr.1, hle⟩)
          rw [toNat_and_ones b0 (k := 3) rfl]
          omega
      · cases h

theorem exists_lead (b0 : UInt8) (h : 0xC2 ≤ b0.toNat) (h' : b0.toNat ≤ 0xF4) :
    ∃ l, lead b0 = some l := by
  obtain ⟨-, h2, h3, h4⟩ := masks b0
  have hlow : ¬ b0 < 0xC2 := by rw [UInt8.lt_iff_toNat_lt]; simpa using h
  have hhigh : ¬ b0 > 0xF4 := by rw [gt_iff_lt, UInt8.lt_iff_toNat_lt]; simpa using h'
  simp only [lead, h2, h3, h4, if_neg hlow, if_neg hhigh]
  split
  · exact ⟨_, rfl⟩
  · split
    · exact ⟨_, rfl⟩
    · rw [if_pos (by omega)]
      exact ⟨_, rfl⟩

/-- There is room for the announced bits. -/
theorem lead_room {b0 : UInt8} {l : Lead} (h : lead b0 = some l) :
    (l.codepoint.toNat + 1) * 64 ^ l.extra ≤ 2 ^ 32 := by
  rcases lead_eq_some h with ⟨hx, -, hcp, hr⟩ | ⟨hx, -, hcp, hr⟩ | ⟨hx, -, hcp, hr⟩
  all_goals
    rw [hx, hcp]
    omega

/-! ## One turn of the loop -/

/-- **A turn of the loop** on a sequence that has been read: the checks on its code point, and
then the rest. -/
theorem isValidUtf8_turn {b0 : UInt8} {text rest : Bytes} {l : Lead} {cp : UInt32}
    (h80 : 0x80 ≤ b0.toNat) (hl : lead b0 = some l)
    (hc : readContinuations l.extra l.codepoint text = some (cp, rest)) :
    isValidUtf8 (b0 :: text) = true ↔ l.minCp.toNat ≤ cp.toNat ∧
      (cp.toNat < 0xD800 ∨ 0xDFFF < cp.toNat) ∧ cp.toNat ≤ 0x10FFFF ∧ isValidUtf8 rest = true := by
  have hlead : ¬ b0 < 0x80 := by rw [UInt8.lt_iff_toNat_lt]; simpa using h80
  have hturn : isValidUtf8 (b0 :: text) =
      if cp < l.minCp then false
      else if 0xD800 ≤ cp ∧ cp ≤ 0xDFFF then false
      else if cp > 0x10FFFF then false
      else isValidUtf8 rest := by
    rw [isValidUtf8, if_neg hlead]
    simp only [hl]
    split
    · rename_i hn
      rw [hc] at hn
      cases hn
    · rename_i hs
      rw [hc] at hs
      cases hs
      rfl
  have hmin : cp < l.minCp ↔ ¬ l.minCp.toNat ≤ cp.toNat := by
    rw [UInt32.lt_iff_toNat_lt, Nat.not_le]
  have hsur : (0xD800 ≤ cp ∧ cp ≤ 0xDFFF) ↔ ¬ (cp.toNat < 0xD800 ∨ 0xDFFF < cp.toNat) := by
    rw [UInt32.le_iff_toNat_le, UInt32.le_iff_toNat_le]
    simp only [UInt32.reduceToNat]
    omega
  have hmax : cp > 0x10FFFF ↔ ¬ cp.toNat ≤ 0x10FFFF := by
    rw [gt_iff_lt, UInt32.lt_iff_toNat_lt, Nat.not_le]
    rfl
  rw [hturn]
  simp only [hmin, hsur, hmax, ite_not, Bool.if_false_right, Bool.and_eq_true, decide_eq_true_eq]

/-- The loop on a sequence whose code point passes every check. -/
theorem isValidUtf8_sequence {b0 : UInt8} {ts : Bytes} (rest : Bytes) {l : Lead} {v : Nat}
    (hl : lead b0 = some l) (hlen : ts.length = l.extra) (hts : ∀ b ∈ ts, Cont b)
    (hv : appendBits l.codepoint.toNat ts = v) (hmin : l.minCp.toNat ≤ v)
    (hsur : v < 0xD800 ∨ 0xDFFF < v) (hmax : v ≤ 0x10FFFF) :
    isValidUtf8 (b0 :: (ts ++ rest)) = isValidUtf8 rest := by
  obtain ⟨cp, hread, hcp⟩ := readContinuations_append ts rest l.codepoint hts (hlen ▸ lead_room hl)
  rw [hlen] at hread
  rw [← hv, ← hcp] at hmin hsur hmax
  have h80 : 0x80 ≤ b0.toNat := by
    have := lead_eq_some hl
    omega
  rw [Bool.eq_iff_iff, isValidUtf8_turn h80 hl hread]
  exact ⟨fun h => h.2.2.2, fun h => ⟨hmin, hsur, hmax, h⟩⟩

/-- What the loop has read when it does not return `false` in a turn. -/
theorem isValidUtf8_cons_inv {b0 : UInt8} {text : Bytes} (h : isValidUtf8 (b0 :: text) = true)
    (h80 : 0x80 ≤ b0.toNat) : ∃ l ts rest v, lead b0 = some l ∧ text = ts ++ rest ∧
      ts.length = l.extra ∧ (∀ b ∈ ts, Cont b) ∧ appendBits l.codepoint.toNat ts = v ∧
      l.minCp.toNat ≤ v ∧ (v < 0xD800 ∨ 0xDFFF < v) ∧ v ≤ 0x10FFFF ∧ isValidUtf8 rest = true := by
  have hlead : ¬ b0 < 0x80 := by rw [UInt8.lt_iff_toNat_lt]; simpa using h80
  cases hl : lead b0 with
  | none =>
      rw [isValidUtf8, if_neg hlead, hl] at h
      cases h
  | some l =>
      cases hc : readContinuations l.extra l.codepoint text with
      | none =>
          rw [isValidUtf8, if_neg hlead, hl] at h
          simp only at h
          split at h
          · cases h
          · rename_i hs
            rw [hc] at hs
            cases hs
      | some r =>
          obtain ⟨cp, rest⟩ := r
          obtain ⟨hmin, hsur, hmax, hrest⟩ := (isValidUtf8_turn h80 hl hc).mp h
          obtain ⟨ts, hlen, hts, rfl⟩ := readContinuations_inv hc
          obtain ⟨cp', hread, hcp⟩ :=
            readContinuations_append ts rest l.codepoint hts (hlen ▸ lead_room hl)
          rw [hlen, hc] at hread
          cases hread
          exact ⟨l, ts, rest, cp.toNat, rfl, rfl, hlen, hts, hcp.symm, hmin, hsur, hmax, hrest⟩

theorem isValidUtf8_ascii {b0 : UInt8} (h : b0.toNat < 0x80) (text : Bytes) :
    isValidUtf8 (b0 :: text) = isValidUtf8 text := by
  rw [isValidUtf8, if_pos (by rw [UInt8.lt_iff_toNat_lt]; simpa using h)]

/-- A turn of the loop consumes the encoding of one scalar value. -/
theorem isValidUtf8_encode (c : Char) (rest : Bytes) :
    isValidUtf8 (String.utf8EncodeChar c ++ rest) = isValidUtf8 rest := by
  have hlt := Utf8.toNat_lt c
  have hmax : c.toNat ≤ 0x10FFFF := by omega
  have hval : c.toNat < 0xD800 ∨ 0xDFFF < c.toNat :=
    (Utf8.isScalar_toNat c).imp id fun h => h.1
  have hn : ∀ n, n < 256 → (UInt8.ofNat n).toNat = n := fun n h => Utf8.toNat_ofNat_of_lt h
  -- by the length of the encoding; its first byte excludes the other two classes of `lead`
  rcases Nat.lt_or_ge c.toNat 0x80 with h1 | h1
  · rw [Utf8.encode_one h1]
    exact isValidUtf8_ascii (by rw [hn _ (by omega)]; exact h1) rest
  rcases Nat.lt_or_ge c.toNat 0x800 with h2 | h2
  · have ha := hn (0xC0 + c.toNat / 64) (by omega)
    have hb := hn (0x80 + c.toNat % 64) (by omega)
    have cb := Utf8.cont_ofNat (n := c.toNat % 64) (by omega)
    obtain ⟨l, hl⟩ := exists_lead (UInt8.ofNat (0xC0 + c.toNat / 64)) (by omega) (by omega)
    obtain ⟨hx, hm, hcp, -⟩ | ⟨-, -, -, hr, -⟩ | ⟨-, -, -, hr, -⟩ := lead_eq_some hl
    · rw [Utf8.encode_two h1 h2]
      refine isValidUtf8_sequence rest hl hx.symm (List.forall_mem_singleton.mpr cb) ?_ (hm ▸ h1)
        hval hmax
      rw [hcp, ha, appendBits, List.foldl_cons, List.foldl_nil, hb]
      omega
    · omega
    · omega
  rcases Nat.lt_or_ge c.toNat 0x10000 with h3 | h3
  · have ha := hn (0xE0 + c.toNat / 4096) (by omega)
    have hb := hn (0x80 + c.toNat / 64 % 64) (by omega)
    have hd := hn (0x80 + c.toNat % 64) (by omega)
    have cb := Utf8.cont_ofNat (n := c.toNat / 64 % 64) (by omega)
    have cd := Utf8.cont_ofNat (n := c.toNat % 64) (by omega)
    obtain ⟨l, hl⟩ := exists_lead (UInt8.ofNat (0xE0 + c.toNat / 4096)) (by omega) (by omega)
    obtain ⟨-, -, -, -, hr⟩ | ⟨hx, hm, hcp, -⟩ | ⟨-, -, -, hr, -⟩ := lead_eq_some hl
    · omega
    · have hts := List.forall_mem_cons.mpr ⟨cb, List.forall_mem_singleton.mpr cd⟩
      rw [Utf8.encode_three h2 h3]
      refine isValidUtf8_sequence rest hl hx.symm hts ?_ (hm ▸ h2) hval hmax
      rw [hcp, ha, appendBits, List.foldl_cons, List.foldl_cons, List.foldl_nil, hb, hd]
      omega
    · omega
  · have ha := hn (0xF0 + c.toNat / 262144) (by omega)
    have hb := hn (0x80 + c.toNat / 4096 % 64) (by omega)
    have hd := hn (0x80 + c.toNat / 64 % 64) (by omega)
    have he := hn (0x80 + c.toNat % 64) (by omega)
    have cb := Utf8.cont_ofNat (n := c.toNat / 4096 % 64) (by omega)
    have cd := Utf8.cont_ofNat (n := c.toNat / 64 % 64) (by omega)
    have ce := Utf8.cont_ofNat (n := c.toNat % 64) (by omega)
    obtain ⟨l, hl⟩ := exists_lead (UInt8.ofNat (0xF0 + c.toNat / 262144)) (by omega) (by omega)
    obtain ⟨-, -, -, -, hr⟩ | ⟨-, -, -, -, hr⟩ | ⟨hx, hm, hcp, -⟩ := lead_eq_some hl
    · omega
    · omega
    · have hts := List.forall_mem_cons.mpr
        ⟨cb, List.forall_mem_cons.mpr ⟨cd, List.forall_mem_singleton.mpr ce⟩⟩
      rw [Utf8.encode_four h3]
      refine isValidUtf8_sequence rest hl hx.symm hts ?_ (hm ▸ h3) hval hmax
      rw [hcp, ha, appendBits, List.foldl_cons, List.foldl_cons, List.foldl_cons, List.foldl_nil,
        hb, hd, he]
      omega

/-- What a turn of the loop accepts is the encoding of one scalar value. -/
theorem isValidUtf8_first {b0 : UInt8} {text : Bytes} (h : isValidUtf8 (b0 :: text) = true) :
    ∃ c rest, b0 :: text = String.utf8EncodeChar c ++ rest ∧ isValidUtf8 rest = true := by
  rcases Nat.lt_or_ge b0.toNat 0x80 with h1 | h1
  · obtain ⟨c, hc⟩ := Utf8.exists_encode_one h1
    exact ⟨c, text, by rw [hc]; rfl, by rwa [isValidUtf8_ascii h1] at h⟩
  obtain ⟨l, ts, rest, v, hl, rfl, hlen, hts, hv, hmin, hsur, hmax, hrest⟩ :=
    isValidUtf8_cons_inv h h1
  -- a two-byte sequence cannot be a surrogate; each longer class needs the checks on the code point
  suffices hchar : ∃ c, String.utf8EncodeChar c = b0 :: ts by
    obtain ⟨c, hc⟩ := hchar
    exact ⟨c, rest, by rw [hc]; rfl, hrest⟩
  rcases lead_eq_some hl with
    ⟨hx, hm, hcp, hr, hr'⟩ | ⟨hx, hm, hcp, hr, hr'⟩ | ⟨hx, hm, hcp, hr, hr'⟩
  · obtain ⟨b, rfl⟩ := List.length_eq_one_iff.mp (hlen.trans hx)
    exact Utf8.exists_encode_two hr hr' (hts b (by simp))
  · obtain ⟨b, d, rfl⟩ := List.length_eq_two.mp (hlen.trans hx)
    rw [hm] at hmin
    rw [hcp, appendBits, List.foldl_cons, List.foldl_cons, List.foldl_nil] at hv
    exact Utf8.exists_encode_three hr hr' (hts b (by simp)) (hts d (by simp)) (by omega) hmin hsur
  · obtain ⟨b, d, e, rfl⟩ := List.length_eq_three.mp (hlen.trans hx)
    rw [hm] at hmin
    rw [hcp, appendBits, List.foldl_cons, List.foldl_cons, List.foldl_cons, List.foldl_nil] at hv
    exact Utf8.exists_encode_four hr (hts b (by simp)) (hts d (by simp)) (hts e (by simp))
      (by omega) hmin (by omega)

/-- **`is_valid_utf8` accepts exactly the valid UTF-8 texts.** -/
theorem isValidUtf8_iff (text : Bytes) : isValidUtf8 text = true ↔ Valid text := by
  constructor
  · intro h
    induction hn : text.length using Nat.strongRecOn generalizing text with
    | ind n ih =>
        cases text with
        | nil => exact Utf8.valid_nil
        | cons b0 text =>
            obtain ⟨c, rest, he, hrest⟩ := isValidUtf8_first h
            have hlen : rest.length < n := by
              obtain ⟨b, t, hc, -⟩ := Utf8.encode_shape c
              have := congrArg List.length he
              simp only [hc, List.length_append, List.length_cons] at this hn
              omega
            rw [he]
            exact (Utf8.valid_encode c).append (ih _ hlen rest hrest rfl)
  · rintro ⟨cs, rfl⟩
    induction cs with
    | nil => simp [isValidUtf8]
    | cons c cs ih => rw [List.flatMap_cons, isValidUtf8_encode, ih]

/-- **What `is_valid_utf8` accepts are the scalar values, each in its shortest form.** -/
theorem isValidUtf8_iff_scalars (s : Bytes) : isValidUtf8 s = true ↔
    ∃ vs : List Nat, (∀ v ∈ vs, Utf8.IsScalar v) ∧ s = vs.flatMap Utf8.encodeScalar :=
  (isValidUtf8_iff s).trans Utf8.valid_iff_scalars

end EdgeTts
