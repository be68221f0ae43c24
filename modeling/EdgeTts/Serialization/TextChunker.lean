import EdgeTts.Serialization.XmlEscaper
import EdgeTts.Serialization.TextNormalizer
import EdgeTts.Common.Utf8Split
import Mathlib.Data.List.DropRight

/-!
# `serialization/TextChunker.cpp`

`split_by_limit` looks for a split point in every turn, at a newline, a space or a
code point, and moves it back out of an open entity.  The text is a sequence of units, code
points or, when it is escaped, code points and entities.  `splitByLimit_spec` is the
induction over the turns, for any property `P` of texts that every split point respects;
`splitPoint_good` is what one turn does on a text whose units fit into the limit.
-/
namespace EdgeTts

open Utf8 (Valid Cont)
open String (utf8EncodeChar)

structure TextChunkerOptions where
  maxChunkSize : Nat := 4096
  sizeAfterXmlEscape : Bool := true
  preferSentenceBoundary : Bool := true
  preferWordBoundary : Bool := true
  deriving DecidableEq, Repr

/-- A constructed `TextChunker`; its constructor throws on a limit of 0. -/
structure TextChunker where
  opts : TextChunkerOptions
  maxChunkSize_pos : 0 < opts.maxChunkSize

/-- `is_strip_byte`: space, tab, LF, CR, VT, FF. -/
def isStripByte (u : UInt8) : Bool :=
  u == 0x20 || u == 0x09 || u == 0x0A || u == 0x0D || u == 0x0B || u == 0x0C

/-- `strip`. -/
def strip (sv : Bytes) : Bytes := (sv.dropWhile isStripByte).rdropWhile isStripByte

/-- `adjust_xml_entity`. -/
def adjustXmlEntity (text : Bytes) (splitAt : Nat) : Nat :=
  if h : 0 < splitAt then
    match hr : Search.rfind 0x26 text (splitAt - 1) with
    | none => splitAt
    | some amp =>
        have : amp < splitAt := by
          have := (Search.rfind_eq_some hr).1
          omega
        if (Search.findFrom 0x3B text (amp + 1)).any (· < splitAt) then splitAt
        else adjustXmlEntity text amp
  else splitAt
  termination_by splitAt

/-- Steps 1 to 3 of `split_by_limit`; `none` is `npos`. -/
def naturalSplit (text : Bytes) (limit : Nat) (preferNewline preferSpace : Bool) : Nat :=
  let splitAt := if preferNewline then Search.rfind 0x0A text (limit - 1) else none
  let splitAt :=
    if splitAt = none ∧ preferSpace = true then Search.rfind 0x20 text (limit - 1) else splitAt
  match splitAt with
  | some splitAt => splitAt
  | none => walkBack text limit

/-- Steps 1 to 4 of `split_by_limit`. -/
def splitPoint (text : Bytes) (limit : Nat)
    (preferNewline preferSpace protectEntities : Bool) : Nat :=
  let splitAt := naturalSplit text limit preferNewline preferSpace
  if protectEntities then adjustXmlEntity text splitAt else splitAt

/-- `if (!ch.empty()) result.emplace_back(ch)`. -/
def yieldChunk (ch : Bytes) : List Bytes := if ch.isEmpty then [] else [ch]

/-- `split_by_limit`. -/
def splitByLimit (text : Bytes) (limit : Nat)
    (preferNewline preferSpace protectEntities : Bool) : List Bytes :=
  if limit < text.length then
    let splitAt := splitPoint text limit preferNewline preferSpace protectEntities
    yieldChunk (strip (text.take splitAt)) ++
      splitByLimit (text.drop (if splitAt > 0 then splitAt else 1)) limit
        preferNewline preferSpace protectEntities
  else yieldChunk (strip text)
  termination_by text.length
  decreasing_by simp only [List.length_drop]; split <;> omega

/-- `TextChunker::chunk`. -/
def TextChunker.chunk (t : TextChunker) (input : Bytes) : Result (List Bytes) := do
  let norm ← TextNormalizer.normalize input
  if t.opts.sizeAfterXmlEscape then
    return splitByLimit (xmlEscape norm) t.opts.maxChunkSize
      t.opts.preferSentenceBoundary t.opts.preferWordBoundary true
  else
    let rawChunks := splitByLimit norm t.opts.maxChunkSize
      t.opts.preferSentenceBoundary t.opts.preferWordBoundary false
    return rawChunks.map xmlEscape

/-! ## Stripping -/

/-- Only strip bytes. -/
def StripOnly (w : Bytes) : Prop := ∀ b ∈ w, isStripByte b = true

/-- No strip byte at either end. -/
def Trimmed (s : Bytes) : Prop :=
  (∀ b, s.head? = some b → isStripByte b = false) ∧
  (∀ b, s.getLast? = some b → isStripByte b = false)

theorem stripOnly_nil : StripOnly [] := nofun

theorem StripOnly.append {v w : Bytes} (hv : StripOnly v) (hw : StripOnly w) :
    StripOnly (v ++ w) := fun b hb => (List.mem_append.mp hb).elim (hv b) (hw b)

set_option maxRecDepth 10000 in
/-- A strip byte is ASCII and no entity goes on with it. -/
theorem stripByte_plain {b : UInt8} (h : isStripByte b = true) :
    b.toNat < 0x80 ∧ b ∉ lit "ampltg;" ∧ b ≠ 0x26 :=
  forall_uint8 (p := fun b => isStripByte b = true →
    b.toNat < 0x80 ∧ b ∉ lit "ampltg;" ∧ b ≠ 0x26) (by decide) b h

/-- `strip` takes strip bytes off both ends, and all of them. -/
theorem strip_spec (sv : Bytes) : Trimmed (strip sv) ∧
    ∃ u v, sv = u ++ strip sv ++ v ∧ StripOnly u ∧ StripOnly v := by
  have hhead : ∀ b, (sv.dropWhile isStripByte).head? = some b → isStripByte b = false := by
    intro b hb
    have := List.head?_dropWhile_not isStripByte sv
    rw [hb] at this
    simpa using this
  refine ⟨⟨fun b hb => hhead b ?_, fun b hb => ?_⟩, sv.takeWhile isStripByte,
    (sv.dropWhile isStripByte).rtakeWhile isStripByte, ?_, ?_, ?_⟩
  · obtain ⟨v, hv⟩ := List.rdropWhile_prefix isStripByte (l := sv.dropWhile isStripByte)
    rw [strip] at hb
    rw [← hv, List.head?_append, hb]
    rfl
  · have hne : strip sv ≠ [] := by
      rintro hn
      rw [hn] at hb
      cases hb
    have := List.rdropWhile_last_not isStripByte (sv.dropWhile isStripByte) hne
    rw [List.getLast?_eq_some_getLast hne] at hb
    cases hb
    exact Bool.eq_false_iff.mpr this
  · rw [strip, List.append_assoc, List.rdropWhile_append_rtakeWhile,
      List.takeWhile_append_dropWhile]
  · exact fun b hb => List.all_eq_true.mp List.all_takeWhile b hb
  · exact fun b hb => List.mem_rtakeWhile_imp hb

/-! ## Units -/

/-- A code point as it stands in the text that is split, which is escaped or not. -/
def unitBytes (escaped : Bool) (c : Char) : Bytes :=
  if escaped then xmlEscape (utf8EncodeChar c) else utf8EncodeChar c

/-- The text is a sequence of units. -/
def Whole (escaped : Bool) (s : Bytes) : Prop :=
  ∃ cs : List Char, s = cs.flatMap (unitBytes escaped)

theorem flatMap_unitBytes (cs : List Char) :
    cs.flatMap (unitBytes true) = xmlEscape (cs.flatMap utf8EncodeChar) :=
  (List.flatMap_assoc ..).symm

/-- The units of a text are the text that is split. -/
theorem flatMap_unitBytes_eq (escaped : Bool) (cs : List Char) : cs.flatMap (unitBytes escaped) =
    if escaped then xmlEscape (cs.flatMap utf8EncodeChar) else cs.flatMap utf8EncodeChar := by
  cases escaped with
  | false => rfl
  | true => exact flatMap_unitBytes cs

theorem whole_true {s : Bytes} : Whole true s ↔ Escaped s := by
  constructor
  · rintro ⟨cs, rfl⟩
    exact ⟨_, ⟨cs, rfl⟩, flatMap_unitBytes cs⟩
  · rintro ⟨_, ⟨cs, rfl⟩, rfl⟩
    exact ⟨cs, (flatMap_unitBytes cs).symm⟩

theorem whole_false {s : Bytes} : Whole false s ↔ Valid s := Iff.rfl

/-- A sequence of units with room for each of them within the limit. -/
structure Fits (escaped : Bool) (limit : Nat) (s : Bytes) : Prop where
  whole : Whole escaped s
  le : ∀ cs : List Char, s = cs.flatMap (unitBytes escaped) →
    ∀ c ∈ cs, (unitBytes escaped c).length ≤ limit

theorem Fits.split {escaped : Bool} {limit : Nat} {a b : Bytes} (h : Fits escaped limit (a ++ b))
    (ha : Whole escaped a) (hb : Whole escaped b) :
    Fits escaped limit a ∧ Fits escaped limit b := by
  refine ⟨⟨ha, fun cs hcs c hc => ?_⟩, ⟨hb, fun cs hcs c hc => ?_⟩⟩
  · obtain ⟨ds, hds⟩ := hb
    exact h.le (cs ++ ds) (by rw [hcs, hds, List.flatMap_append]) c (List.mem_append_left ds hc)
  · obtain ⟨ds, hds⟩ := ha
    exact h.le (ds ++ cs) (by rw [hcs, hds, List.flatMap_append]) c (List.mem_append_right ds hc)

/-- A unit is the code point itself, or an entity for a markup character. -/
theorem unitBytes_cases (c : Char) :
    (∀ b ∈ utf8EncodeChar c, ¬ IsMarkup b) ∧ unitBytes true c = utf8EncodeChar c ∨
    ∃ b, IsMarkup b ∧ utf8EncodeChar c = [b] ∧ unitBytes true c = escapeByte b := by
  have plain : (∀ b ∈ utf8EncodeChar c, ¬ IsMarkup b) → unitBytes true c = utf8EncodeChar c := by
    intro h
    show (utf8EncodeChar c).flatMap escapeByte = _
    rw [List.flatMap_congr fun b hb => escapeByte_plain (h b hb), List.flatMap_singleton']
  rcases Nat.lt_or_ge c.toNat 0x80 with h | h
  · have henc := Utf8.encode_one h
    by_cases hm : IsMarkup (UInt8.ofNat c.toNat)
    · refine Or.inr ⟨_, hm, henc, ?_⟩
      show (utf8EncodeChar c).flatMap escapeByte = _
      rw [henc, List.flatMap_singleton]
    · have hall : ∀ b ∈ utf8EncodeChar c, ¬ IsMarkup b := by
        rw [henc, List.forall_mem_singleton]
        exact hm
      exact Or.inl ⟨hall, plain hall⟩
  · have hall : ∀ b ∈ utf8EncodeChar c, ¬ IsMarkup b := fun b hb hm => by
      have := Utf8.encode_high h b hb
      have := isMarkup_ascii hm
      omega
    exact Or.inl ⟨hall, plain hall⟩

/-- The longest unit is an entity of five bytes. -/
theorem length_unitBytes_le (escaped : Bool) (c : Char) : (unitBytes escaped c).length ≤ 5 := by
  have hlen := Utf8.length_encode_le c
  cases escaped with
  | false => exact Nat.le_succ_of_le hlen
  | true =>
      rcases unitBytes_cases c with ⟨-, hunit⟩ | ⟨b, -, -, hunit⟩
      · rw [hunit]
        omega
      · rw [hunit]
        rcases escapeByte_cases b with ⟨-, he⟩ | ⟨-, body, hbody, he, -⟩
        · rw [he]
          exact Nat.le_add_left 1 4
        · have := (entityName_spec hbody).2.1
          rw [he, List.length_cons, List.length_append, List.length_singleton]
          omega

theorem Whole.fits {escaped : Bool} {limit : Nat} {s : Bytes} (h : Whole escaped s)
    (hlimit : 5 ≤ limit) : Fits escaped limit s :=
  ⟨h, fun _ _ c _ => Nat.le_trans (length_unitBytes_le escaped c) hlimit⟩

/-- A text of units that is not empty starts with one of them. -/
theorem Fits.first {escaped : Bool} {limit : Nat} {s : Bytes} (h : Fits escaped limit s)
    (hne : s ≠ []) : ∃ c rest, s = unitBytes escaped c ++ rest ∧
      (unitBytes escaped c).length ≤ limit := by
  obtain ⟨cs, hcs⟩ := h.whole
  cases cs with
  | nil => exact absurd hcs hne
  | cons c cs => exact ⟨c, _, hcs, h.le (c :: cs) hcs c List.mem_cons_self⟩

/-- A strip byte is a unit of its own. -/
theorem Whole.strip_tail {escaped : Bool} {x : UInt8} {s : Bytes} (h : Whole escaped (x :: s))
    (hx : isStripByte x = true) : Whole escaped s := by
  obtain ⟨hascii, -, hamp⟩ := stripByte_plain hx
  obtain ⟨cs, hcs⟩ := h
  cases cs with
  | nil => cases hcs
  | cons c cs =>
      have hunit : unitBytes escaped c = [x] := by
        obtain ⟨y, t, hc, -, -, -, hnil⟩ := Utf8.encode_shape c
        have hplain : unitBytes escaped c = utf8EncodeChar c := by
          cases escaped with
          | false => rfl
          | true =>
              rcases unitBytes_cases c with ⟨-, hunit⟩ | ⟨b, hb, -, hunit⟩
              · exact hunit
              · -- an entity starts with `&`
                rcases escapeByte_cases b with ⟨hn, -⟩ | ⟨-, body, -, he, -⟩
                · exact absurd hb hn
                · rw [List.flatMap_cons, hunit, he, List.cons_append, List.cons.injEq] at hcs
                  exact absurd hcs.1 hamp
        rw [List.flatMap_cons, hplain, hc, List.cons_append, List.cons.injEq] at hcs
        rw [hplain, hc, ← hcs.1, hnil (hcs.1 ▸ hascii)]
      rw [List.flatMap_cons, hunit, List.singleton_append, List.cons.injEq] at hcs
      exact ⟨cs, hcs.2⟩

theorem StripOnly.whole (escaped : Bool) : ∀ {w : Bytes}, StripOnly w → Whole escaped w
  | [], _ => ⟨[], rfl⟩
  | x :: w, h => by
      obtain ⟨hx, hw⟩ := List.forall_mem_cons.mp h
      obtain ⟨c, hc⟩ := Utf8.exists_encode_one (stripByte_plain hx).1
      obtain ⟨cs, hcs⟩ := StripOnly.whole escaped hw
      have hunit : unitBytes escaped c = [x] := by
        cases escaped with
        | false => exact hc
        | true =>
            have hplain : ¬ IsMarkup x := by
              rintro (rfl | rfl | rfl)
              all_goals cases hx
            show (utf8EncodeChar c).flatMap escapeByte = [x]
            rw [hc, List.flatMap_singleton, escapeByte_plain hplain]
      exact ⟨c :: cs, by rw [List.flatMap_cons, hunit, ← hcs]; rfl⟩

/-- A text of units may be cut before a strip byte. -/
theorem Whole.cut_strip {escaped : Bool} {a b : Bytes} {x : UInt8}
    (h : Whole escaped (a ++ x :: b)) (hx : isStripByte x = true) :
    Whole escaped a ∧ Whole escaped (x :: b) := by
  obtain ⟨hascii, htail, -⟩ := stripByte_plain hx
  have hc := Utf8.not_cont_of_ascii hascii
  cases escaped with
  | false => exact Valid.cut (b := x :: b) (fun y hy => Option.some.inj hy ▸ hc) h
  | true =>
      obtain ⟨ha, hb⟩ := (whole_true.mp h).cut htail hc
      exact ⟨whole_true.mpr ha, whole_true.mpr hb⟩

/-- What is left after taking strip bytes off both ends of a text of units. -/
theorem Whole.of_strip {escaped : Bool} : ∀ {u m v : Bytes}, StripOnly u → StripOnly v →
    Whole escaped (u ++ m ++ v) → Whole escaped m
  | [], m, [], _, _, h => by rwa [List.nil_append, List.append_nil] at h
  | [], m, x :: v, _, hv, h => (h.cut_strip (hv x List.mem_cons_self)).1
  | x :: u, m, v, hu, hv, h =>
      Whole.of_strip (fun b hb => hu b (List.mem_cons_of_mem x hb)) hv
        (h.strip_tail (hu x List.mem_cons_self))

theorem Fits.of_strip {escaped : Bool} {limit : Nat} {u m v : Bytes} (hu : StripOnly u)
    (hv : StripOnly v) (h : Fits escaped limit (u ++ m ++ v)) : Fits escaped limit m := by
  have hm := Whole.of_strip hu hv h.whole
  obtain ⟨ds, hds⟩ := hu.whole escaped
  have hum : Whole escaped (u ++ m) := by
    obtain ⟨cs, hcs⟩ := hm
    exact ⟨ds ++ cs, by rw [hds, hcs, List.flatMap_append]⟩
  exact ((h.split hum (hv.whole escaped)).1.split ⟨ds, hds⟩ hm).2

/-! ## The split point -/

/-- The last `&` decides whether an entity is open. -/
theorem openEntity_iff {a b : Bytes} (hb : (0x26 : UInt8) ∉ b) :
    OpenEntity (a ++ 0x26 :: b) ↔ (0x3B : UInt8) ∉ b := by
  refine ⟨?_, fun h => ⟨a, b, rfl, h⟩⟩
  rintro ⟨u, v, h, hv⟩ hm
  -- the `&` that is left open is the last one or an earlier one
  rcases List.append_eq_append_iff.mp h with ⟨w, rfl, hw⟩ | ⟨w, rfl, hw⟩
  · cases w with
    | nil =>
        obtain rfl : b = v := (List.cons_eq_cons.mp hw).2
        exact hv hm
    | cons x w =>
        obtain ⟨-, rfl⟩ := List.cons_eq_cons.mp hw
        exact hb (by simp)
  · cases w with
    | nil =>
        obtain rfl : v = b := (List.cons_eq_cons.mp hw).2
        exact hv hm
    | cons x w =>
        obtain ⟨-, rfl⟩ := List.cons_eq_cons.mp hw
        exact hv (by simp [hm])

/-- The test of `adjust_xml_entity`, whether the `;` found after `&` is before the
split point. -/
theorem semi_before_iff {text a b : Bytes} {n : Nat} (h : text.take n = a ++ 0x26 :: b) :
    (Search.findFrom 0x3B text (a.length + 1)).any (· < n) = true ↔ (0x3B : UInt8) ∈ b := by
  rw [Search.findFrom_any_lt, h, List.drop_append, List.drop_of_length_le (by omega)]
  simp

/-- A prefix without an open entity is left as it is. -/
theorem adjustXmlEntity_closed {text : Bytes} {n : Nat} (h : ¬ OpenEntity (text.take n)) :
    adjustXmlEntity text n = n := by
  rw [adjustXmlEntity]
  split
  · rename_i hn
    split
    · rfl
    · rename_i amp hr
      -- the last `&` of the prefix has its `;` in the prefix
      obtain ⟨-, a, b, -, -, htake, rfl, hamp⟩ := Search.rfind_eq_some hr
      rw [Nat.sub_add_cancel hn] at htake
      rw [htake, openEntity_iff hamp, not_not] at h
      rw [if_pos ((semi_before_iff htake).mpr h)]
  · rfl

/-- An open entity moves the split point to its `&`. -/
theorem adjustXmlEntity_open {text a b : Bytes} {n : Nat} (h : text.take n = a ++ 0x26 :: b)
    (hamp : (0x26 : UInt8) ∉ b) (hsemi : (0x3B : UInt8) ∉ b) :
    adjustXmlEntity text n = adjustXmlEntity text a.length := by
  have hn : 0 < n := by
    rcases Nat.eq_zero_or_pos n with rfl | hn
    · simp at h
    · exact hn
  have hr : Search.rfind 0x26 text (n - 1) = some a.length := by
    rw [Search.rfind, Nat.sub_add_cancel hn, h, Search.lastIndex_append hamp]
  rw [adjustXmlEntity, dif_pos hn]
  split
  · rename_i hnone
    rw [hr] at hnone
    cases hnone
  · rename_i amp hsome
    obtain rfl : a.length = amp := Option.some.inj (hr.symm.trans hsome)
    rw [if_neg (by rwa [semi_before_iff h])]

/-- A split point of escaped text that starts a token stays where it is. -/
theorem adjustXmlEntity_start {a b : Bytes} {x : UInt8} (h : Escaped (a ++ x :: b))
    (hx : x ∉ lit "ampltg;") (hc : ¬ Cont x) :
    adjustXmlEntity (a ++ x :: b) a.length = a.length := by
  refine adjustXmlEntity_closed ?_
  rw [List.take_left]
  exact (h.cut hx hc).1.not_openEntity

/-- A split point `p` cuts `text` into two texts with the property `P`, and makes
progress: where it is 0, the byte that the loop skips is a strip byte. -/
structure GoodSplit (P : Bytes → Prop) (text : Bytes) (limit p : Nat) : Prop where
  le : p ≤ limit
  left : P (text.take p)
  right : P (text.drop p)
  progress : p = 0 → ∃ b rest, text = b :: rest ∧ isStripByte b = true

theorem GoodSplit.of_start {a b : Bytes} {x : UInt8} {limit : Nat}
    (h : Escaped (a ++ x :: b)) (hx : x ∉ lit "ampltg;") (hc : ¬ Cont x) (hle : a.length ≤ limit)
    (hstrip : a = [] → isStripByte x = true) :
    GoodSplit Escaped (a ++ x :: b) limit a.length := by
  obtain ⟨ha, hb⟩ := h.cut hx hc
  refine ⟨hle, by rwa [List.take_left], by rwa [List.drop_left], fun hz => ?_⟩
  -- a split point 0 skips `x` itself
  obtain rfl := List.eq_nil_of_length_eq_zero hz
  exact ⟨x, b, rfl, hstrip rfl⟩

/-- The byte is a delimiter of step 1 or of step 2. -/
def isDelimiter (preferNewline preferSpace : Bool) (x : UInt8) : Bool :=
  preferNewline && x == 0x0A || preferSpace && x == 0x20

theorem isStripByte_of_isDelimiter {nl sp : Bool} {x : UInt8} (h : isDelimiter nl sp x = true) :
    isStripByte x = true := by
  simp only [isDelimiter, Bool.or_eq_true, Bool.and_eq_true, beq_iff_eq] at h
  rcases h with ⟨-, rfl⟩ | ⟨-, rfl⟩
  · rfl
  · rfl

theorem rfind_delimiter {x : UInt8} {text : Bytes} {limit i : Nat} (hlimit : 0 < limit)
    (h : Search.rfind x text (limit - 1) = some i) :
    ∃ a b, text = a ++ x :: b ∧ a.length < limit ∧ i = a.length := by
  obtain ⟨hi, a, b, r, rfl, -, rfl, -⟩ := Search.rfind_eq_some h
  exact ⟨a, b ++ r, rfl, by omega, rfl⟩

theorem rfind_eq_none {x : UInt8} {text : Bytes} {limit : Nat} (hlimit : 0 < limit)
    (h : Search.rfind x text (limit - 1) = none) : x ∉ text.take limit := by
  have hlast := Search.lastIndex_eq_none_iff.mp h
  rwa [Nat.sub_add_cancel hlimit] at hlast

/-- **Steps 1 to 3**: the split is at a delimiter, or, when there is none in the first `limit`
bytes, where the walk ends. -/
theorem naturalSplit_cases (text : Bytes) {limit : Nat} (nl sp : Bool) (hlimit : 0 < limit) :
    (∃ a x b, text = a ++ x :: b ∧ isDelimiter nl sp x = true ∧ a.length < limit ∧
      naturalSplit text limit nl sp = a.length) ∨
    (∀ x ∈ text.take limit, isDelimiter nl sp x = false) ∧
      naturalSplit text limit nl sp = walkBack text limit := by
  have hspace : (∃ a x b, text = a ++ x :: b ∧ isDelimiter false sp x = true ∧ a.length < limit ∧
        naturalSplit text limit false sp = a.length) ∨
      (∀ x ∈ text.take limit, isDelimiter false sp x = false) ∧
        naturalSplit text limit false sp = walkBack text limit := by
    cases sp with
    | false => exact Or.inr ⟨fun _ _ => rfl, by simp [naturalSplit]⟩
    | true =>
        cases hr : Search.rfind 0x20 text (limit - 1) with
        | none =>
            refine Or.inr ⟨fun x hx => ?_, by simp [naturalSplit, hr]⟩
            simp only [isDelimiter, Bool.false_and, Bool.true_and, Bool.false_or,
              beq_eq_false_iff_ne]
            rintro rfl
            exact rfind_eq_none hlimit hr hx
        | some i =>
            obtain ⟨a, b, htext, ha, rfl⟩ := rfind_delimiter hlimit hr
            exact Or.inl ⟨a, 0x20, b, htext, rfl, ha, by simp [naturalSplit, hr]⟩
  cases nl with
  | false => exact hspace
  | true =>
      cases hr : Search.rfind 0x0A text (limit - 1) with
      | none =>
          -- without a newline the second step decides
          have hnat : naturalSplit text limit true sp = naturalSplit text limit false sp := by
            simp [naturalSplit, hr]
          have hfree := rfind_eq_none hlimit hr
          rw [hnat]
          refine hspace.imp ?_ ?_
          · rintro ⟨a, x, b, htext, hx, ha, hp⟩
            refine ⟨a, x, b, htext, ?_, ha, hp⟩
            rw [isDelimiter, Bool.false_and, Bool.false_or] at hx
            rw [isDelimiter, hx, Bool.or_true]
          · rintro ⟨hnone, hp⟩
            refine ⟨fun x hx => ?_, hp⟩
            have := hnone x hx
            rw [isDelimiter, Bool.false_and, Bool.false_or] at this
            rw [isDelimiter, this, Bool.or_false, Bool.true_and, beq_eq_false_iff_ne]
            rintro rfl
            exact hfree hx
      | some i =>
          obtain ⟨a, b, htext, ha, rfl⟩ := rfind_delimiter hlimit hr
          exact Or.inl ⟨a, 0x0A, b, htext, rfl, ha, by simp [naturalSplit, hr]⟩

/-- The first token of escaped text is closed within its first unit. -/
theorem Fits.first_token {b : Bytes} {text : Bytes} {limit : Nat} (h : Fits true limit text)
    (htake : text.take limit = 0x26 :: b) : (0x3B : UInt8) ∈ b := by
  obtain ⟨c, rest, rfl, hlen⟩ := h.first (by rintro rfl; simp at htake)
  rcases unitBytes_cases c with ⟨hplain, hunit⟩ | ⟨x, hx, -, hunit⟩
  · -- a unit that is no entity does not start with `&`
    obtain ⟨y, t, hc, -⟩ := Utf8.encode_shape c
    rw [hunit] at htake hlen
    rw [List.take_append, List.take_of_length_le hlen, hc, List.cons_append,
      List.cons.injEq] at htake
    exact absurd (Or.inl htake.1) (hplain y (by rw [hc]; exact List.mem_cons_self))
  · rcases escapeByte_cases x with ⟨hn, -⟩ | ⟨-, body, -, he, -⟩
    · exact absurd hx hn
    · rw [hunit, he] at htake hlen
      rw [List.take_append, List.take_of_length_le hlen, List.cons_append, List.cons.injEq] at htake
      rw [← htake.2]
      simp

theorem OpenEntity.last_amp {s : Bytes} (h : OpenEntity s) :
    ∃ a b, s = a ++ 0x26 :: b ∧ (0x26 : UInt8) ∉ b ∧ (0x3B : UInt8) ∉ b := by
  cases hl : Search.lastIndex (0x26 : UInt8) s with
  | none =>
      obtain ⟨u, v, rfl, -⟩ := h
      exact absurd (by simp) (Search.lastIndex_eq_none_iff.mp hl)
  | some i =>
      obtain ⟨a, b, rfl, -, hb⟩ := Search.lastIndex_eq_some hl
      exact ⟨a, b, rfl, hb, (openEntity_iff hb).mp h⟩

/-- The walk of step 3 does not reach the start of a text whose first unit fits. -/
theorem Fits.walkBack_pos {escaped : Bool} {text : Bytes} {limit : Nat}
    (h : Fits escaped limit text) (hvalid : Valid text) (hlimit : 0 < limit) (hne : text ≠ []) :
    0 < walkBack text limit := by
  obtain ⟨d, s, htext, hs⟩ := hvalid.exists_encode hne
  have hfirst : (utf8EncodeChar d).length ≤ limit := by
    obtain ⟨c, rest, hunit, hlen⟩ := h.first hne
    cases escaped with
    | false =>
        obtain ⟨rfl, -⟩ := Utf8.encode_append_inj (htext.symm.trans hunit)
        exact hlen
    | true =>
        rcases unitBytes_cases c with ⟨-, hc⟩ | ⟨x, hx, -, hc⟩
        · rw [hc] at hunit hlen
          obtain ⟨rfl, -⟩ := Utf8.encode_append_inj (htext.symm.trans hunit)
          exact hlen
        · -- the text starts with `&`, a code point of one byte
          rcases escapeByte_cases x with ⟨hn, -⟩ | ⟨-, body, -, he, -⟩
          · exact absurd hx hn
          · obtain ⟨y, t, hd, -, -, -, hnil⟩ := Utf8.encode_shape d
            rw [hunit, hc, he, hd, List.cons_append, List.cons_append, List.cons.injEq] at htext
            rw [hd, hnil (by rw [← htext.1]; decide)]
            exact hlimit
  have hpos := lt_walkBack (p := 0) htext hs hfirst
  rwa [Nat.zero_add] at hpos

/-- What stands where the walk ends. -/
theorem walkBack_split {text : Bytes} {limit : Nat} (hlen : limit < text.length)
    (hpos : 0 < walkBack text limit) :
    ∃ x rest, text = text.take (walkBack text limit) ++ x :: rest ∧ ¬ Cont x ∧
      (walkBack text limit < limit → ∃ y rest', rest = y :: rest' ∧ Cont y) := by
  obtain ⟨hle, hall, hstop⟩ := walkBack_spec text limit
  obtain hstop := hstop.resolve_left (by omega)
  generalize walkBack text limit = q at hle hall hstop hpos
  obtain ⟨x, rest, hx⟩ : ∃ x rest, text.drop q = x :: rest := by
    cases hd : text.drop q with
    | nil =>
        have := List.drop_eq_nil_iff.mp hd
        omega
    | cons x rest => exact ⟨x, rest, rfl⟩
  have hget : ∀ j, text[q + j]? = (x :: rest)[j]? := fun j => by rw [← hx, List.getElem?_drop]
  refine ⟨x, rest, (hx ▸ List.take_append_drop q text).symm, ?_, fun hq => ?_⟩
  · rw [show text[q]? = some x from hget 0] at hstop
    rw [← isContinuation_iff]
    simpa using hstop
  · have hnext := hall (q + 1) (by omega) (by omega)
    rw [hget 1] at hnext
    cases rest with
    | nil => simp at hnext
    | cons y rest => exact ⟨y, rest, rfl, (isContinuation_iff y).mp (by simpa using hnext)⟩

/-- The split point when there is no delimiter. -/
def hardSplit (escaped : Bool) (text : Bytes) (limit : Nat) : Nat :=
  if escaped then adjustXmlEntity text (walkBack text limit) else walkBack text limit

/-- Step 3 on plain text. -/
theorem hardSplit_valid {text : Bytes} {limit : Nat} (h : Fits false limit text)
    (hlimit : 0 < limit) (hlen : limit < text.length) :
    GoodSplit Valid text limit (hardSplit false text limit) := by
  have hvalid := whole_false.mp h.whole
  have hpos := h.walkBack_pos hvalid hlimit (List.ne_nil_of_length_pos (by omega))
  obtain ⟨x, rest, htext, hx, -⟩ := walkBack_split hlen hpos
  have hdrop : text.drop (walkBack text limit) = x :: rest :=
    List.append_cancel_left ((List.take_append_drop _ text).trans htext)
  obtain ⟨ha, hb⟩ := Valid.cut (b := x :: rest) (fun y hy => Option.some.inj hy ▸ hx)
    (htext ▸ hvalid)
  exact ⟨(walkBack_spec text limit).1, ha, hdrop ▸ hb, fun hz => absurd hz (by
    show walkBack text limit ≠ 0
    omega)⟩

/-- Step 3, followed by step 4. -/
theorem hardSplit_escaped {text : Bytes} {limit : Nat} (h : Fits true limit text)
    (hlimit : 0 < limit) (hlen : limit < text.length) :
    GoodSplit Escaped text limit (hardSplit true text limit) := by
  have hesc := whole_true.mp h.whole
  have hpos := h.walkBack_pos hesc.valid hlimit (List.ne_nil_of_length_pos (by omega))
  have hle := (walkBack_spec text limit).1
  obtain ⟨x, rest, htext, hxc, hnext⟩ := walkBack_split hlen hpos
  show GoodSplit Escaped text limit (adjustXmlEntity text (walkBack text limit))
  generalize walkBack text limit = q at hle htext hnext hpos
  rcases Nat.lt_or_ge q limit with hq | hq
  · -- the walk has passed continuation bytes, so it stopped at the first byte of their code point
    obtain ⟨y, rest, rfl, hy⟩ := hnext hq
    have hlenq : (text.take q).length = q := by rw [List.length_take]; omega
    generalize text.take q = a at htext hlenq
    subst htext hlenq
    have htail : x ∉ lit "ampltg;" := by
      intro hm
      have hascii : ∀ z ∈ lit "ampltg;", z.toNat < 0x80 := by decide +kernel
      exact (hesc.valid.split_ascii (hascii x hm)).2.head hy
    rw [adjustXmlEntity_start hesc htail hxc]
    refine GoodSplit.of_start hesc htail hxc hle ?_
    rintro rfl
    simp at hpos
  · obtain rfl : q = limit := by omega
    -- the walk has not moved; only here an entity may be cut, and step 4 goes back to its `&`
    by_cases ho : OpenEntity (text.take q)
    · obtain ⟨a, b, htake, hamp, hsemi⟩ := ho.last_amp
      rw [adjustXmlEntity_open htake hamp hsemi]
      have hsplit := htext
      rw [htake, List.append_assoc, List.cons_append] at hsplit
      have ha : a.length ≤ q := by
        have := congrArg List.length htake
        simp only [List.length_take, List.length_append, List.length_cons] at this
        omega
      rw [hsplit] at hesc ⊢
      rw [adjustXmlEntity_start hesc (by decide) (by decide)]
      refine GoodSplit.of_start hesc (by decide) (by decide) ha ?_
      rintro rfl
      exact absurd (h.first_token htake) hsemi
    · rw [adjustXmlEntity_closed ho]
      have hdrop : text.drop q = x :: rest :=
        List.append_cancel_left ((List.take_append_drop _ text).trans htext)
      rw [htext] at hesc
      obtain ⟨ha, hb⟩ := hesc.cut_closed ho fun y hy => Option.some.inj hy ▸ hxc
      exact ⟨Nat.le_refl q, ha, hdrop ▸ hb, by omega⟩

/-- **The split point**, at a delimiter or where the walk ends, for each setting of the
preferences. -/
theorem splitPoint_cases {escaped : Bool} {text : Bytes} {limit : Nat} (nl sp : Bool)
    (h : Whole escaped text) (hlimit : 0 < limit) :
    (∃ a x b, text = a ++ x :: b ∧ isDelimiter nl sp x = true ∧ a.length < limit ∧
      splitPoint text limit nl sp escaped = a.length) ∨
    (∀ x ∈ text.take limit, isDelimiter nl sp x = false) ∧
      splitPoint text limit nl sp escaped = hardSplit escaped text limit := by
  rcases naturalSplit_cases text nl sp hlimit with ⟨a, x, b, rfl, hx, ha, hp⟩ | ⟨hnone, hp⟩
  · refine Or.inl ⟨a, x, b, rfl, hx, ha, ?_⟩
    rw [splitPoint, hp]
    cases escaped with
    | false => rfl
    | true =>
        obtain ⟨hascii, htail, -⟩ := stripByte_plain (isStripByte_of_isDelimiter hx)
        exact adjustXmlEntity_start (whole_true.mp h) htail (Utf8.not_cont_of_ascii hascii)
  · refine Or.inr ⟨hnone, ?_⟩
    rw [splitPoint, hp]
    rfl

/-- **Every split point of a text whose units fit is good.** -/
theorem splitPoint_good {escaped : Bool} {text : Bytes} {limit : Nat} (nl sp : Bool)
    (h : Fits escaped limit text) (hlimit : 0 < limit) (hlen : limit < text.length) :
    GoodSplit (Fits escaped limit) text limit (splitPoint text limit nl sp escaped) := by
  have hwhole : GoodSplit (Whole escaped) text limit (splitPoint text limit nl sp escaped) := by
    rcases splitPoint_cases nl sp h.whole hlimit with ⟨a, x, b, rfl, hx, ha, hp⟩ | ⟨-, hp⟩
    · have hstrip := isStripByte_of_isDelimiter hx
      obtain ⟨hleft, hright⟩ := h.whole.cut_strip hstrip
      rw [hp]
      refine ⟨Nat.le_of_lt ha, by rwa [List.take_left], by rwa [List.drop_left], fun hz => ?_⟩
      obtain rfl := List.eq_nil_of_length_eq_zero hz
      exact ⟨x, b, rfl, hstrip⟩
    · rw [hp]
      cases escaped with
      | false => exact hardSplit_valid h hlimit hlen
      | true =>
          obtain ⟨hle, hleft, hright, hprogress⟩ := hardSplit_escaped h hlimit hlen
          exact ⟨hle, whole_true.mpr hleft, whole_true.mpr hright, hprogress⟩
  generalize splitPoint text limit nl sp escaped = p at hwhole
  obtain ⟨hle, hleft, hright, hprogress⟩ := hwhole
  obtain ⟨ha, hb⟩ := ((List.take_append_drop p text).symm ▸ h).split hleft hright
  exact ⟨hle, ha, hb, hprogress⟩

/-! ## The loop -/

/-- The chunks stand in the text in their order, with strip bytes only before,
between and after them. -/
inductive Woven : Bytes → List Bytes → Prop
  | last {w} : StripOnly w → Woven w []
  | next {w c text chunks} : StripOnly w → Woven text chunks → Woven (w ++ c ++ text) (c :: chunks)

theorem Woven.prepend {w text : Bytes} {chunks : List Bytes} (hw : StripOnly w)
    (h : Woven text chunks) : Woven (w ++ text) chunks := by
  cases h with
  | last h => exact .last (hw.append h)
  | next h ht =>
      simp only [← List.append_assoc]
      exact .next (hw.append h) ht

/-- A piece whose stripped chunk is yielded, when it is not empty. -/
theorem Woven.yield {text : Bytes} {chunks : List Bytes} (piece : Bytes) (h : Woven text chunks) :
    Woven (piece ++ text) (yieldChunk (strip piece) ++ chunks) := by
  obtain ⟨-, u, v, hp, hu, hv⟩ := strip_spec piece
  generalize strip piece = ch at hp ⊢
  rw [hp, yieldChunk]
  split
  · rename_i he
    rw [List.isEmpty_iff.mp he]
    exact h.prepend (by simpa using hu.append hv)
  · rw [List.append_assoc]
    exact .next hu (h.prepend hv)

/-- **The strip bytes around the chunks**, spelled out. -/
theorem Woven.exists_strips {text : Bytes} {chunks : List Bytes} (h : Woven text chunks) :
    ∃ w₀ ws, ws.length = chunks.length ∧ (∀ w ∈ w₀ :: ws, StripOnly w) ∧
      text = w₀ ++ (List.zipWith (· ++ ·) chunks ws).flatten := by
  induction h with
  | last h => exact ⟨_, [], rfl, by simpa using h, by simp⟩
  | @next w c text chunks hw _ ih =>
      obtain ⟨w₀, ws, hlen, hws, rfl⟩ := ih
      refine ⟨w, w₀ :: ws, by simp [hlen], ?_, by simp⟩
      exact List.forall_mem_cons.mpr ⟨hw, hws⟩

/-- A turn of the loop: what it yields and what it goes on with. -/
theorem splitByLimit_turn {text : Bytes} {limit : Nat} {nl sp pe : Bool}
    (h : limit < text.length) : splitByLimit text limit nl sp pe =
      yieldChunk (strip (text.take (splitPoint text limit nl sp pe))) ++
        splitByLimit (text.drop (if splitPoint text limit nl sp pe > 0 then
          splitPoint text limit nl sp pe else 1)) limit nl sp pe := by
  conv => lhs; rw [splitByLimit]
  rw [if_pos h]

/-- **What `split_by_limit` yields**, when every split point keeps the property `P`:
nothing but strip bytes is lost, and every chunk is trimmed, within the limit and
has the property. -/
theorem splitByLimit_spec {P : Bytes → Prop} {limit : Nat} (nl sp pe : Bool)
    (good : ∀ text, P text → limit < text.length →
      GoodSplit P text limit (splitPoint text limit nl sp pe))
    (strips : ∀ u m v, StripOnly u → StripOnly v → P (u ++ m ++ v) → P m)
    {text : Bytes} (h : P text) :
    Woven text (splitByLimit text limit nl sp pe) ∧
      ∀ c ∈ splitByLimit text limit nl sp pe,
        c ≠ [] ∧ Trimmed c ∧ c.length ≤ limit ∧ P c := by
  have yields : ∀ piece, P piece → piece.length ≤ limit → ∀ c ∈ yieldChunk (strip piece),
      c ≠ [] ∧ Trimmed c ∧ c.length ≤ limit ∧ P c := by
    intro piece hp hlen c hc
    obtain ⟨htrim, u, v, hsplit, hu, hv⟩ := strip_spec piece
    rw [yieldChunk] at hc
    split at hc
    · cases hc
    · rename_i hne
      obtain rfl := List.mem_singleton.mp hc
      refine ⟨fun h0 => hne (by rw [h0]; rfl), htrim, ?_, strips u _ v hu hv (hsplit ▸ hp)⟩
      have := congrArg List.length hsplit
      simp only [List.length_append] at this
      omega
  induction hn : text.length using Nat.strongRecOn generalizing text with
  | ind n ih =>
      by_cases hlen : limit < text.length
      · obtain ⟨hle, hleft, hright, hprog⟩ := good text h hlen
        rw [splitByLimit_turn hlen]
        generalize splitPoint text limit nl sp pe = p at hle hleft hright hprog
        -- what the loop goes on with, and that only strip bytes are skipped to get there
        have hnext : P (text.drop (if p > 0 then p else 1)) ∧
            ∃ w, StripOnly w ∧ text.drop p = w ++ text.drop (if p > 0 then p else 1) := by
          split
          · exact ⟨hright, [], stripOnly_nil, rfl⟩
          · obtain ⟨b, rest, rfl, hb⟩ := hprog (by omega)
            have hw : StripOnly [b] := List.forall_mem_singleton.mpr hb
            exact ⟨strips [b] rest [] hw stripOnly_nil (by simpa using h),
              [b], hw, by simp [show p = 0 from by omega]⟩
        obtain ⟨hP, w, hw, hdrop⟩ := hnext
        have hshort : (text.drop (if p > 0 then p else 1)).length < n := by
          rw [List.length_drop]
          split <;> omega
        -- what the rest of the text yields
        obtain ⟨hwoven, hall⟩ := ih _ hshort hP rfl
        refine ⟨?_, fun c hc => ?_⟩
        · have := (hwoven.prepend hw).yield (text.take p)
          rwa [← hdrop, List.take_append_drop] at this
        · rcases List.mem_append.mp hc with hc | hc
          · exact yields _ hleft (by rw [List.length_take]; omega) c hc
          · exact hall c hc
      · rw [splitByLimit, if_neg hlen]
        refine ⟨?_, yields text h (by omega)⟩
        have := (Woven.last stripOnly_nil).yield text
        simpa using this

/-- **What `split_by_limit` yields on a text whose units fit**: nothing but strip bytes is
lost, and every chunk is a trimmed text of units within the limit. -/
theorem splitByLimit_fits {escaped : Bool} {text : Bytes} {limit : Nat} (nl sp : Bool)
    (hlimit : 0 < limit) (h : Fits escaped limit text) :
    Woven text (splitByLimit text limit nl sp escaped) ∧
      ∀ c ∈ splitByLimit text limit nl sp escaped,
        c ≠ [] ∧ Trimmed c ∧ c.length ≤ limit ∧ Fits escaped limit c :=
  splitByLimit_spec nl sp escaped (fun _ hfits hlen => splitPoint_good nl sp hfits hlimit hlen)
    (fun _ _ _ hu hv hfits => hfits.of_strip hu hv) h

/-- **Chunking in escaped mode loses, reorders, duplicates and cuts nothing.**  The
escaped text is the chunks in their order with strip bytes around them; every chunk
is a trimmed, whole escaped text within the limit.  Only invalid UTF-8 is rejected. -/
theorem TextChunker.chunk_escaped (t : TextChunker) (input : Bytes) :
    (5 ≤ t.opts.maxChunkSize → t.opts.sizeAfterXmlEscape = true → Valid input →
      ∃ norm chunks, TextNormalizer.normalize input = .ok norm ∧ t.chunk input = .ok chunks ∧
        (∃ w₀ ws, ws.length = chunks.length ∧ (∀ w ∈ w₀ :: ws, StripOnly w) ∧
          xmlEscape norm = w₀ ++ (List.zipWith (· ++ ·) chunks ws).flatten) ∧
        ∀ c ∈ chunks, c ≠ [] ∧ Trimmed c ∧ c.length ≤ t.opts.maxChunkSize ∧ Valid c ∧
          xmlEscape (xmlUnescape c) = c) ∧
    (¬ Valid input → ∃ e, t.chunk input = .error e ∧ e.code = .invalidArgument) := by
  refine ⟨fun hlimit hsize hvalid => ?_, fun hvalid => ?_⟩
  · obtain ⟨hnorm, hv⟩ := TextNormalizer.normalize_of_valid hvalid
    have hwhole : Whole true (xmlEscape (normalizeLoop input)) := whole_true.mpr ⟨_, hv, rfl⟩
    obtain ⟨hwoven, hall⟩ := splitByLimit_fits t.opts.preferSentenceBoundary
      t.opts.preferWordBoundary t.maxChunkSize_pos (hwhole.fits hlimit)
    refine ⟨_, _, hnorm, ?_, hwoven.exists_strips, fun c hc => ?_⟩
    · rw [chunk, hnorm]
      simp [hsize]
    · obtain ⟨hne, htrim, hlen, hfits⟩ := hall c hc
      have hesc := whole_true.mp hfits.whole
      exact ⟨hne, htrim, hlen, hesc.valid, hesc.escape_unescape⟩
  · rw [chunk, TextNormalizer.normalize_of_not_valid hvalid]
    exact ⟨_, rfl, rfl⟩

/-- A limit that an entity just fits, on a text whose entity straddles it. -/
theorem TextChunker.chunk_escaped_straddling :
    let t : TextChunker := ⟨{ maxChunkSize := 5 }, by decide⟩
    (∃ chunks, t.chunk (lit "ab&cd") = .ok chunks ∧ ∀ c ∈ chunks,
      c.length ≤ 5 ∧ xmlEscape (xmlUnescape c) = c) ∧
    ∃ e, t.chunk [0x61, 0x80] = .error e ∧ e.code = .invalidArgument := by
  intro t
  obtain ⟨_, chunks, -, hchunk, -, hall⟩ := (TextChunker.chunk_escaped t (lit "ab&cd")).1
    (by decide) rfl ⟨['a', 'b', '&', 'c', 'd'], by decide⟩
  refine ⟨⟨chunks, hchunk, fun c hc => ⟨(hall c hc).2.2.1, (hall c hc).2.2.2.2⟩⟩, ?_⟩
  refine (TextChunker.chunk_escaped t [0x61, 0x80]).2 fun h => ?_
  exact (Utf8.Valid.ascii_tail h (by decide)).head (by decide)

end EdgeTts
