import EdgeTts.Lib.Search
import EdgeTts.Lib.Utf8
import EdgeTts.Common.Error

/-!
# `serialization/XmlEscaper.cpp`

Escaped text is a sequence of tokens, a plain byte or one of three entities, and
unescaping reads the tokens back (`xmlUnescape_xmlEscape`).  The second half of
the module says where escaped text may be cut: before any byte that no entity
goes on with (`xmlEscape_cut`), and wherever the last `&` has been closed
(`xmlEscape_cut_closed`).
-/
namespace EdgeTts

open Utf8 (Valid)

/-- The `switch` of `xml_escape`. -/
def escapeByte (c : UInt8) : Bytes :=
  if c = 0x26 then lit "&amp;"
  else if c = 0x3C then lit "&lt;"
  else if c = 0x3E then lit "&gt;"
  else [c]

/-- `xml_escape`. -/
def xmlEscape (raw : Bytes) : Bytes := raw.flatMap escapeByte

/-- What `xml_unescape` emits for an entity; an unknown one is emitted unchanged. -/
def decodeEntity (entity : Bytes) : Bytes :=
  if entity = lit "&amp;" then [0x26]
  else if entity = lit "&lt;" then [0x3C]
  else if entity = lit "&gt;" then [0x3E]
  else if entity = lit "&quot;" then [0x22]
  else if entity = lit "&apos;" then [0x27]
  else entity

/-- `xml_unescape`, on the text from `i` on.  A `;` found `n` bytes after the
byte that follows `&` stands at `semi` with `semi - i = n + 1`. -/
def xmlUnescape : Bytes → Bytes
  | [] => []
  | c :: escaped =>
      if c ≠ 0x26 then c :: xmlUnescape escaped
      else
        match escaped.idxOf? 0x3B with
        | none => c :: xmlUnescape escaped
        | some n =>
            if n + 1 > 8 then c :: xmlUnescape escaped
            else decodeEntity (c :: escaped.take (n + 1)) ++ xmlUnescape (escaped.drop (n + 1))
  termination_by escaped => escaped.length
  decreasing_by all_goals simp only [List.length_cons, List.length_drop]; omega

@[simp] theorem xmlEscape_nil : xmlEscape [] = [] := rfl

@[simp] theorem xmlEscape_cons (c : UInt8) (raw : Bytes) :
    xmlEscape (c :: raw) = escapeByte c ++ xmlEscape raw := List.flatMap_cons

@[simp] theorem xmlEscape_append (a b : Bytes) :
    xmlEscape (a ++ b) = xmlEscape a ++ xmlEscape b := List.flatMap_append

/-- A byte that `xml_escape` replaces. -/
def IsMarkup (c : UInt8) : Prop := c = 0x26 ∨ c = 0x3C ∨ c = 0x3E

theorem escapeByte_plain {c : UInt8} (h : ¬ IsMarkup c) : escapeByte c = [c] := by
  simp only [IsMarkup, not_or] at h
  simp [escapeByte, h]

/-- The entities of `xml_escape`, between `&` and `;`. -/
def entityNames : List Bytes := [lit "amp", lit "lt", lit "gt"]

/-- The names are short and hold no `;`, and every name is known to `xml_unescape`. -/
theorem entityName_spec {body : Bytes} (h : body ∈ entityNames) :
    (0x3B : UInt8) ∉ body ∧ body.length ≤ 3 ∧ ∀ x ∈ body, x ∈ lit "ampltg;" := by
  revert body
  decide +kernel

/-- A token is the byte itself, or an entity. -/
theorem escapeByte_cases (c : UInt8) : ¬ IsMarkup c ∧ escapeByte c = [c] ∨
    IsMarkup c ∧ ∃ body ∈ entityNames, escapeByte c = 0x26 :: (body ++ [0x3B]) ∧
      decodeEntity (escapeByte c) = [c] := by
  by_cases h : IsMarkup c
  · refine Or.inr ⟨h, ?_⟩
    rcases h with rfl | rfl | rfl
    · exact ⟨lit "amp", by decide, rfl, rfl⟩
    · exact ⟨lit "lt", by decide, rfl, rfl⟩
    · exact ⟨lit "gt", by decide, rfl, rfl⟩
  · exact Or.inl ⟨h, escapeByte_plain h⟩

theorem xmlUnescape_plain {c : UInt8} (h : c ≠ 0x26) (escaped : Bytes) :
    xmlUnescape (c :: escaped) = c :: xmlUnescape escaped := by
  rw [xmlUnescape, if_pos h]

/-- An entity is decoded when its `;` is at most eight bytes after its `&`. -/
theorem xmlUnescape_entity {body : Bytes} (h : (0x3B : UInt8) ∉ body) (hlen : body.length ≤ 7)
    (rest : Bytes) : xmlUnescape (0x26 :: (body ++ 0x3B :: rest)) =
      decodeEntity (0x26 :: (body ++ [0x3B])) ++ xmlUnescape rest := by
  rw [xmlUnescape, if_neg (by simp)]
  simp only [Search.idxOf?_append_cons rest h]
  rw [if_neg (by omega)]
  simp [List.take_append, List.drop_append, List.take_of_length_le, List.drop_of_length_le]

/-- One turn of the loop of `xml_unescape` reads one token of `xml_escape`. -/
theorem xmlUnescape_escapeByte (c : UInt8) (rest : Bytes) :
    xmlUnescape (escapeByte c ++ rest) = c :: xmlUnescape rest := by
  rcases escapeByte_cases c with ⟨h, he⟩ | ⟨-, body, hbody, he, hd⟩
  · rw [he]
    exact xmlUnescape_plain (fun hc => h (Or.inl hc)) rest
  · obtain ⟨hsemi, hlen, -⟩ := entityName_spec hbody
    have := xmlUnescape_entity hsemi (by omega) rest
    rw [← he, hd] at this
    rw [he]
    simpa using this

/-- Escaped text is read back token by token, whatever comes after it. -/
theorem xmlUnescape_xmlEscape_append (raw rest : Bytes) :
    xmlUnescape (xmlEscape raw ++ rest) = raw ++ xmlUnescape rest := by
  induction raw with
  | nil => rfl
  | cons c raw ih =>
      rw [xmlEscape_cons, List.append_assoc, xmlUnescape_escapeByte, ih, List.cons_append]

/-- **Unescaping inverts escaping.** -/
theorem xmlUnescape_xmlEscape (raw : Bytes) : xmlUnescape (xmlEscape raw) = raw := by
  have := xmlUnescape_xmlEscape_append raw []
  simpa [xmlUnescape] using this

/-- **The user's own text comes back**: no `&` or `;` of it is read as part of an
entity, and neither is one of the text that follows. -/
theorem xmlEscape_roundTrip (s : Bytes) : xmlUnescape (xmlEscape s) = s ∧
    ∀ rest, xmlUnescape (xmlEscape s ++ rest) = s ++ xmlUnescape rest :=
  ⟨xmlUnescape_xmlEscape s, xmlUnescape_xmlEscape_append s⟩

/-- Escaped text holds no `<`. -/
theorem lt_not_mem_xmlEscape (raw : Bytes) : (0x3C : UInt8) ∉ xmlEscape raw := by
  rw [xmlEscape, List.mem_flatMap]
  rintro ⟨c, -, hc⟩
  rcases escapeByte_cases c with ⟨h, he⟩ | ⟨-, body, hbody, he, -⟩
  · rw [he, List.mem_singleton] at hc
    exact h (Or.inr (Or.inl hc.symm))
  · have hnames : ∀ name ∈ entityNames, (0x3C : UInt8) ∉ 0x26 :: (name ++ [0x3B]) := by decide
    rw [he] at hc
    exact hnames body hbody hc

/-! ## Cutting escaped text -/

/-- The last `&` of a text has not been closed by a `;`. -/
def OpenEntity (s : Bytes) : Prop := ∃ u v, s = u ++ 0x26 :: v ∧ (0x3B : UInt8) ∉ v

/-- **Escaped text may be cut before any byte that no entity goes on with.** -/
theorem xmlEscape_cut {x : UInt8} (hx : x ∉ lit "ampltg;") : ∀ {raw a b : Bytes},
    xmlEscape raw = a ++ x :: b →
      ∃ r s, raw = r ++ s ∧ a = xmlEscape r ∧ x :: b = xmlEscape s
  | [], a, b, h => by simp at h
  | c :: raw, a, b, h => by
      rw [xmlEscape_cons] at h
      rcases List.append_eq_append_iff.mp h with ⟨u, rfl, hu⟩ | ⟨u, hu, hb⟩
      · obtain ⟨r, s, rfl, rfl, hs⟩ := xmlEscape_cut hx hu
        exact ⟨c :: r, s, rfl, (xmlEscape_cons c r).symm, hs⟩
      · cases a with
        | nil => exact ⟨[], c :: raw, rfl, rfl, by rw [xmlEscape_cons, hu, hb]; rfl⟩
        | cons y a =>
            cases u with
            | nil => exact ⟨[c], raw, rfl, by simpa using hu.symm, hb⟩
            | cons z u =>
                -- `x` would stand inside the token of `c`
                obtain ⟨rfl, -⟩ := List.cons_eq_cons.mp hb
                rcases escapeByte_cases c with ⟨-, he⟩ | ⟨-, body, hbody, he, -⟩
                · simp [he] at hu
                · rw [he, List.cons_append, List.cons.injEq] at hu
                  have hmem : x ∈ body ++ [0x3B] := by simp [hu.2]
                  rcases List.mem_append.mp hmem with hm | hm
                  · exact absurd ((entityName_spec hbody).2.2 x hm) hx
                  · rw [List.mem_singleton.mp hm] at hx
                    exact absurd (by decide) hx

/-- **Escaped text may be cut wherever the last `&` has been closed.** -/
theorem xmlEscape_cut_closed : ∀ {raw a b : Bytes}, xmlEscape raw = a ++ b → ¬ OpenEntity a →
    ∃ r s, raw = r ++ s ∧ a = xmlEscape r ∧ b = xmlEscape s
  | [], a, b, h, _ => by
      obtain ⟨rfl, rfl⟩ := List.append_eq_nil_iff.mp h.symm
      exact ⟨[], [], rfl, rfl, rfl⟩
  | c :: raw, a, b, h, ho => by
      rw [xmlEscape_cons] at h
      rcases List.append_eq_append_iff.mp h with ⟨u, rfl, hu⟩ | ⟨u, hu, rfl⟩
      · have ho' : ¬ OpenEntity u := by
          rintro ⟨p, q, rfl, hq⟩
          exact ho ⟨escapeByte c ++ p, q, by simp, hq⟩
        obtain ⟨r, s, rfl, rfl, hs⟩ := xmlEscape_cut_closed hu ho'
        exact ⟨c :: r, s, rfl, (xmlEscape_cons c r).symm, hs⟩
      · cases a with
        | nil => exact ⟨[], c :: raw, rfl, rfl, by rw [xmlEscape_cons, hu]; rfl⟩
        | cons y a =>
            rcases List.eq_nil_or_concat u with rfl | ⟨u, z, rfl⟩
            · exact ⟨[c], raw, rfl, by simpa using hu.symm, by simp⟩
            · -- `a` would end inside the token of `c`
              rcases escapeByte_cases c with ⟨-, he⟩ | ⟨-, body, hbody, he, -⟩
              · simp [he] at hu
              · rw [he, List.cons_append, List.cons.injEq, List.concat_eq_append,
                  ← List.append_assoc] at hu
                obtain ⟨rfl, hu⟩ := hu
                obtain ⟨rfl, -⟩ := List.append_inj' hu rfl
                refine absurd ⟨[], a, rfl, fun hm => ?_⟩ ho
                exact (entityName_spec hbody).1 (List.mem_append_left u hm)

/-- Escaped text leaves no entity open. -/
theorem not_openEntity_xmlEscape (raw : Bytes) : ¬ OpenEntity (xmlEscape raw) := by
  rintro ⟨u, v, h, hv⟩
  obtain ⟨r, s, rfl, rfl, hs⟩ := xmlEscape_cut (by decide) h
  cases s with
  | nil => cases hs
  | cons c s =>
      rw [xmlEscape_cons] at hs
      rcases escapeByte_cases c with ⟨hc, he⟩ | ⟨-, body, -, he, -⟩
      · rw [he, List.singleton_append, List.cons.injEq] at hs
        exact hc (Or.inl hs.1.symm)
      · rw [he, List.cons_append, List.cons.injEq] at hs
        exact hv (by simp [hs.2])

/-! ## Escaped UTF-8 text -/

/-- What `xml_escape` makes of a valid UTF-8 text. -/
def Escaped (s : Bytes) : Prop := ∃ raw, Valid raw ∧ s = xmlEscape raw

theorem isMarkup_ascii {c : UInt8} (h : IsMarkup c) : c.toNat < 0x80 := by
  rcases h with rfl | rfl | rfl <;> decide

theorem valid_xmlEscape {raw : Bytes} (h : Valid raw) : Valid (xmlEscape raw) := by
  refine h.flatMap (fun c hc => ?_) fun c hc => escapeByte_plain fun hm => ?_
  · rcases escapeByte_cases c with ⟨-, he⟩ | ⟨-, body, hbody, he, -⟩
    · rw [he]
      exact Utf8.valid_ascii hc
    · have hall : ∀ name ∈ entityNames, Valid name := by
        intro name hname
        simp only [entityNames, List.mem_cons, List.not_mem_nil, or_false] at hname
        rcases hname with rfl | rfl | rfl
        · exact ⟨['a', 'm', 'p'], by decide⟩
        · exact ⟨['l', 't'], by decide⟩
        · exact ⟨['g', 't'], by decide⟩
      rw [he]
      exact (Utf8.valid_ascii (b := 0x26) (by decide)).append
        ((hall body hbody).append (Utf8.valid_ascii (by decide)))
  · have := isMarkup_ascii hm
    omega

namespace Escaped

theorem valid {s : Bytes} : Escaped s → Valid s := by
  rintro ⟨raw, hraw, rfl⟩
  exact valid_xmlEscape hraw

/-- Escaped text holds whole entities only. -/
theorem escape_unescape {s : Bytes} : Escaped s → xmlEscape (xmlUnescape s) = s := by
  rintro ⟨raw, -, rfl⟩
  rw [xmlUnescape_xmlEscape]

theorem not_openEntity {s : Bytes} : Escaped s → ¬ OpenEntity s := by
  rintro ⟨raw, -, rfl⟩
  exact not_openEntity_xmlEscape raw

/-- The halves of a cut are escaped UTF-8 texts when no continuation byte follows it. -/
theorem of_cut {r s : Bytes} (h : Valid (r ++ s))
    (hs : ∀ x, (xmlEscape s).head? = some x → ¬ Utf8.Cont x) :
    Escaped (xmlEscape r) ∧ Escaped (xmlEscape s) := by
  have hhead : ∀ x, s.head? = some x → ¬ Utf8.Cont x := by
    intro x hx
    cases s with
    | nil => cases hx
    | cons c s =>
        obtain rfl : c = x := Option.some.inj hx
        rcases escapeByte_cases c with ⟨-, he⟩ | ⟨hm, -⟩
        · exact hs c (by rw [xmlEscape_cons, he]; rfl)
        · exact Utf8.not_cont_of_ascii (isMarkup_ascii hm)
  obtain ⟨hr, hs⟩ := h.cut hhead
  exact ⟨⟨r, hr, rfl⟩, ⟨s, hs, rfl⟩⟩

theorem cut {x : UInt8} {a b : Bytes} (h : Escaped (a ++ x :: b)) (hx : x ∉ lit "ampltg;")
    (hc : ¬ Utf8.Cont x) : Escaped a ∧ Escaped (x :: b) := by
  obtain ⟨raw, hraw, h⟩ := h
  obtain ⟨r, s, rfl, rfl, hs⟩ := xmlEscape_cut hx h.symm
  rw [hs]
  refine of_cut hraw fun y hy => ?_
  rw [← hs] at hy
  obtain rfl : x = y := Option.some.inj hy
  exact hc

theorem cut_closed {a b : Bytes} (h : Escaped (a ++ b)) (ha : ¬ OpenEntity a)
    (hb : ∀ x, b.head? = some x → ¬ Utf8.Cont x) : Escaped a ∧ Escaped b := by
  obtain ⟨raw, hraw, h⟩ := h
  obtain ⟨r, s, rfl, rfl, rfl⟩ := xmlEscape_cut_closed h.symm ha
  exact of_cut hraw hb

end Escaped
end EdgeTts
