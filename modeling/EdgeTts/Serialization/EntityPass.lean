import EdgeTts.Serialization.XmlEscaper

/-!
# `xml_unescape` and the pass over single entities

`xml_unescape` takes everything from a `&` to the next `;` in a window as one unit.
`plainUnescape` is the pass that looks for an entity at each position.  The two keep
step from one `;` to the next, except where a stray `&` stands in the window before
an entity (`Captures`): there the unit is unknown and the entity in it is not decoded.
-/
namespace EdgeTts

/-- The entities, with what they stand for. -/
def entities : List (Bytes × UInt8) :=
  [(lit "&amp;", 0x26), (lit "&lt;", 0x3C), (lit "&gt;", 0x3E), (lit "&quot;", 0x22),
    (lit "&apos;", 0x27)]

/-- One left-to-right pass that decodes an entity wherever one begins. -/
def plainUnescape : Bytes → Bytes
  | [] => []
  | c :: s =>
      match entities.find? fun e => e.1.isPrefixOf (c :: s) with
      | some e => e.2 :: plainUnescape (s.drop (e.1.length - 1))
      | none => c :: plainUnescape s
  termination_by s => s.length
  decreasing_by all_goals simp only [List.length_cons, List.length_drop]; omega

/-- A `&`, without a `;` behind it, close enough to the end of an entity. -/
def Captures (s : Bytes) : Prop := ∃ a m e b, e ∈ entities ∧ (0x3B : UInt8) ∉ m ∧
  m.length + e.1.length ≤ 8 ∧ s = a ++ 0x26 :: (m ++ e.1 ++ b)

/-! ## Entities -/

/-- An entity is a short name between its only `&` and its only `;`. -/
theorem entity_shape {e : Bytes × UInt8} (h : e ∈ entities) : ∃ name,
    e.1 = 0x26 :: (name ++ [0x3B]) ∧ (0x26 : UInt8) ∉ name ∧ (0x3B : UInt8) ∉ name ∧
      name.length ≤ 4 ∧ decodeEntity e.1 = [e.2] := by
  simp only [entities, List.mem_cons, List.not_mem_nil, or_false] at h
  rcases h with rfl | rfl | rfl | rfl | rfl
  · exact ⟨lit "amp", by decide⟩
  · exact ⟨lit "lt", by decide⟩
  · exact ⟨lit "gt", by decide⟩
  · exact ⟨lit "quot", by decide⟩
  · exact ⟨lit "apos", by decide⟩

theorem semi_not_mem {w : Bytes} (h : (0x3B : UInt8) ∉ w) : (0x3B : UInt8) ∉ 0x26 :: w := by
  rw [List.mem_cons, not_or]
  exact ⟨by decide, h⟩

theorem entity_inj {e e' : Bytes × UInt8} (h : e ∈ entities) (h' : e' ∈ entities)
    (he : e.1 = e'.1) : e = e' := by
  obtain ⟨-, -, -, -, -, hd⟩ := entity_shape h
  obtain ⟨-, -, -, -, -, hd'⟩ := entity_shape h'
  rw [he, hd'] at hd
  exact Prod.ext he (List.cons.inj hd).1.symm

/-- A unit is decoded when it is an entity, and kept when it is not. -/
theorem decodeEntity_cases (unit : Bytes) : (∃ e ∈ entities, unit = e.1) ∨
    (∀ e ∈ entities, unit ≠ e.1) ∧ decodeEntity unit = unit := by
  by_cases h : ∃ e ∈ entities, unit = e.1
  · exact Or.inl h
  · have hne : ∀ e ∈ entities, unit ≠ e.1 := fun e he hu => h ⟨e, he, hu⟩
    refine Or.inr ⟨hne, ?_⟩
    simp only [entities, List.forall_mem_cons] at hne
    obtain ⟨h1, h2, h3, h4, h5, -⟩ := hne
    rw [decodeEntity, if_neg h1, if_neg h2, if_neg h3, if_neg h4, if_neg h5]

/-- An entity that begins a text ends at the first `;` of the text. -/
theorem entity_eq_of_prefix {e : Bytes × UInt8} {w r : Bytes} (h : e ∈ entities)
    (hw : (0x3B : UInt8) ∉ w) (hp : e.1 <+: w ++ 0x3B :: r) : e.1 = w ++ [0x3B] := by
  obtain ⟨name, he, -, hname, -⟩ := entity_shape h
  obtain ⟨t, ht⟩ := hp
  rw [he, List.cons_append, List.append_assoc, ← List.cons_append] at ht
  obtain ⟨rfl, -⟩ := Search.append_cons_inj (semi_not_mem hname) hw ht
  exact he

/-! ## The pass -/

theorem plainUnescape_copy {c : UInt8} {s : Bytes} (h : ∀ e ∈ entities, ¬ e.1 <+: c :: s) :
    plainUnescape (c :: s) = c :: plainUnescape s := by
  have hnone : (entities.find? fun e => e.1.isPrefixOf (c :: s)) = none := by
    rw [List.find?_eq_none]
    exact fun e he hp => h e he (List.isPrefixOf_iff_prefix.mp hp)
  rw [plainUnescape, hnone]

theorem plainUnescape_entity {e : Bytes × UInt8} (h : e ∈ entities) (r : Bytes) :
    plainUnescape (e.1 ++ r) = e.2 :: plainUnescape r := by
  obtain ⟨name, he, -, hname, -⟩ := entity_shape h
  have hsome : (entities.find? fun e' => e'.1.isPrefixOf (0x26 :: (name ++ 0x3B :: r))) =
      some e := by
    cases hf : entities.find? fun e' => e'.1.isPrefixOf (0x26 :: (name ++ 0x3B :: r)) with
    | none =>
        rw [List.find?_eq_none] at hf
        refine absurd (List.isPrefixOf_iff_prefix.mpr ?_) (hf e h)
        exact ⟨r, by rw [he]; simp⟩
    | some e' =>
        have hmem := List.mem_of_find?_eq_some hf
        have hp : e'.1 <+: 0x26 :: (name ++ 0x3B :: r) := by
          simpa using List.find?_some hf
        have hend := entity_eq_of_prefix hmem (semi_not_mem hname) hp
        rw [entity_inj hmem h (by rw [hend, he]; rfl)]
  have htext : e.1 ++ r = 0x26 :: (name ++ 0x3B :: r) := by rw [he]; simp
  rw [htext, plainUnescape, hsome]
  simp only [he]
  simp

/-- The pass copies what no entity begins in. -/
theorem plainUnescape_skip {t : Bytes} : ∀ {u : Bytes},
    (∀ a b, u = a ++ b → b ≠ [] → ∀ e ∈ entities, ¬ e.1 <+: b ++ t) →
      plainUnescape (u ++ t) = u ++ plainUnescape t
  | [], _ => rfl
  | c :: u, h => by
      have hfirst : ∀ e ∈ entities, ¬ e.1 <+: c :: (u ++ t) :=
        h [] (c :: u) rfl (List.cons_ne_nil c u)
      rw [List.cons_append, plainUnescape_copy hfirst,
        plainUnescape_skip fun a b hu => h (c :: a) b (by rw [hu]; rfl)]
      rfl

/-! ## Units -/

/-- A unit that no entity ends is copied, whatever comes after it. -/
theorem plainUnescape_unit {w r : Bytes} (hw : (0x3B : UInt8) ∉ w)
    (h : ∀ a, ∀ e ∈ entities, w ++ [0x3B] ≠ a ++ e.1) :
    plainUnescape (w ++ 0x3B :: r) = w ++ 0x3B :: plainUnescape r := by
  have hskip := plainUnescape_skip (u := w ++ [0x3B]) (t := r) fun a b hab hb e he hp => by
    obtain ⟨b, x, rfl⟩ := (List.eq_nil_or_concat b).resolve_left hb
    rw [List.concat_eq_append] at hab hp
    rw [← List.append_assoc] at hab
    obtain ⟨rfl, hx⟩ := List.append_inj' hab rfl
    obtain rfl : 0x3B = x := (List.cons.inj hx).1
    rw [List.append_assoc, List.singleton_append] at hp
    have hend := entity_eq_of_prefix he (fun hm => hw (List.mem_append_right a hm)) hp
    exact h a e he (by rw [hend, List.append_assoc])
  simpa using hskip

/-- An entity at the end of a unit is decoded, whatever comes before it. -/
theorem plainUnescape_tail {u r : Bytes} {e : Bytes × UInt8} (he : e ∈ entities)
    (hu : (0x3B : UInt8) ∉ u) : plainUnescape (u ++ e.1 ++ r) = u ++ e.2 :: plainUnescape r := by
  obtain ⟨name, hname, hamp, hsemi, -⟩ := entity_shape he
  rw [List.append_assoc, plainUnescape_skip, plainUnescape_entity he]
  intro a b hab hb e' he' hp
  -- an entity that began before `e` would hold the `&` of `e` behind its own
  have hw : (0x3B : UInt8) ∉ b ++ 0x26 :: name :=
    List.not_mem_append (fun hm => hu (hab ▸ List.mem_append_right a hm)) (semi_not_mem hsemi)
  have htext : b ++ (e.1 ++ r) = (b ++ 0x26 :: name) ++ 0x3B :: r := by rw [hname]; simp
  rw [htext] at hp
  have hend := entity_eq_of_prefix he' hw hp
  obtain ⟨name', hname', hamp', -⟩ := entity_shape he'
  cases b with
  | nil => exact hb rfl
  | cons y b =>
      rw [hname', List.cons_append, List.cons_append, List.cons.injEq] at hend
      have hmem : (0x26 : UInt8) ∈ name' ++ [0x3B] := by rw [hend.2]; simp
      rcases List.mem_append.mp hmem with hm | hm
      · exact hamp' hm
      · exact absurd (List.mem_singleton.mp hm) (by decide)

theorem Captures.prepend {s : Bytes} (a : Bytes) : Captures s → Captures (a ++ s) := by
  rintro ⟨a', m, e, b, he, hm, hlen, rfl⟩
  exact ⟨a ++ a', m, e, b, he, hm, hlen, by simp⟩

/-- What a text captures at its first byte or later. -/
theorem Captures.cons_inv {c : UInt8} {s : Bytes} (h : Captures (c :: s)) : Captures s ∨
    c = 0x26 ∧ ∃ m e b, e ∈ entities ∧ (0x3B : UInt8) ∉ m ∧ m.length + e.1.length ≤ 8 ∧
      s = m ++ e.1 ++ b := by
  obtain ⟨a, m, e, b, he, hm, hlen, hs⟩ := h
  cases a with
  | nil =>
      obtain ⟨rfl, rfl⟩ := List.cons.inj hs
      exact Or.inr ⟨rfl, m, e, b, he, hm, hlen, rfl⟩
  | cons x a => exact Or.inl ⟨a, m, e, b, he, hm, hlen, (List.cons.inj hs).2⟩

/-- What a text captures, it captures in its first unit or after it. -/
theorem Captures.unit_inv {w r : Bytes} (hw : (0x3B : UInt8) ∉ w) (h : Captures (w ++ 0x3B :: r)) :
    Captures r ∨ ∃ a m e, e ∈ entities ∧ w ++ [0x3B] = a ++ 0x26 :: (m ++ e.1) := by
  induction w with
  | nil =>
      rcases h.cons_inv with h | ⟨hc, -⟩
      · exact Or.inl h
      · exact absurd hc (by decide)
  | cons c w ih =>
      rw [List.mem_cons, not_or] at hw
      rcases h.cons_inv with h | ⟨rfl, m, e, b, he, hm, -, hs⟩
      · refine (ih hw.2 h).imp_right ?_
        rintro ⟨a, m, e, he, hend⟩
        exact ⟨c :: a, m, e, he, by rw [List.cons_append, hend]; rfl⟩
      · -- the entity ends at the `;` of the unit
        obtain ⟨name, hname, -, hsemi, -⟩ := entity_shape he
        have hlast : w ++ 0x3B :: r = (m ++ 0x26 :: name) ++ 0x3B :: b := by
          refine hs.trans ?_
          rw [hname]
          simp
        obtain ⟨rfl, -⟩ := Search.append_cons_inj hw.2 (List.not_mem_append hm (semi_not_mem hsemi))
          hlast
        exact Or.inr ⟨[], m, e, he, by rw [hname]; simp⟩

/-! ## The two passes side by side -/

/-- The turn of `xml_unescape` on a `&` without a `;` in the window. -/
theorem xmlUnescape_stray {s : Bytes} (h : (0x3B : UInt8) ∉ s.take 8) :
    xmlUnescape (0x26 :: s) = 0x26 :: xmlUnescape s := by
  rw [xmlUnescape, if_neg (by simp)]
  split
  · rfl
  · rename_i n hn
    obtain ⟨a, b, rfl, rfl, -⟩ := Search.idxOf?_eq_some hn
    rw [if_pos]
    apply Nat.lt_of_not_le
    intro hle
    apply h
    exact Search.mem_take_append_cons b hle

/-- An entity within reach of a `&` puts a `;` in its window. -/
theorem semi_mem_window {m b : Bytes} {e : Bytes × UInt8} (he : e ∈ entities)
    (hlen : m.length + e.1.length ≤ 8) : (0x3B : UInt8) ∈ (m ++ e.1 ++ b).take 8 := by
  obtain ⟨name, hname, -⟩ := entity_shape he
  rw [List.take_append, List.mem_append]
  refine Or.inl ?_
  rw [List.take_of_length_le (by simpa using hlen), hname]
  simp

/-- How the results compare: equal without a capture, and with one the code has
left an entity as it is that the pass has decoded. -/
structure SideBySide (s : Bytes) : Prop where
  agree : ¬ Captures s → xmlUnescape s = plainUnescape s
  longer : Captures s → (plainUnescape s).length < (xmlUnescape s).length

theorem SideBySide.length_le {s : Bytes} (h : SideBySide s) :
    (plainUnescape s).length ≤ (xmlUnescape s).length := by
  by_cases hc : Captures s
  · exact Nat.le_of_lt (h.longer hc)
  · rw [h.agree hc]

/-- A turn in which both emit `out` and go on with `r`. -/
theorem SideBySide.of_turn {s r : Bytes} (out : Bytes) (h : SideBySide r)
    (hx : xmlUnescape s = out ++ xmlUnescape r) (hp : plainUnescape s = out ++ plainUnescape r)
    (hc : Captures s ↔ Captures r) : SideBySide s := by
  refine ⟨fun hn => ?_, fun hs => ?_⟩
  · rw [hx, hp, h.agree fun hr => hn (hc.mpr hr)]
  · rw [hx, hp, List.length_append, List.length_append]
    exact Nat.add_lt_add_left (h.longer (hc.mp hs)) _

/-- Both copy a byte other than `&`. -/
theorem SideBySide.plain {c : UInt8} {s : Bytes} (hc : c ≠ 0x26) (h : SideBySide s) :
    SideBySide (c :: s) := by
  refine h.of_turn [c] (xmlUnescape_plain hc s) (plainUnescape_copy fun e he hp => ?_)
    ⟨fun hs => hs.cons_inv.resolve_right fun hx => hc hx.1, Captures.prepend [c]⟩
  obtain ⟨name, hname, -⟩ := entity_shape he
  rw [hname, List.cons_prefix_cons] at hp
  exact hc hp.1.symm

/-- Both copy a `&` that has no `;` in its window. -/
theorem SideBySide.stray {s : Bytes} (hsemi : (0x3B : UInt8) ∉ s.take 8) (h : SideBySide s) :
    SideBySide (0x26 :: s) := by
  refine h.of_turn [0x26] (xmlUnescape_stray hsemi) (plainUnescape_copy fun e he hp => ?_)
    ⟨fun hs => hs.cons_inv.resolve_right ?_, Captures.prepend [0x26]⟩
  · obtain ⟨name, hname, -, -, hlen, -⟩ := entity_shape he
    rw [hname, List.cons_prefix_cons] at hp
    obtain ⟨t, rfl⟩ := hp.2
    refine hsemi ?_
    rw [List.take_append, List.mem_append, List.take_of_length_le (by simp; omega)]
    simp
  · rintro ⟨-, m, e, b, he, -, hlen, rfl⟩
    exact hsemi (semi_mem_window he hlen)

/-- Both decode a unit that is an entity. -/
theorem SideBySide.entity {e : Bytes × UInt8} {r : Bytes} (he : e ∈ entities)
    (h : SideBySide r) : SideBySide (e.1 ++ r) := by
  obtain ⟨name, hname, hamp, hsemi, hlen, hd⟩ := entity_shape he
  have hx : xmlUnescape (e.1 ++ r) = [e.2] ++ xmlUnescape r := by
    have := xmlUnescape_entity hsemi (by omega) r
    rw [← hname, hd] at this
    rw [← this, hname]
    simp
  refine h.of_turn [e.2] hx (plainUnescape_entity he r) ⟨fun hs => ?_, Captures.prepend e.1⟩
  -- an entity holds no second `&`, so nothing is captured in it
  have htext : e.1 ++ r = 0x26 :: name ++ 0x3B :: r := by rw [hname]; simp
  rw [htext] at hs
  refine (hs.unit_inv (semi_not_mem hsemi)).resolve_right ?_
  rintro ⟨a, m, e', he', hend⟩
  obtain ⟨name', hname', -⟩ := entity_shape he'
  have hmem : (0x26 : UInt8) ∈ name ++ [0x3B] := by
    cases a with
    | nil =>
        rw [List.cons_append, List.nil_append, List.cons.injEq] at hend
        rw [hend.2, hname']
        simp
    | cons x a =>
        rw [List.cons_append, List.cons_append, List.cons.injEq] at hend
        rw [hend.2]
        simp
  rw [List.mem_append, List.mem_singleton] at hmem
  exact hmem.elim hamp (by decide)

/-- The pass decodes the entity at the end of a unit, and `xml_unescape` copies the unit. -/
theorem SideBySide.captured {m r : Bytes} {e : Bytes × UInt8} (he : e ∈ entities)
    (hm : (0x3B : UInt8) ∉ m) (hlen : m.length + e.1.length ≤ 8) (h : SideBySide r)
    (hx : xmlUnescape (0x26 :: m ++ e.1 ++ r) = 0x26 :: m ++ e.1 ++ xmlUnescape r) :
    SideBySide (0x26 :: m ++ e.1 ++ r) := by
  obtain ⟨name, hname, -⟩ := entity_shape he
  have hp := plainUnescape_tail (r := r) he (semi_not_mem hm)
  refine ⟨fun hn => absurd ⟨[], m, e, r, he, hm, hlen, rfl⟩ hn, fun _ => ?_⟩
  have hle := h.length_le
  have hsize := congrArg List.length hname
  rw [hx, hp]
  simp only [List.length_append, List.length_cons, List.length_nil] at hsize ⊢
  omega

/-- Both copy a unit that no entity ends. -/
theorem SideBySide.unknown {w r : Bytes} (hw : (0x3B : UInt8) ∉ w) (h : SideBySide r)
    (hend : ∀ a, ∀ e ∈ entities, w ++ [0x3B] ≠ a ++ e.1)
    (hx : xmlUnescape (w ++ 0x3B :: r) = w ++ 0x3B :: xmlUnescape r) :
    SideBySide (w ++ 0x3B :: r) := by
  refine h.of_turn (w ++ [0x3B]) (by simpa using hx) (by simpa using plainUnescape_unit hw hend)
    ⟨fun hs => ?_, fun hr => List.append_cons w 0x3B r ▸ hr.prepend (w ++ [0x3B])⟩
  refine (hs.unit_inv hw).resolve_right ?_
  rintro ⟨a, m, e, he, hu⟩
  exact hend (a ++ 0x26 :: m) e he (by simpa using hu)

/-- A unit: both decode it, or both copy it, or the pass decodes the entity at its end. -/
theorem SideBySide.unit {w r : Bytes} (hw : (0x3B : UInt8) ∉ w) (hlen : w.length ≤ 7)
    (h : SideBySide r) : SideBySide (0x26 :: (w ++ 0x3B :: r)) := by
  have hx := xmlUnescape_entity hw hlen r
  rcases decodeEntity_cases (0x26 :: (w ++ [0x3B])) with ⟨e, he, hunit⟩ | ⟨hne, hkeep⟩
  · have htext : 0x26 :: (w ++ 0x3B :: r) = e.1 ++ r := by rw [← hunit]; simp
    rw [htext]
    exact h.entity he
  · rw [hkeep] at hx
    by_cases hend : ∃ a, ∃ e ∈ entities, 0x26 :: (w ++ [0x3B]) = a ++ e.1
    · -- the entity at the end of the unit is captured by its `&`
      obtain ⟨a, e, he, hend⟩ := hend
      cases a with
      | nil => exact absurd hend (hne e he)
      | cons x m =>
          rw [List.cons_append, List.cons.injEq] at hend
          obtain ⟨rfl, hend⟩ := hend
          have hm : (0x3B : UInt8) ∉ m := by
            obtain ⟨name, hname, -⟩ := entity_shape he
            rw [hname, ← List.cons_append, ← List.append_assoc] at hend
            obtain ⟨rfl, -⟩ := List.append_inj' hend rfl
            exact fun hm => hw (List.mem_append_left _ hm)
          have hsize := congrArg List.length hend
          rw [List.length_append, List.length_append, List.length_singleton] at hsize
          have htext : 0x26 :: (w ++ 0x3B :: r) = 0x26 :: m ++ e.1 ++ r := by
            rw [List.cons_append, ← hend]
            simp
          rw [htext, hend] at hx
          rw [htext]
          exact h.captured he hm (by omega) hx
    · refine h.unknown (w := 0x26 :: w) (semi_not_mem hw)
        (fun a e he hu => hend ⟨a, e, he, hu⟩) ?_
      simpa using hx

theorem sideBySide (s : Bytes) : SideBySide s := by
  induction hn : s.length using Nat.strongRecOn generalizing s with
  | ind n ih =>
      cases s with
      | nil =>
          refine ⟨fun _ => by rw [xmlUnescape, plainUnescape], ?_⟩
          rintro ⟨a, m, e, b, -, -, -, hs⟩
          simp at hs
      | cons c s =>
          rw [List.length_cons] at hn
          by_cases hc : c = 0x26
          · subst hc
            by_cases hsemi : (0x3B : UInt8) ∈ s.take 8
            · obtain ⟨w, t, htake, hw⟩ := List.eq_append_cons_of_mem hsemi
              have hs : s = w ++ 0x3B :: (t ++ s.drop 8) := by
                conv => lhs; rw [← List.take_append_drop 8 s, htake]
                simp
              have hlen := congrArg List.length htake
              rw [List.length_take, List.length_append, List.length_cons] at hlen
              rw [hs] at hn ⊢
              rw [List.length_append, List.length_cons] at hn
              exact SideBySide.unit hw (by omega) (ih _ (by omega) _ rfl)
            · exact SideBySide.stray hsemi (ih _ (by omega) _ rfl)
          · exact SideBySide.plain hc (ih _ (by omega) _ rfl)

/-- **`xml_unescape` is the pass over single entities exactly on the texts in which
no stray `&` captures an entity.** -/
theorem xmlUnescape_eq_plain_iff (s : Bytes) : xmlUnescape s = plainUnescape s ↔ ¬ Captures s := by
  refine ⟨fun heq hc => ?_, (sideBySide s).agree⟩
  have hlt := (sideBySide s).longer hc
  rw [heq] at hlt
  exact Nat.lt_irrefl _ hlt

/-- A stray `&` two bytes before an entity. -/
theorem xmlUnescape_captured : xmlUnescape (lit "&x&amp;") = lit "&x&amp;" ∧
    plainUnescape (lit "&x&amp;") = lit "&x&" ∧
    ¬ ∀ s, xmlUnescape s = plainUnescape s := by
  have hx : xmlUnescape (lit "&x&amp;") = lit "&x&amp;" := by
    have := @xmlUnescape_entity (lit "x&amp") (by decide) (by decide) []
    rw [xmlUnescape] at this
    exact this
  have hp : plainUnescape (lit "&x&amp;") = lit "&x&" := by
    have := plainUnescape_tail (u := lit "&x") (r := []) (e := (lit "&amp;", 0x26)) (by decide)
      (by decide)
    rw [plainUnescape] at this
    exact this
  refine ⟨hx, hp, fun h => ?_⟩
  have := h (lit "&x&amp;")
  rw [hx, hp] at this
  exact absurd this (by decide)

end EdgeTts
