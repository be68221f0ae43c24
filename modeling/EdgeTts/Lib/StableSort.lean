import Mathlib.Data.List.Sort

/-!
# Stable sorting

`List.insertionSort` puts an element before those that it ties with and that stood
after it.  Stability is a property of the sorted list alone: of two elements that tie,
the first is related to the second by `s`, where `s` is the order in which the
elements stood before.

`Sorting` is any function that sorts, as one whose treatment of ties is left open.
-/
namespace StableSort

variable {α : Type} {r s : α → α → Prop} [DecidableRel r] [Std.Total r] [IsTrans α r]

theorem pairwise_orderedInsert {a : α} : ∀ {l : List α},
    l.Pairwise (fun x y => r x y ∧ (r y x → s x y)) → (∀ x ∈ l, s a x) →
    (l.orderedInsert r a).Pairwise fun x y => r x y ∧ (r y x → s x y)
  | [], _, _ => List.pairwise_singleton _ a
  | b :: l, hl, ha => by
      obtain ⟨hb, hl'⟩ := List.pairwise_cons.mp hl
      by_cases h : r a b
      · rw [List.orderedInsert_cons, if_pos h]
        refine List.pairwise_cons.mpr ⟨fun x hx => ⟨?_, fun _ => ha x hx⟩, hl⟩
        rcases List.mem_cons.mp hx with rfl | hx
        · exact h
        · exact trans_of r h (hb x hx).1
      · rw [List.orderedInsert_cons, if_neg h]
        refine List.pairwise_cons.mpr ⟨fun x hx => ?_,
          pairwise_orderedInsert hl' fun x hx => ha x (List.mem_cons_of_mem b hx)⟩
        rcases (List.mem_orderedInsert r).mp hx with rfl | hx
        · exact ⟨(total_of r x b).resolve_left h, fun hxb => absurd hxb h⟩
        · exact hb x hx

/-- **Insertion sort is stable.** -/
theorem pairwise_insertionSort : ∀ {l : List α}, l.Pairwise s →
    (l.insertionSort r).Pairwise fun x y => r x y ∧ (r y x → s x y)
  | [], _ => List.Pairwise.nil
  | a :: l, hl => by
      obtain ⟨ha, hl'⟩ := List.pairwise_cons.mp hl
      rw [List.insertionSort_cons]
      exact pairwise_orderedInsert (pairwise_insertionSort hl') fun x hx =>
        ha x ((List.mem_insertionSort r).mp hx)

/-! ## Any sorting function -/

/-- A comparison under which not being after is transitive. -/
structure StrictWeak (lt : α → α → Bool) : Prop where
  asymm : ∀ a b, lt a b = true → lt b a = false
  trans : ∀ a b c, lt b a = false → lt c b = false → lt c a = false

/-- A function that sorts. -/
structure Sorting where
  sort : ∀ {α : Type}, (α → α → Bool) → List α → List α
  perm : ∀ {α : Type} (lt : α → α → Bool) (l : List α), (sort lt l).Perm l
  ascending : ∀ {α : Type} {lt : α → α → Bool}, StrictWeak lt →
    ∀ l : List α, (sort lt l).Pairwise fun a b => lt b a = false

/-- Insertion sort is one. -/
def Sorting.insertion : Sorting where
  sort lt l := l.insertionSort fun a b => lt b a = false
  perm lt l := List.perm_insertionSort _ l
  ascending {α lt} weak l := by
    have total : Std.Total fun a b : α => lt b a = false := by
      constructor
      intro a b
      by_cases h : lt b a = true
      · exact .inr (weak.asymm b a h)
      · exact .inl (by simpa using h)
    have trans : IsTrans α fun a b : α => lt b a = false := ⟨weak.trans⟩
    exact List.pairwise_insertionSort _ l

end StableSort
