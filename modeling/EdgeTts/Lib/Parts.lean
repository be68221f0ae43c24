import Mathlib.Data.List.Enum
import Mathlib.Data.List.Forall2
import Mathlib.Order.Lattice

/-!
# Lists that are put together from parts

An element of `parts.flatten` is traced to the part it comes from by its position
(`origins`), and a relation between a flattened list and another list splits the other
list into parts as well.
-/
namespace Parts

variable {α β : Type}

/-- Each element of the parts, with the number of its part. -/
def numbered (parts : List (List α)) : List (α × Nat) :=
  parts.zipIdx.flatMap fun p => p.1.map fun a => (a, p.2)

/-- For each element of `parts.flatten`, the number of its part. -/
def origins (parts : List (List α)) : List Nat := (numbered parts).map Prod.snd

theorem numbered_fst (parts : List (List α)) : (numbered parts).map Prod.fst = parts.flatten := by
  rw [numbered, List.map_flatMap]
  simp only [List.map_map, Function.comp_def, List.map_id']
  rw [List.flatMap_def, List.zipIdx_map_fst]

theorem mem_numbered {parts : List (List α)} {a : α} {k : Nat} (h : (a, k) ∈ numbered parts) :
    ∃ part, parts[k]? = some part ∧ a ∈ part := by
  obtain ⟨⟨part, k'⟩, hpart, hmem⟩ := List.mem_flatMap.mp h
  obtain ⟨a', ha', heq⟩ := List.mem_map.mp hmem
  cases heq
  exact ⟨part, List.mem_zipIdx_iff_getElem?.mp hpart, ha'⟩

/-- An element comes from the part that its origin says. -/
theorem exists_part_of_origins {parts : List (List α)} {p k : Nat} {a : α}
    (ha : parts.flatten[p]? = some a) (hk : (origins parts)[p]? = some k) :
    ∃ part, parts[k]? = some part ∧ a ∈ part := by
  rw [← numbered_fst, List.getElem?_map, Option.map_eq_some_iff] at ha
  rw [origins, List.getElem?_map, Option.map_eq_some_iff] at hk
  obtain ⟨⟨a', k'⟩, hp, rfl⟩ := ha
  obtain ⟨x, hp', rfl⟩ := hk
  obtain rfl : (a', k') = x := Option.some.inj (hp.symm.trans hp')
  exact mem_numbered (List.mem_of_getElem? hp)

/-! ## Related lists -/

theorem exists_of_mem_right {R : α → β → Prop} {xs : List α} {ys : List β}
    (h : List.Forall₂ R xs ys) {y : β} (hy : y ∈ ys) : ∃ x ∈ xs, R x y := by
  induction h with
  | nil => cases hy
  | @cons x y' _ _ hd _ ih =>
      rcases List.mem_cons.mp hy with rfl | hy
      · exact ⟨x, .head _, hd⟩
      · obtain ⟨x', hx', hR⟩ := ih hy
        exact ⟨x', .tail x hx', hR⟩

theorem exists_forall₂_iff {R : α → β → Prop} {xs : List α} :
    (∃ ys, List.Forall₂ R xs ys) ↔ ∀ x ∈ xs, ∃ y, R x y := by
  induction xs with
  | nil => simp
  | cons x xs ih =>
      rw [List.forall_mem_cons, ← ih]
      constructor
      · rintro ⟨_, hcons⟩
        obtain ⟨y, ys, hx, hxs, rfl⟩ := List.forall₂_cons_left_iff.mp hcons
        exact ⟨⟨y, hx⟩, ys, hxs⟩
      · rintro ⟨⟨y, hx⟩, ys, hxs⟩
        exact ⟨y :: ys, .cons hx hxs⟩

/-- A second relation of two related lists may depend on the left one alone. -/
theorem forall₂_iff_of_left {R Q : α → β → Prop} {P : α → Prop} {xs : List α} {ys : List β}
    (h : List.Forall₂ R xs ys) (hleft : ∀ x y, R x y → (Q x y ↔ P x)) :
    List.Forall₂ Q xs ys ↔ ∀ x ∈ xs, P x := by
  induction h with
  | nil => simp
  | @cons x y xs ys hd _ ih =>
      rw [List.forall₂_cons, List.forall_mem_cons, ih, hleft x y hd]

/-- What is related to a flattened list has parts as well. -/
theorem forall₂_flatten {R : α → β → Prop} {parts : List (List α)} {ys : List β}
    (h : List.Forall₂ R parts.flatten ys) :
    ∃ parts', ys = parts'.flatten ∧ List.Forall₂ (List.Forall₂ R) parts parts' := by
  induction parts generalizing ys with
  | nil =>
      cases h
      exact ⟨[], rfl, .nil⟩
  | cons part parts ih =>
      rw [List.flatten_cons] at h
      have hpart := List.forall₂_take part.length h
      have hrest := List.forall₂_drop part.length h
      rw [List.take_left] at hpart
      rw [List.drop_left] at hrest
      obtain ⟨parts', hys, hall⟩ := ih hrest
      exact ⟨_ :: parts', by rw [List.flatten_cons, ← hys, List.take_append_drop],
        .cons hpart hall⟩

/-! ## The greatest element -/

theorem le_foldl_max {α : Type} [LinearOrder α] (xs : List α) (a : α) :
    a ≤ xs.foldl max a ∧ ∀ x ∈ xs, x ≤ xs.foldl max a := by
  induction xs generalizing a with
  | nil => simp
  | cons x xs ih =>
      obtain ⟨ha, hxs⟩ := ih (max a x)
      rw [List.foldl_cons]
      refine ⟨le_trans (le_max_left a x) ha, ?_⟩
      exact List.forall_mem_cons.mpr ⟨le_trans (le_max_right a x) ha, hxs⟩

end Parts
