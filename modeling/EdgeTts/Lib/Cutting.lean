import Mathlib.Algebra.Order.Ring.Int
import Mathlib.Data.List.Infix

/-!
# Cutting a list greedily

A list is to be cut into pieces of at most `n` elements, and a property `C` of what is left
says where a cut may be.  The greedy method takes the longest piece that is allowed.  Since
`C` looks only at what follows a cut, the greedy method is never behind another cutting, so
no cutting has fewer pieces (`Greedy.length_le`).
-/
namespace Cutting

variable {α : Type} {C : List α → Prop} {n : Nat}

/-- The pieces have at most `n` elements, and a cut may be after each. -/
def Allowed (C : List α → Prop) (n : Nat) : List (List α) → Prop
  | [] => True
  | piece :: pieces => piece.length ≤ n ∧ C pieces.flatten ∧ Allowed C n pieces

/-- The pieces that the greedy method takes: no piece could be longer. -/
inductive Greedy (C : List α → Prop) (n : Nat) : List α → List (List α) → Prop
  | nil : Greedy C n [] []
  | cons {piece l : List α} {pieces : List (List α)} (nonempty : piece ≠ [])
      (longest : ∀ a b, piece ++ l = a ++ b → a.length ≤ n → C b → a.length ≤ piece.length)
      (rest : Greedy C n l pieces) : Greedy C n (piece ++ l) (piece :: pieces)

/-- **The greedy method stays ahead.**  When it has no more left than what another cutting
goes on with, it takes no more pieces. -/
theorem Greedy.length_le_of_suffix {l : List α} {pieces others : List (List α)}
    (h : Greedy C n l pieces) (hothers : Allowed C n others) (hl : l <:+ others.flatten) :
    pieces.length ≤ others.length := by
  induction others generalizing l pieces with
  | nil =>
      obtain rfl := List.suffix_nil.mp hl
      generalize hnil : ([] : List α) = l at h
      cases h with
      | nil => exact Nat.le_refl 0
      | cons nonempty _ _ => exact absurd (List.append_eq_nil_iff.mp hnil.symm).1 nonempty
  | cons q others ih =>
      obtain ⟨hq, hcut, hothers⟩ := hothers
      rw [List.flatten_cons] at hl
      rcases List.suffix_or_suffix_of_suffix hl (List.suffix_append q _) with hahead | hbehind
      · exact Nat.le_succ_of_le (ih h hothers hahead)
      · obtain ⟨y, hy⟩ := hbehind
        have hylen : y.length ≤ q.length := by
          have := hl.length_le
          rw [← hy, List.length_append, List.length_append] at this
          omega
        cases h with
        | nil => exact Nat.zero_le _
        | @cons piece rest pieces nonempty longest h =>
            -- `y` is allowed here, so the piece taken reaches at least as far as `q` does
            have hle := longest y _ hy.symm (Nat.le_trans hylen hq) hcut
            have hrest : rest <:+ others.flatten := by
              refine List.suffix_of_suffix_length_le (List.suffix_append piece rest) ⟨y, hy⟩ ?_
              have := congrArg List.length hy
              rw [List.length_append, List.length_append] at this
              omega
            exact Nat.succ_le_succ (ih h hothers hrest)

/-- **The greedy method takes the fewest pieces.** -/
theorem Greedy.length_le {l : List α} {pieces others : List (List α)} (h : Greedy C n l pieces)
    (hothers : Allowed C n others) (hl : others.flatten = l) : pieces.length ≤ others.length :=
  h.length_le_of_suffix hothers (hl ▸ List.suffix_refl _)

end Cutting
