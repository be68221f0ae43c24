import Mathlib.Data.List.Basic
import Mathlib.Order.Basic

/-!
# Text in columns

A line shows its cells in columns (`Shows`) when every cell stands in full at the offset of its
column, only blanks stand between two cells, at least `gap` of them, and the line ends with its
last cell.  `Shows.cons` puts a column in front: a cell that is padded to the width of its
column, and the gap.
-/
namespace Columns

variable {α : Type} {blank : α} {gap : Nat}

/-- The cells stand at the offsets of their columns. -/
structure Shows (blank : α) (gap : Nat) (offset : Nat → Nat) (cells : List (List α))
    (text : List α) : Prop where
  stands : ∀ c cell, cells[c]? = some cell → cell <+: text.drop (offset c)
  apart : ∀ c cell, cells[c]? = some cell → c + 1 < cells.length →
    offset c + cell.length + gap ≤ offset (c + 1)
  blanks : ∀ c cell, cells[c]? = some cell → c + 1 < cells.length →
    ∀ i, offset c + cell.length ≤ i → i < offset (c + 1) → text[i]? = some blank
  ends : ∀ c cell, cells[c]? = some cell → c + 1 = cells.length →
    text.length = offset c + cell.length

/-- Where columns of these widths start. -/
def offset (gap : Nat) (width : Nat → Nat) : Nat → Nat
  | 0 => 0
  | c + 1 => width 0 + gap + offset gap (fun j => width (j + 1)) c

theorem shows_singleton (width : Nat → Nat) (cell : List α) :
    Shows blank gap (offset gap width) [cell] cell where
  stands c cell' h := by
    obtain ⟨rfl, rfl⟩ : c = 0 ∧ cell = cell' := by
      cases c with
      | zero => exact ⟨rfl, Option.some.inj h⟩
      | succ c => cases h
    exact List.prefix_rfl
  apart c cell' h hc := by
    rw [List.length_singleton] at hc
    omega
  blanks c cell' h hc := by
    rw [List.length_singleton] at hc
    omega
  ends c cell' h hc := by
    obtain ⟨rfl, rfl⟩ : c = 0 ∧ cell = cell' := by
      cases c with
      | zero => exact ⟨rfl, Option.some.inj h⟩
      | succ c => cases h
    rw [offset, Nat.zero_add]

/-- **A column in front**: a cell that is padded to its width, and the gap. -/
theorem Shows.cons {width : Nat → Nat} {cells : List (List α)} {line cell : List α}
    (h : Shows blank gap (offset gap fun j => width (j + 1)) cells line) (hne : cells ≠ [])
    (fits : cell.length ≤ width 0) :
    Shows blank gap (offset gap width) (cell :: cells)
      (cell ++ List.replicate (width 0 - cell.length + gap) blank ++ line) := by
  have hlength : (cell ++ List.replicate (width 0 - cell.length + gap) blank).length =
      width 0 + gap := by
    rw [List.length_append, List.length_replicate]
    omega
  constructor
  · intro c cell' hcell
    cases c with
    | zero =>
        obtain rfl := Option.some.inj hcell
        rw [offset, List.drop_zero, List.append_assoc]
        exact List.prefix_append _ _
    | succ c =>
        rw [offset, ← hlength, List.drop_length_add_append]
        exact h.stands c cell' hcell
  · intro c cell' hcell hc
    cases c with
    | zero =>
        obtain rfl := Option.some.inj hcell
        rw [offset, offset]
        omega
    | succ c =>
        have := h.apart c cell' hcell (by simpa using hc)
        rw [offset, offset]
        omega
  · intro c cell' hcell hc i hlow hhigh
    cases c with
    | zero =>
        obtain rfl := Option.some.inj hcell
        simp only [offset] at hlow hhigh
        rw [List.getElem?_append_left (by omega), List.getElem?_append_right (by omega),
          List.getElem?_replicate, if_pos (by omega)]
    | succ c =>
        rw [offset] at hlow hhigh
        rw [List.getElem?_append_right (by omega), hlength]
        exact h.blanks c cell' hcell (by simpa using hc) _ (by omega) (by omega)
  · intro c cell' hcell hc
    cases c with
    | zero => exact absurd (List.length_eq_zero_iff.mp (Nat.succ.inj hc).symm) hne
    | succ c =>
        rw [List.length_append, hlength, offset, h.ends c cell' hcell (by simpa using hc)]
        omega

/-- A line that ends with an empty cell ends with a blank. -/
theorem Shows.getLast?_of_nil {off : Nat → Nat} {cells : List (List α)} {line : List α} {c : Nat}
    (h : Shows blank gap off cells line) (hgap : 0 < gap) (hlast : c + 2 = cells.length)
    (hcell : cells[c + 1]? = some []) : line.getLast? = some blank := by
  obtain ⟨cell, hprev⟩ : ∃ cell, cells[c]? = some cell :=
    ⟨_, List.getElem?_eq_getElem (by omega)⟩
  have hlength := h.ends (c + 1) [] hcell hlast
  have hapart := h.apart c cell hprev (by omega)
  rw [List.length_nil] at hlength
  rw [List.getLast?_eq_getElem?]
  exact h.blanks c cell hprev (by omega) _ (by omega) (by omega)

/-- A line ends as its last cell, where that is not empty. -/
theorem Shows.getLast?_of_ne_nil {off : Nat → Nat} {cells : List (List α)} {line cell : List α}
    {c : Nat} (h : Shows blank gap off cells line) (hlast : c + 1 = cells.length)
    (hcell : cells[c]? = some cell) (hne : cell ≠ []) : line.getLast? = cell.getLast? := by
  obtain ⟨rest, hrest⟩ := h.stands c cell hcell
  have hlength := h.ends c cell hcell hlast
  have hdrop := congrArg List.length hrest
  rw [List.length_append, List.length_drop] at hdrop
  obtain rfl : rest = [] := List.length_eq_zero_iff.mp (by omega)
  rw [List.append_nil] at hrest
  have hpos := List.length_pos_iff.mpr hne
  rw [hrest, List.getLast?_drop, if_neg (by omega)]

end Columns
