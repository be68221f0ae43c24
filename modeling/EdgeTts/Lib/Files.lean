import Mathlib.Data.List.Basic
import Mathlib.Logic.Function.Basic

/-!
# Files that are written and removed

A path names a file, and two paths may name the same one.  `Step` says what one action may do
to the contents of the files, and `After` what a list of actions may leave: an action changes
no other file (`After.frame`), a file that is not removed goes on to exist (`After.persists`), and
it holds what was written last (`After.written`).
-/
namespace Files

variable {P F α : Type}

/-- An action on a whole file, with what it reports. -/
inductive Action (P α : Type) where
  | write (path : P) (contents : α) (acknowledged : Bool)
  | remove (path : P) (removed : Bool)
  deriving DecidableEq, Repr

def Action.path : Action P α → P
  | .write path _ _ => path
  | .remove path _ => path

/-- What the files hold; `none` is a file that does not exist. -/
abbrev Disk (F α : Type) := F → Option α

/-- What an action may do to its file. -/
def Action.Effect : Action P α → Option α → Option α → Prop
  | .write _ contents true, _, after => after = some contents
  -- the file may be left as it is, created, or cut short
  | .write _ _ false, before, after => before ≠ none → after ≠ none
  | .remove _ true, before, after => before ≠ none ∧ after = none
  | .remove _ false, before, after => after = before

/-- What an action may do to the files. -/
structure Step (file : P → F) (a : Action P α) (disk disk' : Disk F α) : Prop where
  effect : a.Effect (disk (file a.path)) (disk' (file a.path))
  frame : ∀ f, f ≠ file a.path → disk' f = disk f

/-- What actions may leave, one after the other. -/
inductive After (file : P → F) : List (Action P α) → Disk F α → Disk F α → Prop
  | nil (disk : Disk F α) : After file [] disk disk
  | cons {a : Action P α} {actions : List (Action P α)} {disk disk₁ disk' : Disk F α}
      (step : Step file a disk disk₁) (rest : After file actions disk₁ disk') :
      After file (a :: actions) disk disk'

section
variable {file : P → F} {actions actions' : List (Action P α)} {disk disk' : Disk F α}

@[simp] theorem after_nil : After file ([] : List (Action P α)) disk disk' ↔ disk' = disk := by
  constructor
  · rintro ⟨⟩
    rfl
  · rintro rfl
    exact .nil _

theorem after_cons {a : Action P α} :
    After file (a :: actions) disk disk' ↔
      ∃ disk₁, Step file a disk disk₁ ∧ After file actions disk₁ disk' := by
  constructor
  · rintro (_ | ⟨step, rest⟩)
    exact ⟨_, step, rest⟩
  · rintro ⟨disk₁, step, rest⟩
    exact .cons step rest

theorem after_append :
    After file (actions ++ actions') disk disk' ↔
      ∃ disk₁, After file actions disk disk₁ ∧ After file actions' disk₁ disk' := by
  induction actions generalizing disk with
  | nil => simp
  | cons a actions ih =>
      rw [List.cons_append, after_cons]
      constructor
      · rintro ⟨disk₁, step, rest⟩
        obtain ⟨disk₂, hfirst, hsecond⟩ := ih.mp rest
        exact ⟨disk₂, .cons step hfirst, hsecond⟩
      · rintro ⟨disk₂, hfirst, hsecond⟩
        obtain ⟨disk₁, step, rest⟩ := after_cons.mp hfirst
        exact ⟨disk₁, step, ih.mpr ⟨disk₂, rest, hsecond⟩⟩

/-- **Other files are left alone.** -/
theorem After.frame {f : F} (after : After file actions disk disk')
    (other : ∀ a ∈ actions, file a.path ≠ f) : disk' f = disk f := by
  induction after with
  | nil => rfl
  | cons step rest ih =>
      obtain ⟨ha, hrest⟩ := List.forall_mem_cons.mp other
      rw [ih hrest]
      exact step.frame f ha.symm

/-- **A file that is not removed goes on to exist.** -/
theorem After.persists {f : F} (after : After file actions disk disk')
    (kept : ∀ path removed, Action.remove path removed ∈ actions → file path ≠ f)
    (h : disk f ≠ none) : disk' f ≠ none := by
  induction after with
  | nil => exact h
  | @cons a actions disk disk₁ disk' step rest ih =>
      apply ih
      · intro path removed hmem
        exact kept path removed (List.mem_cons_of_mem a hmem)
      by_cases hf : f = file a.path
      · have heffect := step.effect
        rw [← hf] at heffect
        cases a with
        | write path contents acknowledged =>
            cases acknowledged with
            | true =>
                rw [show disk₁ f = some contents from heffect]
                exact Option.some_ne_none contents
            | false => exact heffect h
        | remove path removed => exact absurd hf.symm (kept path removed List.mem_cons_self)
      · rw [step.frame f hf]
        exact h

/-- **A file holds what was written last**, where that was acknowledged. -/
theorem After.written (actions : List (Action P α)) {path : P} {contents : α}
    (after : After file (actions ++ .write path contents true :: actions') disk disk')
    (last : ∀ a ∈ actions', file a.path ≠ file path) : disk' (file path) = some contents := by
  obtain ⟨disk₁, -, hsecond⟩ := after_append.mp after
  obtain ⟨disk₂, step, rest⟩ := after_cons.mp hsecond
  rw [rest.frame last]
  exact step.effect

/-- What was written exists as long as it is not removed. -/
theorem After.persists_of_written {path : P} {contents : α}
    (after : After file actions disk disk') (h : .write path contents true ∈ actions)
    (kept : ∀ path' removed, Action.remove path' removed ∈ actions → file path' ≠ file path) :
    disk' (file path) ≠ none := by
  obtain ⟨before, rest, rfl⟩ := List.append_of_mem h
  obtain ⟨disk₁, -, hsecond⟩ := after_append.mp after
  obtain ⟨disk₂, step, hrest⟩ := after_cons.mp hsecond
  refine hrest.persists (fun path' removed hmem => ?_) ?_
  · exact kept path' removed (List.mem_append_right before (List.mem_cons_of_mem _ hmem))
  · rw [show disk₂ (file path) = some contents from step.effect]
    exact Option.some_ne_none contents

end

/-! ## Steps of one action -/

section
variable [DecidableEq F] {file : P → F} {disk : Disk F α}

theorem step_write (path : P) (contents : α) (acknowledged : Bool) :
    Step file (.write path contents acknowledged) disk
      (Function.update disk (file path) (some contents)) := by
  refine ⟨?_, fun f hf => Function.update_of_ne hf _ _⟩
  rw [Action.path, Function.update_self]
  cases acknowledged with
  | true => rfl
  | false => exact fun _ => Option.some_ne_none contents

theorem step_remove {path : P} (h : disk (file path) ≠ none) :
    Step file (.remove path true) disk (Function.update disk (file path) none) :=
  ⟨⟨h, Function.update_self _ _ _⟩, fun _ hf => Function.update_of_ne hf _ _⟩

omit [DecidableEq F] in
theorem step_not_removed (path : P) : Step file (.remove path false) disk disk :=
  ⟨rfl, fun _ _ => rfl⟩

end
end Files
