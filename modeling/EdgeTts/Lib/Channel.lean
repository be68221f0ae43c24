import Mathlib.Data.List.Infix

/-!
# A channel between two parties

A queue that one party writes at its end and the other reads at its front, and that a reset
empties.  What has been read since the last reset and what is still in the queue are, in
this order, what has been written since (`Run.pushed_eq`); reading is a prefix of writing.
-/
namespace Channel

variable {α : Type}

/-- What happens at a channel. -/
inductive Op (α : Type) where
  | reset
  | push (a : α)
  | pop (a : α)

/-- The queue goes through these operations, from one content to another. -/
inductive Run : List α → List (Op α) → List α → Prop
  | nil (q : List α) : Run q [] q
  | reset {q ops q'} (rest : Run [] ops q') : Run q (.reset :: ops) q'
  | push {q a ops q'} (rest : Run (q ++ [a]) ops q') : Run q (.push a :: ops) q'
  | pop {q a ops q'} (rest : Run q ops q') : Run (a :: q) (.pop a :: ops) q'

theorem Run.append {q q' q'' : List α} {ops ops' : List (Op α)} (first : Run q ops q')
    (second : Run q' ops' q'') : Run q (ops ++ ops') q'' := by
  induction first with
  | nil => exact second
  | reset _ ih => exact .reset (ih second)
  | push _ ih => exact .push (ih second)
  | pop _ ih => exact .pop (ih second)

theorem run_pushes (q items : List α) : Run q (items.map .push) (q ++ items) := by
  induction items generalizing q with
  | nil =>
      rw [List.append_nil]
      exact .nil q
  | cons a items ih =>
      have h := ih (q ++ [a])
      rw [List.append_assoc] at h
      exact .push h

/-- What has been written and what has been read since the last reset. -/
structure Tally (α : Type) where
  pushed : List α := []
  popped : List α := []

/-- The count goes on with one operation. -/
def Tally.record (tally : Tally α) : Op α → Tally α
  | .reset => {}
  | .push a => { tally with pushed := tally.pushed ++ [a] }
  | .pop a => { tally with popped := tally.popped ++ [a] }

def tally (ops : List (Op α)) : Tally α := ops.foldl Tally.record {}

/-- What has been written since the last reset. -/
def pushed (ops : List (Op α)) : List α := (tally ops).pushed

/-- What has been read since the last reset. -/
def popped (ops : List (Op α)) : List α := (tally ops).popped

theorem Run.foldl_record {q q' : List α} {ops : List (Op α)} (run : Run q ops q')
    {t : Tally α} (ht : t.pushed = t.popped ++ q) :
    (ops.foldl Tally.record t).pushed = (ops.foldl Tally.record t).popped ++ q' := by
  induction run generalizing t with
  | nil => exact ht
  | reset _ ih => exact ih rfl
  | push _ ih =>
      refine ih ?_
      simp only [Tally.record, ht, List.append_assoc]
  | pop _ ih =>
      refine ih ?_
      simp only [Tally.record, ht, List.append_assoc, List.singleton_append]

/-- **Nothing is lost, duplicated or reordered.** -/
theorem Run.pushed_eq {q : List α} {ops : List (Op α)} (run : Run [] ops q) :
    pushed ops = popped ops ++ q :=
  run.foldl_record rfl

/-- What has been read is a prefix of what has been written. -/
theorem Run.popped_prefix {q : List α} {ops : List (Op α)} (run : Run [] ops q) :
    popped ops <+: pushed ops :=
  ⟨q, run.pushed_eq.symm⟩

end Channel
