import EdgeTts.Lib.Interaction

/-!
# Programs carried out by other programs

A `Handler` carries out each command of one program by a program over other commands, and
`Prog.handle` carries out a whole program so.  A handler may run out of its turns (`none`), and
then so does the whole.

`runs_handle_some` takes such a run apart: there is a run of the program itself, and the
commands of the lower level carry out its events one after the other (`CarriedOut`).  Facts
about the runs of a program hold in this way at every level below it, and an observation of
the lower level that each handler keeps is an observation of the upper one
(`CarriedOut.filterMap_eq`).
-/
namespace Interaction

variable {C C' : Type} {R : C → Type} {R' : C' → Type} {α β : Type}

/-- A program for each command, over the commands of the level below. -/
abbrev Handler (C : Type) (R : C → Type) (C' : Type) (R' : C' → Type) :=
  (c : C) → Prog C' R' (Option (R c))

/-- `t'` carries out the events of `t`, one after the other. -/
inductive CarriedOut (h : Handler C R C' R') : Trace C R → Trace C' R' → Prop
  | nil : CarriedOut h [] []
  | cons {c : C} {r : R c} {t : Trace C R} {t₁ t' : Trace C' R'} (first : (h c).Runs t₁ (some r))
      (rest : CarriedOut h t t') : CarriedOut h (⟨c, r⟩ :: t) (t₁ ++ t')

namespace Prog

/-- The program, with its commands carried out by a handler. -/
def handle (h : Handler C R C' R') : Prog C R α → Prog C' R' (Option α)
  | ret a => ret (some a)
  | call c k => h c >>= fun
      | some r => (k r).handle h
      | none => ret none

end Prog

open Prog

variable {h : Handler C R C' R'}

theorem carriedOut_nil {t' : Trace C' R'} : CarriedOut h [] t' ↔ t' = [] := by
  constructor
  · rintro ⟨⟩
    rfl
  · rintro rfl
    exact .nil

theorem CarriedOut.split {t₁ t₂ : Trace C R} {t' : Trace C' R'}
    (hc : CarriedOut h (t₁ ++ t₂) t') :
    ∃ t₁' t₂', t' = t₁' ++ t₂' ∧ CarriedOut h t₁ t₁' ∧ CarriedOut h t₂ t₂' := by
  induction t₁ generalizing t' with
  | nil => exact ⟨[], t', rfl, .nil, hc⟩
  | cons ev t₁ ih =>
      cases hc with
      | cons first rest =>
          obtain ⟨t₁', t₂', rfl, h₁, h₂⟩ := ih rest
          exact ⟨_, t₂', (List.append_assoc _ _ _).symm, .cons first h₁, h₂⟩

/-- **A run below that ends** carries out a run of the program. -/
theorem runs_handle_some {p : Prog C R α} {t' : Trace C' R'} {a : α} :
    (p.handle h).Runs t' (some a) ↔ ∃ t, p.Runs t a ∧ CarriedOut h t t' := by
  induction p generalizing t' with
  | ret b =>
      constructor
      · rintro ⟨rfl, heq⟩
        exact ⟨[], ⟨rfl, Option.some.inj heq⟩, .nil⟩
      · rintro ⟨_, ⟨rfl, rfl⟩, hc⟩
        exact ⟨carriedOut_nil.mp hc, rfl⟩
  | call c k ih =>
      rw [Prog.handle, runs_bind]
      constructor
      · rintro ⟨t₁, t₂, r | r, rfl, hfirst, hrest⟩
        · cases hrest.2
        · obtain ⟨t, hrun, hc⟩ := (ih r).mp hrest
          exact ⟨⟨c, r⟩ :: t, ⟨r, t, rfl, hrun⟩, .cons hfirst hc⟩
      · rintro ⟨_, ⟨r, t, rfl, hrun⟩, hc⟩
        cases hc with
        | cons first rest => exact ⟨_, _, some r, rfl, first, (ih r).mpr ⟨t, hrun, rest⟩⟩

/-- **A run below that does not end** has not ended in the handler of one command. -/
theorem runs_handle_none {p : Prog C R α} {t' : Trace C' R'} (run : (p.handle h).Runs t' none) :
    ∃ t c t₁ t₂, t' = t₁ ++ t₂ ∧ CarriedOut h t t₁ ∧ (h c).Runs t₂ none := by
  induction p generalizing t' with
  | ret b => cases run.2
  | call c k ih =>
      rw [Prog.handle, runs_bind] at run
      obtain ⟨t₁, t₂, r | r, rfl, hfirst, hrest⟩ := run
      · obtain ⟨rfl, -⟩ := hrest
        rw [List.append_nil]
        exact ⟨[], c, [], t₁, rfl, .nil, hfirst⟩
      · obtain ⟨t, c', u₁, u₂, rfl, hc, hlast⟩ := ih r hrest
        exact ⟨⟨c, r⟩ :: t, c', t₁ ++ u₁, u₂, (List.append_assoc _ _ _).symm, .cons hfirst hc,
          hlast⟩

/-- Handlers that never run out of turns carry out every program to its end. -/
theorem runs_handle_total (total : ∀ c t, ¬ (h c).Runs t none) {p : Prog C R α} {t' : Trace C' R'} :
    ¬ (p.handle h).Runs t' none := by
  induction p generalizing t' with
  | ret b =>
      rintro ⟨-, heq⟩
      cases heq
  | call c k ih =>
      rw [Prog.handle, runs_bind]
      rintro ⟨t₁, t₂, r | r, rfl, hfirst, hrest⟩
      · exact total c t₁ hfirst
      · exact ih r hrest

/-- What holds of the runs of every handler, and of one run after another, holds of the run of
a program, also where it is not over. -/
theorem handle_closed {Q : Trace C' R' → Prop} (nil : Q [])
    (append : ∀ {t₁ t₂}, Q t₁ → Q t₂ → Q (t₁ ++ t₂))
    (each : ∀ c t r, (h c).Runs t r → Q t) {p : Prog C R α} {t' : Trace C' R'} {r : Option α}
    (run : (p.handle h).Runs t' r) : Q t' := by
  induction p generalizing t' with
  | ret b =>
      obtain ⟨rfl, -⟩ := run
      exact nil
  | call c k ih =>
      rw [Prog.handle] at run
      obtain ⟨t₁, t₂, r | r, rfl, hfirst, hrest⟩ := runs_bind.mp run
      · obtain ⟨rfl, -⟩ := hrest
        rw [List.append_nil]
        exact each c t₁ none hfirst
      · exact append (each c t₁ (some r) hfirst) (ih r hrest)

/-- What holds of the runs in which a handler answers, and of one run after another, holds of what
carries out a run. -/
theorem CarriedOut.closed {Q : Trace C' R' → Prop} (nil : Q [])
    (append : ∀ {t₁ t₂}, Q t₁ → Q t₂ → Q (t₁ ++ t₂))
    (each : ∀ c r t, (h c).Runs t (some r) → Q t) {t : Trace C R} {t' : Trace C' R'}
    (hc : CarriedOut h t t') : Q t' := by
  induction hc with
  | nil => exact nil
  | cons first _ ih => exact append (each _ _ _ first) ih

/-- **An event below** belongs to one event of the program, with what was before it and after it
carried out before and after. -/
theorem CarriedOut.around {t : Trace C R} {before after : Trace C' R'} {ev : Event C' R'}
    (hc : CarriedOut h t (before ++ ev :: after)) :
    ∃ (t₁ t₂ : Trace C R) (c : C) (r : R c) (before₁ before₂ after₁ after₂ : Trace C' R'),
      t = t₁ ++ ⟨c, r⟩ :: t₂ ∧ before = before₁ ++ before₂ ∧ after = after₁ ++ after₂ ∧
      CarriedOut h t₁ before₁ ∧ (h c).Runs (before₂ ++ ev :: after₁) (some r) ∧
      CarriedOut h t₂ after₂ := by
  generalize hall : before ++ ev :: after = t' at hc
  induction hc generalizing before with
  | nil => simp at hall
  | @cons c r t t₁ t' first rest ih =>
      rcases append_eq_append_cons hall.symm with ⟨x, rfl, hx⟩ | ⟨x, rfl, rfl⟩
      · obtain ⟨s₁, s₂, c', r', b₁, b₂, a₁, a₂, rfl, rfl, rfl, h₁, hrun, h₂⟩ := ih hx.symm
        exact ⟨⟨c, r⟩ :: s₁, s₂, c', r', t₁ ++ b₁, b₂, a₁, a₂, rfl, by simp, rfl,
          .cons first h₁, hrun, h₂⟩
      · exact ⟨[], t, c, r, [], before, x, t', rfl, rfl, rfl, .nil, first, rest⟩

/-- Each event is carried out somewhere in the run. -/
theorem CarriedOut.run_of_mem {t : Trace C R} {t' : Trace C' R'} {c : C} {r : R c}
    (hc : CarriedOut h t t') (hev : ⟨c, r⟩ ∈ t) :
    ∃ t₁, (h c).Runs t₁ (some r) ∧ t₁ <:+: t' := by
  induction hc with
  | nil => cases hev
  | @cons c' r' t t₁ t' first rest ih =>
      rcases List.mem_cons.mp hev with heq | hev
      · cases heq
        exact ⟨t₁, first, List.infix_append' [] t₁ t'⟩
      · obtain ⟨t₂, hrun, hpart⟩ := ih hev
        exact ⟨t₂, hrun, hpart.trans (List.suffix_append t₁ t').isInfix⟩

/-- What holds of every event that a handler can produce holds of the whole run. -/
theorem CarriedOut.forall_mem {P : Event C' R' → Prop} {t : Trace C R} {t' : Trace C' R'}
    (hc : CarriedOut h t t')
    (each : ∀ c r t₁, (h c).Runs t₁ (some r) → (⟨c, r⟩ : Event C R) ∈ t → ∀ ev ∈ t₁, P ev) :
    ∀ ev ∈ t', P ev := by
  induction hc with
  | nil => exact fun ev hev => absurd hev List.not_mem_nil
  | cons first rest ih =>
      refine List.forall_mem_append.mpr ⟨each _ _ _ first (.head _), ih fun c r t₁ hrun hmem => ?_⟩
      exact each c r t₁ hrun (.tail _ hmem)

/-- **An observation that every handler keeps** is the same at both levels. -/
theorem CarriedOut.filterMap_eq {γ : Type} {f : Event C R → Option γ} {f' : Event C' R' → Option γ}
    {t : Trace C R} {t' : Trace C' R'} (hc : CarriedOut h t t')
    (each : ∀ c r t₁, (h c).Runs t₁ (some r) → t₁.filterMap f' = (f ⟨c, r⟩).toList) :
    t'.filterMap f' = t.filterMap f := by
  induction hc with
  | nil => rfl
  | @cons c r t t₁ t' first rest ih =>
      rw [List.filterMap_append, ih, each c r t₁ first]
      cases hf : f ⟨c, r⟩ <;> simp [hf]

end Interaction
