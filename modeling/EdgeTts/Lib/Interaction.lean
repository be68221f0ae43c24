import Mathlib.Data.List.Basic

/-!
# Programs that talk to an environment

A `Prog` issues commands and goes on with the answers.  Nothing is said about
where the answers come from: a **run** of the program is any sequence of commands
and answers it can go through, with its result (`Prog.Runs`), so a statement about
every run is a statement about every environment, adaptive ones included.

A C++ `while (true)` loop need not end, so `loop` takes the number of turns it
may still make, and its result is `none` when a run is still inside the loop
after that many turns.  Every finite observation of the loop is such a run.

`runs_bind` splits a run at a semicolon, in one way only (`Runs.unique`), and `runs_loop_succ`
after a turn of a loop; `Issues` says which commands a program can issue at all.  An
`Environment` with a state answers a program in one way (`runIn`).
-/
namespace Interaction

variable {C : Type} {R : C → Type} {α β σ : Type}

/-- A program over the commands `C`, where `c` is answered by an `R c`. -/
inductive Prog (C : Type) (R : C → Type) (α : Type) where
  | ret (a : α)
  | call (c : C) (k : R c → Prog C R α)

/-- A command together with its answer. -/
abbrev Event (C : Type) (R : C → Type) := Sigma R

/-- What a program has done so far, in order. -/
abbrev Trace (C : Type) (R : C → Type) := List (Event C R)

namespace Prog

protected def bind : Prog C R α → (α → Prog C R β) → Prog C R β
  | ret a, f => f a
  | call c k, f => call c fun r => (k r).bind f

instance : Monad (Prog C R) where
  pure := ret
  bind := Prog.bind

instance : LawfulMonad (Prog C R) :=
  LawfulMonad.mk' (Prog C R)
    (by
      intro α p
      induction p with
      | ret a => rfl
      | call c k ih => exact congrArg (call c) (funext ih))
    (by
      intro α β a f
      rfl)
    (by
      intro α β γ p f g
      induction p with
      | ret a => rfl
      | call c k ih => exact congrArg (call c) (funext ih))

/-- Issue one command. -/
def perform (c : C) : Prog C R (R c) := call c ret

/-- The program can go through the trace `t` and end with the result `b`. -/
def Runs : Prog C R α → Trace C R → α → Prop
  | ret a, t, b => t = [] ∧ a = b
  | call c k, t, b => ∃ r t', t = ⟨c, r⟩ :: t' ∧ (k r).Runs t' b

@[simp] theorem runs_ret {a b : α} {t : Trace C R} :
    (ret a : Prog C R α).Runs t b ↔ t = [] ∧ a = b := Iff.rfl

@[simp] theorem runs_pure {a b : α} {t : Trace C R} :
    (pure a : Prog C R α).Runs t b ↔ t = [] ∧ a = b := Iff.rfl

@[simp] theorem runs_perform {c : C} {t : Trace C R} {r : R c} :
    (perform c : Prog C R (R c)).Runs t r ↔ t = [⟨c, r⟩] := by
  constructor
  · rintro ⟨r', t', rfl, rfl, rfl⟩
    rfl
  · rintro rfl
    exact ⟨r, [], rfl, rfl, rfl⟩

/-- A command that is issued on a condition. -/
theorem runs_perform_if {p : Prop} [Decidable p] {c : C} {t : Trace C R} {r₀ r : R c}
    (h : (if p then perform c else pure r₀ : Prog C R (R c)).Runs t r) :
    t = if p then [⟨c, r⟩] else [] := by
  by_cases hp : p
  · rw [if_pos hp] at h ⊢
    exact runs_perform.mp h
  · rw [if_neg hp] at h ⊢
    exact h.1

/-- **A run of two programs in sequence** is a run of the first and then one of
the second. -/
theorem runs_bind {p : Prog C R α} {f : α → Prog C R β} {t : Trace C R} {b : β} :
    (p >>= f).Runs t b ↔ ∃ t₁ t₂ a, t = t₁ ++ t₂ ∧ p.Runs t₁ a ∧ (f a).Runs t₂ b := by
  induction p generalizing t with
  | ret a =>
      constructor
      · intro h
        exact ⟨[], t, a, rfl, ⟨rfl, rfl⟩, h⟩
      · rintro ⟨_, t₂, _, rfl, ⟨rfl, rfl⟩, h⟩
        exact h
  | call c k ih =>
      constructor
      · rintro ⟨r, t', rfl, h⟩
        obtain ⟨t₁, t₂, a, rfl, hp, hf⟩ := (ih r).mp h
        exact ⟨⟨c, r⟩ :: t₁, t₂, a, rfl, ⟨r, t₁, rfl, hp⟩, hf⟩
      · rintro ⟨_, t₂, a, rfl, ⟨r, t₁, rfl, hp⟩, hf⟩
        exact ⟨r, t₁ ++ t₂, rfl, (ih r).mpr ⟨t₁, t₂, a, rfl, hp, hf⟩⟩

/-- A command, and then the rest. -/
@[simp] theorem runs_perform_bind {c : C} {f : R c → Prog C R β} {t : Trace C R} {b : β} :
    (perform c >>= f).Runs t b ↔ ∃ r t', t = ⟨c, r⟩ :: t' ∧ (f r).Runs t' b := Iff.rfl

/-- A command, and then a result made of its reply. -/
theorem runs_perform_return {c : C} {f : R c → β} {t : Trace C R} {b : β} :
    (do
      let r ← perform c
      return f r : Prog C R β).Runs t b ↔ ∃ r, t = [⟨c, r⟩] ∧ f r = b := by
  rw [runs_perform_bind]
  constructor
  · rintro ⟨r, _, rfl, rfl, rfl⟩
    exact ⟨r, rfl, rfl⟩
  · rintro ⟨r, rfl, rfl⟩
    exact ⟨r, [], rfl, rfl, rfl⟩

/-- **A trace has at most one run of a program at its start.** -/
theorem Runs.unique {p : Prog C R α} {t₁ t₁' t₂ t₂' : Trace C R} {a a' : α}
    (h : p.Runs t₁ a) (h' : p.Runs t₁' a') (heq : t₁ ++ t₂ = t₁' ++ t₂') :
    t₁ = t₁' ∧ a = a' ∧ t₂ = t₂' := by
  induction p generalizing t₁ t₁' with
  | ret b =>
      obtain ⟨rfl, rfl⟩ := h
      obtain ⟨rfl, rfl⟩ := h'
      exact ⟨rfl, rfl, heq⟩
  | call c k ih =>
      obtain ⟨r, t, rfl, h⟩ := h
      obtain ⟨r', t', rfl, h'⟩ := h'
      obtain ⟨hev, hrest⟩ := List.cons.inj heq
      cases hev
      obtain ⟨rfl, rfl, rfl⟩ := ih r h h' hrest
      exact ⟨rfl, rfl, rfl⟩

/-- The run in which the command issued at time `n` is answered by `answer n`. -/
def exec (answer : Nat → (c : C) → R c) : Prog C R α → Nat → Trace C R × α
  | ret a, _ => ([], a)
  | call c k, n =>
      let rest := (k (answer n c)).exec answer (n + 1)
      (⟨c, answer n c⟩ :: rest.1, rest.2)

theorem runs_exec (answer : Nat → (c : C) → R c) (p : Prog C R α) (n : Nat) :
    p.Runs (p.exec answer n).1 (p.exec answer n).2 := by
  induction p generalizing n with
  | ret a => exact ⟨rfl, rfl⟩
  | call c k ih => exact ⟨answer n c, _, rfl, ih _ (n + 1)⟩

/-- The same program over the commands of a larger environment. -/
def mapCommands {C' : Type} {R' : C' → Type} (f : C → C') (g : ∀ c, R' (f c) → R c) :
    Prog C R α → Prog C' R' α
  | ret a => ret a
  | call c k => call (f c) fun r => (k (g c r)).mapCommands f g

theorem mapCommands_bind {C' : Type} {R' : C' → Type} (f : C → C') (g : ∀ c, R' (f c) → R c)
    (p : Prog C R α) (q : α → Prog C R β) :
    (p >>= q).mapCommands f g = p.mapCommands f g >>= fun a => (q a).mapCommands f g := by
  induction p with
  | ret a => rfl
  | call c k ih => exact congrArg (call (f c)) (funext fun r => ih (g c r))

/-- **What it does there** is what it can do in its own environment. -/
theorem runs_mapCommands {C' : Type} {R' : C' → Type} {f : C → C'} {g : ∀ c, R' (f c) → R c}
    {p : Prog C R α} {t : Trace C' R'} {a : α} :
    (p.mapCommands f g).Runs t a ↔ ∃ u : List ((c : C) × R' (f c)),
      t = u.map (fun ev => ⟨f ev.1, ev.2⟩) ∧ p.Runs (u.map fun ev => ⟨ev.1, g ev.1 ev.2⟩) a := by
  induction p generalizing t with
  | ret b =>
      constructor
      · rintro ⟨rfl, rfl⟩
        exact ⟨[], rfl, rfl, rfl⟩
      · rintro ⟨u, rfl, hu, rfl⟩
        obtain rfl := List.map_eq_nil_iff.mp hu
        exact ⟨rfl, rfl⟩
  | call c k ih =>
      constructor
      · rintro ⟨r, t, rfl, h⟩
        obtain ⟨u, rfl, hrun⟩ := (ih (g c r)).mp h
        exact ⟨⟨c, r⟩ :: u, rfl, g c r, _, rfl, hrun⟩
      · rintro ⟨u, rfl, r, t, heq, hrun⟩
        cases u with
        | nil => cases heq
        | cons ev u =>
            obtain ⟨c', r'⟩ := ev
            cases heq
            exact ⟨r', _, rfl, (ih _).mpr ⟨u, rfl, hrun⟩⟩

/-- At most `fuel` turns of a loop: a turn ends with the next state (`inl`) or
leaves the loop (`inr`). -/
def loop (body : σ → Prog C R (σ ⊕ α)) : Nat → σ → Prog C R (Option α)
  | 0, _ => ret none
  | fuel + 1, s => do
      match ← body s with
      | .inl s' => loop body fuel s'
      | .inr a => return some a

/-- **A run of a loop** is over at once, or starts with a turn. -/
theorem runs_loop_succ {body : σ → Prog C R (σ ⊕ α)} {fuel : Nat} {s : σ} {t : Trace C R}
    {r : Option α} :
    (loop body (fuel + 1) s).Runs t r ↔
      (∃ t₁ t₂ s', t = t₁ ++ t₂ ∧ (body s).Runs t₁ (.inl s') ∧ (loop body fuel s').Runs t₂ r) ∨
      ∃ a, (body s).Runs t (.inr a) ∧ r = some a := by
  rw [loop, runs_bind]
  constructor
  · rintro ⟨t₁, t₂, s' | a, rfl, h₁, h₂⟩
    · exact .inl ⟨t₁, t₂, s', rfl, h₁, h₂⟩
    · obtain ⟨rfl, rfl⟩ := h₂
      exact .inr ⟨a, by rwa [List.append_nil], rfl⟩
  · rintro (⟨t₁, t₂, s', rfl, h₁, h₂⟩ | ⟨a, h, rfl⟩)
    · exact ⟨t₁, t₂, .inl s', rfl, h₁, h₂⟩
    · exact ⟨t, [], .inr a, (List.append_nil t).symm, h, rfl, rfl⟩

end Prog

/-! ## Which commands a program can issue -/

namespace Prog
variable {P : C → Prop}

/-- Every command that the program can issue satisfies `P`. -/
def Issues (P : C → Prop) : Prog C R α → Prop
  | ret _ => True
  | call c k => P c ∧ ∀ r, (k r).Issues P

@[simp] theorem issues_pure {a : α} : (pure a : Prog C R α).Issues P := trivial

@[simp] theorem issues_perform {c : C} : (perform c : Prog C R (R c)).Issues P ↔ P c :=
  ⟨fun h => h.1, fun h => ⟨h, fun _ => trivial⟩⟩

theorem Issues.bind {p : Prog C R α} {f : α → Prog C R β} (hp : p.Issues P)
    (hf : ∀ a, (f a).Issues P) : (p >>= f).Issues P := by
  induction p with
  | ret a => exact hf a
  | call c k ih => exact ⟨hp.1, fun r => ih r (hp.2 r)⟩

theorem Issues.mono {P Q : C → Prop} {p : Prog C R α} (hp : p.Issues P) (h : ∀ c, P c → Q c) :
    p.Issues Q := by
  induction p with
  | ret a => trivial
  | call c k ih => exact ⟨h c hp.1, fun r => ih r (hp.2 r)⟩

theorem Issues.of_runs {p : Prog C R α} (hp : p.Issues P) {t : Trace C R} {a : α}
    (h : p.Runs t a) : ∀ ev ∈ t, P ev.1 := by
  induction p generalizing t with
  | ret b =>
      obtain ⟨rfl, -⟩ := h
      simp
  | call c k ih =>
      obtain ⟨r, t, rfl, h⟩ := h
      exact List.forall_mem_cons.mpr ⟨hp.1, ih r (hp.2 r) h⟩

theorem issues_loop {P : C → Prop} {body : σ → Prog C R (σ ⊕ α)} (h : ∀ s, (body s).Issues P)
    (fuel : Nat) (s : σ) : (loop body fuel s).Issues P := by
  induction fuel generalizing s with
  | zero => trivial
  | succ fuel ih =>
      refine (h s).bind fun x => ?_
      cases x with
      | inl s' => exact ih s'
      | inr a => trivial

/-- The program issues at most `n` commands, whatever they are answered. -/
def Within : Prog C R α → Nat → Prop
  | ret _, _ => True
  | call _ k, n => ∃ m, n = m + 1 ∧ ∀ r, (k r).Within m

theorem issues_mapCommands {C' : Type} {R' : C' → Type} {f : C → C'} {g : ∀ c, R' (f c) → R c}
    {P : C' → Prop} (hf : ∀ c, P (f c)) (p : Prog C R α) : (p.mapCommands f g).Issues P := by
  induction p with
  | ret a => trivial
  | call c k ih => exact ⟨hf c, fun r => ih _⟩

end Prog

/-! ## Environments -/

/-- An environment with a state: it answers a command and goes on. -/
abbrev Environment (C : Type) (R : C → Type) (σ : Type) := (c : C) → σ → R c × σ

/-- How a program has ended in an environment. -/
structure Completed (C : Type) (R : C → Type) (σ α : Type) where
  trace : Trace C R
  result : α
  state : σ

namespace Prog

/-- The run of a program in an environment. -/
def runIn (env : Environment C R σ) : Prog C R α → σ → Completed C R σ α
  | ret a, s => ⟨[], a, s⟩
  | call c k, s =>
      let rest := (k (env c s).1).runIn env (env c s).2
      ⟨⟨c, (env c s).1⟩ :: rest.trace, rest.result, rest.state⟩

/-- The run in an environment is one of the runs. -/
theorem runs_runIn (env : Environment C R σ) (p : Prog C R α) (s : σ) :
    p.Runs (p.runIn env s).trace (p.runIn env s).result := by
  induction p generalizing s with
  | ret a => exact ⟨rfl, rfl⟩
  | call c k ih => exact ⟨_, _, rfl, ih _ _⟩

/-- Every reply is one that the environment gives. -/
theorem replies_runIn (env : Environment C R σ) (p : Prog C R α) (s : σ) :
    ∀ ev ∈ (p.runIn env s).trace, ∃ s', ev.2 = (env ev.1 s').1 := by
  induction p generalizing s with
  | ret a => exact fun ev hev => absurd hev List.not_mem_nil
  | call c k ih => exact List.forall_mem_cons.mpr ⟨⟨s, rfl⟩, ih _ _⟩

/-- **In sequence**, the second program goes on from the state that the first one leaves. -/
theorem runIn_bind (env : Environment C R σ) (p : Prog C R α) (f : α → Prog C R β) (s : σ) :
    (p >>= f).runIn env s =
      let first := p.runIn env s
      let second := (f first.result).runIn env first.state
      ⟨first.trace ++ second.trace, second.result, second.state⟩ := by
  induction p generalizing s with
  | ret a => rfl
  | call c k ih =>
      show (call c fun r => k r >>= f).runIn env s = _
      rw [runIn, ih]
      rfl

/-- What an environment leaves alone while it answers the commands of a program. -/
theorem runIn_preserves {P : C → Prop} {τ : Type} {view : σ → τ} {env : Environment C R σ}
    (keeps : ∀ c, P c → ∀ s, view (env c s).2 = view s) {p : Prog C R α} (hp : p.Issues P)
    (s : σ) : view (p.runIn env s).state = view s := by
  induction p generalizing s with
  | ret a => rfl
  | call c k ih => exact (ih _ (hp.2 _) _).trans (keeps c hp.1 s)

end Prog

/-! ## Where an event stands -/

/-- An element of two lists in a row stands in the second one or in the first. -/
theorem append_eq_append_cons {l₁ l₂ a b : List α} {x : α} (h : l₁ ++ l₂ = a ++ x :: b) :
    (∃ a', a = l₁ ++ a' ∧ l₂ = a' ++ x :: b) ∨ ∃ b', l₁ = a ++ x :: b' ∧ b = b' ++ l₂ := by
  rcases List.append_eq_append_iff.mp h with ⟨y, rfl, hl⟩ | ⟨y, rfl, hl⟩
  · exact .inl ⟨y, rfl, hl⟩
  · cases y with
    | nil => exact .inl ⟨[], by simp, hl.symm⟩
    | cons z y =>
        obtain ⟨rfl, rfl⟩ := List.cons.inj hl
        exact .inr ⟨y, rfl, rfl⟩

theorem append_cons_eq_singleton {a b : List α} {x y : α} (h : a ++ x :: b = [y]) :
    a = [] ∧ b = [] ∧ x = y := by
  cases a with
  | nil => simpa [and_comm] using h
  | cons z a => simp at h

/-! ## What may come next -/

/-- Every event of `t` is allowed by what came before it, `h` and then `t`. -/
def Allowed (P : Trace C R → Event C R → Prop) : Trace C R → Trace C R → Prop
  | _, [] => True
  | h, ev :: t => P h ev ∧ Allowed P (h ++ [ev]) t

section
variable {P : Trace C R → Event C R → Prop}

@[simp] theorem allowed_nil {h : Trace C R} : Allowed P h [] := trivial

@[simp] theorem allowed_cons {h t : Trace C R} {ev : Event C R} :
    Allowed P h (ev :: t) ↔ P h ev ∧ Allowed P (h ++ [ev]) t := Iff.rfl

theorem allowed_append {h t₁ t₂ : Trace C R} :
    Allowed P h (t₁ ++ t₂) ↔ Allowed P h t₁ ∧ Allowed P (h ++ t₁) t₂ := by
  induction t₁ generalizing h with
  | nil => simp
  | cons ev t ih => simp [ih, and_assoc]

/-- Events that may always happen are allowed. -/
theorem allowed_of_forall {t : Trace C R} (always : ∀ ev ∈ t, ∀ h, P h ev) (h : Trace C R) :
    Allowed P h t := by
  induction t generalizing h with
  | nil => trivial
  | cons ev t ih =>
      exact ⟨always ev (.head t) h, ih (fun ev' hev' => always ev' (.tail ev hev')) _⟩

/-- **Each event is allowed by the part of the trace before it.** -/
theorem Allowed.before {h a b : Trace C R} {ev : Event C R}
    (ht : Allowed P h (a ++ ev :: b)) : P (h ++ a) ev :=
  (allowed_append.mp ht).2.1

end
end Interaction
