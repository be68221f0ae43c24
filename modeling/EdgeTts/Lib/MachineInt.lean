import EdgeTts.Lib.Interaction
import Mathlib.Algebra.Order.Ring.Int
import Mathlib.Tactic.Ring

/-!
# Signed machine integers

An operation yields its mathematical result where that fits its type.  Where it does not, the
overflow leaves open which value of the type it yields.  A computation is a program over such
operations: `Safe` says that no run of it overflows, and `Yields` also that all runs end with
the same value.

`yields_op` and `Yields.bind` go through a computation operation by operation; `Safe.of_bind`
and `Yields.safe_of_bind` say what is safe in a safe one.
-/
namespace MachineInt

open Interaction (Prog Trace)
open Interaction.Prog (perform runs_bind runs_perform_bind)

/-- The types. -/
inductive IntType where
  | int
  | int64
  deriving DecidableEq, Repr

/-- The range of a type. -/
def IntType.Fits : IntType → Int → Prop
  | .int, n => -2 ^ 31 ≤ n ∧ n < 2 ^ 31
  | .int64, n => -2 ^ 63 ≤ n ∧ n < 2 ^ 63

/-- A conversion, which wraps around. -/
def IntType.wrap : IntType → Int → Int
  | .int, n => n.bmod (2 ^ 32)
  | .int64, n => n.bmod (2 ^ 64)

theorem IntType.fits_wrap (type : IntType) (n : Int) : type.Fits (type.wrap n) := by
  cases type with
  | int =>
      have hlow := Int.le_bmod (x := n) (m := 2 ^ 32) (by decide)
      have hhigh := Int.bmod_lt (x := n) (m := 2 ^ 32) (by decide)
      exact ⟨by rw [wrap]; omega, by rw [wrap]; omega⟩
  | int64 =>
      have hlow := Int.le_bmod (x := n) (m := 2 ^ 64) (by decide)
      have hhigh := Int.bmod_lt (x := n) (m := 2 ^ 64) (by decide)
      exact ⟨by rw [wrap]; omega, by rw [wrap]; omega⟩

theorem IntType.wrap_of_fits {type : IntType} {n : Int} (h : type.Fits n) : type.wrap n = n := by
  cases type with
  | int =>
      obtain ⟨hlow, hhigh⟩ := h
      exact Int.bmod_eq_of_le (by omega) (by omega)
  | int64 =>
      obtain ⟨hlow, hhigh⟩ := h
      exact Int.bmod_eq_of_le (by omega) (by omega)

/-- An operation, by its type and its mathematical result. -/
structure Operation where
  type : IntType
  result : Int

/-- What an operation may yield. -/
abbrev Operation.Reply (o : Operation) : Type :=
  { c : Int // o.type.Fits c ∧ (o.type.Fits o.result → c = o.result) }

/-- A computation. -/
abbrev Calc (α : Type) := Prog Operation Operation.Reply α

/-- One operation. -/
def op (type : IntType) (n : Int) : Calc Int := do
  let c ← perform (Operation.mk type n)
  return c.val

/-- No operation overflows. -/
def NoOverflow (t : Trace Operation Operation.Reply) : Prop :=
  ∀ ev ∈ t, ev.1.type.Fits ev.1.result

section
variable {α β : Type}

/-- No run overflows. -/
def Safe (p : Calc α) : Prop := ∀ t a, p.Runs t a → NoOverflow t

/-- No run overflows, and each ends with `a`. -/
def Yields (p : Calc α) (a : α) : Prop := ∀ t b, p.Runs t b → NoOverflow t ∧ b = a

theorem Yields.safe {p : Calc α} {a : α} (h : Yields p a) : Safe p := fun t b run =>
  (h t b run).1

theorem yields_pure (a : α) : Yields (pure a : Calc α) a := by
  rintro t b ⟨rfl, rfl⟩
  exact ⟨fun ev hev => absurd hev List.not_mem_nil, rfl⟩

/-- **One computation after another.** -/
theorem Yields.bind {p : Calc α} {f : α → Calc β} {a : α} {b : β} (hp : Yields p a)
    (hf : Yields (f a) b) : Yields (p >>= f) b := by
  intro t c run
  obtain ⟨t₁, t₂, a', rfl, run₁, run₂⟩ := runs_bind.mp run
  obtain ⟨hsafe₁, rfl⟩ := hp t₁ a' run₁
  obtain ⟨hsafe₂, hc⟩ := hf t₂ c run₂
  exact ⟨List.forall_mem_append.mpr ⟨hsafe₁, hsafe₂⟩, hc⟩

/-- An operation whose result fits. -/
theorem yields_op {type : IntType} {n : Int} (h : type.Fits n) : Yields (op type n) n := by
  intro t b run
  obtain ⟨c, t', rfl, run'⟩ := runs_perform_bind.mp run
  obtain ⟨rfl, rfl⟩ := run'
  exact ⟨List.forall_mem_singleton.mpr h, c.property.2 h⟩

/-- Every computation has a run. -/
theorem exists_run (p : Calc α) : ∃ t a, p.Runs t a :=
  ⟨_, _, Prog.runs_exec (fun _ o => ⟨o.type.wrap o.result, o.type.fits_wrap o.result,
    IntType.wrap_of_fits⟩) p 0⟩

/-- What follows a computation that is over with the value `a`. -/
theorem Yields.safe_of_bind {p : Calc α} {f : α → Calc β} {a : α} (hp : Yields p a)
    (h : Safe (p >>= f)) : Safe (f a) := by
  intro t b run
  obtain ⟨t₁, a', run₁⟩ := exists_run p
  obtain ⟨-, rfl⟩ := hp t₁ a' run₁
  exact (List.forall_mem_append.mp (h _ b (runs_bind.mpr ⟨t₁, t, _, rfl, run₁, run⟩))).2

/-- **What a safe computation starts with** is safe. -/
theorem Safe.of_bind {p : Calc α} {f : α → Calc β} (h : Safe (p >>= f)) : Safe p := by
  intro t₁ a run₁
  obtain ⟨t₂, b, run₂⟩ := exists_run (f a)
  exact (List.forall_mem_append.mp (h _ b (runs_bind.mpr ⟨t₁, t₂, a, rfl, run₁, run₂⟩))).1

/-- **An operation that is safe** has a result that fits. -/
theorem Safe.fits {type : IntType} {n : Int} (h : Safe (op type n)) : type.Fits n := by
  obtain ⟨t, a, run⟩ := exists_run (op type n)
  obtain ⟨r, t', rfl, -⟩ := runs_perform_bind.mp run
  exact h _ a run ⟨⟨type, n⟩, r⟩ List.mem_cons_self

end

/-- A truncated quotient, its sign and what is left of the dividend. -/
theorem tdiv_bounds (a : Int) {b : Int} (hb : 0 < b) :
    (0 ≤ a ∧ 0 ≤ a.tdiv b ∧ a.tdiv b * b ≤ a ∧ a < a.tdiv b * b + b) ∨
    (a < 0 ∧ a.tdiv b ≤ 0 ∧ a ≤ a.tdiv b * b ∧ a.tdiv b * b < a + b) := by
  have hsum := Int.tdiv_mul_add_tmod a b
  by_cases h : 0 ≤ a
  · have hlow := Int.tmod_nonneg b h
    have hhigh := Int.tmod_lt_of_pos a hb
    exact .inl ⟨h, Int.tdiv_nonneg h (by omega), by omega, by omega⟩
  · have hneg : (-a).tdiv b = -a.tdiv b := Int.neg_tdiv a b
    have hquot := Int.tdiv_nonneg (a := -a) (b := b) (by omega) (by omega)
    have hlow := Int.lt_tmod_of_pos a hb
    have hhigh : a.tmod b ≤ 0 := by
      have := Int.tmod_nonneg (a := -a) b (by omega)
      rw [Int.neg_tmod] at this
      omega
    exact .inr ⟨by omega, by omega, by omega, by omega⟩

end MachineInt
