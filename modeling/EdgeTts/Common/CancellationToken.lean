import Mathlib.Data.List.Basic

/-!
# `common/CancellationToken.hpp`

A token is a shared pointer to a flag, so copies of a token are one token here, and another token
is another flag.  The flags are set and read by any thread; each is one atomic variable, whose
accesses have one order.  In every order a read shows exactly whether the token, or a copy of it,
has been cancelled before (`TokenRun.read_iff`).
-/
namespace EdgeTts

/-- The position of the flag. -/
structure CancellationToken where
  flag : Nat
  deriving DecidableEq

/-- What the threads do with tokens. -/
inductive TokenEvent where
  | constructed (token : CancellationToken)
  | cancelled (token : CancellationToken)
  | read (token : CancellationToken) (value : Bool)
  deriving DecidableEq

namespace CancellationToken

/-- The constructor: a flag of its own. -/
def construct (flags : List Bool) : CancellationToken × List Bool :=
  (⟨flags.length⟩, flags ++ [false])

/-- `cancel`. -/
def cancel (token : CancellationToken) (flags : List Bool) : List Bool := flags.set token.flag true

/-- `is_cancelled`. -/
def isCancelled (token : CancellationToken) (flags : List Bool) : Bool :=
  flags.getD token.flag false

theorem isCancelled_construct (token : CancellationToken) (flags : List Bool) :
    token.isCancelled (construct flags).2 = token.isCancelled flags := by
  show (flags ++ [false]).getD token.flag false = flags.getD token.flag false
  rw [List.getD_eq_getElem?_getD, List.getD_eq_getElem?_getD]
  by_cases hlt : token.flag < flags.length
  · rw [List.getElem?_append_left hlt]
  · rw [List.getElem?_append_right (by omega), List.getElem?_eq_none (l := flags) (by omega)]
    cases token.flag - flags.length <;> rfl

theorem isCancelled_cancel {other : CancellationToken} {flags : List Bool}
    (alive : other.flag < flags.length) (token : CancellationToken) :
    token.isCancelled (other.cancel flags) = true ↔
      token.isCancelled flags = true ∨ token = other := by
  show (flags.set other.flag true).getD token.flag false = true ↔ _
  rw [List.getD_eq_getElem?_getD]
  by_cases heq : token = other
  · subst heq
    rw [List.getElem?_set_self alive]
    simp
  · have hne : other.flag ≠ token.flag := by
      intro hflag
      exact heq (by cases token; cases other; exact congrArg _ hflag.symm)
    rw [List.getElem?_set_ne hne, ← List.getD_eq_getElem?_getD]
    simp [heq, isCancelled]

end CancellationToken

/-- One access; only tokens that have been constructed are used. -/
def tokenStep (flags : List Bool) : TokenEvent → Option (List Bool)
  | .constructed token =>
      if token = (CancellationToken.construct flags).1 then
        some (CancellationToken.construct flags).2
      else none
  | .cancelled token =>
      if token.flag < flags.length then some (token.cancel flags) else none
  | .read token value =>
      if token.flag < flags.length ∧ value = token.isCancelled flags then some flags else none

/-- The accesses of all threads, in their order, and the flags after them. -/
def TokenRun (t : List TokenEvent) (flags : List Bool) : Prop :=
  t.foldlM tokenStep [] = some flags

instance (t : List TokenEvent) (flags : List Bool) : Decidable (TokenRun t flags) :=
  inferInstanceAs (Decidable (_ = _))

/-- What one access does to a flag. -/
theorem tokenStep_flag {flags flags' : List Bool} {e : TokenEvent}
    (h : tokenStep flags e = some flags') (token : CancellationToken) :
    token.isCancelled flags' = true ↔ token.isCancelled flags = true ∨ e = .cancelled token := by
  cases e with
  | constructed other =>
      obtain ⟨-, heq⟩ := Option.ite_none_right_eq_some.mp h
      cases heq
      rw [CancellationToken.isCancelled_construct]
      simp
  | cancelled other =>
      obtain ⟨alive, heq⟩ := Option.ite_none_right_eq_some.mp h
      cases heq
      rw [CancellationToken.isCancelled_cancel alive, TokenEvent.cancelled.injEq,
        @eq_comm _ other]
  | read other value =>
      obtain ⟨-, heq⟩ := Option.ite_none_right_eq_some.mp h
      cases heq
      simp

theorem foldlM_tokenStep_flag {flags flags' : List Bool} {t : List TokenEvent}
    (h : t.foldlM tokenStep flags = some flags') (token : CancellationToken) :
    token.isCancelled flags' = true ↔
      token.isCancelled flags = true ∨ .cancelled token ∈ t := by
  induction t generalizing flags with
  | nil =>
      cases h
      simp
  | cons e t ih =>
      obtain ⟨flags₁, hstep, hrest⟩ := Option.bind_eq_some_iff.mp h
      rw [ih hrest, tokenStep_flag hstep, List.mem_cons, or_assoc, @eq_comm _ e]

/-- **A read shows whether the token has been cancelled before it.** -/
theorem TokenRun.read_iff {before after : List TokenEvent} {flags : List Bool}
    {token : CancellationToken} {value : Bool}
    (run : TokenRun (before ++ .read token value :: after) flags) :
    value = true ↔ .cancelled token ∈ before := by
  rw [TokenRun, List.foldlM_append] at run
  obtain ⟨flags₁, hbefore, hrest⟩ := Option.bind_eq_some_iff.mp run
  obtain ⟨flags₂, hread, -⟩ := Option.bind_eq_some_iff.mp hrest
  obtain ⟨⟨-, hvalue⟩, -⟩ := Option.ite_none_right_eq_some.mp hread
  rw [hvalue, foldlM_tokenStep_flag hbefore]
  simp [CancellationToken.isCancelled]

end EdgeTts
