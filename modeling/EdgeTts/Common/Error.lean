import Mathlib.Algebra.Order.Ring.Int
import Mathlib.Data.List.Basic
import Mathlib.Data.List.TakeWhile

/-!
# Errors, results and escapes

`common/Error.hpp` and `common/Result.hpp`.  A `Result<T>` is a value or an
`Error`.  A C++ call that is declared to return a `Result<T>` can also end
without returning: an exception escapes it, or it runs into undefined behaviour.
Functions whose source contains an operation that can do so are modelled with
`Outcome`, which keeps these endings apart from a returned error (`Escape`).

Then come the operations of the standard library that several modules share:
`substr`, `snprintf` into a buffer of fixed size, `path::operator/`, and the
addition of two `std::int64_t`, which is undefined where it overflows (`Sum64`).
-/
namespace EdgeTts

/-- A C++ byte string (`std::string`, `std::string_view`). -/
abbrev Bytes := List UInt8

/-- The bytes of a string literal. -/
def lit (s : String) : Bytes := s.toUTF8.data.toList

/-- `common::ErrorCode`. -/
inductive ErrorCode where
  | none
  | invalidArgument
  | invalidState
  | ioError
  | networkError
  | protocolError
  | parseError
  | timeout
  | unsupported
  | externalProcessFailed
  | serviceError
  | drmError
  | cancelled
  deriving DecidableEq, Repr

/-- `to_string(ErrorCode)`. -/
def ErrorCode.toString : ErrorCode → Bytes
  | .none => lit "none"
  | .invalidArgument => lit "invalid_argument"
  | .invalidState => lit "invalid_state"
  | .ioError => lit "io_error"
  | .networkError => lit "network_error"
  | .protocolError => lit "protocol_error"
  | .parseError => lit "parse_error"
  | .timeout => lit "timeout"
  | .unsupported => lit "unsupported"
  | .externalProcessFailed => lit "external_process_failed"
  | .serviceError => lit "service_error"
  | .drmError => lit "drm_error"
  | .cancelled => lit "cancelled"

/-- `common::Error`; the two-argument constructor leaves `context` empty. -/
structure Error where
  code : ErrorCode
  message : Bytes
  context : Bytes := []
  deriving DecidableEq, Repr

namespace Error

def hasContext (e : Error) : Bool := !e.context.isEmpty

/-- `Error::what`. -/
def what (e : Error) : Bytes :=
  lit "[" ++ e.code.toString ++ lit "] " ++ e.message ++
    if e.context.isEmpty then [] else lit " (context: " ++ e.context ++ lit ")"

end Error

/-- `common::Result<T>`. -/
abbrev Result (α : Type) := Except Error α

/-- The ways a call can end without returning. -/
inductive Escape where
  /-- `std::out_of_range`, from `substr`. -/
  | outOfRange
  /-- `json::out_of_range` (406), a number whose value overflows. -/
  | jsonOutOfRange
  /-- `json::type_error`, from an accessor on a value of another type. -/
  | jsonTypeError
  /-- `std::bad_variant_access`. -/
  | badVariantAccess
  /-- Undefined behaviour: `*optional` on an empty optional. -/
  | emptyOptional
  /-- Undefined behaviour: an element read outside its container. -/
  | outOfBounds
  deriving DecidableEq, Repr

/-- How a call that is declared to return a `Result<T>` ends. -/
inductive Outcome (α : Type) where
  | ok (a : α)
  | fail (e : Error)
  | escape (x : Escape)
  deriving DecidableEq, Repr

namespace Outcome
variable {α β : Type}

protected def bind : Outcome α → (α → Outcome β) → Outcome β
  | ok a, f => f a
  | fail e, _ => fail e
  | escape x, _ => escape x

instance : Monad Outcome where
  pure := ok
  bind := Outcome.bind

def ofResult : Result α → Outcome α
  | .ok a => ok a
  | .error e => fail e

/-- Nothing escapes: the call returns. -/
def Returns (x : Outcome α) : Prop := ∀ e, x ≠ escape e

@[simp] theorem pure_eq (a : α) : (pure a : Outcome α) = ok a := rfl
@[simp] theorem ok_bind (a : α) (f : α → Outcome β) : (ok a >>= f) = f a := rfl
@[simp] theorem fail_bind (e : Error) (f : α → Outcome β) : (fail e >>= f) = fail e := rfl
@[simp] theorem escape_bind (x : Escape) (f : α → Outcome β) : (escape x >>= f) = escape x := rfl

@[simp] theorem ofResult_ok (a : α) : ofResult (.ok a : Result α) = ok a := rfl
@[simp] theorem ofResult_error (e : Error) : ofResult (.error e : Result α) = fail e := rfl

theorem bind_eq_ok {x : Outcome α} {f : α → Outcome β} {b : β} :
    (x >>= f) = ok b ↔ ∃ a, x = ok a ∧ f a = ok b := by
  cases x <;> simp

/-- The call returns a value, or an error with the code `c`. -/
def OkOr (c : ErrorCode) : Outcome α → Prop
  | ok _ => True
  | fail e => e.code = c
  | escape _ => False

@[simp] theorem okOr_ok (c : ErrorCode) (a : α) : OkOr c (ok a) := trivial
@[simp] theorem okOr_fail {c : ErrorCode} {e : Error} :
    OkOr c (fail e : Outcome α) ↔ e.code = c := Iff.rfl
@[simp] theorem okOr_escape {c : ErrorCode} {x : Escape} : ¬ OkOr c (escape x : Outcome α) := id

theorem OkOr.bind {c : ErrorCode} {x : Outcome α} {f : α → Outcome β} (hx : OkOr c x)
    (hf : ∀ a, x = ok a → OkOr c (f a)) : OkOr c (x >>= f) := by
  cases x with
  | ok a => exact hf a rfl
  | fail e => exact hx
  | escape x => exact hx

theorem OkOr.returns {c : ErrorCode} {x : Outcome α} (h : OkOr c x) : x.Returns := by
  rintro e rfl
  exact h

end Outcome

/-! ## The standard library -/

/-- `std::string_view::substr(pos, n)`; `none` is `npos`. -/
def substr (s : Bytes) (pos : Nat) (n : Option Nat) : Outcome Bytes :=
  if pos > s.length then .escape .outOfRange
  else .ok (match n with
    | none => s.drop pos
    | some n => (s.drop pos).take n)

theorem substr_of_le {s : Bytes} {pos : Nat} (h : pos ≤ s.length) (n : Option Nat) :
    substr s pos n = .ok (match n with
      | none => s.drop pos
      | some n => (s.drop pos).take n) := by
  rw [substr.eq_def, if_neg (by omega)]

/-- What is read back from a buffer of `size` bytes that `snprintf` has written. -/
def snprintf (size : Nat) (out : Bytes) : Bytes := (out.take (size - 1)).takeWhile (· != 0)

theorem snprintf_of_fits {size : Nat} {out : Bytes} (hlen : out.length < size)
    (hnul : (0 : UInt8) ∉ out) : snprintf size out = out := by
  rw [snprintf, List.take_of_length_le (by omega), List.takeWhile_eq_self_iff]
  intro c hc
  rw [bne_iff_ne]
  rintro rfl
  exact hnul hc

/-- `std::filesystem::path::operator/`. -/
def joinPath (dir name : Bytes) : Bytes :=
  if name.head? == some 0x2F then name
  else if dir.isEmpty || dir.getLast? == some 0x2F then dir ++ name
  else dir ++ 0x2F :: name

/-- The range of `std::int64_t`. -/
def Fits64 (n : Int) : Prop := -2 ^ 63 ≤ n ∧ n < 2 ^ 63

instance (n : Int) : Decidable (Fits64 n) := inferInstanceAs (Decidable (_ ∧ _))

/-- What the addition of two `int64` may yield. -/
abbrev Sum64 (a b : Int64) : Type :=
  { c : Int64 // Fits64 (a.toInt + b.toInt) → c.toInt = a.toInt + b.toInt }

theorem fits64_toInt (a : Int64) : Fits64 a.toInt := ⟨a.le_toInt, a.toInt_lt⟩

/-- Where the sum fits, the machine's addition is one that it may yield. -/
def Sum64.wrapping (a b : Int64) : Sum64 a b :=
  ⟨a + b, fun h => by
    rw [Int64.toInt_add]
    exact Int.bmod_eq_of_le (by have := h.1; omega) (by have := h.2; omega)⟩

/-- **An addition is exact just where the sum fits.** -/
theorem Sum64.exact_iff {a b : Int64} (c : Sum64 a b) :
    c.val.toInt = a.toInt + b.toInt ↔ Fits64 (a.toInt + b.toInt) :=
  ⟨fun h => h ▸ fits64_toInt c.val, c.property⟩

end EdgeTts
