import Mathlib.Algebra.Order.Ring.Int
import Mathlib.Algebra.Order.Ring.Nat

set_option autoImplicit false

/- Fallible computations in `Except`, and machine integers whose operations fail
instead of wrapping. Nothing here depends on a particular program. -/
namespace Checked

variable {ε α β : Type}

/-- Continue only when the condition holds. -/
def require (condition : Prop) [Decidable condition] (error : ε) : Except ε Unit :=
  if condition then .ok () else .error error

/-- The value of a present option, or the given error. -/
def get (value : Option α) (error : ε) : Except ε α :=
  match value with
  | some found => .ok found
  | none => .error error

@[simp] theorem bind_eq_ok (first : Except ε α) (next : α → Except ε β) (result : β) :
    (first >>= next) = .ok result ↔ ∃ value, first = .ok value ∧ next value = .ok result := by
  cases first with
  | ok value => simp [bind, Except.bind]
  | error reason => simp [bind, Except.bind]

@[simp] theorem bind_eq_error (first : Except ε α) (next : α → Except ε β) (reason : ε) :
    (first >>= next) = .error reason ↔
      first = .error reason ∨ ∃ value, first = .ok value ∧ next value = .error reason := by
  cases first with
  | ok value => simp [bind, Except.bind]
  | error other => simp [bind, Except.bind]

theorem ne_error_of_ok {result : Except ε α} {value : α} (success : result = .ok value)
    (reason : ε) : result ≠ .error reason := by
  rw [success]
  simp

/-- A sequence does not fail in a way in which neither part does. -/
theorem bind_ne_error {first : Except ε α} {next : α → Except ε β} {reason : ε}
    (before : first ≠ .error reason)
    (after : ∀ value, first = .ok value → next value ≠ .error reason) :
    (first >>= next) ≠ .error reason := by
  intro failed
  rcases (bind_eq_error _ _ _).mp failed with here | ⟨value, success, there⟩
  · exact before here
  · exact after value success there

@[simp] theorem map_eq_ok (function : α → β) (first : Except ε α) (result : β) :
    (function <$> first) = .ok result ↔ ∃ value, first = .ok value ∧ function value = result := by
  cases first with
  | ok value => simp [Functor.map, Except.map]
  | error reason => simp [Functor.map, Except.map]

@[simp] theorem map_eq_error (function : α → β) (first : Except ε α) (reason : ε) :
    (function <$> first) = .error reason ↔ first = .error reason := by
  cases first with
  | ok value => simp [Functor.map, Except.map]
  | error other => simp [Functor.map, Except.map]

@[simp] theorem pure_eq_ok (value result : α) :
    (pure value : Except ε α) = .ok result ↔ value = result := by
  simp [pure, Except.pure]

@[simp] theorem pure_ne_error (value : α) (reason : ε) :
    (pure value : Except ε α) = .error reason ↔ False := by
  simp [pure, Except.pure]

@[simp] theorem require_eq_ok (condition : Prop) [Decidable condition] (error : ε) (result : Unit) :
    require condition error = .ok result ↔ condition := by
  unfold require
  split <;> simp_all

@[simp] theorem require_eq_error (condition : Prop) [Decidable condition] (error reason : ε) :
    require condition error = .error reason ↔ ¬ condition ∧ error = reason := by
  unfold require
  split <;> simp_all

@[simp] theorem get_eq_ok (value : Option α) (error : ε) (found : α) :
    get value error = .ok found ↔ value = some found := by
  cases value <;> simp [get]

@[simp] theorem get_eq_error (value : Option α) (error reason : ε) :
    get value error = .error reason ↔ value = none ∧ error = reason := by
  cases value <;> simp [get]

/-- How a computation fails, if it does. -/
def failure (result : Except ε α) : Option ε :=
  match result with
  | .ok _ => none
  | .error reason => some reason

theorem failure_eq_some {result : Except ε α} {reason : ε} :
    failure result = some reason ↔ result = .error reason := by
  cases result <;> simp [failure]

theorem failure_eq_none {result : Except ε α} :
    failure result = none ↔ ∃ value, result = .ok value := by
  cases result <;> simp [failure]

/-- The ways a checked machine operation aborts. -/
inductive Fault
  | overflow
  | underflow
  | divideByZero
  | conversion
  | indexOutOfBounds
  deriving DecidableEq, Repr

/-- An error type that can carry the abort of a machine operation. -/
class HasFault (ε : Type) where
  fault : Fault → ε

section Arithmetic

variable [HasFault ε]

/-- The value of a machine operation, or an abort when it leaves its range. -/
def checked (inRange : Prop) [Decidable inRange] (value : α) (reason : Fault) : Except ε α :=
  if inRange then .ok value else .error (HasFault.fault reason)

@[simp] theorem checked_eq_ok (inRange : Prop) [Decidable inRange] (value result : α)
    (reason : Fault) :
    (checked inRange value reason : Except ε α) = .ok result ↔ inRange ∧ value = result := by
  unfold checked
  split <;> simp_all

@[simp] theorem checked_eq_error (inRange : Prop) [Decidable inRange] (value : α)
    (reason : Fault) (error : ε) :
    checked inRange value reason = .error error ↔
      ¬ inRange ∧ HasFault.fault reason = error := by
  unfold checked
  split <;> simp_all

/-- Unsigned addition at the given width. -/
@[simp] def add (width a b : Nat) : Except ε Nat :=
  checked (a + b < 2 ^ width) (a + b) .overflow

/-- Unsigned multiplication at the given width. -/
@[simp] def mul (width a b : Nat) : Except ε Nat :=
  checked (a * b < 2 ^ width) (a * b) .overflow

/-- Unsigned subtraction. -/
@[simp] def sub (a b : Nat) : Except ε Nat :=
  checked (b ≤ a) (a - b) .underflow

/-- Unsigned division. -/
@[simp] def div (a b : Nat) : Except ε Nat :=
  checked (b ≠ 0) (a / b) .divideByZero

/-- Conversion of an unsigned value to the given width. -/
@[simp] def narrow (width a : Nat) : Except ε Nat :=
  checked (a < 2 ^ width) a .conversion

/-- The values of a signed integer of the given width. -/
def Signed (width : Nat) (a : Int) : Prop :=
  -2 ^ (width - 1) ≤ a ∧ a < 2 ^ (width - 1)

instance (width : Nat) (a : Int) : Decidable (Signed width a) :=
  inferInstanceAs (Decidable (_ ∧ _))

/-- The difference of two instants that are not negative always fits. -/
theorem Signed.sub {width : Nat} {a b : Int} (fits : Signed width a) (later : b ≤ a)
    (positive : 0 ≤ b) : Signed width (a - b) := by
  obtain ⟨_, upper⟩ := fits
  have radix : (0 : Int) ≤ 2 ^ (width - 1) := Int.pow_nonneg (by omega)
  exact ⟨by omega, by omega⟩

/-- Signed addition at the given width. -/
@[simp] def addSigned (width : Nat) (a b : Int) : Except ε Int :=
  checked (Signed width (a + b)) (a + b) .overflow

/-- Signed subtraction at the given width. -/
@[simp] def subSigned (width : Nat) (a b : Int) : Except ε Int :=
  checked (Signed width (a - b)) (a - b) .overflow

/-- Conversion of an unsigned value to a signed one of the given width. -/
@[simp] def toSigned (width : Nat) (a : Nat) : Except ε Int :=
  checked ((a : Int) < 2 ^ (width - 1)) (a : Int) .conversion

/-- Conversion of a signed value to an unsigned one of the given width. -/
@[simp] def toUnsigned (width : Nat) (a : Int) : Except ε Nat :=
  checked (0 ≤ a ∧ a < 2 ^ width) a.toNat .conversion

end Arithmetic

end Checked
