import Mathlib.Algebra.Order.Group.Nat
import Mathlib.Algebra.Order.Ring.Nat
import Mathlib.Tactic.Ring

set_option autoImplicit false

/- The part of an amount that a linear schedule has released, computed with a fixed-point
fraction of the elapsed time. -/
namespace Vesting

/-- The elapsed share of the duration at a precision, of an amount. -/
def share (precision duration elapsed amount : Nat) : Nat :=
  elapsed * precision / duration * amount / precision

variable {precision finer duration elapsed later amount larger : Nat}

@[simp] theorem share_zero (precision duration amount : Nat) :
    share precision duration 0 amount = 0 := by
  simp [share]

/-- Rounding never releases more than the exact share. -/
theorem share_mul_le (fine : 0 < precision) :
    share precision duration elapsed amount * duration ≤ elapsed * amount := by
  have fraction := Nat.div_mul_le_self (elapsed * precision) duration
  have whole := Nat.div_mul_le_self (elapsed * precision / duration * amount) precision
  apply Nat.le_of_mul_le_mul_right _ fine
  calc share precision duration elapsed amount * duration * precision
      = share precision duration elapsed amount * precision * duration := Nat.mul_right_comm _ _ _
    _ ≤ elapsed * precision / duration * amount * duration := Nat.mul_le_mul_right _ whole
    _ = elapsed * precision / duration * duration * amount := Nat.mul_right_comm _ _ _
    _ ≤ elapsed * precision * amount := Nat.mul_le_mul_right _ fraction
    _ = elapsed * amount * precision := Nat.mul_right_comm _ _ _

theorem share_le_amount (fine : 0 < precision) (some : 0 < duration)
    (early : elapsed ≤ duration) : share precision duration elapsed amount ≤ amount := by
  apply Nat.le_of_mul_le_mul_right _ some
  calc share precision duration elapsed amount * duration
      ≤ elapsed * amount := share_mul_le fine
    _ ≤ duration * amount := Nat.mul_le_mul_right _ early
    _ = amount * duration := Nat.mul_comm _ _

/-- Rounding down twice keeps back less than one step of the precision and one token. -/
theorem lt_share_mul (fine : 0 < precision) (some : 0 < duration) :
    elapsed * amount * precision <
      (share precision duration elapsed amount + 1) * precision * duration + amount * duration := by
  have fraction := Nat.div_add_mod (elapsed * precision) duration
  have left := Nat.mod_lt (elapsed * precision) some
  have whole : elapsed * precision / duration * amount <
      (share precision duration elapsed amount + 1) * precision := by
    have next := Nat.lt_mul_div_succ (elapsed * precision / duration * amount) fine
    rw [Nat.mul_comm precision] at next
    exact next
  calc elapsed * amount * precision
      = elapsed * precision * amount := Nat.mul_right_comm _ _ _
    _ = elapsed * precision / duration * amount * duration +
        elapsed * precision % duration * amount := by
          conv_lhs => rw [← fraction]
          ring
    _ < (share precision duration elapsed amount + 1) * precision * duration +
        amount * duration := by
          apply Nat.add_lt_add_of_lt_of_le (Nat.mul_lt_mul_of_pos_right whole some)
          rw [Nat.mul_comm amount]
          exact Nat.mul_le_mul_right _ (le_of_lt left)

theorem share_mono (further : elapsed ≤ later) :
    share precision duration elapsed amount ≤ share precision duration later amount := by
  apply Nat.div_le_div_right
  apply Nat.mul_le_mul_right
  apply Nat.div_le_div_right
  exact Nat.mul_le_mul_right _ further

theorem share_le_share (more : amount ≤ larger) :
    share precision duration elapsed amount ≤ share precision duration elapsed larger :=
  Nat.div_le_div_right (Nat.mul_le_mul_left _ more)

/-- The shares of two parts are no more than the share of the whole. -/
theorem share_add_le (precision duration elapsed first second : Nat) :
    share precision duration elapsed first + share precision duration elapsed second ≤
      share precision duration elapsed (first + second) := by
  unfold share
  rw [Nat.mul_add]
  exact Nat.div_add_div_le_add_div

theorem share_le_exact (fine : 0 < precision) (some : 0 < duration) :
    share precision duration elapsed amount ≤ elapsed * amount / duration :=
  (Nat.le_div_iff_mul_le some).mpr (share_mul_le fine)

/-- An amount within the precision loses at most one token by the fixed point. -/
theorem exact_le_share_succ (fine : 0 < precision) (some : 0 < duration)
    (within : amount ≤ precision) :
    elapsed * amount / duration ≤ share precision duration elapsed amount + 1 := by
  have above := @lt_share_mul precision duration elapsed amount fine some
  apply Nat.le_of_lt_succ
  apply (Nat.div_lt_iff_lt_mul some).mpr
  apply Nat.lt_of_mul_lt_mul_right (a := precision)
  calc elapsed * amount * precision
      < (share precision duration elapsed amount + 1) * precision * duration +
          amount * duration := above
    _ ≤ (share precision duration elapsed amount + 1) * precision * duration +
          precision * duration := Nat.add_le_add_left (Nat.mul_le_mul_right _ within) _
    _ = (share precision duration elapsed amount + 1 + 1) * duration * precision := by ring

/-- At a precision no coarser than the steps of time, one more step makes up for any
rounding. -/
theorem share_le_share_of_fine (fine : 0 < precision) (further : elapsed < later)
    (some : 0 < duration) (steps : duration ≤ finer) :
    share precision duration elapsed amount ≤ share finer duration later amount := by
  have rest := Nat.div_add_mod (later * finer) duration
  have small := Nat.mod_lt (later * finer) some
  have enough : elapsed * finer ≤ later * finer / duration * duration := by
    have step : (elapsed + 1) * finer ≤ later * finer := Nat.mul_le_mul_right _ further
    rw [Nat.add_mul, Nat.one_mul] at step
    rw [Nat.mul_comm _ duration]
    omega
  apply (Nat.le_div_iff_mul_le (lt_of_lt_of_le some steps)).mpr
  apply Nat.le_of_mul_le_mul_right _ some
  calc share precision duration elapsed amount * finer * duration
      = share precision duration elapsed amount * duration * finer := Nat.mul_right_comm _ _ _
    _ ≤ elapsed * amount * finer := Nat.mul_le_mul_right _ (share_mul_le fine)
    _ = elapsed * finer * amount := Nat.mul_right_comm _ _ _
    _ ≤ later * finer / duration * duration * amount := Nat.mul_le_mul_right _ enough
    _ = later * finer / duration * amount * duration := Nat.mul_right_comm _ _ _

end Vesting

/-! An amount with a share of it on top, computed with a fixed-point factor -/

namespace Multiple

/-- The amount times one and `extra` units of `unit`, at a precision. -/
def scaled (precision unit extra amount : Nat) : Nat :=
  (extra * precision / unit + precision) * amount / precision

/-- The same, rounded down once. -/
def exact (unit extra amount : Nat) : Nat := amount * (unit + extra) / unit

variable {precision unit extra longer amount larger factor : Nat}

theorem scaled_eq (fine : 0 < precision) :
    scaled precision unit extra amount = amount + Vesting.share precision unit extra amount := by
  unfold scaled Vesting.share
  rw [Nat.add_mul, Nat.mul_comm precision amount, Nat.add_mul_div_right _ _ fine, Nat.add_comm]

theorem exact_eq (some : 0 < unit) : exact unit extra amount = amount + extra * amount / unit := by
  unfold exact
  rw [Nat.mul_add, Nat.mul_comm amount extra, Nat.add_comm, Nat.add_mul_div_right _ _ some,
    Nat.add_comm]

theorem scaled_le_exact (fine : 0 < precision) (some : 0 < unit) :
    scaled precision unit extra amount ≤ exact unit extra amount := by
  rw [scaled_eq fine, exact_eq some]
  exact Nat.add_le_add_left (Vesting.share_le_exact fine some) _

theorem exact_le_scaled_succ (fine : 0 < precision) (some : 0 < unit)
    (within : amount ≤ precision) :
    exact unit extra amount ≤ scaled precision unit extra amount + 1 := by
  rw [scaled_eq fine, exact_eq some, Nat.add_assoc]
  exact Nat.add_le_add_left (Vesting.exact_le_share_succ fine some within) _

theorem amount_le_scaled (fine : 0 < precision) : amount ≤ scaled precision unit extra amount := by
  rw [scaled_eq fine]
  exact Nat.le_add_right _ _

/-- An extra of so many units adds no more than so many times the amount. -/
theorem scaled_le_mul (fine : 0 < precision) (some : 0 < unit) (short : extra ≤ factor * unit) :
    scaled precision unit extra amount ≤ (factor + 1) * amount := by
  have growth : extra * amount / unit ≤ factor * amount := by
    apply Nat.div_le_of_le_mul
    calc extra * amount
        ≤ factor * unit * amount := Nat.mul_le_mul_right _ short
      _ = unit * (factor * amount) := by ring
  calc scaled precision unit extra amount
      ≤ exact unit extra amount := scaled_le_exact fine some
    _ = amount + extra * amount / unit := exact_eq some
    _ ≤ amount + factor * amount := Nat.add_le_add_left growth _
    _ = (factor + 1) * amount := by ring

theorem scaled_mono (fine : 0 < precision) (further : extra ≤ longer) (more : amount ≤ larger) :
    scaled precision unit extra amount ≤ scaled precision unit longer larger := by
  rw [scaled_eq fine, scaled_eq fine]
  apply Nat.add_le_add more
  exact (Vesting.share_mono further).trans (Vesting.share_le_share more)

/-- Splitting an amount adds nothing. -/
theorem scaled_add_le (fine : 0 < precision) (first second : Nat) :
    scaled precision unit extra first + scaled precision unit extra second ≤
      scaled precision unit extra (first + second) := by
  have shares := Vesting.share_add_le precision unit extra first second
  rw [scaled_eq fine, scaled_eq fine, scaled_eq fine]
  omega

end Multiple
