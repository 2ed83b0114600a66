import Nosana.SharePool
import Mathlib.Tactic.Ring

set_option autoImplicit false

/- How far the worth of points, which is rounded down twice, is from an exact share of the value.
The rate is the points that one unit of value is divided into, and a member's worth is how often
its points contain the rate. -/
namespace SharePool

open Share

section

variable {points total value : Nat}

/-- Rounding the rate down favours the member. -/
theorem share_le_quotient (positive : 0 < total / value) :
    points * value / total ≤ points / (total / value) := by
  have some : 0 < value := Nat.pos_of_ne_zero fun zero => by simp [zero] at positive
  have below : total / value * value ≤ total := Nat.div_mul_le_self _ _
  calc points * value / total
      ≤ points * value / (total / value * value) :=
        Nat.div_le_div_left below (Nat.mul_pos positive some)
    _ = points / (total / value) := Nat.mul_div_mul_right _ _ some

/-- At a rate of no less than the value, all points together are worth no more than the rate. -/
theorem quotient_le_rate (some : 0 < value) (large : value ≤ total / value)
    (part : points ≤ total) : points / (total / value) ≤ total / value := by
  have positive : 0 < total / value := lt_of_lt_of_le some large
  have whole : total < total / value * value + value := Nat.lt_div_mul_add some
  have square : (total / value + 1) * value ≤ (total / value + 1) * (total / value) :=
    Nat.mul_le_mul_left _ large
  rw [Nat.add_mul _ 1 value, Nat.one_mul] at square
  have below : points < (total / value + 1) * (total / value) := by omega
  exact Nat.le_of_lt_add_one ((Nat.div_lt_iff_lt_mul positive).mpr below)

/-- By no more than one unit, when the rate is no less than the value. -/
theorem quotient_le_share_succ (some : 0 < value) (large : value ≤ total / value)
    (part : points ≤ total) : points / (total / value) ≤ points * value / total + 1 := by
  have positive : 0 < total / value := lt_of_lt_of_le some large
  have all : 0 < total := lt_of_lt_of_le positive (Nat.div_le_self _ _)
  have whole : total < total / value * value + value := Nat.lt_div_mul_add some
  have few := quotient_le_rate some large part
  have contained : points / (total / value) * (total / value) ≤ points := Nat.div_mul_le_self _ _
  generalize total / value = rate at *
  generalize points / rate = worth at *
  rcases Nat.eq_zero_or_pos worth with rfl | bought
  · exact Nat.zero_le _
  · obtain ⟨less, rfl⟩ := Nat.exists_eq_add_of_le' bought
    apply Nat.add_le_add_right
    rw [Nat.le_div_iff_mul_le all]
    calc less * total
        ≤ less * (rate * value + value) := Nat.mul_le_mul_left _ whole.le
      _ = (less * rate + less) * value := by ring
      _ ≤ (less * rate + rate) * value := Nat.mul_le_mul_right _ (by omega)
      _ = (less + 1) * rate * value := by ring
      _ ≤ points * value := Nat.mul_le_mul_right _ contained

end

variable {κ α : Type} [DecidableEq κ] [Share α]

/-- The number of members. -/
def count (pool : SharePool κ α) : Nat := pool.members.keys.card

omit [DecidableEq κ] in
/-- Each member loses less than one unit to rounding. -/
theorem held_le_liability (pool : SharePool κ α) (positive : 0 < pool.rate) :
    pool.held ≤ pool.rate * (pool.liability + pool.count) := by
  have counted : pool.count = pool.members.total fun _ _ => 1 := by
    simp [count, Finmap.total, Finmap.keys, Multiset.keys]
  rw [counted, liability, ← Finmap.total_add, held, Finmap.total, Finmap.total,
    ← Multiset.sum_map_mul_left]
  apply Multiset.sum_map_le_sum_map
  intro entry _
  have rest := Nat.lt_mul_div_succ (points entry.2) positive
  exact rest.le

omit [DecidableEq κ] in
/-- What a settled rate leaves undistributed is less than one unit for each member. -/
theorem totalValue_le (pool : SharePool κ α) (known : pool.totalPoints = pool.held)
    (rated : pool.rate = pool.totalPoints / pool.totalValue) (positive : 0 < pool.rate) :
    pool.totalValue ≤ pool.liability + pool.count := by
  apply Nat.le_of_mul_le_mul_left _ positive
  calc pool.rate * pool.totalValue
      = pool.totalPoints / pool.totalValue * pool.totalValue := by rw [rated]
    _ ≤ pool.held := known ▸ Nat.div_mul_le_self _ _
    _ ≤ pool.rate * (pool.liability + pool.count) := pool.held_le_liability positive

omit [DecidableEq κ] in
/-- At a rate of no less than the value, more than the value is never promised. -/
theorem liability_le (pool : SharePool κ α) (known : pool.totalPoints = pool.held)
    (rated : pool.rate = pool.totalPoints / pool.totalValue) (some : 0 < pool.totalValue)
    (large : pool.totalValue ≤ pool.rate) : pool.liability ≤ pool.totalValue := by
  rw [rated] at large
  apply le_of_mul_quotient_le some large
  rw [liability, rated, known]
  exact total_worth_le _ pool.members

end SharePool
