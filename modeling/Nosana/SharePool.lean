import Nosana.Totals
import Mathlib.Algebra.BigOperators.Ring.Multiset
import Mathlib.Algebra.Ring.Nat

set_option autoImplicit false

/- A pool whose members hold points. Every point is worth one unit of value divided by the
rate; fees lower the rate and so raise the worth of all points at once. -/

/-- What a member of a pool holds: points, and the principal they were bought with. -/
class Share (α : Type) where
  points : α → Nat
  principal : α → Nat

structure SharePool (κ α : Type) where
  rate : Nat
  totalPoints : Nat
  totalValue : Nat
  members : Finmap fun _ : κ => α

namespace SharePool

open Share

variable {κ α : Type} [DecidableEq κ] [Share α]

/-- The value of a member's points. -/
def worth (rate : Nat) (member : α) : Nat := points member / rate

/-- The points that all members hold. -/
def held (pool : SharePool κ α) : Nat := pool.members.total fun _ member => points member

def principals (pool : SharePool κ α) : Nat := pool.members.total fun _ member => principal member

/-- The worth of all points. -/
def liability (pool : SharePool κ α) : Nat :=
  pool.members.total fun _ member => worth pool.rate member

/-- What one operation does to a pool, with what it pays in and what it pays out. -/
inductive Move (pool : SharePool κ α) : Nat → Nat → SharePool κ α → Prop
  | rest : Move pool 0 0 pool
  | join {key : κ} {member : α} (fresh : key ∉ pool.members)
      (bought : points member = principal member * pool.rate) :
      Move pool 0 0
        { pool with
          totalPoints := pool.totalPoints + points member
          totalValue := pool.totalValue + principal member
          members := pool.members.insert key member }
  | fee {amount : Nat} (some : 0 < pool.totalValue + amount) :
      Move pool amount 0
        { pool with
          rate := pool.totalPoints / (pool.totalValue + amount)
          totalValue := pool.totalValue + amount }
  | reenter {key : κ} {member again : α} {payout extra : Nat}
      (present : pool.members.lookup key = some member)
      (split : principal member + payout + extra = worth pool.rate member)
      (covered : principal member + payout ≤ pool.totalValue)
      (owned : points member ≤ pool.totalPoints)
      (bought : points again = (principal again + extra) * pool.rate) :
      Move pool 0 payout
        { pool with
          totalPoints := pool.totalPoints - points member + points again
          totalValue := pool.totalValue - (principal member + payout) + principal again
          members := pool.members.insert key again }
  | leave {key : κ} {member : α} (present : pool.members.lookup key = some member)
      (covered : principal member ≤ pool.totalValue) (owned : points member ≤ pool.totalPoints) :
      Move pool 0 0
        { pool with
          totalPoints := pool.totalPoints - points member
          totalValue := pool.totalValue - principal member
          members := pool.members.erase key }

section

variable {pool next : SharePool κ α} {paidIn paidOut : Nat}

/-- The points of the pool change as the points of its members do. -/
theorem Move.points_flow (move : Move pool paidIn paidOut next) :
    next.totalPoints + pool.held = pool.totalPoints + next.held := by
  cases move with
  | rest => rfl
  | fee => rfl
  | @join key member fresh =>
      have added := Finmap.total_insert_fresh (fun (_ : κ) (member : α) => points member)
        pool.members key member fresh
      simp only [SharePool.held]
      omega
  | @reenter key member again _ _ present _ _ owned =>
      have replaced := Finmap.total_insert (fun (_ : κ) (member : α) => points member)
        pool.members key member again present
      simp only [SharePool.held]
      omega
  | @leave key member present _ owned =>
      have removed := Finmap.total_erase (fun (_ : κ) (member : α) => points member)
        pool.members key member present
      simp only [SharePool.held]
      omega

/-- The pool knows how many points there are. -/
theorem Move.held (move : Move pool paidIn paidOut next) (known : pool.totalPoints = pool.held) :
    next.totalPoints = next.held := by
  have moved := move.points_flow
  omega

/-- Value that is not principal comes in and goes out with the payments only. -/
theorem Move.flow (move : Move pool paidIn paidOut next) :
    next.totalValue + pool.principals + paidOut = pool.totalValue + next.principals + paidIn := by
  cases move with
  | rest => rfl
  | fee =>
      show pool.totalValue + paidIn + pool.principals + 0 =
        pool.totalValue + pool.principals + paidIn
      omega
  | @join key member fresh =>
      have added := Finmap.total_insert_fresh (fun (_ : κ) (member : α) => principal member)
        pool.members key member fresh
      simp only [principals]
      omega
  | @reenter key member again _ _ present _ covered =>
      have replaced := Finmap.total_insert (fun (_ : κ) (member : α) => principal member)
        pool.members key member again present
      simp only [principals]
      omega
  | @leave key member present covered =>
      have removed := Finmap.total_erase (fun (_ : κ) (member : α) => principal member)
        pool.members key member present
      simp only [principals]
      omega

end

/-! Coverage -/

/-- Every member's points are worth its principal. -/
def Covered (pool : SharePool κ α) : Prop :=
  ∀ key member, pool.members.lookup key = some member → principal member * pool.rate ≤ points member

/-- What the members can take out of the value at a rate of at most one. -/
def outstanding (pool : SharePool κ α) : Nat :=
  pool.members.total fun _ member => max (principal member) (points member)

/-- The members are covered, or the rate is zero and there is too much value for it ever to
become positive again. -/
def Settled (pool : SharePool κ α) : Prop :=
  (0 < pool.rate ∧ pool.Covered) ∨ (pool.rate = 0 ∧ pool.outstanding < pool.totalValue)

section

variable {pool next : SharePool κ α} {paidIn paidOut : Nat}

/-- Members stay covered when the rate is not raised. -/
theorem Move.covered (move : Move pool paidIn paidOut next) (covered : pool.Covered)
    (lowered : next.rate ≤ pool.rate) : next.Covered := by
  cases move with
  | rest => exact covered
  | fee =>
      intro key member present
      exact (Nat.mul_le_mul_left _ lowered).trans (covered key member present)
  | join fresh bought =>
      intro key member present
      rcases Finmap.lookup_insert_eq_some present with ⟨-, rfl⟩ | ⟨-, earlier⟩
      · exact le_of_eq bought.symm
      · exact covered key member earlier
  | reenter present split paid owned bought =>
      intro key member inside
      rcases Finmap.lookup_insert_eq_some inside with ⟨-, rfl⟩ | ⟨-, earlier⟩
      · rw [bought]
        exact Nat.mul_le_mul_right _ (Nat.le_add_right _ _)
      · exact covered key member earlier
  | leave =>
      intro key member inside
      exact covered key member (Finmap.lookup_erase_eq_some inside).2

omit [DecidableEq κ] in
theorem held_le_outstanding (pool : SharePool κ α) : pool.held ≤ pool.outstanding := by
  apply Multiset.sum_map_le_sum_map
  intro entry _
  exact le_max_right _ _

/-- At a positive rate the members of a covered pool can take out their points at most. -/
theorem Covered.outstanding_eq (covered : pool.Covered) (positive : 0 < pool.rate) :
    pool.outstanding = pool.held := by
  apply Finmap.total_congr
  intro key member present
  apply max_eq_right
  calc principal member
      = principal member * 1 := (Nat.mul_one _).symm
    _ ≤ principal member * pool.rate := Nat.mul_le_mul_left _ positive
    _ ≤ points member := covered key member present

/-- A rate of zero stays zero. -/
theorem Move.settled_of_zero (move : Move pool paidIn paidOut next)
    (known : pool.totalPoints = pool.held) (zero : pool.rate = 0)
    (exceeds : pool.outstanding < pool.totalValue) :
    next.rate = 0 ∧ next.outstanding < next.totalValue := by
  have below := pool.held_le_outstanding
  cases move with
  | rest => exact ⟨zero, exceeds⟩
  | fee =>
      refine ⟨Nat.div_eq_of_lt ?_, Nat.lt_add_right _ exceeds⟩
      omega
  | @join key member fresh bought =>
      have added := Finmap.total_insert_fresh
        (fun (_ : κ) (member : α) => max (principal member) (points member)) pool.members key member
        fresh
      refine ⟨zero, ?_⟩
      rw [zero, Nat.mul_zero] at bought
      rw [bought, Nat.max_zero] at added
      show Finmap.total _ (pool.members.insert key member) < pool.totalValue + principal member
      rw [added, Nat.add_comm]
      exact Nat.add_lt_add_right exceeds _
  | @reenter key member again _ extra present split paid owned bought =>
      have replaced := Finmap.total_insert
        (fun (_ : κ) (member : α) => max (principal member) (points member)) pool.members key member
        again present
      refine ⟨zero, ?_⟩
      rw [zero, Nat.mul_zero] at bought
      rw [worth, zero, Nat.div_zero] at split
      rw [bought, Nat.max_zero] at replaced
      show Finmap.total _ (pool.members.insert key again) <
        pool.totalValue - (principal member + paidOut) + principal again
      unfold outstanding at exceeds
      omega
  | @leave key member present paid owned =>
      have removed := Finmap.total_erase
        (fun (_ : κ) (member : α) => max (principal member) (points member)) pool.members key member
        present
      refine ⟨zero, ?_⟩
      show Finmap.total _ (pool.members.erase key) < pool.totalValue - principal member
      have part := le_max_left (principal member) (points member)
      unfold outstanding at exceeds
      omega

/-- A pool stays settled as long as no fee raises a positive rate. -/
theorem Move.settled (move : Move pool paidIn paidOut next)
    (known : pool.totalPoints = pool.held) (settled : pool.Settled)
    (lowered : 0 < pool.rate → next.rate ≤ pool.rate) : next.Settled := by
  rcases settled with ⟨positive, covered⟩ | ⟨zero, exceeds⟩
  · have still := move.covered covered (lowered positive)
    rcases Nat.eq_zero_or_pos next.rate with zero | above
    · cases move with
      | fee some =>
          refine Or.inr ⟨zero, ?_⟩
          have all : pool.outstanding = pool.held := covered.outstanding_eq positive
          have small := Nat.lt_of_div_eq_zero some zero
          rw [known, ← all] at small
          exact small
      | _ => exact absurd zero (Nat.ne_of_gt positive)
    · exact Or.inl ⟨above, still⟩
  · exact Or.inr (move.settled_of_zero known zero exceeds)

end

section

variable {pool next : SharePool κ α} {paidIn paidOut : Nat}

/-- The rate of a settled pool only falls when no fee raises it while it is positive. -/
theorem Move.lowered (move : Move pool paidIn paidOut next) (known : pool.totalPoints = pool.held)
    (settled : pool.Settled) (kept : 0 < pool.rate → next.rate ≤ pool.rate) :
    next.rate ≤ pool.rate := by
  rcases settled with ⟨positive, -⟩ | ⟨zero, exceeds⟩
  · exact kept positive
  · rw [(move.settled_of_zero known zero exceeds).1]
    exact Nat.zero_le _

end

/-! Limits -/

/-- The value is limited, the rate has not passed its first value, and the points exceed the
rate times the value by no more than a fee's division can leave. -/
def Room (top cap rate points value : Nat) : Prop :=
  value ≤ cap ∧
    ((rate = top ∧ points ≤ top * value) ∨ (rate < top ∧ points ≤ rate * value + cap))

def Capped (top cap : Nat) (pool : SharePool κ α) : Prop :=
  Room top cap pool.rate pool.totalPoints pool.totalValue

section

variable {top cap rate held value more : Nat}

/-- So there are never more points than the limit buys at the first rate. -/
theorem Room.points_le (room : Room top cap rate held value) : held ≤ top * cap := by
  obtain ⟨small, ⟨-, bounded⟩ | ⟨lower, bounded⟩⟩ := room
  · exact bounded.trans (Nat.mul_le_mul_left _ small)
  · calc held
        ≤ rate * value + cap := bounded
      _ ≤ rate * cap + cap := Nat.add_le_add_right (Nat.mul_le_mul_left _ small) _
      _ = (rate + 1) * cap := (Nat.succ_mul _ _).symm
      _ ≤ top * cap := Nat.mul_le_mul_right _ lower

theorem Room.add (room : Room top cap rate held value) (fits : value + more ≤ cap) :
    Room top cap rate (held + more * rate) (value + more) := by
  obtain ⟨-, ⟨rfl, bounded⟩ | ⟨lower, bounded⟩⟩ := room
  · refine ⟨fits, Or.inl ⟨rfl, ?_⟩⟩
    rw [Nat.mul_add, Nat.mul_comm more]
    exact Nat.add_le_add_right bounded _
  · refine ⟨fits, Or.inr ⟨lower, ?_⟩⟩
    rw [Nat.mul_add, Nat.mul_comm more]
    omega

theorem Room.take {gone : Nat} (room : Room top cap rate held value) (paid : more ≤ value)
    (worth : more * rate ≤ gone) : Room top cap rate (held - gone) (value - more) := by
  obtain ⟨small, bounds⟩ := room
  have split : rate * value = rate * (value - more) + more * rate := by
    rw [Nat.mul_comm more, ← Nat.mul_add, Nat.sub_add_cancel paid]
  refine ⟨(Nat.sub_le _ _).trans small, ?_⟩
  rcases bounds with ⟨rfl, bounded⟩ | ⟨lower, bounded⟩
  · exact Or.inl ⟨rfl, by omega⟩
  · exact Or.inr ⟨lower, by omega⟩

theorem Room.fee (room : Room top cap rate held value) (fits : value + more ≤ cap)
    (some : 0 < value + more) (lowered : held / (value + more) ≤ rate) :
    Room top cap (held / (value + more)) held (value + more) := by
  have whole := Nat.div_add_mod held (value + more)
  have rest := Nat.mod_lt held some
  refine ⟨fits, ?_⟩
  rcases room.2 with ⟨rfl, bounded⟩ | ⟨lower, -⟩
  · rcases Nat.eq_or_lt_of_le lowered with same | lower
    · exact Or.inl ⟨same, bounded.trans (Nat.mul_le_mul_left _ (Nat.le_add_right _ _))⟩
    · refine Or.inr ⟨lower, ?_⟩
      rw [Nat.mul_comm]
      omega
  · refine Or.inr ⟨lt_of_le_of_lt lowered lower, ?_⟩
    rw [Nat.mul_comm]
    omega

/-- What is left after an account has given up its points and got some of them back. -/
theorem Room.exchange {gone back : Nat} (room : Room top cap rate held value)
    (paid : more ≤ value) (owned : gone ≤ held) (worth : (more + back) * rate ≤ gone) :
    Room top cap rate (held - gone + back * rate) (value - more) := by
  rw [Nat.add_mul] at worth
  have rest : held - gone + back * rate = held - (gone - back * rate) := by omega
  rw [rest]
  exact room.take paid (by omega)

end

section

variable {pool next : SharePool κ α} {paidIn paidOut top cap : Nat}

theorem Settled.principal_mul_le (settled : pool.Settled) {key : κ} {member : α}
    (present : pool.members.lookup key = some member) :
    principal member * pool.rate ≤ points member := by
  rcases settled with ⟨-, covered⟩ | ⟨zero, -⟩
  · exact covered key member present
  · rw [zero, Nat.mul_zero]
    exact Nat.zero_le _

/-- The limits are kept while the value stays within its own and no fee raises the rate. -/
theorem Move.capped (move : Move pool paidIn paidOut next) (settled : pool.Settled)
    (capped : pool.Capped top cap) (within : next.totalValue ≤ cap)
    (lowered : next.rate ≤ pool.rate) : next.Capped top cap := by
  cases move with
  | rest => exact capped
  | fee some => exact Room.fee capped within some lowered
  | @join key member fresh bought =>
      show Room top cap pool.rate (pool.totalPoints + points member) _
      rw [bought]
      exact Room.add capped within
  | @reenter key member again _ extra present split paid owned bought =>
      show Room top cap pool.rate (pool.totalPoints - points member + points again) _
      rw [bought, Nat.add_comm (principal again), Nat.add_mul, ← Nat.add_assoc]
      apply Room.add (Room.exchange capped paid owned _) within
      rw [split]
      exact Nat.div_mul_le_self _ _
  | leave present paid owned =>
      exact Room.take capped paid (settled.principal_mul_le present)

end

/-! Solvency -/

/-- Every member's points are worth its principal, and the pool's value covers the worth of
all points. -/
structure Solvent (pool : SharePool κ α) : Prop where
  positive : 0 < pool.rate
  covered : ∀ key member, pool.members.lookup key = some member →
    principal member * pool.rate ≤ points member
  backed : pool.liability ≤ pool.totalValue

omit [DecidableEq κ] in
/-- The worth of all points at a rate is at most the worth of their sum. -/
theorem total_worth_le (rate : Nat) (members : Finmap fun _ : κ => α) :
    (members.total fun _ member => worth rate member) * rate ≤
      members.total fun _ member => points member := by
  unfold Finmap.total worth
  rw [← Multiset.sum_map_mul_right]
  apply Multiset.sum_map_le_sum_map
  intro entry _
  exact Nat.div_mul_le_self _ _

/-- A quotient of at least its divisor leaves a remainder too small to buy one more unit. -/
theorem le_of_mul_quotient_le {total value worth : Nat} (some : 0 < value)
    (large : value ≤ total / value) (bounded : worth * (total / value) ≤ total) :
    worth ≤ value := by
  have whole := Nat.div_add_mod total value
  have rest := Nat.mod_lt total some
  by_contra more
  have above : (value + 1) * (total / value) ≤ worth * (total / value) :=
    Nat.mul_le_mul_right _ (by omega)
  rw [Nat.add_mul, Nat.one_mul] at above
  omega

section

variable {pool next : SharePool κ α} {paidIn paidOut : Nat}

theorem worth_of_points {rate amount : Nat} {member : α} (positive : 0 < rate)
    (bought : points member = amount * rate) : worth rate member = amount := by
  unfold worth
  rw [bought, Nat.mul_div_cancel amount positive]

theorem Solvent.principal_le_worth (solvent : pool.Solvent) {key : κ} {member : α}
    (present : pool.members.lookup key = some member) :
    principal member ≤ worth pool.rate member :=
  (Nat.le_div_iff_mul_le solvent.positive).mpr (solvent.covered key member present)

/-- No member's points are worth more than the pool's value. -/
theorem Solvent.worth_le_value (solvent : pool.Solvent) {key : κ} {member : α}
    (present : pool.members.lookup key = some member) :
    worth pool.rate member ≤ pool.totalValue := by
  have part := Finmap.le_total (fun (_ : κ) (member : α) => worth pool.rate member) pool.members
    key member present fun _ _ _ => Nat.zero_le _
  exact part.trans solvent.backed

/-- A fee keeps a pool solvent when it leaves the rate as it is, or lowers it to no less than
the value. -/
theorem Solvent.fee {amount : Nat} (solvent : pool.Solvent) (known : pool.totalPoints = pool.held)
    (some : 0 < pool.totalValue + amount)
    (tame : pool.totalPoints / (pool.totalValue + amount) = pool.rate ∨
      (pool.totalPoints / (pool.totalValue + amount) ≤ pool.rate ∧
        pool.totalValue + amount ≤ pool.totalPoints / (pool.totalValue + amount))) :
    Solvent { pool with
      rate := pool.totalPoints / (pool.totalValue + amount)
      totalValue := pool.totalValue + amount } := by
  have ⟨positive, covered, backed⟩ := solvent
  rcases tame with same | ⟨lowered, large⟩
  · rw [same]
    exact ⟨positive, covered, backed.trans (Nat.le_add_right _ _)⟩
  · refine ⟨lt_of_lt_of_le some large, fun key member present => ?_, ?_⟩
    · exact (Nat.mul_le_mul_left _ lowered).trans (covered key member present)
    · apply le_of_mul_quotient_le some large
      rw [known]
      exact total_worth_le _ pool.members

/-- A pool stays solvent when a fee leaves the rate as it is, or lowers it to no less than
the value. -/
theorem Move.solvent (move : Move pool paidIn paidOut next)
    (known : pool.totalPoints = pool.held) (solvent : pool.Solvent)
    (tame : next.rate = pool.rate ∨ (next.rate ≤ pool.rate ∧ next.totalValue ≤ next.rate)) :
    next.Solvent := by
  have ⟨positive, covered, backed⟩ := solvent
  have still : next.Covered := by
    apply move.covered covered
    rcases tame with same | ⟨lowered, -⟩
    · exact le_of_eq same
    · exact lowered
  cases move with
  | rest => exact solvent
  | fee some => exact solvent.fee known some tame
  | @join key member fresh bought =>
      have added := Finmap.total_insert_fresh (fun (_ : κ) (member : α) => worth pool.rate member)
        pool.members key member fresh
      refine ⟨positive, still, ?_⟩
      show ((pool.members.insert key member).total fun _ member => worth pool.rate member) ≤
        pool.totalValue + principal member
      rw [added, worth_of_points positive bought]
      have whole := backed
      simp only [liability] at whole
      omega
  | @reenter key member again _ extra present split paid owned bought =>
      have replaced := Finmap.total_insert
        (fun (_ : κ) (member : α) => worth pool.rate member) pool.members key member again present
      have fresh := worth_of_points positive bought
      refine ⟨positive, still, ?_⟩
      show ((pool.members.insert key again).total fun _ member => worth pool.rate member) ≤
        pool.totalValue - (principal member + paidOut) + principal again
      have whole := backed
      simp only [liability] at whole
      omega
  | @leave key member present paid owned =>
      have removed := Finmap.total_erase (fun (_ : κ) (member : α) => worth pool.rate member)
        pool.members key member present
      have below := solvent.principal_le_worth present
      refine ⟨positive, still, ?_⟩
      show ((pool.members.erase key).total fun _ member => worth pool.rate member) ≤
        pool.totalValue - principal member
      have whole := backed
      simp only [liability] at whole
      omega

end

end SharePool
