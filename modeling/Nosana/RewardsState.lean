import Nosana.Accounts

set_option autoImplicit false

/- The accounts of the rewards program. All amounts are `u128`, and every operation on them
is checked. -/
namespace Nosana.Rewards

open Checked

/-- `u128::MAX` -/
def u128Max : Nat := 2 ^ 128 - 1

/-- The reflection pool. -/
structure ReflectionAccount where
  rate : Nat
  totalReflection : Nat
  totalXnos : Nat
  vault : Pubkey
  deriving DecidableEq, Repr

namespace ReflectionAccount

/-- As large as it can be, rounded down to a multiple of the total supply. -/
def initialRate : Nat :=
  (u128Max - u128Max % constants.nosTotalSupply) / constants.nosTotalSupply

theorem initialRate_pos : 0 < initialRate := by decide

/-- The zeroed account that `init` fills. -/
def zeroed : ReflectionAccount := ⟨0, 0, 0, id.systemProgram⟩

def init (self : ReflectionAccount) (vault : Pubkey) : ReflectionAccount :=
  { self with rate := initialRate, totalReflection := 0, totalXnos := 0, vault := vault }

def addFee (self : ReflectionAccount) (fee : Nat) : Except Error ReflectionAccount := do
  let totalXnos ← add 128 self.totalXnos fee
  let rate ← div self.totalReflection totalXnos
  return { self with totalXnos := totalXnos, rate := rate }

/-- The reflection that an account gets for its tokens and its pending rewards. -/
def addRewardsAccount (self : ReflectionAccount) (xnos rewardXnos : Nat) :
    Except Error (Nat × ReflectionAccount) := do
  let tokens ← add 128 xnos rewardXnos
  let reflection ← mul 128 tokens self.rate
  let totalReflection ← add 128 self.totalReflection reflection
  let totalXnos ← add 128 self.totalXnos xnos
  return (reflection, { self with totalReflection := totalReflection, totalXnos := totalXnos })

def removeRewardsAccount (self : ReflectionAccount) (reflection xnos : Nat) :
    Except Error ReflectionAccount := do
  let totalXnos ← sub self.totalXnos xnos
  let totalReflection ← sub self.totalReflection reflection
  return { self with totalReflection := totalReflection, totalXnos := totalXnos }

end ReflectionAccount

structure RewardAccount where
  authority : Pubkey
  reflection : Nat
  xnos : Nat
  deriving DecidableEq, Repr

namespace RewardAccount

/-- The zeroed account that `init` fills. -/
def zeroed : RewardAccount := ⟨id.systemProgram, 0, 0⟩

def init (self : RewardAccount) (authority : Pubkey) (reflection tokens : Nat) : RewardAccount :=
  { self with authority := authority, reflection := reflection, xnos := tokens }

def update (self : RewardAccount) (reflection xnos : Nat) : RewardAccount :=
  { self with reflection := reflection, xnos := xnos }

def getAmount (self : RewardAccount) (rate : Nat) : Except Error Nat := do
  let tokens ← div self.reflection rate
  sub tokens self.xnos

end RewardAccount

end Nosana.Rewards
