import Nosana.Accounts

set_option autoImplicit false

/- The accounts of the staking program. Amounts are `u64`, `xnos` is `u128` and
times are `i64`; every operation on them is checked. -/
namespace Nosana.Staking

open Checked

structure SettingsAccount where
  authority : Pubkey
  tokenAccount : Pubkey
  deriving DecidableEq, Repr

structure StakeAccount where
  amount : Nat
  authority : Pubkey
  duration : Nat
  timeUnstake : Int
  vault : Pubkey
  xnos : Nat
  deriving DecidableEq, Repr

namespace StakeAccount

def stakeMinimum : Nat := 0
def secondsPerDay : Nat := 24 * 60 * 60
def durationMin : Nat := 14 * secondsPerDay
def durationMax : Nat := 365 * secondsPerDay
def xnosPrecision : Nat := 10 ^ 15
def xnosDiv : Nat := 4 * durationMax / 12

/-- `u64::MAX` -/
def u64Max : Nat := 2 ^ 64 - 1

/-- The zeroed account that `init` fills. -/
def zeroed : StakeAccount := ⟨0, id.systemProgram, 0, 0, id.systemProgram, 0⟩

def updateXnos (self : StakeAccount) : Except Error StakeAccount := do
  if self.timeUnstake ≠ 0 then
    return { self with xnos := 0 }
  else
    let scaled ← mul 128 self.duration xnosPrecision
    let growth ← div scaled xnosDiv
    let factor ← add 128 growth xnosPrecision
    let weighted ← mul 128 factor self.amount
    let xnos ← div weighted xnosPrecision
    return { self with xnos := xnos }

def init (self : StakeAccount) (amount : Nat) (authority : Pubkey) (duration : Nat)
    (vault : Pubkey) : Except Error StakeAccount :=
  updateXnos { self with
    amount := amount, authority := authority, duration := duration, timeUnstake := 0,
    vault := vault }

def unstake (self : StakeAccount) (now : Int) : Except Error StakeAccount :=
  updateXnos { self with timeUnstake := now }

def restake (self : StakeAccount) (amount : Nat) : Except Error StakeAccount :=
  updateXnos { self with amount := amount, timeUnstake := 0 }

/-- The tokens that can be taken out now: the vested part of the amount, less what
has left the vault. -/
def withdraw (self : StakeAccount) (balance : Nat) (now : Int) : Except Error Nat := do
  let since ← subSigned 64 now self.timeUnstake
  let elapsed ← toUnsigned 64 since
  if self.duration ≤ elapsed then
    return balance
  else
    let quotient ← div u64Max (max self.amount elapsed)
    let precision ← sub quotient 1
    let scaled ← mul 64 elapsed precision
    let share ← div scaled self.duration
    let weighted ← mul 64 share self.amount
    let released ← div weighted precision
    let withdrawn ← sub self.amount balance
    sub released withdrawn

def topup (self : StakeAccount) (amount : Nat) : Except Error StakeAccount := do
  let total ← add 64 self.amount amount
  updateXnos { self with amount := total }

def slash (self : StakeAccount) (amount : Nat) : Except Error StakeAccount := do
  let rest ← sub self.amount amount
  updateXnos { self with amount := rest }

def extend (self : StakeAccount) (duration : Nat) : Except Error StakeAccount := do
  let total ← add 64 self.duration duration
  updateXnos { self with duration := total }

end StakeAccount

end Nosana.Staking
