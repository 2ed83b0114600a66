import Nosana.Machine
import Nosana.RewardsState
import Nosana.StakingState
import Nosana.Token

set_option autoImplicit false

/- The instructions of the rewards program, and the program as a machine. A stake account
belongs to the staking program and is read as its owner left it. -/
namespace Nosana.Rewards

open Checked

/-- The accounts the program owns, with the token accounts. There is one reflection account,
at an address derived from a constant. -/
structure State where
  reflection : Option ReflectionAccount
  rewards : Finmap fun _ : Pubkey => RewardAccount
  tokens : Tokens

namespace State

/-- An address the system program can still create an account at. -/
def Vacant (s : State) (key : Pubkey) : Prop :=
  ¬ (key = .rewardsReflection ∧ s.reflection.isSome = true) ∧ key ∉ s.rewards ∧ key ∉ s.tokens

instance (s : State) (key : Pubkey) : Decidable (s.Vacant key) :=
  inferInstanceAs (Decidable (_ ∧ _))

def loadReflection (s : State) (key : Pubkey) : Except Error ReflectionAccount := do
  require (key = .rewardsReflection) (.anchor .accountNotInitialized)
  get s.reflection (.anchor .accountNotInitialized)

def loadReward (s : State) (key : Pubkey) : Except Error RewardAccount :=
  get (s.rewards.lookup key) (.anchor .accountNotInitialized)

end State

namespace Accounts

structure Init where
  mint : Pubkey
  reflection : Pubkey
  vault : Pubkey
  authority : Pubkey

structure Enter where
  reflection : Pubkey
  stake : Staking.StakeAccount
  reward : Pubkey
  authority : Pubkey

structure AddFee where
  user : Pubkey
  reflection : Pubkey
  vault : Pubkey
  authority : Pubkey

structure Claim where
  user : Pubkey
  vault : Pubkey
  reflection : Pubkey
  reward : Pubkey
  stake : Staking.StakeAccount
  authority : Pubkey

structure Sync where
  reward : Pubkey
  stake : Staking.StakeAccount
  reflection : Pubkey

structure Close where
  reflection : Pubkey
  reward : Pubkey
  authority : Pubkey

end Accounts

/-- The vault signs with the seeds of its mint. -/
def transferFromVault (tokens : Tokens) (vault destination : Pubkey) (amount : Nat) :
    Except Error Tokens := do
  let account ← tokens.load vault
  require (vault = .rewardsVault account.mint) (.token .missingSignature)
  tokens.transfer vault destination vault amount

def init (s : State) (a : Accounts.Init) : Except Error State := do
  require (a.mint = id.nosToken) (.nosana .invalidMint)
  require (a.reflection = .rewardsReflection) (.anchor .constraintSeeds)
  require (s.Vacant a.reflection) .accountAlreadyInUse
  require (a.vault = .rewardsVault a.mint) (.anchor .constraintSeeds)
  require (s.Vacant a.vault) .accountAlreadyInUse
  return { s with
    reflection := some (ReflectionAccount.zeroed.init a.vault)
    tokens := s.tokens.insert a.vault (.holding a.mint a.vault 0) }

def enter (s : State) (a : Accounts.Enter) : Except Error State := do
  let reflection ← s.loadReflection a.reflection
  require (a.stake.authority = a.authority) (.nosana .unauthorized)
  require (a.stake.timeUnstake = 0) (.staking .alreadyUnstaked)
  require (a.reward = pda.nosanaRewards a.authority) (.anchor .constraintSeeds)
  require (s.Vacant a.reward) .accountAlreadyInUse
  let (points, added) ← reflection.addRewardsAccount a.stake.xnos 0
  return { s with
    reflection := some added
    rewards := s.rewards.insert a.reward
      (RewardAccount.zeroed.init a.authority points a.stake.xnos) }

def addFee (s : State) (a : Accounts.AddFee) (amount : Nat) : Except Error State := do
  let _ ← s.tokens.load a.user
  let reflection ← s.loadReflection a.reflection
  let _ ← s.tokens.load a.vault
  require (reflection.vault = a.vault) (.nosana .invalidVault)
  require (a.user ≠ a.vault) (.anchor .constraintDuplicateMutableAccount)
  let raised ← reflection.addFee amount
  let tokens ← s.tokens.transfer a.user a.vault a.authority amount
  return { s with reflection := some raised, tokens := tokens }

def claimConstraints (s : State) (a : Accounts.Claim) :
    Except Error (ReflectionAccount × RewardAccount) := do
  let _ ← s.tokens.load a.user
  let _ ← s.tokens.load a.vault
  let reflection ← s.loadReflection a.reflection
  let reward ← s.loadReward a.reward
  require (reflection.vault = a.vault) (.nosana .invalidVault)
  require (reward.authority = a.authority) (.nosana .unauthorized)
  require (a.stake.authority = a.authority) (.nosana .unauthorized)
  require (a.stake.timeUnstake = 0) (.staking .alreadyUnstaked)
  require (reward.xnos ≤ a.stake.xnos) (.staking .decreased)
  require (a.user ≠ a.vault) (.anchor .constraintDuplicateMutableAccount)
  return (reflection, reward)

/-- Pay the pending reward and enter the pool again with the current stake. -/
def claim (s : State) (a : Accounts.Claim) : Except Error State := do
  let (reflection, reward) ← claimConstraints s a
  let amount ← reward.getAmount reflection.rate
  if amount = 0 then
    return s
  else
    let tokens ← add 128 reward.xnos amount
    let removed ← reflection.removeRewardsAccount reward.reflection tokens
    let (points, added) ← removed.addRewardsAccount a.stake.xnos 0
    let payout ← narrow 64 amount
    let paid ← transferFromVault s.tokens a.vault a.user payout
    return { s with
      reflection := some added
      rewards := s.rewards.insert a.reward (reward.update points a.stake.xnos)
      tokens := paid }

/-- Enter the pool again with the current stake and the pending reward. -/
def sync (s : State) (a : Accounts.Sync) : Except Error State := do
  let reward ← s.loadReward a.reward
  let reflection ← s.loadReflection a.reflection
  require (a.stake.timeUnstake = 0) (.staking .alreadyUnstaked)
  require (a.stake.authority = reward.authority) (.nosana .unauthorized)
  let removed ← reflection.removeRewardsAccount reward.reflection reward.xnos
  let amount ← reward.getAmount removed.rate
  let (points, added) ← removed.addRewardsAccount a.stake.xnos amount
  return { s with
    reflection := some added
    rewards := s.rewards.insert a.reward (reward.update points a.stake.xnos) }

def close (s : State) (a : Accounts.Close) : Except Error State := do
  let reflection ← s.loadReflection a.reflection
  let reward ← s.loadReward a.reward
  require (reward.authority = a.authority) (.nosana .unauthorized)
  let removed ← reflection.removeRewardsAccount reward.reflection reward.xnos
  return { s with reflection := some removed, rewards := s.rewards.erase a.reward }

inductive Instruction
  | init (a : Accounts.Init)
  | enter (a : Accounts.Enter)
  | addFee (a : Accounts.AddFee) (amount : Nat)
  | claim (a : Accounts.Claim)
  | sync (a : Accounts.Sync)
  | close (a : Accounts.Close)

def process (s : State) : Instruction → Except Error State
  | .init a => init s a
  | .enter a => enter s a
  | .addFee a amount => addFee s a amount
  | .claim a => claim s a
  | .sync a => sync s a
  | .close a => close s a

/-- The vault of the pool, which only this program can sign for. -/
def isVault : Pubkey → Bool
  | .rewardsVault _ => true
  | _ => false

/-- One thing that happens on the chain: an instruction of this program, or any activity of
others in the token program. -/
inductive Action
  | instruction (ix : Instruction)
  | external (tokens : Tokens)

/-- A condition on additions of fees alone can be decided. -/
instance Action.decidableAddFee (condition : Accounts.AddFee → Nat → Prop)
    [∀ a amount, Decidable (condition a amount)] : (action : Action) →
      Decidable (match action with
        | .instruction (.addFee a amount) => condition a amount
        | _ => True)
  | .instruction (.addFee a amount) => inferInstanceAs (Decidable (condition a amount))
  | .instruction (.init _) | .instruction (.enter _) | .instruction (.claim _)
  | .instruction (.sync _) | .instruction (.close _) | .external _ =>
    inferInstanceAs (Decidable True)

def step (s : State) : Action → Except Error State
  | .instruction ix => process s ix
  | .external tokens => do
    require (Tokens.External isVault supplyCap s.tokens tokens) .notAdmissible
    return { s with tokens := tokens }

/-- The chain before the program is used. -/
structure Genesis (s : State) : Prop where
  reflection : s.reflection = none
  rewards : s.rewards = ∅
  vaults : ∀ key, isVault key = true → s.tokens.lookup key = none

abbrev Event := Machine.Event State Action

def run (s : State) (actions : List Action) : State := Machine.run step s actions

def trace (s : State) (actions : List Action) : List Event := Machine.trace step s actions

def reached (s : State) (actions : List Action) : List State := Machine.reached step s actions

/-! A small chain to run the program on: one staker and somebody who pays fees. -/
namespace Sample

def vault : Pubkey := .rewardsVault id.nosToken
def staker : Pubkey := .address 1
def payer : Pubkey := .address 2
def wallet (owner : Pubkey) : Pubkey := pda.associatedToken owner id.nosToken

def stake (xnos : Nat) : Staking.StakeAccount :=
  { Staking.StakeAccount.zeroed with authority := staker, xnos := xnos }

def start : State where
  reflection := none
  rewards := ∅
  tokens :=
    ((∅ : Tokens).insert (wallet staker) (.holding id.nosToken staker 0)).insert (wallet payer)
      (.holding id.nosToken payer 1000)

theorem genesis : Genesis start where
  reflection := rfl
  rewards := rfl
  vaults := by
    intro key vault
    cases key <;> first | contradiction | rfl

def run (actions : List Action) : State := Rewards.run start actions

def trace (actions : List Action) : List Event := Rewards.trace start actions

def init : Action := .instruction (.init ⟨id.nosToken, .rewardsReflection, vault, payer⟩)

def enter (xnos : Nat) : Action :=
  .instruction (.enter ⟨.rewardsReflection, stake xnos, pda.nosanaRewards staker, staker⟩)

def addFee (amount : Nat) : Action :=
  .instruction (.addFee ⟨wallet payer, .rewardsReflection, vault, payer⟩ amount)

def claim (xnos : Nat) : Action :=
  .instruction (.claim ⟨wallet staker, vault, .rewardsReflection, pda.nosanaRewards staker,
    stake xnos, staker⟩)

/-- A staker enters, a fee is paid, and the staker claims. -/
def rewarding : List Action := [init, enter 100, addFee 10, claim 100]

end Sample

end Nosana.Rewards
