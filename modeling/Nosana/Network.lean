import Nosana.RewardsProgram
import Nosana.StakingLifecycle

set_option autoImplicit false

/- The staking program and the rewards program on one chain. Each reads the accounts of the
other: an instruction of the rewards program takes a stake as the staking program left it,
and a stake is only unstaked when the rewards program keeps no account for its authority. -/
namespace Nosana

namespace Rewards

/-- The stake that an instruction reads. -/
def Instruction.stake : Instruction → Option Staking.StakeAccount
  | .enter a => some a.stake
  | .claim a => some a.stake
  | .sync a => some a.stake
  | _ => none

/-- Who signs an instruction; anybody can send a `sync`. -/
def Instruction.signer : Instruction → Option Pubkey
  | .init a => some a.authority
  | .enter a => some a.authority
  | .addFee a _ => some a.authority
  | .claim a => some a.authority
  | .sync _ => none
  | .close a => some a.authority

/-- The first bytes of a reward account. -/
def RewardAccount.discriminator : List UInt8 := [225, 81, 31, 253, 84, 234, 171, 129]

end Rewards

namespace Network

open Checked

/-- The token accounts and the clock are part of the staking program's state. -/
structure State where
  staking : Staking.State
  reflection : Option Rewards.ReflectionAccount
  rewards : Finmap fun _ : Pubkey => Rewards.RewardAccount

namespace State

/-- The chain as the rewards program sees it. -/
def pool (s : State) : Rewards.State := ⟨s.reflection, s.rewards, s.staking.tokens⟩

def withPool (s : State) (pool : Rewards.State) : State where
  staking := { s.staking with tokens := pool.tokens }
  reflection := pool.reflection
  rewards := pool.rewards

/-- A reward account that is passed to another program is owned by the rewards program and
starts with its discriminator. About other accounts nothing is said. -/
def Shows (s : State) (info : AccountInfo) : Prop :=
  info.key ∈ s.rewards → info.owner = id.rewardsProgram ∧
    info.data.take 8 = Rewards.RewardAccount.discriminator

instance (s : State) (info : AccountInfo) : Decidable (s.Shows info) :=
  inferInstanceAs (Decidable (_ → _))

end State

/-- The vaults of both programs, which nobody else signs for. -/
def isVault (key : Pubkey) : Bool := Staking.isVault key || Rewards.isVault key

/-- One thing that happens on the chain: an instruction of either program, where one of the
rewards program names the stake account it reads, the clock moving on, or any activity of
others in the token program. -/
inductive Action
  | staking (ix : Staking.Instruction)
  | rewards (stake : Pubkey) (ix : Rewards.Instruction)
  | tick (now : Int)
  | external (tokens : Tokens)

/-- An instruction sees the accounts as they are on the chain. -/
def Faithful (s : State) : Action → Prop
  | .staking (.unstake a) => s.Shows a.reward
  | .rewards key ix => ∀ stake ∈ ix.stake, s.staking.stakes.lookup key = some stake
  | _ => True

instance (s : State) (action : Action) : Decidable (Faithful s action) := by
  unfold Faithful
  split <;> infer_instance

/-- No vault signs. -/
def SignedByUsers : Action → Prop
  | .staking ix => isVault ix.authority = false
  | .rewards _ ix => ∀ signer ∈ ix.signer, isVault signer = false
  | _ => True

instance (action : Action) : Decidable (SignedByUsers action) := by
  unfold SignedByUsers
  split <;> infer_instance

def process (s : State) : Action → Except Error State
  | .staking ix => do
    let staking ← Staking.process s.staking ix
    return { s with staking := staking }
  | .rewards _ ix => do
    let pool ← Rewards.process s.pool ix
    return s.withPool pool
  | .tick now => do
    require (s.staking.clock ≤ now ∧ Signed 64 now) .notAdmissible
    return { s with staking := { s.staking with clock := now } }
  | .external tokens => do
    require (Tokens.External isVault constants.nosTotalSupply s.staking.tokens tokens)
      .notAdmissible
    return { s with staking := { s.staking with tokens := tokens } }

def step (s : State) (action : Action) : Except Error State := do
  require (Faithful s action ∧ SignedByUsers action) .notAdmissible
  process s action

/-- The chain before the programs are used. -/
structure Genesis (s : State) : Prop where
  staking : Staking.Genesis s.staking
  rewards : Rewards.Genesis s.pool

abbrev Event := Machine.Event State Action

def run (s : State) (actions : List Action) : State := Machine.run step s actions

def trace (s : State) (actions : List Action) : List Event := Machine.trace step s actions

def reached (s : State) (actions : List Action) : List State := Machine.reached step s actions

/-! A small chain to run the programs on: one staker, who owns all tokens. -/
namespace Sample

def staker : Pubkey := .address 1
def wallet : Pubkey := pda.associatedToken staker id.nosToken
def vault : Pubkey := .stakingVault id.nosToken staker
def account : Pubkey := pda.nosanaStaking staker
def reward : Pubkey := pda.nosanaRewards staker

def start : State where
  staking :=
    { settings := none
      stakes := ∅
      tokens := (∅ : Tokens).insert wallet (.holding id.nosToken staker constants.nosTotalSupply)
      clock := 100 }
  reflection := none
  rewards := ∅

theorem genesis : Genesis start where
  staking :=
    { settings := rfl
      stakes := rfl
      vaults := by
        intro key vault
        cases key <;> first | contradiction | rfl
      tokens := by decide +kernel
      clock := by decide }
  rewards :=
    { reflection := rfl
      rewards := rfl
      vaults := by
        intro key vault
        cases key <;> first | contradiction | rfl }

def init : Action :=
  .rewards account (.init ⟨id.nosToken, .rewardsReflection, .rewardsVault id.nosToken, staker⟩)

def stake (amount duration : Nat) : Action :=
  .staking (.stake ⟨id.nosToken, wallet, vault, account, staker⟩ amount duration)

/-- The stake as the program leaves it when it is made. -/
def staked (amount duration xnos : Nat) : Staking.StakeAccount :=
  ⟨amount, staker, duration, 0, vault, xnos⟩

def enter (stake : Staking.StakeAccount) : Action :=
  .rewards account (.enter ⟨.rewardsReflection, stake, reward, staker⟩)

def close : Action := .rewards account (.close ⟨.rewardsReflection, reward, staker⟩)

/-- The reward account is passed as the rewards program keeps it, or as it is once closed. -/
def unstake (closed : Bool) : Action :=
  .staking (.unstake ⟨account,
    if closed then ⟨reward, id.systemProgram, 0, []⟩
    else ⟨reward, id.rewardsProgram, 1, Rewards.RewardAccount.discriminator⟩, staker⟩)

/-- A stake that is in the rewards pool is only unstaked after it has left. -/
def leaving : List Action :=
  [init, stake 600 Staking.StakeAccount.durationMin,
    enter (staked 600 Staking.StakeAccount.durationMin 669), unstake false, close, unstake true]

/-- Half of the supply is staked for a year, and the stake enters the rewards pool, where it
weighs twice the supply. -/
def weighty : List Action :=
  [init, stake (constants.nosTotalSupply / 2) Staking.StakeAccount.durationMax]

def heavyEntry : Action :=
  enter (staked (constants.nosTotalSupply / 2) Staking.StakeAccount.durationMax
    (2 * constants.nosTotalSupply))

end Sample

end Network

end Nosana
