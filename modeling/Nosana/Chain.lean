import Nosana.NodesProgram
import Nosana.Spending

set_option autoImplicit false

/- All programs on one chain. They share the token accounts and the clock, the jobs program reads
the stakes of nodes, and the pools program calls the rewards program. -/
namespace Nosana

/-- The stake account that an instruction reads, with its address. -/
def Jobs.Instruction.reads : Instruction → Option (Pubkey × Staking.StakeAccount)
  | .work a => some (a.stake, a.stakeAccount)
  | _ => none

namespace Chain

open Checked

/-- The accounts of the programs. The token accounts and the clock are part of the network. -/
structure State where
  network : Network.State
  markets : Finmap fun _ : Pubkey => Jobs.MarketAccount
  settings : Finmap fun _ : Pubkey => Jobs.MarketSettingsAccount
  jobs : Finmap fun _ : Pubkey => Jobs.JobAccount
  runs : Finmap fun _ : Pubkey => Jobs.RunAccount
  pools : Finmap fun _ : Pubkey => Pools.PoolAccount
  nodes : Nodes.State

namespace State

def tokens (s : State) : Tokens := s.network.staking.tokens

def clock (s : State) : Int := s.network.staking.clock

/-- The chain as the jobs program sees it. -/
def board (s : State) : Jobs.State := ⟨s.markets, s.settings, s.jobs, s.runs, s.tokens, s.clock⟩

def withBoard (s : State) (board : Jobs.State) : State :=
  { s with
    network := { s.network with staking := { s.network.staking with tokens := board.tokens } }
    markets := board.markets
    settings := board.settings
    jobs := board.jobs
    runs := board.runs }

/-- The chain as the pools program sees it. -/
def emission (s : State) : Pools.State := ⟨s.pools, s.network.pool, s.clock⟩

def withEmission (s : State) (emission : Pools.State) : State :=
  { s with network := s.network.withPool emission.rewards, pools := emission.pools }

def withTokens (s : State) (tokens : Tokens) : State :=
  { s with network := { s.network with staking := { s.network.staking with tokens := tokens } } }

def withClock (s : State) (now : Int) : State :=
  { s with network := { s.network with staking := { s.network.staking with clock := now } } }

@[simp] theorem board_withBoard (s : State) (board : Jobs.State) :
    (s.withBoard board).board = { board with clock := s.clock } := rfl

@[simp] theorem emission_withEmission (s : State) (emission : Pools.State) :
    (s.withEmission emission).emission = { emission with clock := s.clock } := rfl

end State

/-- The vaults of all programs, which nobody else signs for. -/
def isVault (key : Pubkey) : Bool :=
  Jobs.isVault key || Staking.isVault key || Rewards.isVault key || Pools.isVault key

/-- An instruction of one of the programs. One of the rewards program names the stake account
that it reads. -/
inductive Instruction
  | jobs (ix : Jobs.Instruction)
  | staking (ix : Staking.Instruction)
  | rewards (stake : Pubkey) (ix : Rewards.Instruction)
  | pools (ix : Pools.Instruction)
  | nodes (ix : Nodes.Instruction)

namespace Instruction

/-- Who signs an instruction, apart from the accounts that it creates. -/
def signers : Instruction → List Pubkey
  | .jobs ix => ix.signers
  | .staking ix => [ix.authority]
  | .rewards _ ix => ix.signers
  | .pools ix => [ix.authority]
  | .nodes (.register a _) => [a.payer, a.authority]
  | .nodes (.audit a _) => [a.authority]
  | .nodes (.update a _) => [a.authority]

/-- The vaults of the program that is called. -/
def isVault : Instruction → Pubkey → Bool
  | .jobs _ => Jobs.isVault
  | .staking _ => Staking.isVault
  | .rewards _ _ => Rewards.isVault
  | .pools _ => Pools.isVault
  | .nodes _ => fun _ => false

/-- The instruction sees the accounts of other programs as they are on the chain. -/
def Faithful (s : State) : Instruction → Prop
  | .jobs ix => ∀ read ∈ ix.reads, s.network.staking.stakes.lookup read.1 = some read.2
  | .staking ix => Network.Faithful s.network (.staking ix)
  | .rewards stake ix => Network.Faithful s.network (.rewards stake ix)
  | _ => True

instance (s : State) (ix : Instruction) : Decidable (ix.Faithful s) :=
  match ix with
  | .jobs ix => inferInstanceAs (Decidable (∀ read ∈ ix.reads,
      s.network.staking.stakes.lookup read.1 = some read.2))
  | .staking ix => inferInstanceAs (Decidable (Network.Faithful s.network (.staking ix)))
  | .rewards stake ix =>
      inferInstanceAs (Decidable (Network.Faithful s.network (.rewards stake ix)))
  | .pools _ => .isTrue trivial
  | .nodes _ => .isTrue trivial

/-- No vault signs. -/
def SignedByUsers (ix : Instruction) : Prop := ∀ signer ∈ ix.signers, Chain.isVault signer = false

instance (ix : Instruction) : Decidable ix.SignedByUsers :=
  inferInstanceAs (Decidable (∀ signer ∈ ix.signers, Chain.isVault signer = false))

end Instruction

/-- One thing that happens on the chain: an instruction, the clock moving on, or any activity of
others in the token program. -/
inductive Action
  | instruction (ix : Instruction)
  | tick (now : Int)
  | external (tokens : Tokens)

section

variable [Jobs.Runtime]

def process (s : State) : Instruction → Except Error State
  | .jobs ix => do
    let board ← Jobs.process s.board ix
    return s.withBoard board
  | .staking ix => do
    let staking ← Staking.process s.network.staking ix
    return { s with network := { s.network with staking := staking } }
  | .rewards _ ix => do
    let pool ← Rewards.process s.network.pool ix
    return { s with network := s.network.withPool pool }
  | .pools ix => do
    let emission ← Pools.process s.emission ix
    return s.withEmission emission
  | .nodes ix => do
    let nodes ← Nodes.process s.nodes ix
    return { s with nodes := nodes }

/-- No more tokens exist than the total supply, and the supply of every other mint fits. -/
def step (s : State) : Action → Except Error State
  | .instruction ix => do
    require (ix.Faithful s ∧ ix.SignedByUsers) .notAdmissible
    process s ix
  | .tick now => do
    require (s.clock ≤ now ∧ Signed 64 now) .notAdmissible
    return s.withClock now
  | .external tokens => do
    require (Tokens.External isVault constants.nosTotalSupply s.tokens tokens ∧ tokens.Minted)
      .notAdmissible
    return s.withTokens tokens

/-- The chain before the programs are used. -/
structure Genesis (s : State) : Prop where
  network : Network.Genesis s.network
  jobs : Jobs.Genesis s.board
  pools : Pools.Genesis s.emission
  nodes : s.nodes = Nodes.start

abbrev Event := Machine.Event State Action

def run (s : State) (actions : List Action) : State := Machine.run step s actions

def trace (s : State) (actions : List Action) : List Event := Machine.trace step s actions

end

/-! A small chain to run the programs on: one staker owns all tokens, offers a job in a market and
takes it as a node. -/
namespace Sample

open Network.Sample (staker wallet)

def start : State where
  network := Network.Sample.start
  markets := ∅
  settings := ∅
  jobs := ∅
  runs := ∅
  pools := ∅
  nodes := Nodes.start

theorem genesis : Genesis start where
  network := Network.Sample.genesis
  jobs :=
    { markets := rfl
      settings := rfl
      jobs := rfl
      runs := rfl
      vaults := by
        intro key vault
        cases key <;> first | contradiction | rfl
      tokens := Network.Sample.genesis.staking.tokens.mono (by decide)
      clock := by decide }
  pools :=
    { pools := rfl
      vaults := by
        intro key vault
        cases key <;> first | contradiction | rfl
      minted := by decide +kernel
      clock := by decide }
  nodes := rfl

def run (actions : List Action) : State := @Chain.run Jobs.Sample.runtime start actions

def trace (actions : List Action) : List Event := @Chain.trace Jobs.Sample.runtime start actions

def init : Action :=
  .instruction (.rewards .rewardsReflection (.init ⟨id.nosToken, .rewardsReflection,
    .rewardsVault id.nosToken, staker⟩))

def stakeAccount : Staking.StakeAccount :=
  ⟨600, staker, Staking.StakeAccount.durationMin, 0, Network.Sample.vault, 669⟩

def stake : Action :=
  .instruction (.staking (.stake ⟨id.nosToken, wallet, Network.Sample.vault, Network.Sample.account,
    staker⟩ 600 Staking.StakeAccount.durationMin))

def market : Pubkey := .address 2
def marketVault : Pubkey := .jobsVault market id.nosToken
def job : Pubkey := .address 10
def jobRun : Pubkey := .address 30

/-- Nodes of the market have to weigh 600. -/
def openMarket : Action :=
  .instruction (.jobs (.openMarket ⟨id.nosToken, market, marketVault, staker, id.systemProgram⟩ 0 2
    60 0 600))

def list : Action :=
  .instruction (.jobs (.list ⟨job, market, jobRun, 0, wallet, marketVault, staker,
    .rewardsVault id.nosToken, staker, ⟨none, none, none⟩⟩ Jobs.Sample.ipfsJob 30))

def work : Action :=
  .instruction (.jobs (.work
    ⟨jobRun, 0, market, staker, Network.Sample.account, stakeAccount, wallet,
    ⟨pda.metaplexMetadata id.nosToken, id.systemProgram, 0, []⟩, staker⟩))

def finish : Action :=
  .instruction (.jobs (.finish ⟨job, jobRun, market, marketVault, wallet, wallet, staker, staker,
    staker⟩ Jobs.Sample.ipfsResult))

def enter : Action :=
  .instruction (.rewards Network.Sample.account (.enter ⟨.rewardsReflection, stakeAccount,
    Network.Sample.reward, staker⟩))

/-- A stake enters the rewards pool, and a job is listed, taken and finished. -/
def actions : List Action :=
  [init, stake, enter, openMarket, list, work, .tick 110, finish]

example : (run actions).tokens.balance marketVault = 0 ∧ (trace actions).length = 8 := by
  decide +kernel

end Sample

end Chain

end Nosana
