import Nosana.JobsInstructions
import Nosana.Machine

set_option autoImplicit false

/- The jobs program as a machine: its instructions, the clock, and whatever others
do with the token program. -/
namespace Nosana.Jobs

open Checked

inductive Instruction
  | openMarket (a : Accounts.Open) (jobExpiration : Int) (jobPrice : Nat) (jobTimeout : Int)
      (jobType : UInt8) (nodeXnosMinimum : Nat)
  | update (a : Accounts.Update) (jobExpiration : Int) (jobPrice : Nat) (jobType : UInt8)
      (nodeStakeMinimum : Nat) (jobTimeout : Int)
  | close (a : Accounts.Close)
  | closeAdmin (a : Accounts.Close)
  | setSettings (a : Accounts.SetSettings)
  | closeSettings (a : Accounts.CloseSettings)
  | assign (a : Accounts.Assign) (ipfsJob : IpfsHash) (timeout : Int)
  | list (a : Accounts.List) (ipfsJob : IpfsHash) (timeout : Int)
  | delist (a : Accounts.Delist)
  | recover (a : Accounts.Recover)
  | extend (a : Accounts.Extend) (timeout : Int)
  | endJob (a : Accounts.End)
  | work (a : Accounts.Work)
  | stop (a : Accounts.Stop)
  | complete (a : Accounts.Complete) (ipfsResult : IpfsHash)
  | finish (a : Accounts.Finish) (ipfsResult : IpfsHash)
  | quit (a : Accounts.Quit)
  | quitAdmin (a : Accounts.QuitAdmin)
  | clean (a : Accounts.Clean)
  | cleanAdmin (a : Accounts.CleanAdmin)

section

variable [Runtime]

def process (s : State) : Instruction → Except Error State
  | .openMarket a expiration price timeout jobType minimum =>
    openMarket s a expiration price timeout jobType minimum
  | .update a expiration price jobType minimum timeout =>
    update s a expiration price jobType minimum timeout
  | .close a => close s a
  | .closeAdmin a => closeAdmin s a
  | .setSettings a => setSettings s a
  | .closeSettings a => closeSettings s a
  | .assign a ipfsJob timeout => assign s a ipfsJob timeout
  | .list a ipfsJob timeout => list s a ipfsJob timeout
  | .delist a => delist s a
  | .recover a => recover s a
  | .extend a timeout => extend s a timeout
  | .endJob a => endJob s a
  | .work a => work s a
  | .stop a => stop s a
  | .complete a ipfsResult => complete s a ipfsResult
  | .finish a ipfsResult => finish s a ipfsResult
  | .quit a => quit s a
  | .quitAdmin a => quitAdmin s a
  | .clean a => clean s a
  | .cleanAdmin a => cleanAdmin s a

/-- The vaults of markets, which only this program can sign for. -/
def isVault : Pubkey → Bool
  | .jobsVault _ _ => true
  | _ => false

/-- One thing that happens on the chain: an instruction of this program, the clock
moving on, or any activity of others in the token program. -/
inductive Action
  | instruction (ix : Instruction)
  | tick (now : Int)
  | external (tokens : Tokens)

def step (s : State) : Action → Except Error State
  | .instruction ix => process s ix
  | .tick now => do
    require (s.clock ≤ now ∧ Signed 64 now) .notAdmissible
    return { s with clock := now }
  | .external tokens => do
    require (Tokens.External isVault supplyCap s.tokens tokens) .notAdmissible
    return { s with tokens := tokens }

/-- The chain before the program is used. -/
structure Genesis (s : State) : Prop where
  markets : s.markets = ∅
  settings : s.settings = ∅
  jobs : s.jobs = ∅
  runs : s.runs = ∅
  vaults : ∀ key, isVault key = true → s.tokens.lookup key = none
  tokens : s.tokens.WellFormed supplyCap
  clock : 0 ≤ s.clock ∧ Signed 64 s.clock

abbrev Event := Machine.Event State Action

def run (s : State) (actions : List Action) : State := Machine.run step s actions

def trace (s : State) (actions : List Action) : List Event := Machine.trace step s actions

def reached (s : State) (actions : List Action) : List State := Machine.reached step s actions

end

namespace Action

/-- Instructions that close a market. -/
def closesMarket : Action → Bool
  | .instruction (.close _) => true
  | .instruction (.closeAdmin _) => true
  | _ => false

/-- The instruction by which an admin closes a job account in any state. -/
def cleansAdmin : Action → Bool
  | .instruction (.cleanAdmin _) => true
  | _ => false

/-- The instruction by which an admin closes a run account and leaves its job. -/
def quitsAdmin : Action → Bool
  | .instruction (.quitAdmin _) => true
  | _ => false

end Action

/-! A small chain to run the program on: one market, a project with tokens, a node. -/
namespace Sample

/-- No metadata is read, and a market account has room for 314 orders. -/
@[reducible] def runtime : Runtime := ⟨fun _ => none, 314⟩

def market : Pubkey := .address 1
def admin : Pubkey := .address 2
def project : Pubkey := .address 3
def nft : Pubkey := .address 4
def vault : Pubkey := .jobsVault market id.nosToken
def rewardsVault : Pubkey := .rewardsVault id.nosToken
def wallet (owner : Pubkey) : Pubkey := pda.associatedToken owner id.nosToken
def job : Pubkey := .address 10
def node : Pubkey := .address 20
def firstRun : Pubkey := .address 30
def secondRun : Pubkey := .address 31
def ipfsJob : IpfsHash := Vector.replicate 32 1
def ipfsResult : IpfsHash := Vector.replicate 32 2

def start : State where
  markets := ∅
  settings := ∅
  jobs := ∅
  runs := ∅
  tokens := ((((∅ : Tokens).insert (wallet project) (.holding id.nosToken project 1000)).insert
    (wallet node) (.holding id.nosToken node 0)).insert rewardsVault
    (.holding id.nosToken rewardsVault 0)).insert nft (.holding (.address 5) node 1)
  clock := 100

theorem genesis : Genesis start where
  markets := rfl
  settings := rfl
  jobs := rfl
  runs := rfl
  vaults := by
    intro key vault
    cases key <;> first | contradiction | rfl
  tokens := by decide +kernel
  clock := by decide

def run (actions : List Action) : State := @Jobs.run runtime start actions

def trace (actions : List Action) : List Event := @Jobs.trace runtime start actions

def reached (actions : List Action) : List State := @Jobs.reached runtime start actions

def openMarket (price : Nat) (jobType : UInt8) : Action :=
  .instruction (.openMarket ⟨id.nosToken, market, vault, admin, id.systemProgram⟩ 0 price 60
    jobType 0)

def list (job run : Pubkey) (timeout : Int) : Action :=
  .instruction (.list ⟨job, market, run, 0, wallet project, vault, project, rewardsVault, project,
    ⟨none, none, none⟩⟩ ipfsJob timeout)

def work (run node : Pubkey) : Action :=
  .instruction (.work ⟨run, 0, market, node, pda.nosanaStaking node,
    { Staking.StakeAccount.zeroed with authority := node }, nft,
    ⟨pda.metaplexMetadata (.address 5), id.systemProgram, 0, []⟩, node⟩)

def finish (job run : Pubkey) : Action :=
  .instruction (.finish ⟨job, run, market, vault, wallet project, wallet node, node, project,
    node⟩ ipfsResult)

def endJob (job run : Pubkey) : Action :=
  .instruction (.endJob ⟨job, market, run, wallet project, wallet node, vault, node, project⟩)

def cleanAdmin (job : Pubkey) : Action :=
  .instruction (.cleanAdmin ⟨job, project, id.marketAdmin⟩)

/-- A job is listed and a node takes it. -/
def matching : List Action := [openMarket 2 0, list job firstRun 30, work firstRun node]

end Sample

end Nosana.Jobs
