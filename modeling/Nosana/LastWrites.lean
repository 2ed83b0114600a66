import Nosana.NodesRegistration
import Nosana.PoolsLedger
import Nosana.StakingEffects
import Nosana.Tally

set_option autoImplicit false

/- What accounts say is what was written into them last, by somebody who had the right to do so. -/
namespace Nosana

open Checked

namespace Nodes

abbrev Event := Machine.Event State Instruction

/-- The data that an instruction puts into the account of a node. -/
def Instruction.writes (key : Pubkey) : Instruction → Option NodeSpec
  | .register a spec => if a.node = key then some spec else none
  | .update a spec => if a.node = key then some spec else none
  | .audit _ _ => none

/-- What an instruction says about whether a node is audited. -/
def Instruction.marks (key : Pubkey) : Instruction → Option Bool
  | .register a _ => if a.node = key then some false else none
  | .update _ _ => none
  | .audit a audited => if a.node = key then some audited else none

/-- Data comes from the node's authority, audits come from the authority of the program. -/
def Instruction.Authorized : Instruction → Prop
  | .register a _ => a.node = .nodesNode a.authority
  | .update a _ => a.node = .nodesNode a.authority
  | .audit a _ => a.authority = id.authority

section

variable {s s' : State} {ix : Instruction} {key : Pubkey} {node : NodeAccount}

theorem writes_step (success : process s ix = .ok s') (present : s'.nodes.lookup key = some node) :
    (ix.writes key).or ((s.nodes.lookup key).map NodeAccount.spec) = some node.spec ∧
      (ix.marks key).or ((s.nodes.lookup key).map NodeAccount.audited) = some node.audited := by
  cases ix with
  | register a spec =>
      obtain ⟨-, -, -, written⟩ := register_eq_ok.mp success
      obtain ⟨-, rfl⟩ := exit_eq_ok.mp written
      rcases Finmap.lookup_insert_eq_some present with ⟨rfl, rfl⟩ | ⟨different, earlier⟩
      · exact ⟨by rw [Instruction.writes, if_pos rfl]; rfl,
          by rw [Instruction.marks, if_pos rfl]; rfl⟩
      · rw [Instruction.writes, Instruction.marks, if_neg different.symm,
          if_neg different.symm, earlier]
        exact ⟨rfl, rfl⟩
  | update a spec =>
      obtain ⟨old, inside, -, -, written⟩ := update_eq_ok.mp success
      obtain ⟨-, rfl⟩ := exit_eq_ok.mp written
      rcases Finmap.lookup_insert_eq_some present with ⟨rfl, rfl⟩ | ⟨different, earlier⟩
      · refine ⟨by rw [Instruction.writes, if_pos rfl]; rfl, ?_⟩
        rw [inside]
        rfl
      · rw [Instruction.writes, if_neg different.symm, earlier]
        exact ⟨rfl, rfl⟩
  | audit a audited =>
      obtain ⟨old, inside, -, written⟩ := audit_eq_ok.mp success
      obtain ⟨-, rfl⟩ := exit_eq_ok.mp written
      rcases Finmap.lookup_insert_eq_some present with ⟨rfl, rfl⟩ | ⟨different, earlier⟩
      · refine ⟨?_, by rw [Instruction.marks, if_pos rfl]; rfl⟩
        rw [inside]
        rfl
      · rw [Instruction.marks, if_neg different.symm, earlier]
        exact ⟨rfl, rfl⟩

theorem authorized_of_ok (registered : AllRegistered s) (success : process s ix = .ok s') :
    ix.Authorized := by
  cases ix with
  | register a spec => exact (register_eq_ok.mp success).1
  | update a spec =>
      obtain ⟨node, present, signed, -⟩ := update_eq_ok.mp success
      rw [Instruction.Authorized, ← signed]
      exact (registered a.node node present).keyed
  | audit a audited =>
      obtain ⟨-, -, signed, -⟩ := audit_eq_ok.mp success
      exact signed

/-- A node account holds what its authority registered or updated last and whether it was audited
after that registration, and nobody else ever writes into it. -/
theorem registry_reads_last_write (instructions : List Instruction) (key : Pubkey) :
    (∀ node, (Machine.run process start instructions).nodes.lookup key = some node →
      key = .nodesNode node.authority ∧
      Machine.latest (fun event : Event => event.action.writes key)
        (Machine.trace process start instructions) = some node.spec ∧
      Machine.latest (fun event : Event => event.action.marks key)
        (Machine.trace process start instructions) = some node.audited) ∧
    ∀ event ∈ Machine.trace process start instructions, event.action.Authorized := by
  have registered : AllRegistered start := by simp [AllRegistered, start]
  constructor
  · intro node present
    refine ⟨?_, ?_, ?_⟩
    · exact (Machine.run_invariant (P := AllRegistered) registered
        (fun _ _ _ => registered_step) instructions key node present).keyed
    · refine Machine.eq_latest (fun state : State =>
        (state.nodes.lookup key).map NodeAccount.spec) ?_ ?_ instructions (by rw [present]; rfl)
      · simp [start]
      · intro state ix after spec success here
        obtain ⟨found, inside, rfl⟩ := Option.map_eq_some_iff.mp here
        exact (writes_step success inside).1
    · refine Machine.eq_latest (fun state : State =>
        (state.nodes.lookup key).map NodeAccount.audited) ?_ ?_ instructions (by rw [present]; rfl)
      · simp [start]
      · intro state ix after audited success here
        obtain ⟨found, inside, rfl⟩ := Option.map_eq_some_iff.mp here
        exact (writes_step success inside).2
  · intro event member
    have before := (Machine.trace_invariant (P := AllRegistered) registered
      (fun _ _ _ => registered_step) instructions event member).1
    exact authorized_of_ok before (Machine.mem_trace_step member)

end

end Nodes

namespace Staking

/-- The settings that an instruction puts into force. -/
def Action.settles : Action → Option SettingsAccount
  | .instruction (.init _) => some ⟨id.authority, id.tokenAccount⟩
  | .instruction (.updateSettings a) => some ⟨a.newAuthority, a.tokenAccount⟩
  | _ => none

section

variable {s s' : State}

end

namespace Sample

/-- The next authority, which has a token account. -/
def successor : Pubkey := .address 5

def slash : Accounts.Slash := ⟨vault, account, wallet successor, .stakingSettings, successor⟩

end Sample

end Staking

namespace Pools

section

variable {s s' : State} {key : Pubkey} {pool found claimed : PoolAccount} {amount : Nat}

end

namespace Sample

open Rewards.Sample (wallet staker payer)

/-- The staker has the payments of the pool sent to the payer. -/
def rename : Action :=
  .instruction (.updateBeneficiary ⟨wallet staker, wallet payer, pool, staker⟩)

def renamed : List Action :=
  [openPool .transfer, fund 500, .tick 1, claimTransfer, rename, .tick 3]

end Sample

end Pools

end Nosana
