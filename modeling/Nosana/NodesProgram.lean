import Nosana.Machine
import Nosana.NodesState
import Nosana.Totals

set_option autoImplicit false

/- The instructions of the nodes program, and the program as a machine. -/
namespace Nosana.Nodes

open Checked

structure State where
  nodes : Finmap fun _ : Pubkey => NodeAccount

namespace State

def loadNode (s : State) (key : Pubkey) : Except Error NodeAccount :=
  get (s.nodes.lookup key) (.anchor .accountNotInitialized)

/-- Write an account back, into data of a fixed length. -/
def exit (s : State) (key : Pubkey) (node : NodeAccount) : Except Error State := do
  require (node.serializedLength ≤ NodeAccount.size) (.anchor .accountDidNotSerialize)
  return { s with nodes := s.nodes.insert key node }

end State

namespace Accounts

structure Register where
  node : Pubkey
  payer : Pubkey
  authority : Pubkey

structure Audit where
  node : Pubkey
  authority : Pubkey

structure Update where
  node : Pubkey
  authority : Pubkey

end Accounts

def register (s : State) (a : Accounts.Register) (spec : NodeSpec) : Except Error State := do
  require (a.node = .nodesNode a.authority) (.anchor .constraintSeeds)
  require (a.node ∉ s.nodes) .accountAlreadyInUse
  let named ← (NodeAccount.register a.authority).finish NodeAccount.zeroed
  let node ← (NodeAccount.update spec).finish named
  s.exit a.node node

def audit (s : State) (a : Accounts.Audit) (audited : Bool) : Except Error State := do
  let node ← s.loadNode a.node
  require (a.authority = id.authority) (.nosana .unauthorized)
  let node ← (NodeAccount.audit audited).finish node
  s.exit a.node node

def update (s : State) (a : Accounts.Update) (spec : NodeSpec) : Except Error State := do
  let node ← s.loadNode a.node
  require (node.authority = a.authority) (.nosana .unauthorized)
  let node ← (NodeAccount.update spec).finish node
  s.exit a.node node

inductive Instruction
  | register (a : Accounts.Register) (spec : NodeSpec)
  | audit (a : Accounts.Audit) (audited : Bool)
  | update (a : Accounts.Update) (spec : NodeSpec)

def process (s : State) : Instruction → Except Error State
  | .register a spec => register s a spec
  | .audit a audited => audit s a audited
  | .update a spec => update s a spec

/-- The chain before the program is used. -/
def start : State := ⟨∅⟩

def reached (s : State) (instructions : List Instruction) : List State :=
  Machine.reached process s instructions

/-! What an instruction does when it succeeds -/

section

variable {s s' : State}

theorem finish_update_eq_ok {spec : NodeSpec} {node result : NodeAccount} :
    (NodeAccount.update spec).finish node = .ok result ↔
      spec.Accepted ∧ spec.fill node = result :=
  spec.update_atomic.finish_eq_ok

theorem exit_eq_ok {key : Pubkey} {node : NodeAccount} :
    s.exit key node = .ok s' ↔ node.serializedLength ≤ NodeAccount.size ∧
      { s with nodes := s.nodes.insert key node } = s' := by
  simp only [State.exit, bind_eq_ok, require_eq_ok, pure_eq_ok, exists_const]

theorem register_eq_ok {a : Accounts.Register} {spec : NodeSpec} :
    register s a spec = .ok s' ↔ a.node = .nodesNode a.authority ∧ a.node ∉ s.nodes ∧
      spec.Accepted ∧
      s.exit a.node (spec.fill { NodeAccount.zeroed with authority := a.authority }) = .ok s' := by
  have named : (NodeAccount.register a.authority).finish NodeAccount.zeroed =
      .ok { NodeAccount.zeroed with authority := a.authority } := rfl
  simp only [register, bind_eq_ok, require_eq_ok, exists_const, named, Except.ok.injEq,
    finish_update_eq_ok, and_assoc, exists_and_left, exists_eq_left']

theorem audit_eq_ok {a : Accounts.Audit} {audited : Bool} :
    audit s a audited = .ok s' ↔ ∃ node, s.nodes.lookup a.node = some node ∧
      a.authority = id.authority ∧ s.exit a.node { node with audited := audited } = .ok s' := by
  have marked : ∀ node, (NodeAccount.audit audited).finish node =
      .ok { node with audited := audited } := fun _ => rfl
  simp only [audit, State.loadNode, bind_eq_ok, get_eq_ok, require_eq_ok, exists_const, marked,
    Except.ok.injEq, exists_eq_left']

theorem update_eq_ok {a : Accounts.Update} {spec : NodeSpec} :
    update s a spec = .ok s' ↔ ∃ node, s.nodes.lookup a.node = some node ∧
      node.authority = a.authority ∧ spec.Accepted ∧ s.exit a.node (spec.fill node) = .ok s' := by
  simp only [update, State.loadNode, bind_eq_ok, get_eq_ok, require_eq_ok, exists_const,
    finish_update_eq_ok, and_assoc, exists_and_left, exists_eq_left']

end

end Nosana.Nodes
