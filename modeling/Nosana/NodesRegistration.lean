import Nosana.NodesProgram

set_option autoImplicit false

/- Which arguments a node is registered with, and what every registered node satisfies. -/
namespace Nosana.Nodes

open Checked

namespace NodeAccount

/-- A call succeeds exactly when its arguments are to be accepted. It then puts all of them into
the account, and otherwise leaves the account as it was. -/
structure Exact (node : NodeAccount) (spec : NodeSpec) : Prop where
  succeeds : ((update spec).call node).1 = .ok () ↔ spec.Listed
  success : ((update spec).call node).1 = .ok () → ((update spec).call node).2 = spec.fill node
  failure : ∀ reason, ((update spec).call node).1 = .error reason →
    ((update spec).call node).2 = node

/-- Only Ethiopia is wrongly turned away. -/
theorem update_exact_iff (node : NodeAccount) (spec : NodeSpec) :
    node.Exact spec ↔ ¬ (spec.country = CountryCode.ET.toU16 ∧ spec.Listed) := by
  have atomic := spec.update_atomic
  constructor
  · rintro right ⟨ethiopia, listed⟩
    have accepted := (atomic.ok_iff node).mp (right.succeeds.mpr listed)
    exact accepted.2 ethiopia
  · intro elsewhere
    refine ⟨?_, atomic.of_ok, fun _ => atomic.of_error⟩
    rw [atomic.ok_iff]
    exact ⟨And.left, fun listed => ⟨listed, fun ethiopia => elsewhere ⟨ethiopia, listed⟩⟩⟩

end NodeAccount

namespace Sample

def operator : Pubkey := .address 1

/-- A node in the country of the given number. -/
def located (country : CountryCode) : NodeSpec :=
  ⟨ArchitectureType.amd64.toU8, country.toU16, 4, 0, 16, 1000, 100, "", "", ""⟩

def register (country : CountryCode) : Instruction :=
  .register ⟨.nodesNode operator, operator, operator⟩ (located country)

theorem listed : (located .ET).Listed := ⟨by decide, by decide, by decide, by decide, by decide,
  by decide⟩

end Sample

/-- A node in Ethiopia cannot be registered, one in the Netherlands can. -/
theorem ethiopia_unknown :
    process start (Sample.register .ET) = .error (.nodes .countryCodeUnknown) ∧
    failure (process start (Sample.register .NL)) = none ∧
    (NodeAccount.update (Sample.located .ET)).call NodeAccount.zeroed =
      (.error (.nodes .countryCodeUnknown), NodeAccount.zeroed) ∧
    ¬ ∀ (node : NodeAccount) (spec : NodeSpec), node.Exact spec := by
  refine ⟨failure_eq_some.mp (by decide +kernel), by decide +kernel, rfl, fun right => ?_⟩
  have wrong := (NodeAccount.zeroed.update_exact_iff (Sample.located .ET)).mp (right _ _)
  exact wrong ⟨rfl, Sample.listed⟩

/-! Registered nodes -/

/-- A node is at the address of its authority, with accepted data that fits. -/
structure Registered (key : Pubkey) (node : NodeAccount) : Prop where
  keyed : key = .nodesNode node.authority
  accepted : node.spec.Accepted
  fits : node.serializedLength ≤ NodeAccount.size

def AllRegistered (s : State) : Prop :=
  ∀ key node, s.nodes.lookup key = some node → Registered key node

theorem exit_registered {s s' : State} {key : Pubkey} {node : NodeAccount}
    (registered : AllRegistered s) (success : s.exit key node = .ok s')
    (keyed : key = .nodesNode node.authority) (accepted : node.spec.Accepted) :
    AllRegistered s' := by
  obtain ⟨fits, rfl⟩ := exit_eq_ok.mp success
  intro other found present
  rcases Finmap.lookup_insert_eq_some present with ⟨rfl, rfl⟩ | ⟨-, earlier⟩
  · exact ⟨keyed, accepted, fits⟩
  · exact registered other found earlier

theorem registered_step {s s' : State} {instruction : Instruction} (registered : AllRegistered s)
    (success : process s instruction = .ok s') : AllRegistered s' := by
  cases instruction with
  | register a spec =>
      obtain ⟨seeds, -, accepted, success⟩ := register_eq_ok.mp success
      exact exit_registered registered success seeds accepted
  | audit a audited =>
      obtain ⟨node, present, -, success⟩ := audit_eq_ok.mp success
      have ⟨keyed, accepted, _⟩ := registered a.node node present
      exact exit_registered registered success keyed accepted
  | update a spec =>
      obtain ⟨node, present, -, accepted, success⟩ := update_eq_ok.mp success
      exact exit_registered registered success (registered a.node node present).keyed accepted

/-- In every state of every run all nodes are registered properly. -/
theorem nodes_registered (instructions : List Instruction) :
    ∀ state ∈ reached start instructions, AllRegistered state :=
  Machine.reached_invariant (fun key node present => by simp [start] at present)
    (fun _ _ _ => registered_step) instructions

end Nosana.Nodes
