import Nosana.JobsState
import Nosana.Machine

set_option autoImplicit false

/- What a job is for its parties: an agreement between a project, its payer and the node that works
on it. Markets, queues, vaults and other jobs are left out. -/
namespace Nosana.Jobs

open Checked

/-- What a job is about. -/
structure Terms where
  ipfsJob : IpfsHash
  market : Pubkey
  payer : Pubkey
  price : Nat
  project : Pubkey
  deriving DecidableEq

/-- A node at work, and since when. -/
structure Shift where
  node : Pubkey
  since : Int
  deriving DecidableEq

inductive Outcome
  | pending
  | stopped
  | done (shift : Shift) (ended : Int) (ipfsResult : IpfsHash)
  deriving DecidableEq

structure Contract where
  terms : Terms
  timeout : Int
  shifts : Multiset Shift
  outcome : Outcome
  deriving DecidableEq

/-- What the parties of a contract do. -/
inductive Deed
  | post (contract : Contract)
  | extend (timeout : Int)
  | take (shift : Shift)
  | finish (shift : Shift) (ended : Int) (ipfsResult : IpfsHash)
  | endJob (shift : Shift) (ended : Int)
  | complete (ipfsResult : IpfsHash)
  | quit (shift : Shift)
  | relieve (shift : Shift)
  | withdraw
  | clean

namespace Contract

/-- Only this shift works on the job. -/
def OnShift (contract : Contract) (shift : Shift) : Prop :=
  contract.outcome = .pending ∧ contract.shifts = {shift}

/-- The job can be taken by a node. -/
def Vacant (contract : Contract) : Prop := contract.outcome = .pending ∧ contract.shifts = 0

instance (contract : Contract) (shift : Shift) : Decidable (contract.OnShift shift) :=
  inferInstanceAs (Decidable (_ ∧ _))

instance (contract : Contract) : Decidable contract.Vacant := inferInstanceAs (Decidable (_ ∧ _))

/-- The rules of a contract: what can be done when, and who has to sign for it. -/
def act (contract : Contract) (signers : List Pubkey) : Deed → Except Error (Option Contract)
  | .post _ => .error .accountAlreadyInUse
  | .extend timeout => do
    require (contract.outcome = .pending ∧ contract.timeout < timeout) .notAdmissible
    require (contract.terms.project ∈ signers) .notAdmissible
    require (contract.terms.price = 0 ∨ contract.terms.payer ∈ signers) .notAdmissible
    return some { contract with timeout := timeout }
  | .take shift => do
    require (contract.Vacant ∧ shift.node ∈ signers) .notAdmissible
    return some { contract with shifts := {shift} }
  | .finish shift ended ipfsResult => do
    require (contract.OnShift shift ∧ shift.node ∈ signers) .notAdmissible
    require (ipfsResult ≠ JobAccount.nullResult) .notAdmissible
    return some { contract with shifts := 0, outcome := .done shift ended ipfsResult }
  | .endJob shift ended => do
    require (contract.OnShift shift ∧ contract.terms.project ∈ signers) .notAdmissible
    return some { contract with shifts := 0, outcome := .done shift ended JobAccount.nullResult }
  | .complete ipfsResult =>
    match contract.outcome with
    | .done shift ended posted => do
      require (shift.node ∈ signers) .notAdmissible
      require (posted = JobAccount.nullResult ∧ ipfsResult ≠ JobAccount.nullResult) .notAdmissible
      return some { contract with outcome := .done shift ended ipfsResult }
    | _ => .error .notAdmissible
  | .quit shift => do
    require (contract.OnShift shift ∧ shift.node ∈ signers) .notAdmissible
    return some { contract with shifts := 0, outcome := .stopped }
  | .relieve shift => do
    require (contract.OnShift shift ∧ id.marketAdmin ∈ signers) .notAdmissible
    return some { contract with shifts := 0 }
  | .withdraw => do
    require (contract.Vacant ∨ contract.outcome = .stopped) .notAdmissible
    require (contract.terms.project ∈ signers) .notAdmissible
    return none
  | .clean =>
    match contract.outcome with
    | .done _ _ _ => return none
    | _ => .error .notAdmissible

/-- A contract starts with the signatures of its project and its payer. -/
def step : Option Contract → Deed × List Pubkey → Except Error (Option Contract)
  | some contract, (deed, signers) => contract.act signers deed
  | none, (.post contract, signers) => do
    require (contract.outcome = .pending ∧ contract.shifts.card ≤ 1) .notAdmissible
    require (contract.terms.payer ∈ signers ∧ contract.terms.project ∈ signers) .notAdmissible
    return some contract
  | none, _ => .error .notAdmissible

end Contract

/-- How a job can still turn out: once it is stopped or done it stays so, and a missing result is
all that can be added. -/
inductive Outcome.Leads : Outcome → Outcome → Prop
  | pending (later : Outcome) : Leads .pending later
  | stopped : Leads .stopped .stopped
  | done (shift : Shift) (ended : Int) (ipfsResult : IpfsHash) :
      Leads (.done shift ended ipfsResult) (.done shift ended ipfsResult)
  | posted (shift : Shift) (ended : Int) (ipfsResult : IpfsHash) :
      Leads (.done shift ended JobAccount.nullResult) (.done shift ended ipfsResult)

theorem Outcome.leads_rfl (outcome : Outcome) : outcome.Leads outcome := by
  cases outcome with
  | pending => exact .pending _
  | stopped => exact .stopped
  | done shift ended ipfsResult => exact .done shift ended ipfsResult

theorem Outcome.Leads.trans {first second third : Outcome} (before : first.Leads second)
    (after : second.Leads third) : first.Leads third := by
  cases before with
  | pending => exact .pending third
  | stopped => exact after
  | done => exact after
  | posted shift ended ipfsResult =>
      cases after with
      | done => exact .posted shift ended ipfsResult
      | posted _ _ later => exact .posted shift ended later

namespace Contract

/-- The same contract, later on. -/
structure Continues (contract later : Contract) : Prop where
  terms : later.terms = contract.terms
  timeout : contract.timeout ≤ later.timeout
  outcome : contract.outcome.Leads later.outcome

theorem continues_rfl (contract : Contract) : contract.Continues contract :=
  ⟨rfl, le_refl _, Outcome.leads_rfl _⟩

theorem Continues.trans {first second third : Contract} (before : first.Continues second)
    (after : second.Continues third) : first.Continues third :=
  ⟨after.terms.trans before.terms, le_trans before.timeout after.timeout,
    before.outcome.trans after.outcome⟩

theorem OnShift.leads {contract : Contract} {shift : Shift} (working : contract.OnShift shift)
    (later : Outcome) : contract.outcome.Leads later := by
  rw [working.1]
  exact .pending later

/-- Whatever is done, a contract continues until it ends. -/
theorem act_continues {contract later : Contract} {signers : List Pubkey} {deed : Deed}
    (success : contract.act signers deed = .ok (some later)) : contract.Continues later := by
  cases deed with
  | post => cases success
  | extend timeout =>
      simp only [act, bind_eq_ok, require_eq_ok, pure_eq_ok, exists_const, Option.some.injEq]
        at success
      obtain ⟨⟨-, longer⟩, -, -, rfl⟩ := success
      exact ⟨rfl, le_of_lt longer, Outcome.leads_rfl _⟩
  | take shift =>
      simp only [act, bind_eq_ok, require_eq_ok, pure_eq_ok, exists_const, Option.some.injEq]
        at success
      obtain ⟨-, rfl⟩ := success
      exact ⟨rfl, le_refl _, Outcome.leads_rfl _⟩
  | finish shift ended ipfsResult =>
      simp only [act, bind_eq_ok, require_eq_ok, pure_eq_ok, exists_const, Option.some.injEq]
        at success
      obtain ⟨⟨working, -⟩, -, rfl⟩ := success
      exact ⟨rfl, le_refl _, working.leads _⟩
  | endJob shift ended =>
      simp only [act, bind_eq_ok, require_eq_ok, pure_eq_ok, exists_const, Option.some.injEq]
        at success
      obtain ⟨⟨working, -⟩, rfl⟩ := success
      exact ⟨rfl, le_refl _, working.leads _⟩
  | complete ipfsResult =>
      simp only [act] at success
      split at success
      · rename_i shift ended posted was
        simp only [bind_eq_ok, require_eq_ok, pure_eq_ok, exists_const,
          Option.some.injEq] at success
        obtain ⟨-, ⟨rfl, -⟩, rfl⟩ := success
        exact ⟨rfl, le_refl _, was ▸ .posted shift ended ipfsResult⟩
      · cases success
  | quit shift =>
      simp only [act, bind_eq_ok, require_eq_ok, pure_eq_ok, exists_const, Option.some.injEq]
        at success
      obtain ⟨⟨working, -⟩, rfl⟩ := success
      exact ⟨rfl, le_refl _, working.leads _⟩
  | relieve shift =>
      simp only [act, bind_eq_ok, require_eq_ok, pure_eq_ok, exists_const, Option.some.injEq]
        at success
      obtain ⟨-, rfl⟩ := success
      exact ⟨rfl, le_refl _, Outcome.leads_rfl _⟩
  | withdraw =>
      simp only [act, bind_eq_ok, require_eq_ok, pure_eq_ok, exists_const, reduceCtorEq,
        and_false] at success
  | clean =>
      simp only [act] at success
      split at success <;> cases success

/-- How a contract ends: its project withdraws while nobody works on it, or it was done. -/
def EndedBy (contract : Contract) (signers : List Pubkey) : Prop :=
  (contract.Vacant ∨ contract.outcome = .stopped) ∧ contract.terms.project ∈ signers ∨
    ∃ shift ended ipfsResult, contract.outcome = .done shift ended ipfsResult

theorem act_ends {contract : Contract} {signers : List Pubkey} {deed : Deed}
    (success : contract.act signers deed = .ok none) : contract.EndedBy signers := by
  cases deed with
  | withdraw =>
      simp only [act, bind_eq_ok, require_eq_ok, exists_const] at success
      exact Or.inl ⟨success.1, success.2.1⟩
  | clean =>
      simp only [act] at success
      split at success
      · rename_i was
        exact Or.inr ⟨_, _, _, was⟩
      · cases success
  | complete =>
      simp only [act] at success
      split at success
      · simp at success
      · cases success
  | _ => simp [act] at success

end Contract

end Nosana.Jobs
