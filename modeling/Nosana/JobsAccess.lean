import Nosana.JobsProgram
import Nosana.JobsEffects

set_option autoImplicit false

/- Who can list and assign jobs in a restricted market. -/
namespace Nosana.Jobs

open Checked

variable [Runtime]

/-- The metadata of a mint, which names a verified collection. -/
def InCollection (metadata : AccountInfo) (mint collection : Pubkey) : Prop :=
  metadata.key = pda.metaplexMetadata mint ∧
    ∃ found, Runtime.safeDeserialize metadata.data = some found ∧
      found.collection = some ⟨true, collection⟩

/-- The accounts that the caller passes prove access: the settings of the market name an access
key, and the authority owns a token of that collection. -/
def Grants (s : State) (market authority : Pubkey) (access : ProjectAccess) : Prop :=
  ∃ settings token nft metadata,
    access.marketSettings = some (.jobsSettings market) ∧
    s.settings.lookup (.jobsSettings market) = some settings ∧
    settings.projectAccessKey ≠ id.systemProgram ∧
    access.projectNft = some token ∧ s.tokens.lookup token = some nft ∧
    nft.owner = authority ∧ 1 ≤ nft.amount ∧
    access.projectMetadata = some metadata ∧
    InCollection metadata nft.mint settings.projectAccessKey

/-- The constraints that do not depend on the access of the project. -/
structure Ready (s : State) (job market run user vault payer rewardsVault : Pubkey)
    (account : MarketAccount) : Prop where
  vacant : s.Vacant job ∧ s.Vacant run ∧ run ≠ job
  present : s.markets.lookup market = some account
  vaulted : account.vault = vault
  associated : account.jobPrice = 0 ∨ user = pda.associatedToken payer id.nosToken
  loaded : user ∈ s.tokens ∧ vault ∈ s.tokens ∧ rewardsVault ∈ s.tokens
  apart : [user, vault, rewardsVault].Nodup

theorem metadataConstraint_iff {metadata : AccountInfo} {mint accessKey : Pubkey}
    (guarded : accessKey ≠ id.systemProgram) :
    MarketAccount.metadataConstraint metadata mint accessKey = true ↔
      InCollection metadata mint accessKey := by
  unfold MarketAccount.metadataConstraint InCollection
  rw [if_neg guarded]
  by_cases addressed : metadata.key = pda.metaplexMetadata mint
  · rw [if_pos addressed]
    cases deserialized : Runtime.safeDeserialize metadata.data with
    | none => simp
    | some found =>
        cases inside : found.collection with
        | none => simp [addressed, inside]
        | some collection =>
            cases collection
            simp [addressed, inside]
  · simp [addressed]

omit [Runtime] in
/-- A market with an access key is not open. -/
theorem isOpen_eq_false_iff {s : State} {key : Pubkey} :
    s.isOpen key = false ↔
      ∃ settings, s.settings.lookup key = some settings ∧
        settings.projectAccessKey ≠ id.systemProgram := by
  unfold State.isOpen State.projectAccessKey
  cases s.settings.lookup key <;> simp

omit [Runtime] in
theorem projectAccessKey_of_lookup {s : State} {key : Pubkey} {settings : MarketSettingsAccount}
    (present : s.settings.lookup key = some settings) :
    s.projectAccessKey key = settings.projectAccessKey := by
  simp only [State.projectAccessKey, present]

/-- A restricted market asks for all three accounts, and each of them is checked. -/
theorem accessConstraints_iff {s : State} {market authority : Pubkey} {account : MarketAccount}
    {access : ProjectAccess} (restricted : account.isRestricted = true) :
    accessConstraints s market account authority access = .ok () ↔
      Grants s market authority access := by
  obtain ⟨marketSettings, projectNft, projectMetadata⟩ := access
  cases marketSettings with
  | none => simp [accessConstraints, Grants, restricted]
  | some settings =>
      cases projectNft with
      | none => simp [accessConstraints, Grants, restricted]
      | some token =>
          cases projectMetadata with
          | none => simp [accessConstraints, Grants, restricted]
          | some metadata =>
              simp only [accessConstraints, Tokens.load, bind_eq_ok, require_eq_ok, get_eq_ok,
                exists_const, restricted, Bool.true_eq_false, false_or, Option.isSome_some,
                and_self, true_and, Option.bind_some, isOpen_eq_false_iff]
              constructor
              · rintro ⟨rfl, ⟨found, present, guarded⟩, nft, loaded, owned, some, verified⟩
                simp only [loaded, projectAccessKey_of_lookup present] at verified
                exact ⟨found, token, nft, metadata, rfl, present, guarded, rfl, loaded, owned, some,
                  rfl, (metadataConstraint_iff guarded).mp verified⟩
              · rintro ⟨found, _, nft, _, ⟨⟩, present, guarded, ⟨⟩, loaded, owned, some, ⟨⟩, inside⟩
                refine ⟨rfl, ⟨found, present, guarded⟩, nft, loaded, owned, some, ?_⟩
                simp only [loaded, projectAccessKey_of_lookup present]
                exact (metadataConstraint_iff guarded).mpr inside

/-- When the other constraints hold, a job can be listed in a restricted market, and assigned to
a node of it, exactly with access. -/
theorem restricted_market_needs_access {s : State} {account : MarketAccount}
    (restricted : account.isRestricted = true) :
    (∀ a : Accounts.List, listConstraints s a = .ok account ↔
      (Ready s a.job a.market a.run a.user a.vault a.payer a.rewardsVault account ∧
        a.runLamports = 0) ∧ Grants s a.market a.authority a.access) ∧
    ∀ a : Accounts.Assign, assignConstraints s a = .ok account ↔
      (Ready s a.job a.market a.run a.user a.vault a.payer a.rewardsVault account ∧
        account.queueType = QueueType.node.toU8) ∧ Grants s a.market a.authority a.access := by
  constructor
  · intro a
    rw [← accessConstraints_iff restricted]
    simp only [listConstraints, Tokens.load, bind_eq_ok, require_eq_ok, loadMarket_eq_ok, get_eq_ok,
      pure_eq_ok, exists_const, exists_loaded]
    constructor
    · rintro ⟨vacant, _, present, vaulted, lamports, run, user, associated, funded, rewards, apart,
        ⟨⟩, access, rfl⟩
      exact ⟨⟨⟨⟨vacant, run⟩, present, vaulted, associated, ⟨user, funded, rewards⟩, apart⟩,
        lamports⟩, access⟩
    · rintro ⟨⟨⟨⟨vacant, run⟩, present, vaulted, associated, ⟨user, funded, rewards⟩, apart⟩,
        lamports⟩, access⟩
      exact ⟨vacant, _, present, vaulted, lamports, run, user, associated, funded, rewards, apart,
        ⟨⟩, access, rfl⟩
  · intro a
    rw [← accessConstraints_iff restricted]
    simp only [assignConstraints, Tokens.load, bind_eq_ok, require_eq_ok, loadMarket_eq_ok,
      get_eq_ok, pure_eq_ok, exists_const, exists_loaded]
    constructor
    · rintro ⟨vacant, _, present, vaulted, queue, run, user, associated, funded, rewards, apart,
        ⟨⟩, access, rfl⟩
      exact ⟨⟨⟨⟨vacant, run⟩, present, vaulted, associated, ⟨user, funded, rewards⟩, apart⟩,
        queue⟩, access⟩
    · rintro ⟨⟨⟨⟨vacant, run⟩, present, vaulted, associated, ⟨user, funded, rewards⟩, apart⟩,
        queue⟩, access⟩
      exact ⟨vacant, _, present, vaulted, queue, run, user, associated, funded, rewards, apart,
        ⟨⟩, access, rfl⟩

namespace Sample

def accessKey : Pubkey := .address 6
def projectNft : Pubkey := .address 7

def key32 (last : UInt8) : List UInt8 := List.replicate 31 0 ++ [last]

/-- The metadata of a token without a name, in the collection of the access key. -/
def metadata : List UInt8 :=
  [4] ++ key32 0 ++ key32 8 ++ List.replicate 12 0 ++ [0, 0, 0, 0, 1, 0, 0, 1, 1] ++ key32 6 ++
    [0, 0, 0]

/-- The metadata of one token is read. -/
@[reducible] def keyed : Runtime :=
  ⟨fun data => if data = metadata then some ⟨some ⟨true, accessKey⟩⟩ else none, 314⟩

def setSettings : Action :=
  .instruction (.setSettings ⟨market, .jobsSettings market, accessKey, admin⟩)

/-- The market is restricted, and the project owns a token of the collection. -/
def restricted : State :=
  let s := Sample.run [openMarket 2 0, setSettings]
  { s with tokens := s.tokens.insert projectNft (.holding (.address 8) project 1) }

def restrictedMarket : MarketAccount :=
  ⟨admin, 0, 2, 60, 0x80, vault, id.systemProgram, 0, 255, []⟩

def listing : Accounts.List :=
  ⟨job, market, firstRun, 0, wallet project, vault, project, rewardsVault, project,
    ⟨some (.jobsSettings market), some projectNft,
      some ⟨pda.metaplexMetadata (.address 8), id.systemProgram, 0, metadata⟩⟩⟩

end Sample

omit [Runtime] in
theorem restricted_market_needs_access_sample :
    @listConstraints Sample.keyed Sample.restricted Sample.listing =
      .ok Sample.restrictedMarket := by
  have needs := @restricted_market_needs_access Sample.keyed Sample.restricted
    Sample.restrictedMarket rfl
  apply (needs.1 Sample.listing).mpr
  refine ⟨⟨⟨by decide +kernel, rfl, rfl, Or.inr rfl, by decide +kernel, by decide +kernel⟩, rfl⟩,
    ⟨Sample.accessKey⟩, Sample.projectNft, .holding (.address 8) Sample.project 1, _, rfl, rfl, ?_,
    rfl, rfl, rfl, le_refl _, rfl, rfl, ⟨some ⟨true, Sample.accessKey⟩⟩, ?_, rfl⟩
  · decide
  · exact if_pos rfl

end Nosana.Jobs
