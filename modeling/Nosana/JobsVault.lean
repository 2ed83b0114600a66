import Nosana.JobsEffects

set_option autoImplicit false

/- How tokens move in and out of the vault of a market, and what is known of every
vault, job and run whatever the instructions were. -/
namespace Nosana.Jobs

open Checked

namespace JobAccount

/-- What a job costs for some time. -/
def cost (job : JobAccount) (duration : Int) : Nat := job.price * duration.toNat

/-- What the node of an ended job has earned. -/
def earned (job : JobAccount) : Nat :=
  job.cost (min (job.timeEnd - job.timeStart) job.timeout)

theorem cost_of_free {job : JobAccount} (free : job.price = 0) (duration : Int) :
    job.cost duration = 0 := by
  simp only [cost, free, Nat.zero_mul]

theorem cost_mono (job : JobAccount) {first second : Int} (below : first ≤ second) :
    job.cost first ≤ job.cost second :=
  Nat.mul_le_mul_left _ (Int.toNat_le_toNat below)

/-- Time that is paid in two parts costs the sum of the parts. -/
theorem cost_split {job : JobAccount} {first second : Int}
    (positive : 0 < job.price → 0 ≤ first) (below : first ≤ second) :
    job.cost second = job.cost (second - first) + job.cost first := by
  rcases Nat.eq_zero_or_pos job.price with free | paid
  · simp only [cost_of_free free]
  · have start := positive paid
    have parts : second.toNat = (second - first).toNat + first.toNat := by omega
    rw [cost, parts, Nat.mul_add]
    rfl

theorem earned_le_cost (job : JobAccount) : job.earned ≤ job.cost job.timeout :=
  job.cost_mono (min_le_right _ _)

end JobAccount

/-! Transfers -/

theorem transferFromVault_balance {tokens result : Tokens} {market vault destination : Pubkey}
    {amount : Nat}
    (success : transferFromVault tokens market vault destination amount = .ok result)
    (key : Pubkey) :
    result.balance key + (if key = vault then amount else 0) =
      tokens.balance key + (if key = destination then amount else 0) := by
  obtain ⟨-, -, -, moved⟩ := transferFromVault_eq_ok.mp success
  exact Tokens.balance_transfer moved key

theorem transferFromVault_moved {tokens middle result : Tokens}
    {market vault destination : Pubkey} {amount : Nat} (earlier : Tokens.Moved tokens middle)
    (success : transferFromVault middle market vault destination amount = .ok result) :
    Tokens.Moved tokens result := by
  obtain ⟨-, -, -, moved⟩ := transferFromVault_eq_ok.mp success
  exact .transfer earlier moved

theorem payDeposit_balance {tokens result : Tokens} {job : JobAccount} {duration : Int}
    {user vault rewardsVault payer : Pubkey}
    (success : payDeposit tokens job duration user vault rewardsVault payer = .ok result)
    (key : Pubkey) :
    result.balance key + (if key = user then job.cost duration else 0) =
      tokens.balance key + (if key = vault then job.cost duration else 0) := by
  rcases payDeposit_eq_ok.mp success with ⟨free, rfl⟩ | ⟨-, deposit, computed, moved⟩
  · simp only [JobAccount.cost_of_free free, ite_self]
  · obtain ⟨-, -, -, rfl⟩ := getDeposit_eq_ok.mp computed
    exact Tokens.balance_transfer moved key

theorem payDeposit_moved {tokens result : Tokens} {job : JobAccount} {duration : Int}
    {user vault rewardsVault payer : Pubkey}
    (success : payDeposit tokens job duration user vault rewardsVault payer = .ok result) :
    Tokens.Moved tokens result := by
  rcases payDeposit_eq_ok.mp success with ⟨-, rfl⟩ | ⟨-, deposit, -, moved⟩
  · exact .rest
  · exact .transfer .rest moved

theorem payDeposit_duration {tokens result : Tokens} {job : JobAccount} {duration : Int}
    {user vault rewardsVault payer : Pubkey}
    (success : payDeposit tokens job duration user vault rewardsVault payer = .ok result)
    (paid : 0 < job.price) : 0 ≤ duration := by
  rcases payDeposit_eq_ok.mp success with ⟨free, -⟩ | ⟨-, deposit, computed, -⟩
  · omega
  · exact (getDeposit_eq_ok.mp computed).1

theorem settle_balance {tokens result : Tokens} {job : JobAccount}
    {market vault user deposit : Pubkey}
    (success : settle tokens job market vault user deposit = .ok result) (key : Pubkey) :
    result.balance key + (if key = vault then job.cost job.timeout else 0) =
      tokens.balance key + (if key = user then job.earned else 0) +
        (if key = deposit then job.cost job.timeout - job.earned else 0) := by
  rcases settle_eq_ok.mp success with ⟨free, rfl⟩ |
    ⟨-, total, amount, middle, computed, reimbursed, enough, first, second⟩
  · simp only [JobAccount.earned, JobAccount.cost_of_free free, Nat.sub_zero, ite_self,
      Nat.add_zero]
  · obtain ⟨-, -, -, rfl⟩ := getDeposit_eq_ok.mp computed
    obtain ⟨-, -, -, rfl⟩ := getDeposit_eq_ok.mp (getReimbursement_eq_ok.mp reimbursed).2
    have toNode := transferFromVault_balance first key
    have back := transferFromVault_balance second key
    simp only [JobAccount.earned, JobAccount.cost]
    by_cases source : key = vault
    · simp only [source, if_true] at toNode back ⊢
      omega
    · simp only [source, if_false] at toNode back ⊢
      omega

theorem settle_moved {tokens result : Tokens} {job : JobAccount}
    {market vault user deposit : Pubkey}
    (success : settle tokens job market vault user deposit = .ok result) :
    Tokens.Moved tokens result := by
  rcases settle_eq_ok.mp success with ⟨-, rfl⟩ | ⟨-, total, amount, middle, -, -, -, first, second⟩
  · exact .rest
  · exact transferFromVault_moved (transferFromVault_moved .rest first) second

theorem Refunded.moved {tokens result : Tokens} {job : JobAccount}
    {market vault deposit : Pubkey} (refunded : Refunded tokens result job market vault deposit) :
    Tokens.Moved tokens result := by
  rcases refunded with ⟨-, rfl⟩ | ⟨-, total, -, moved⟩
  · exact .rest
  · exact transferFromVault_moved .rest moved

/-! What every reachable state has -/

/-- Every market has its vault and every paid job a timeout that is not negative, also when
markets are closed. -/
structure Founded (s : State) : Prop where
  vaults : ∀ key vault, (s.markets.lookup key).map MarketAccount.vault = some vault →
    vault = .jobsVault key id.nosToken ∧
      (s.tokens.lookup vault).map TokenAccount.kind = some (id.nosToken, vault)
  timeouts : ∀ key job, s.jobs.lookup key = some job → 0 < job.price → 0 ≤ job.timeout
  tokens : s.tokens.WellFormed supplyCap

theorem Genesis.founded {s : State} (genesis : Genesis s) : Founded s := by
  refine ⟨?_, ?_, genesis.tokens⟩
  · simp [genesis.markets]
  · simp [genesis.jobs]

namespace Founded

variable {s s' : State}

/-- Steps that keep the vault of every market and move tokens by transfers. -/
theorem step (founded : Founded s)
    (markets : (fun key => (s'.markets.lookup key).map MarketAccount.vault) =
      fun key => (s.markets.lookup key).map MarketAccount.vault)
    (tokens : Tokens.Moved s.tokens s'.tokens)
    (jobs : ∀ key job, s'.jobs.lookup key = some job →
      s.jobs.lookup key = some job ∨ (0 < job.price → 0 ≤ job.timeout)) : Founded s' := by
  refine ⟨fun key vault opened => ?_, fun key job present => ?_, tokens.wellFormed founded.tokens⟩
  · rw [congrFun markets key] at opened
    rw [tokens.kind_eq]
    exact founded.vaults key vault opened
  · exact (jobs key job present).elim (founded.timeouts key job) id

/-- A new market comes with a new vault. -/
theorem openMarket (founded : Founded s) {key vault : Pubkey} {market : MarketAccount}
    (freshVault : s.Vacant vault) (seeds : vault = .jobsVault key id.nosToken)
    (own : market.vault = vault) :
    Founded { s with
      markets := s.markets.insert key market
      tokens := s.tokens.insert vault (.holding id.nosToken vault 0) } := by
  have absent : ∀ other, s.tokens.lookup other ≠ none → other ≠ vault := by
    rintro other present rfl
    exact present (Finmap.lookup_eq_none.mpr freshVault.2.2.2.2)
  refine ⟨fun other found opened => ?_, founded.timeouts, ?_⟩
  · obtain ⟨account, inside, same⟩ := Option.map_eq_some_iff.mp opened
    rcases Finmap.lookup_insert_eq_some inside with ⟨rfl, rfl⟩ | ⟨different, earlier⟩
    · rw [← same, own, Finmap.lookup_insert]
      exact ⟨seeds, rfl⟩
    · have ⟨named, kind⟩ := founded.vaults other found (by rw [earlier, ← same]; rfl)
      refine ⟨named, ?_⟩
      rw [Finmap.lookup_insert_of_ne, kind]
      apply absent
      intro none
      simp [none] at kind
  · apply founded.tokens.insert_empty freshVault.2.2.2.2
    rw [seeds]
    trivial

/-- Closing a market closes no other vault. -/
theorem closeMarket (founded : Founded s) {key vault user : Pubkey} {emptied : Tokens}
    {amount : Nat} (markets : s'.markets = s.markets.erase key) (jobs : s'.jobs = s.jobs)
    (moved : transferFromVault s.tokens key vault user amount = .ok emptied)
    (tokens : s'.tokens = emptied.erase vault) : Founded s' := by
  obtain ⟨account, present, seeds, transferred⟩ := transferFromVault_eq_ok.mp moved
  have kinds := Tokens.kind_transfer transferred
  refine ⟨fun other found opened => ?_, jobs ▸ founded.timeouts, ?_⟩
  · rw [markets, Finmap.lookup_erase_eq_ite] at opened
    split at opened
    · cases opened
    · rename_i different
      have ⟨named, kind⟩ := founded.vaults other found opened
      refine ⟨named, ?_⟩
      rw [tokens, Finmap.lookup_erase_ne, kinds, kind]
      rw [named, seeds]
      simp [different]
  · obtain ⟨still, found, -⟩ := Tokens.exists_of_kind (kinds vault) present
    rw [tokens]
    exact (founded.tokens.transfer transferred).erase found

/-- An account that keeps its price and gets no shorter timeout. -/
theorem rewritten (founded : Founded s) {key : Pubkey} {job next : JobAccount}
    (present : s.jobs.lookup key = some job) (price : next.price = job.price)
    (timeout : job.timeout ≤ next.timeout) : 0 < next.price → 0 ≤ next.timeout := by
  rw [price]
  exact fun paid => le_trans (founded.timeouts key job present paid) timeout

theorem external (founded : Founded s) {tokens : Tokens}
    (outside : Tokens.External isVault supplyCap s.tokens tokens) :
    Founded { s with tokens := tokens } := by
  refine ⟨fun key vault opened => ?_, founded.timeouts, outside.wellFormed⟩
  have ⟨named, kind⟩ := founded.vaults key vault opened
  refine ⟨named, ?_⟩
  rw [← kind]
  exact outside.kind_eq (by rw [named]; rfl)

end Founded

/-- Every market has its vault, every job its market and, when it is paid, a timeout
that is not negative; no run starts in the future. -/
structure Sound (s : State) : Prop where
  vaults : ∀ key vault, (s.markets.lookup key).map MarketAccount.vault = some vault →
    vault = .jobsVault key id.nosToken ∧
      (s.tokens.lookup vault).map TokenAccount.kind = some (id.nosToken, vault)
  jobs : ∀ key job, s.jobs.lookup key = some job →
    (∃ vault, (s.markets.lookup job.market).map MarketAccount.vault = some vault) ∧
      (0 < job.price → 0 ≤ job.timeout)
  tokens : s.tokens.WellFormed supplyCap
  clock : 0 ≤ s.clock ∧ Signed 64 s.clock
  runs : ∀ key run, s.runs.lookup key = some run → 0 ≤ run.time ∧ run.time ≤ s.clock

theorem Genesis.sound {s : State} (genesis : Genesis s) : Sound s := by
  refine ⟨?_, ?_, genesis.tokens, genesis.clock, ?_⟩
  · simp [genesis.markets]
  · simp [genesis.jobs]
  · simp [genesis.runs]

namespace Sound

variable {s : State}

theorem vault (sound : Sound s) {key : Pubkey} {market : MarketAccount}
    (present : s.markets.lookup key = some market) :
    market.vault = .jobsVault key id.nosToken :=
  (sound.vaults key market.vault (by rw [present]; rfl)).1

/-- The vault of a market is a token account of the program's token, under its own
authority. -/
theorem account (sound : Sound s) {key : Pubkey} {market : MarketAccount}
    (present : s.markets.lookup key = some market) :
    ∃ account, s.tokens.lookup market.vault = some account ∧
      account.mint = id.nosToken ∧ account.owner = market.vault := by
  have ⟨_, kind⟩ := sound.vaults key market.vault (by rw [present]; rfl)
  obtain ⟨account, found, same⟩ := Option.map_eq_some_iff.mp kind
  exact ⟨account, found, Prod.mk.inj same⟩

/-- Nobody else can move tokens out of the vault of a market. -/
theorem undelegated (sound : Sound s) {key : Pubkey} {market : MarketAccount}
    (present : s.markets.lookup key = some market) : s.tokens.Undelegated market.vault := by
  have ⟨place, kind⟩ := sound.vaults key market.vault (by rw [present]; rfl)
  exact sound.tokens.undelegated (by rw [place]; rfl) kind

/-- What a step may write as a job account: one that has a market and, when it is
paid, a timeout that is not negative. -/
def Placeable (s : State) (job : JobAccount) : Prop :=
  (∃ vault, (s.markets.lookup job.market).map MarketAccount.vault = some vault) ∧
    (0 < job.price → 0 ≤ job.timeout)

/-- Steps that keep the vault of every market and move tokens by transfers. -/
theorem step (sound : Sound s) {s' : State}
    (markets : (fun key => (s'.markets.lookup key).map MarketAccount.vault) =
      fun key => (s.markets.lookup key).map MarketAccount.vault)
    (tokens : Tokens.Moved s.tokens s'.tokens)
    (jobs : ∀ key job, s'.jobs.lookup key = some job →
      s.jobs.lookup key = some job ∨ Placeable s job)
    (runs : ∀ key run, s'.runs.lookup key = some run →
      s.runs.lookup key = some run ∨ run.time = s.clock)
    (clock : s'.clock = s.clock) : Sound s' := by
  refine ⟨fun key vault opened => ?_, fun key job present => ?_, tokens.wellFormed sound.tokens,
    clock ▸ sound.clock, fun key run live => ?_⟩
  · rw [congrFun markets key] at opened
    rw [tokens.kind_eq]
    exact sound.vaults key vault opened
  · rw [congrFun markets job.market]
    exact (jobs key job present).elim (sound.jobs key job) id
  · rw [clock]
    rcases runs key run live with earlier | now
    · exact sound.runs key run earlier
    · rw [now]
      exact ⟨sound.clock.1, le_refl _⟩

/-- An account that keeps its market and its price, and gets no shorter timeout. -/
theorem placeable (sound : Sound s) {key : Pubkey} {job next : JobAccount}
    (present : s.jobs.lookup key = some job) (market : next.market = job.market)
    (price : next.price = job.price) (timeout : job.timeout ≤ next.timeout) :
    Placeable s next := by
  have ⟨placed, positive⟩ := sound.jobs key job present
  rw [Placeable, market, price]
  exact ⟨placed, fun paid => le_trans (positive paid) timeout⟩

theorem founded (sound : Sound s) : Founded s :=
  ⟨sound.vaults, fun key job present => (sound.jobs key job present).2, sound.tokens⟩

/-- A new market comes with a new vault. -/
theorem openMarket (sound : Sound s) {key vault : Pubkey} {market : MarketAccount}
    (freshVault : s.Vacant vault) (seeds : vault = .jobsVault key id.nosToken)
    (own : market.vault = vault) :
    Sound { s with
      markets := s.markets.insert key market
      tokens := s.tokens.insert vault (.holding id.nosToken vault 0) } := by
  have ⟨vaults, _, tokens⟩ := sound.founded.openMarket freshVault seeds own
  refine ⟨vaults, fun other job present => ?_, tokens, sound.clock, sound.runs⟩
  have ⟨⟨home, placed⟩, positive⟩ := sound.jobs other job present
  refine ⟨?_, positive⟩
  by_cases here : job.market = key
  · exact ⟨market.vault, by rw [here, Finmap.lookup_insert]; rfl⟩
  · exact ⟨home, by rw [Finmap.lookup_insert_of_ne _ here, placed]⟩

end Sound

theorem Posted.market {s : State} {key marketKey : Pubkey} {market : MarketAccount}
    {job : JobAccount} {user vault rewardsVault payer : Pubkey} {tokens : Tokens}
    (posted : Posted s key marketKey market job user vault rewardsVault payer tokens) :
    job.market = marketKey := by
  obtain ⟨ipfsJob, project, timeout, created⟩ := posted.created
  rw [created]
  rfl

theorem Posted.price {s : State} {key marketKey : Pubkey} {market : MarketAccount}
    {job : JobAccount} {user vault rewardsVault payer : Pubkey} {tokens : Tokens}
    (posted : Posted s key marketKey market job user vault rewardsVault payer tokens) :
    job.price = market.jobPrice := by
  obtain ⟨ipfsJob, project, timeout, created⟩ := posted.created
  rw [created]
  rfl

theorem Posted.placeable {s : State} {key marketKey : Pubkey} {market : MarketAccount}
    {job : JobAccount} {user vault rewardsVault payer : Pubkey} {tokens : Tokens}
    (posted : Posted s key marketKey market job user vault rewardsVault payer tokens) :
    Sound.Placeable s job := by
  refine ⟨⟨market.vault, ?_⟩, payDeposit_duration posted.paid⟩
  rw [posted.market, posted.present]
  rfl

/-- One entry written into a map of accounts. -/
theorem inserted {α : Type} {map : Finmap fun _ : Pubkey => α} {key : Pubkey} {value : α}
    {P : α → Prop} (holds : P value) (other : Pubkey) (found : α)
    (inside : (map.insert key value).lookup other = some found) :
    map.lookup other = some found ∨ P found := by
  rcases Finmap.lookup_insert_eq_some inside with ⟨-, rfl⟩ | ⟨-, earlier⟩
  · exact Or.inr holds
  · exact Or.inl earlier

/-- A market that is rewritten with its vault leaves every market its vault. -/
theorem vaults_rewritten {s : State} {key : Pubkey} {old fresh : MarketAccount}
    (present : s.markets.lookup key = some old) (same : fresh.vault = old.vault) :
    (fun other => ((s.markets.insert key fresh).lookup other).map MarketAccount.vault) =
      fun other => (s.markets.lookup other).map MarketAccount.vault :=
  Finmap.lookup_map_insert_same MarketAccount.vault present same

variable [Runtime]

theorem sound_step {s s' : State} {action : Action} (sound : Sound s)
    (stays : action.closesMarket = false) (success : step s action = .ok s') : Sound s' := by
  have erased : ∀ {α : Type} {map : Finmap fun _ : Pubkey => α} {P : α → Prop} (key other : Pubkey)
      (found : α), (map.erase key).lookup other = some found →
      map.lookup other = some found ∨ P found := fun _ _ _ inside =>
    Or.inl (Finmap.lookup_erase_eq_some inside).2
  have kept : ∀ {α : Type} {map : Finmap fun _ : Pubkey => α} {P : α → Prop} (other : Pubkey)
      (found : α), map.lookup other = some found → map.lookup other = some found ∨ P found :=
    fun _ _ => Or.inl
  cases step_effect success with
  | openMarket fresh freshVault seeds initial =>
      exact sound.openMarket freshVault seeds (by rw [initial]; rfl)
  | update present => exact sound.step (vaults_rewritten present rfl) .rest kept kept rfl
  | setSettings present =>
      exact sound.step (vaults_rewritten present (MarketAccount.vault_restrict _ _)) .rest kept
        kept rfl
  | closeSettings present =>
      exact sound.step (vaults_rewritten present (MarketAccount.vault_restrict _ _)) .rest kept
        kept rfl
  | closeMarket closing =>
      rcases closing with rfl | rfl <;> cases stays
  | listQueued posted | listStranded posted =>
      exact sound.step (vaults_rewritten posted.present rfl) (payDeposit_moved posted.paid)
        (inserted posted.placeable) kept rfl
  | listMatched posted | assign posted =>
      exact sound.step (vaults_rewritten posted.present rfl) (payDeposit_moved posted.paid)
        (inserted posted.placeable) (inserted rfl) rfl
  | extend present placed opened vaulted associated queued apart longer paid =>
      exact sound.step rfl (payDeposit_moved paid)
        (inserted (sound.placeable present rfl rfl (le_of_lt longer))) kept rfl
  | delist present placed opened vaulted queued waiting member apart refunded =>
      exact sound.step (vaults_rewritten opened rfl) refunded.moved (erased _) kept rfl
  | recover present placed opened vaulted stopped apart amount refunded =>
      exact sound.step rfl (transferFromVault_moved .rest refunded) (erased _) kept rfl
  | endJob running apart associated settled =>
      exact sound.step rfl (settle_moved settled)
        (inserted (sound.placeable running.present rfl rfl (le_refl _))) (erased _) rfl
  | workQueued present | workIgnored present | stop present =>
      exact sound.step (vaults_rewritten present rfl) .rest kept kept rfl
  | workMatched present =>
      exact sound.step (vaults_rewritten present rfl) .rest kept (inserted rfl) rfl
  | complete present =>
      exact sound.step rfl .rest (inserted (sound.placeable present rfl rfl (le_refl _))) kept rfl
  | finish running queued apart associated settled =>
      exact sound.step rfl (settle_moved settled)
        (inserted (sound.placeable running.present rfl rfl (le_refl _))) (erased _) rfl
  | quit present =>
      exact sound.step rfl .rest (inserted (sound.placeable present rfl rfl (le_refl _)))
        (erased _) rfl
  | quitAdmin => exact sound.step rfl .rest kept (erased _) rfl
  | clean | cleanAdmin => exact sound.step rfl .rest (erased _) kept rfl
  | tick later fits =>
      refine ⟨sound.vaults, sound.jobs, sound.tokens, ⟨le_trans sound.clock.1 later, fits⟩,
        fun key run live => ?_⟩
      have ⟨positive, started⟩ := sound.runs key run live
      exact ⟨positive, le_trans started later⟩
  | external outside =>
      have ⟨vaults, _, tokens⟩ := sound.founded.external outside
      exact ⟨vaults, sound.jobs, tokens, sound.clock, sound.runs⟩

theorem founded_step {s s' : State} {action : Action} (founded : Founded s)
    (success : step s action = .ok s') : Founded s' := by
  have erased : ∀ {P : JobAccount → Prop} (key other : Pubkey) (found : JobAccount),
      (s.jobs.erase key).lookup other = some found → s.jobs.lookup other = some found ∨ P found :=
    fun _ _ _ inside => Or.inl (Finmap.lookup_erase_eq_some inside).2
  have kept : ∀ {P : JobAccount → Prop} (other : Pubkey) (found : JobAccount),
      s.jobs.lookup other = some found → s.jobs.lookup other = some found ∨ P found :=
    fun _ _ => Or.inl
  cases step_effect success with
  | openMarket fresh freshVault seeds initial =>
      exact founded.openMarket freshVault seeds (by rw [initial]; rfl)
  | update present => exact founded.step (vaults_rewritten present rfl) .rest kept
  | setSettings present | closeSettings present =>
      exact founded.step (vaults_rewritten present (MarketAccount.vault_restrict _ _)) .rest kept
  | closeMarket closing markets jobs =>
      obtain ⟨market, -, closed⟩ := closing_eq_ok closing success
      obtain ⟨-, emptied, amount, moved, tokens⟩ := closeVaultAndMarket_rest closed
      exact founded.closeMarket markets jobs moved tokens
  | listQueued posted | listStranded posted | listMatched posted | assign posted =>
      exact founded.step (vaults_rewritten posted.present rfl) (payDeposit_moved posted.paid)
        (inserted posted.placeable.2)
  | extend present placed opened vaulted associated queued apart longer paid =>
      exact founded.step rfl (payDeposit_moved paid)
        (inserted (founded.rewritten present rfl (le_of_lt longer)))
  | delist present placed opened vaulted queued waiting member apart refunded =>
      exact founded.step (vaults_rewritten opened rfl) refunded.moved (erased _)
  | recover present placed opened vaulted stopped apart amount refunded =>
      exact founded.step rfl (transferFromVault_moved .rest refunded) (erased _)
  | endJob running apart associated settled =>
      exact founded.step rfl (settle_moved settled)
        (inserted (founded.rewritten running.present rfl (le_refl _)))
  | finish running queued apart associated settled =>
      exact founded.step rfl (settle_moved settled)
        (inserted (founded.rewritten running.present rfl (le_refl _)))
  | workQueued present | workIgnored present | workMatched present | stop present =>
      exact founded.step (vaults_rewritten present rfl) .rest kept
  | complete present | quit present =>
      exact founded.step rfl .rest (inserted (founded.rewritten present rfl (le_refl _)))
  | clean | cleanAdmin => exact founded.step rfl .rest (erased _)
  | quitAdmin | tick => exact founded.step rfl .rest kept
  | external outside => exact founded.external outside

theorem run_founded {s : State} (genesis : Genesis s) (actions : List Action) :
    Founded (run s actions) :=
  Machine.run_invariant genesis.founded (fun _ _ _ founded success => founded_step founded success)
    actions

end Nosana.Jobs
