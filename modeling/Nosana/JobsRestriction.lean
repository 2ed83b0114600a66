import Nosana.JobsEffects

set_option autoImplicit false

/- The flag in the job type of a market and the account with its settings come and go together,
and the job type below the flag is the one that was asked for last. -/
namespace Nosana.Jobs

open Checked

/-! A flag in a byte -/

theorem or_and_right (first second mask : UInt8) :
    (first ||| second) &&& mask = (first &&& mask) ||| (second &&& mask) := by
  apply UInt8.toBitVec_inj.mp
  ext i
  simp [Bool.and_or_distrib_right]

theorem and_mask_not (value mask : UInt8) : value &&& mask &&& ~~~mask = 0 := by
  rw [UInt8.and_assoc]
  simp

theorem and_not_mask (value mask : UInt8) : value &&& ~~~mask &&& mask = 0 := by
  rw [UInt8.and_assoc]
  simp

theorem and_mask_mask (value mask : UInt8) : value &&& mask &&& mask = value &&& mask := by
  rw [UInt8.and_assoc]
  simp

theorem or_mask_mask (value mask : UInt8) : (value ||| mask) &&& mask = mask := by
  apply UInt8.toBitVec_inj.mp
  ext i
  simp only [UInt8.toBitVec_and, UInt8.toBitVec_or, BitVec.getElem_and, BitVec.getElem_or]
  cases mask.toBitVec[i]
  · rw [Bool.and_false]
  · rw [Bool.or_true, Bool.and_true]

theorem JobType.toU8_flag (jobType : JobType) : jobType.toU8 &&& restrictedFlag = 0 := by
  cases jobType <;> rfl

theorem JobType.toU8_low (jobType : JobType) :
    jobType.toU8 &&& ~~~restrictedFlag = jobType.toU8 := by
  cases jobType <;> rfl

namespace MarketAccount

/-- The job type without the flag. -/
def lowBits (self : MarketAccount) : UInt8 := self.jobType &&& ~~~restrictedFlag

variable {self : MarketAccount} {expiration : Int} {price : Nat} {timeout : Int} {jobType : UInt8}
  {accessKey : Pubkey} {minimum : Nat}

theorem isRestricted_update :
    (self.update expiration price jobType accessKey minimum timeout).isRestricted =
      self.isRestricted := by
  simp only [isRestricted, update, or_and_right, and_mask_mask, JobType.toU8_flag, UInt8.or_zero]

theorem lowBits_update :
    (self.update expiration price jobType accessKey minimum timeout).lowBits =
      (JobType.ofU8 jobType).toU8 := by
  simp only [lowBits, update, or_and_right, and_mask_not, JobType.toU8_low, UInt8.zero_or]

theorem isRestricted_init {authority vault : Pubkey} :
    (init authority expiration price timeout (JobType.ofU8 jobType).toU8 accessKey minimum
      vault).isRestricted = false := by
  simp only [isRestricted, init, JobType.toU8_flag]
  rfl

theorem lowBits_init {authority vault : Pubkey} :
    (init authority expiration price timeout (JobType.ofU8 jobType).toU8 accessKey minimum
      vault).lowBits = (JobType.ofU8 jobType).toU8 := JobType.toU8_low _

theorem isRestricted_restrict (restricted : Bool) :
    (self.restrict restricted).isRestricted = restricted := by
  cases restricted with
  | false =>
      simp only [isRestricted, restrict, Bool.false_eq_true, if_false, and_not_mask]
      rfl
  | true =>
      simp only [isRestricted, restrict, if_true, or_mask_mask]
      rfl

theorem lowBits_restrict (restricted : Bool) :
    (self.restrict restricted).lowBits = self.lowBits := by
  cases restricted with
  | false => simp only [lowBits, restrict, Bool.false_eq_true, if_false, and_mask_mask]
  | true =>
      have unflagged : restrictedFlag &&& ~~~restrictedFlag = 0 := rfl
      simp only [lowBits, restrict, if_true, or_and_right, unflagged, UInt8.or_zero]

end MarketAccount

/-! One step -/

/-- The job type that an instruction asks for in a market. -/
def Action.jobTypeOf (key : Pubkey) : Action → Option UInt8
  | .instruction (.openMarket a _ _ _ jobType _) => if a.market = key then some jobType else none
  | .instruction (.update a _ _ jobType _ _) => if a.market = key then some jobType else none
  | _ => none

/-- The job type that was asked for last. -/
def lastJobType (key : Pubkey) (history : List Event) : Option UInt8 :=
  (history.filterMap fun event => event.action.jobTypeOf key).getLast?

theorem lastJobType_concat (key : Pubkey) (past : List Event) (event : Event) :
    lastJobType key (past ++ [event]) =
      (event.action.jobTypeOf key).or (lastJobType key past) := by
  unfold lastJobType
  cases asked : event.action.jobTypeOf key <;> simp [asked]

/-- What one step does to the job types of the markets and to their settings. -/
inductive Marks (s : State) (action : Action) (s' : State) : Prop
  | kept (quiet : ∀ key, action.jobTypeOf key = none) (settings : s'.settings = s.settings)
      (types : (fun key => (s'.markets.lookup key).map MarketAccount.jobType) =
        fun key => (s.markets.lookup key).map MarketAccount.jobType)
  | opened {key : Pubkey} {market : MarketAccount} {jobType : UInt8}
      (asked : ∀ other, action.jobTypeOf other = if key = other then some jobType else none)
      (settings : s'.settings = s.settings) (fresh : key ∉ s.markets)
      (markets : s'.markets = s.markets.insert key market)
      (low : market.lowBits = (JobType.ofU8 jobType).toU8) (flag : market.isRestricted = false)
  | updated {key : Pubkey} {market old : MarketAccount} {jobType : UInt8}
      (asked : ∀ other, action.jobTypeOf other = if key = other then some jobType else none)
      (settings : s'.settings = s.settings) (present : s.markets.lookup key = some old)
      (markets : s'.markets = s.markets.insert key market)
      (low : market.lowBits = (JobType.ofU8 jobType).toU8)
      (flag : market.isRestricted = old.isRestricted)
  | set {key : Pubkey} {market : MarketAccount} {settings : MarketSettingsAccount}
      (quiet : ∀ key, action.jobTypeOf key = none) (present : s.markets.lookup key = some market)
      (markets : s'.markets = s.markets.insert key (market.restrict true))
      (settings : s'.settings = s.settings.insert (.jobsSettings key) settings)
  | unset {key : Pubkey} {market : MarketAccount}
      (quiet : ∀ key, action.jobTypeOf key = none) (present : s.markets.lookup key = some market)
      (markets : s'.markets = s.markets.insert key (market.restrict false))
      (settings : s'.settings = s.settings.erase (.jobsSettings key))
  | closed {key : Pubkey} {market : MarketAccount}
      (quiet : ∀ key, action.jobTypeOf key = none) (present : s.markets.lookup key = some market)
      (markets : s'.markets = s.markets.erase key)
      (settings : s'.settings = s.settings.erase (.jobsSettings key) ∨
        (market.isRestricted = false ∧ s'.settings = s.settings))

section

variable {s s' : State}

theorem setSettings_marks {a : Accounts.SetSettings} (success : setSettings s a = .ok s') :
    Marks s (.instruction (.setSettings a)) s' := by
  simp only [setSettings, bind_eq_ok, loadMarket_eq_ok, require_eq_ok, pure_eq_ok,
    exists_const] at success
  obtain ⟨market, present, -, seeds, -, rfl⟩ := success
  rw [seeds]
  exact .set (fun _ => rfl) present rfl rfl

theorem closeSettings_marks {a : Accounts.CloseSettings} (success : closeSettings s a = .ok s') :
    Marks s (.instruction (.closeSettings a)) s' := by
  simp only [closeSettings, bind_eq_ok, loadMarket_eq_ok, require_eq_ok, pure_eq_ok,
    exists_const] at success
  obtain ⟨market, present, -, seeds, -, rfl⟩ := success
  rw [seeds]
  exact .unset (fun _ => rfl) present rfl rfl

/-- A restricted market is only closed together with its settings. -/
theorem closeVaultAndMarket_settings {a : Accounts.Close} {market : MarketAccount}
    (success : closeVaultAndMarket s a market = .ok s') :
    s'.settings = s.settings.erase (.jobsSettings a.market) ∨
      (market.isRestricted = false ∧ s'.settings = s.settings) := by
  simp only [closeVaultAndMarket, Tokens.load, bind_eq_ok, get_eq_ok, require_eq_ok, pure_eq_ok,
    exists_and_left, exists_and_right, exists_const] at success
  obtain ⟨-, guarded, vault, -, -, -, seeds, emptied, -, rfl⟩ := success
  cases passed : a.marketSettings with
  | none =>
      rw [passed] at guarded
      exact Or.inr ⟨guarded.resolve_right (by simp), rfl⟩
  | some key =>
      have addressed := seeds key passed
      subst addressed
      exact Or.inl rfl

end

variable [Runtime] {s s' : State} {action : Action}

theorem step_marks (success : step s action = .ok s') : Marks s action s' := by
  cases step_effect success with
  | @openMarket a _ _ _ jobType _ market fresh freshVault seeds initial =>
      refine .opened (fun _ => rfl) rfl fresh.1 rfl ?_ ?_
      · rw [initial, MarketAccount.lowBits_init]
      · rw [initial, MarketAccount.isRestricted_init]
  | update present =>
      exact .updated (fun _ => rfl) rfl present rfl MarketAccount.lowBits_update
        MarketAccount.isRestricted_update
  | setSettings present => exact setSettings_marks success
  | closeSettings present => exact closeSettings_marks success
  | @closeMarket a _ _ closing markets jobs runs =>
      obtain ⟨market, present, closed⟩ := closing_eq_ok closing success
      refine .closed ?_ present markets (closeVaultAndMarket_settings closed)
      rcases closing with rfl | rfl <;> exact fun _ => rfl
  | listQueued posted | listStranded posted | listMatched posted | assign posted =>
      exact .kept (fun _ => rfl) rfl (Finmap.lookup_map_insert_same _ posted.present rfl)
  | delist _ _ opened =>
      exact .kept (fun _ => rfl) rfl (Finmap.lookup_map_insert_same _ opened rfl)
  | workQueued present | workIgnored present | workMatched present | stop present =>
      exact .kept (fun _ => rfl) rfl (Finmap.lookup_map_insert_same _ present rfl)
  | _ => exact .kept (fun _ => rfl) rfl rfl

/-! Every run -/

/-- A market is restricted exactly when it has settings, only live markets have settings, and
the job type of a market is the last one that was asked for. -/
structure Restricts (past : List Event) (s : State) : Prop where
  flagged : ∀ key market, s.markets.lookup key = some market →
    (market.isRestricted = true ↔ .jobsSettings key ∈ s.settings)
  settled : ∀ key, key ∈ s.settings → ∃ market ∈ s.markets, key = .jobsSettings market
  typed : ∀ key market, s.markets.lookup key = some market →
    ∃ jobType, lastJobType key past = some jobType ∧
      market.lowBits = (JobType.ofU8 jobType).toU8

omit [Runtime] in
theorem Genesis.restricts {s : State} (genesis : Genesis s) : Restricts [] s := by
  constructor
  · simp [genesis.markets]
  · intro key member
    rw [genesis.settings] at member
    exact absurd member Finmap.notMem_empty
  · simp [genesis.markets]

omit [Runtime] in
/-- A market with the job type of an earlier one has its flag and its low bits. -/
theorem exists_of_types {key : Pubkey} {market : MarketAccount}
    (types : (fun key => (s'.markets.lookup key).map MarketAccount.jobType) =
      fun key => (s.markets.lookup key).map MarketAccount.jobType)
    (present : s'.markets.lookup key = some market) :
    ∃ old, s.markets.lookup key = some old ∧ market.isRestricted = old.isRestricted ∧
      market.lowBits = old.lowBits := by
  have same := congrFun types key
  simp only [present, Option.map_some] at same
  obtain ⟨old, found, same⟩ := Option.map_eq_some_iff.mp same.symm
  refine ⟨old, found, ?_, ?_⟩
  · simp only [MarketAccount.isRestricted, same]
  · simp only [MarketAccount.lowBits, same]

omit [Runtime] in
/-- The low bits of a market are the ones that were just asked for, or the ones it had. -/
theorem Marks.lowBits (marks : Marks s action s') {key : Pubkey} {market : MarketAccount}
    (present : s'.markets.lookup key = some market) :
    (∃ jobType, action.jobTypeOf key = some jobType ∧
      market.lowBits = (JobType.ofU8 jobType).toU8) ∨
    (action.jobTypeOf key = none ∧
      ∃ old, s.markets.lookup key = some old ∧ market.lowBits = old.lowBits) := by
  cases marks with
  | kept quiet settings types =>
      obtain ⟨old, found, -, low⟩ := exists_of_types types present
      exact Or.inr ⟨quiet key, old, found, low⟩
  | opened asked _ _ markets low | updated asked _ _ markets low =>
      rw [markets] at present
      rcases Finmap.lookup_insert_eq_some present with ⟨rfl, rfl⟩ | ⟨other, earlier⟩
      · exact Or.inl ⟨_, by rw [asked, if_pos rfl], low⟩
      · exact Or.inr ⟨by rw [asked, if_neg (Ne.symm other)], market, earlier, rfl⟩
  | set quiet found markets | unset quiet found markets =>
      rw [markets] at present
      rcases Finmap.lookup_insert_eq_some present with ⟨rfl, rfl⟩ | ⟨other, earlier⟩
      · exact Or.inr ⟨quiet _, _, found, MarketAccount.lowBits_restrict _⟩
      · exact Or.inr ⟨quiet _, market, earlier, rfl⟩
  | closed quiet _ markets =>
      rw [markets] at present
      exact Or.inr ⟨quiet _, market, (Finmap.lookup_erase_eq_some present).2, rfl⟩

variable {past : List Event}

omit [Runtime] in
theorem Restricts.fresh (restricts : Restricts past s) {key : Pubkey} (fresh : key ∉ s.markets) :
    .jobsSettings key ∉ s.settings := by
  intro member
  obtain ⟨market, live, same⟩ := restricts.settled _ member
  cases same
  exact fresh live

omit [Runtime] in
theorem Restricts.flagged_next (restricts : Restricts past s) (marks : Marks s action s')
    {key : Pubkey} {market : MarketAccount} (present : s'.markets.lookup key = some market) :
    market.isRestricted = true ↔ .jobsSettings key ∈ s'.settings := by
  cases marks with
  | kept quiet settings types =>
      obtain ⟨old, found, flag, -⟩ := exists_of_types types present
      rw [flag, settings]
      exact restricts.flagged key old found
  | opened asked settings fresh markets low flag =>
      rw [settings]
      rw [markets] at present
      rcases Finmap.lookup_insert_eq_some present with ⟨rfl, rfl⟩ | ⟨-, earlier⟩
      · rw [flag]
        exact iff_of_false Bool.noConfusion (restricts.fresh fresh)
      · exact restricts.flagged key market earlier
  | updated asked settings found markets low flag =>
      rw [settings]
      rw [markets] at present
      rcases Finmap.lookup_insert_eq_some present with ⟨rfl, rfl⟩ | ⟨-, earlier⟩
      · rw [flag]
        exact restricts.flagged _ _ found
      · exact restricts.flagged key market earlier
  | set quiet found markets settings =>
      rw [settings, Finmap.mem_insert]
      rw [markets] at present
      rcases Finmap.lookup_insert_eq_some present with ⟨rfl, rfl⟩ | ⟨other, earlier⟩
      · exact iff_of_true (MarketAccount.isRestricted_restrict true) (Or.inl rfl)
      · rw [restricts.flagged key market earlier]
        simp [other]
  | unset quiet found markets settings =>
      rw [settings, Finmap.mem_erase]
      rw [markets] at present
      rcases Finmap.lookup_insert_eq_some present with ⟨rfl, rfl⟩ | ⟨other, earlier⟩
      · rw [MarketAccount.isRestricted_restrict]
        simp
      · rw [restricts.flagged key market earlier]
        simp [other]
  | closed quiet found markets settings =>
      rw [markets] at present
      obtain ⟨other, earlier⟩ := Finmap.lookup_erase_eq_some present
      rw [restricts.flagged key market earlier]
      rcases settings with settings | ⟨-, settings⟩
      · rw [settings, Finmap.mem_erase]
        simp [other]
      · rw [settings]

omit [Runtime] in
/-- A market with settings stays, unless its settings are closed with it. -/
theorem Restricts.settled_next (restricts : Restricts past s) (marks : Marks s action s')
    {key : Pubkey} (member : key ∈ s'.settings) :
    ∃ market ∈ s'.markets, key = .jobsSettings market := by
  have settled := restricts.settled key
  cases marks with
  | kept quiet settings types =>
      rw [settings] at member
      obtain ⟨market, live, same⟩ := settled member
      obtain ⟨account, present⟩ := Finmap.mem_iff.mp live
      have kept := congrFun types market
      simp only [present, Option.map_some] at kept
      obtain ⟨_, after, -⟩ := Option.map_eq_some_iff.mp kept
      exact ⟨market, Finmap.mem_of_lookup_eq_some after, same⟩
  | opened asked settings _ markets | updated asked settings _ markets =>
      rw [settings] at member
      obtain ⟨market, live, same⟩ := settled member
      rw [markets]
      exact ⟨market, Finmap.mem_insert.mpr (Or.inr live), same⟩
  | set quiet found markets settings =>
      rw [settings, Finmap.mem_insert] at member
      rw [markets]
      rcases member with rfl | earlier
      · exact ⟨_, Finmap.mem_insert.mpr (Or.inl rfl), rfl⟩
      · obtain ⟨market, live, same⟩ := settled earlier
        exact ⟨market, Finmap.mem_insert.mpr (Or.inr live), same⟩
  | unset quiet found markets settings =>
      rw [settings, Finmap.mem_erase] at member
      obtain ⟨market, live, same⟩ := settled member.2
      rw [markets]
      exact ⟨market, Finmap.mem_insert.mpr (Or.inr live), same⟩
  | @closed gone closing quiet found markets settings =>
      have earlier : key ≠ .jobsSettings gone ∧ key ∈ s.settings := by
        rcases settings with settings | ⟨unrestricted, settings⟩
        · rwa [settings, Finmap.mem_erase] at member
        · rw [settings] at member
          refine ⟨?_, member⟩
          rintro rfl
          rw [(restricts.flagged gone closing found).mpr member] at unrestricted
          cases unrestricted
      obtain ⟨market, live, same⟩ := settled earlier.2
      rw [markets]
      refine ⟨market, Finmap.mem_erase.mpr ⟨?_, live⟩, same⟩
      rintro rfl
      exact earlier.1 same

omit [Runtime] in
theorem Restricts.next (restricts : Restricts past s) (marks : Marks s action s') :
    Restricts (past ++ [⟨s, action, s'⟩]) s' := by
  refine ⟨fun key market present => restricts.flagged_next marks present,
    fun key member => restricts.settled_next marks member, fun key market present => ?_⟩
  rw [lastJobType_concat]
  rcases marks.lowBits present with ⟨jobType, asked, low⟩ | ⟨quiet, old, found, low⟩
  · exact ⟨jobType, by rw [asked, Option.some_or], low⟩
  · obtain ⟨jobType, last, before⟩ := restricts.typed key old found
    exact ⟨jobType, by rw [quiet, Option.none_or, last], low.trans before⟩

/-- In every state the restricted flag of a live market mirrors its settings account, no settings
are left without their market, and below the flag is the job type that was asked for last; an
update leaves the flag as it is. -/
theorem flag_mirrors_settings {start : State} (genesis : Genesis start) (actions : List Action) :
    (∀ key market, (run start actions).markets.lookup key = some market →
      (market.isRestricted = true ↔ .jobsSettings key ∈ (run start actions).settings) ∧
      ∃ jobType, lastJobType key (trace start actions) = some jobType ∧
        market.jobType &&& ~~~restrictedFlag = (JobType.ofU8 jobType).toU8) ∧
    (∀ key, key ∈ (run start actions).settings →
      ∃ market ∈ (run start actions).markets, key = .jobsSettings market) ∧
    ∀ event ∈ trace start actions, ∀ a expiration price jobType minimum timeout,
      event.action = .instruction (.update a expiration price jobType minimum timeout) →
      ∃ before after, event.before.markets.lookup a.market = some before ∧
        event.after.markets.lookup a.market = some after ∧
        after.isRestricted = before.isRestricted := by
  have restricts : Restricts (trace start actions) (run start actions) :=
    Machine.run_induction genesis.restricts
      (fun _ _ _ _ before success => before.next (step_marks success)) actions
  refine ⟨fun key market present => ⟨restricts.flagged key market present,
    restricts.typed key market present⟩, restricts.settled, ?_⟩
  rintro ⟨before, action, after⟩ member a expiration price jobType minimum timeout rfl
  have success : step before (.instruction
      (.update a expiration price jobType minimum timeout)) = .ok after :=
    Machine.mem_trace_step member
  cases step_effect success with
  | update present =>
      exact ⟨_, _, present, Finmap.lookup_insert _, MarketAccount.isRestricted_update⟩
  | closeMarket closing => rcases closing with other | other <;> cases other

namespace Sample

def restrict : Action :=
  .instruction (.setSettings ⟨market, .jobsSettings market, id.systemProgram, admin⟩)

def update (jobType : UInt8) : Action :=
  .instruction (.update ⟨market, id.systemProgram, admin⟩ 0 2 jobType 0 60)

def close : Action :=
  .instruction (.close ⟨market, vault, wallet project, admin, some (.jobsSettings market)⟩)

/-- A market is restricted, updated with the flag in its argument, closed, and opened again. -/
def reopening : List Action :=
  [openMarket 2 0, restrict, update 0x83, close, openMarket 2 0x81]

def reopened : MarketAccount := ⟨admin, 0, 2, 60, 1, vault, id.systemProgram, 0, 255, []⟩

end Sample

omit [Runtime] in
theorem flag_mirrors_settings_sample :
    (Sample.reopened.isRestricted = true ↔
      .jobsSettings Sample.market ∈ (Sample.run Sample.reopening).settings) ∧
    ∃ jobType, lastJobType Sample.market (Sample.trace Sample.reopening) = some jobType ∧
      Sample.reopened.jobType &&& ~~~restrictedFlag = (JobType.ofU8 jobType).toU8 := by
  have present : (Sample.run Sample.reopening).markets.lookup Sample.market =
      some Sample.reopened := by
    decide +kernel
  exact (@flag_mirrors_settings Sample.runtime _ Sample.genesis Sample.reopening).1 Sample.market
    Sample.reopened present

end Nosana.Jobs
