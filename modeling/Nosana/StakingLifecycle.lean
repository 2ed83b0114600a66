import Nosana.StakingEffects

set_option autoImplicit false

/- What one step can do to a stake, and what every stake of a run satisfies. -/
namespace Nosana.Staking

open Checked

/-- A live stake: at the address of its authority, with a vault of its own, of which it
records no more than there is until it is unstaked. -/
structure Standing (s : State) (key : Pubkey) (stake : StakeAccount) : Prop where
  bounded : stake.Bounded
  keyed : key = .stakingStake id.nosToken stake.authority
  vaulted : stake.vault = .stakingVault id.nosToken stake.authority
  kind : (s.tokens.lookup stake.vault).map TokenAccount.kind = some (id.nosToken, stake.vault)
  time : 0 ≤ stake.timeUnstake ∧ stake.timeUnstake ≤ s.clock
  held : stake.timeUnstake = 0 → stake.amount ≤ s.tokens.balance stake.vault

structure Sound (s : State) : Prop where
  stakes : ∀ key stake, s.stakes.lookup key = some stake → Standing s key stake
  tokens : s.tokens.WellFormed constants.nosTotalSupply
  clock : 0 < s.clock ∧ Signed 64 s.clock

theorem Genesis.sound {s : State} (genesis : Genesis s) : Sound s := by
  refine ⟨?_, genesis.tokens, genesis.clock⟩
  intro key stake present
  simp [genesis.stakes] at present

/-- A transfer that somebody signs takes nothing out of a vault. -/
theorem vault_grows {tokens result : Tokens} {vault source destination authority : Pubkey}
    {amount : Nat} (own : isVault vault = true)
    (kind : (tokens.lookup vault).map TokenAccount.kind = some (id.nosToken, vault))
    (undelegated : tokens.Undelegated vault) (signed : isVault authority = false)
    (paid : tokens.transfer source destination authority amount = .ok result) :
    tokens.balance vault ≤ result.balance vault := by
  apply Tokens.balance_le_of_ne_source paid
  rintro rfl
  obtain ⟨sender, sent, same⟩ := Option.map_eq_some_iff.mp kind
  have self : sender.owner = vault := (Prod.mk.inj same).2
  have spends := Tokens.mem_spenders_of_transfer paid sent
  rw [TokenAccount.spenders, undelegated sender sent, self] at spends
  rw [List.mem_singleton.mp spends, own] at signed
  cases signed

/-- A vault holds no more than the total supply. -/
theorem balance_le_supply {tokens : Tokens} {vault : Pubkey}
    (kind : (tokens.lookup vault).map TokenAccount.kind = some (id.nosToken, vault))
    (wellFormed : tokens.WellFormed constants.nosTotalSupply) :
    tokens.balance vault ≤ constants.nosTotalSupply := by
  obtain ⟨account, present, same⟩ := Option.map_eq_some_iff.mp kind
  have covered := Tokens.amount_le_supply present
  have mint : account.mint = id.nosToken := (Prod.mk.inj same).1
  rw [Tokens.balance_of_lookup present]
  rw [mint] at covered
  exact covered.trans wellFormed.capped

namespace Standing

variable {s : State} {key other : Pubkey} {stake rival : StakeAccount}

theorem isVault (standing : Standing s key stake) : isVault stake.vault = true := by
  rw [standing.vaulted]
  rfl

theorem timely (standing : Standing s key stake) (sound : Sound s) :
    stake.Timely s.clock := ⟨standing.time.1, standing.time.2, sound.clock.2⟩

theorem undelegated (standing : Standing s key stake) {cap : Nat}
    (wellFormed : s.tokens.WellFormed cap) : s.tokens.Undelegated stake.vault :=
  wellFormed.undelegated (by rw [standing.vaulted]; rfl) standing.kind

/-- Two stakes have two vaults. -/
theorem vault_ne (standing : Standing s key stake) (second : Standing s other rival)
    (apart : other ≠ key) : stake.vault ≠ rival.vault := by
  intro same
  rw [standing.vaulted, second.vaulted] at same
  have owner : stake.authority = rival.authority := by
    injection same
  apply apart
  rw [second.keyed, standing.keyed, owner]

end Standing

/-- What one step can do to a live stake and its vault. -/
inductive Turn (event : Event) (key : Pubkey) (stake : StakeAccount) : Prop
  | kept (after : event.after.stakes.lookup key = some stake)
      (grows : event.before.tokens.balance stake.vault ≤ event.after.tokens.balance stake.vault)
  | unstaked {a : Accounts.Unstake} {xnos : Nat} (action : event.action = .instruction (.unstake a))
      (same : a.stake = key) (staked : stake.timeUnstake = 0)
      (after : event.after.stakes.lookup key =
        some { stake with timeUnstake := event.before.clock, xnos := xnos })
      (balance : event.after.tokens.balance stake.vault = event.before.tokens.balance stake.vault)
  | restaked {a : Accounts.Restake} {xnos : Nat}
      (action : event.action = .instruction (.restake a)) (same : a.stake = key)
      (after : event.after.stakes.lookup key = some { stake with
        amount := event.before.tokens.balance stake.vault, timeUnstake := 0, xnos := xnos })
      (balance : event.after.tokens.balance stake.vault = event.before.tokens.balance stake.vault)
  | raised {amount xnos : Nat} (staked : stake.timeUnstake = 0)
      (after : event.after.stakes.lookup key =
        some { stake with amount := stake.amount + amount, xnos := xnos })
      (balance : event.after.tokens.balance stake.vault =
        event.before.tokens.balance stake.vault + amount)
  | extended {duration xnos : Nat} (staked : stake.timeUnstake = 0)
      (longest : stake.duration + duration ≤ StakeAccount.durationMax)
      (after : event.after.stakes.lookup key =
        some { stake with duration := stake.duration + duration, xnos := xnos })
      (balance : event.after.tokens.balance stake.vault = event.before.tokens.balance stake.vault)
  | withdrawn {paid : Nat} (after : event.after.stakes.lookup key = some stake)
      (unstaked : stake.timeUnstake ≠ 0)
      (released : stake.withdraw (event.before.tokens.balance stake.vault) event.before.clock =
        .ok paid)
      (balance : event.after.tokens.balance stake.vault + paid =
        event.before.tokens.balance stake.vault)
  | slashed {a : Accounts.Slash} {amount xnos : Nat}
      (action : event.action = .instruction (.slash a amount)) (same : a.stake = key)
      (enough : amount ≤ stake.amount)
      (after : event.after.stakes.lookup key =
        some { stake with amount := stake.amount - amount, xnos := xnos })
      (balance : event.after.tokens.balance stake.vault + amount =
        event.before.tokens.balance stake.vault)

section

variable {s s' : State} {key : Pubkey} {stake : StakeAccount}

/-- Somebody else's stake is written, or none. -/
theorem turn_of_ne {event : Event} {other : Pubkey} {value : StakeAccount}
    (present : event.before.stakes.lookup key = some stake) (apart : other ≠ key)
    (stakes : event.after.stakes = event.before.stakes.insert other value)
    (grows : event.before.tokens.balance stake.vault ≤ event.after.tokens.balance stake.vault) :
    Turn event key stake := by
  apply Turn.kept _ grows
  rw [stakes, Finmap.lookup_insert_of_ne _ (Ne.symm apart), present]

theorem stake_turn {a : Accounts.Stake} {amount duration xnos : Nat} {tokens : Tokens}
    (present : s.stakes.lookup key = some stake) (standing : Standing s key stake)
    (undelegated : s.tokens.Undelegated stake.vault) (freshVault : s.Vacant a.vault)
    (fresh : s.Vacant a.stake) (signed : isVault a.authority = false)
    (paid : Tokens.transfer (s.tokens.insert a.vault (.holding id.nosToken a.vault 0))
      a.user a.vault a.authority amount = .ok tokens) :
    Turn ⟨s, .instruction (.stake a amount duration), { s with
      stakes := s.stakes.insert a.stake ⟨amount, a.authority, duration, 0, a.vault, xnos⟩
      tokens := tokens }⟩ key stake := by
  have apart : a.stake ≠ key := by
    rintro rfl
    exact fresh.2.1 (Finmap.mem_of_lookup_eq_some present)
  have other : stake.vault ≠ a.vault := by
    intro same
    have kind := standing.kind
    rw [same, Finmap.lookup_eq_none.mpr freshVault.2.2] at kind
    cases kind
  apply turn_of_ne present apart rfl
  have kept := Tokens.balance_insert_empty freshVault.2.2 id.nosToken a.vault stake.vault
  have grown := vault_grows standing.isVault
    (by rw [Finmap.lookup_insert_of_ne _ other]; exact standing.kind)
    (undelegated.insert_holding _ _ _ _) signed paid
  rw [kept] at grown
  exact grown

/-- The balance of a loaded token account. -/
theorem amount_eq {account : TokenAccount} {vault : Pubkey}
    (loaded : s.tokens.lookup vault = some account) : account.amount = s.tokens.balance vault :=
  (Tokens.balance_of_lookup loaded).symm

/-- A live stake takes a turn, or it is closed with its vault. -/
theorem step_turn {action : Action} (sound : Sound s)
    (present : s.stakes.lookup key = some stake) (success : step s action = .ok s') :
    (s'.stakes.lookup key = none ∧ s'.tokens.balance stake.vault = 0) ∨
      Turn ⟨s, action, s'⟩ key stake := by
  have standing := sound.stakes key stake present
  have undelegated := standing.undelegated sound.tokens
  cases step_effect success with
  | settings => exact Or.inr (.kept present (le_refl _))
  | stake vaulted keyed freshVault fresh user shortest longest signed paid =>
      exact Or.inr (stake_turn present standing undelegated freshVault fresh signed paid)
  | @unstake a other xnos found staked =>
      by_cases same : a.stake = key
      · subst same
        cases present.symm.trans found
        exact Or.inr (.unstaked rfl rfl staked (Finmap.lookup_insert _) rfl)
      · exact Or.inr (turn_of_ne present same rfl (le_refl _))
  | @restake a other account xnos found unstaked loaded =>
      by_cases same : a.stake = key
      · subst same
        cases present.symm.trans found
        rw [amount_eq loaded]
        exact Or.inr (.restaked rfl rfl (Finmap.lookup_insert _) rfl)
      · exact Or.inr (turn_of_ne present same rfl (le_refl _))
  | @topup a amount other xnos tokens found staked apart signed paid =>
      by_cases same : a.stake = key
      · subst same
        cases present.symm.trans found
        have moved := Tokens.balance_destination paid apart
        exact Or.inr (.raised staked (Finmap.lookup_insert _) moved)
      · exact Or.inr (turn_of_ne present same rfl
          (vault_grows standing.isVault standing.kind undelegated signed paid))
  | @extend a duration other xnos found staked longest =>
      by_cases same : a.stake = key
      · subst same
        cases present.symm.trans found
        exact Or.inr (.extended staked longest (Finmap.lookup_insert _) rfl)
      · exact Or.inr (turn_of_ne present same rfl (le_refl _))
  | @close a other account found loaded =>
      by_cases same : a.stake = key
      · subst same
        cases present.symm.trans found
        exact Or.inl ⟨Finmap.lookup_erase _ _, Tokens.balance_of_absent (Finmap.lookup_erase _ _)⟩
      · have apart := standing.vault_ne (sound.stakes a.stake other found) same
        refine Or.inr (.kept ?_ ?_)
        · rw [← present]
          exact Finmap.lookup_erase_ne (Ne.symm same)
        · show s.tokens.balance stake.vault ≤
            Tokens.balance (s.tokens.erase other.vault) stake.vault
          rw [Tokens.balance_erase_of_ne apart]
  | @withdraw a other account amount tokens found unstaked apart loaded released paid =>
      by_cases same : a.stake = key
      · subst same
        cases present.symm.trans found
        rw [amount_eq loaded] at released
        refine Or.inr (.withdrawn present unstaked released ?_)
        rcases paid with ⟨rfl, rfl⟩ | paid
        · rfl
        · exact Tokens.balance_source paid apart.symm
      · have apart := standing.vault_ne (sound.stakes a.stake other found) same
        refine Or.inr (.kept present ?_)
        rcases paid with ⟨rfl, rfl⟩ | paid
        · exact le_refl _
        · exact Tokens.balance_le_of_ne_source paid apart
  | @slash a amount other xnos tokens found apart enough paid =>
      by_cases same : a.stake = key
      · subst same
        cases present.symm.trans found
        have moved := Tokens.balance_source paid apart
        exact Or.inr (.slashed rfl rfl enough (Finmap.lookup_insert _) moved)
      · exact Or.inr (turn_of_ne present same rfl (Tokens.balance_le_of_ne_source paid
          (standing.vault_ne (sound.stakes a.stake other found) same)))
  | tick => exact Or.inr (.kept present (le_refl _))
  | external external => exact Or.inr (.kept present (external.balance_le standing.isVault))

/-- Every step keeps the supply, and time does not run backwards. -/
theorem step_grounded {action : Action} (sound : Sound s) (success : step s action = .ok s') :
    s'.tokens.WellFormed constants.nosTotalSupply ∧ s.clock ≤ s'.clock ∧ Signed 64 s'.clock := by
  have ⟨_, tokens, positive, fits⟩ := sound
  cases step_effect success with
  | settings | unstake | restake | extend => exact ⟨tokens, le_refl _, fits⟩
  | stake vaulted keyed freshVault fresh user shortest longest signed paid =>
      refine ⟨(tokens.insert_empty freshVault.2.2 ?_).transfer paid, le_refl _, fits⟩
      rw [vaulted]
      trivial
  | topup found staked apart signed paid => exact ⟨tokens.transfer paid, le_refl _, fits⟩
  | close found loaded => exact ⟨tokens.erase loaded, le_refl _, fits⟩
  | withdraw found unstaked apart loaded released paid =>
      rcases paid with ⟨-, rfl⟩ | paid
      · exact ⟨tokens, le_refl _, fits⟩
      · exact ⟨tokens.transfer paid, le_refl _, fits⟩
  | slash found apart enough paid => exact ⟨tokens.transfer paid, le_refl _, fits⟩
  | tick later within => exact ⟨tokens, later, within⟩
  | external external => exact ⟨external.wellFormed, le_refl _, fits⟩

/-- The vault of a stake that stays is the same token account. -/
theorem kind_step {action : Action} (sound : Sound s)
    (present : s.stakes.lookup key = some stake) (success : step s action = .ok s') :
    s'.stakes.lookup key = none ∨
      (s'.tokens.lookup stake.vault).map TokenAccount.kind =
        (s.tokens.lookup stake.vault).map TokenAccount.kind := by
  have standing := sound.stakes key stake present
  cases step_effect success with
  | settings | unstake | restake | extend | tick => exact Or.inr rfl
  | @stake a _ _ _ _ vaulted keyed freshVault fresh user shortest longest signed paid =>
      apply Or.inr
      rw [Tokens.kind_transfer paid, Finmap.lookup_insert_of_ne]
      intro same
      have kind := standing.kind
      rw [same, Finmap.lookup_eq_none.mpr freshVault.2.2] at kind
      cases kind
  | topup found staked apart signed paid => exact Or.inr (Tokens.kind_transfer paid _)
  | @close a other account found loaded =>
      by_cases same : a.stake = key
      · subst same
        exact Or.inl (Finmap.lookup_erase _ _)
      · apply Or.inr
        rw [Finmap.lookup_erase_ne (standing.vault_ne (sound.stakes a.stake other found) same)]
  | withdraw found unstaked apart loaded released paid =>
      rcases paid with ⟨-, rfl⟩ | paid
      · exact Or.inr rfl
      · exact Or.inr (Tokens.kind_transfer paid _)
  | slash found apart enough paid => exact Or.inr (Tokens.kind_transfer paid _)
  | external external => exact Or.inr (external.kind_eq standing.isVault)

theorem Standing.next {event : Event} {next : StakeAccount}
    (standing : Standing event.before key stake) (turn : Turn event key stake)
    (after : event.after.stakes.lookup key = some next)
    (kind : (event.after.tokens.lookup stake.vault).map TokenAccount.kind =
      (event.before.tokens.lookup stake.vault).map TokenAccount.kind)
    (later : 0 < event.before.clock ∧ event.before.clock ≤ event.after.clock)
    (supply : event.before.tokens.WellFormed constants.nosTotalSupply ∧
      event.after.tokens.WellFormed constants.nosTotalSupply) : Standing event.after key next := by
  have ⟨bounded, keyed, vaulted, own, time, held⟩ := standing
  have ⟨shortest, longest, supplied⟩ := bounded
  rw [← kind] at own
  have onward := time.2.trans later.2
  cases turn with
  | kept same grows =>
      cases after.symm.trans same
      exact ⟨bounded, keyed, vaulted, own, ⟨time.1, onward⟩,
        fun staked => (held staked).trans grows⟩
  | unstaked action same staked result balance =>
      cases after.symm.trans result
      refine ⟨⟨shortest, longest, supplied⟩, keyed, vaulted, own, ⟨le_of_lt later.1, later.2⟩, ?_⟩
      intro _
      exact (held staked).trans (le_of_eq balance.symm)
  | restaked _ _ result balance =>
      cases after.symm.trans result
      exact ⟨⟨shortest, longest, balance_le_supply standing.kind supply.1⟩, keyed, vaulted, own,
        ⟨le_refl _, (le_of_lt later.1).trans later.2⟩, fun _ => le_of_eq balance.symm⟩
  | @raised amount xnos staked result balance =>
      cases after.symm.trans result
      have more : stake.amount + amount ≤ event.after.tokens.balance stake.vault := by
        rw [balance]
        exact Nat.add_le_add_right (held staked) _
      have whole := balance_le_supply own supply.2
      exact ⟨⟨shortest, longest, more.trans whole⟩, keyed, vaulted, own, ⟨time.1, onward⟩,
        fun _ => more⟩
  | extended staked limit result balance =>
      cases after.symm.trans result
      exact ⟨⟨shortest.trans (Nat.le_add_right _ _), limit, supplied⟩, keyed, vaulted, own,
        ⟨time.1, onward⟩, fun _ => (held staked).trans (le_of_eq balance.symm)⟩
  | withdrawn same unstaked released balance =>
      cases after.symm.trans same
      exact ⟨bounded, keyed, vaulted, own, ⟨time.1, onward⟩, fun staked => absurd staked unstaked⟩
  | @slashed a amount xnos action same enough result balance =>
      cases after.symm.trans result
      refine ⟨⟨shortest, longest, (Nat.sub_le _ _).trans supplied⟩, keyed, vaulted, own,
        ⟨time.1, onward⟩, fun staked => ?_⟩
      have before := held staked
      show stake.amount - amount ≤ event.after.tokens.balance stake.vault
      omega

/-- The vault of a new stake holds what has been staked. -/
theorem created_balance {a : Accounts.Stake} {amount : Nat} {tokens : Tokens}
    (freshVault : s.Vacant a.vault) (user : a.user ∈ s.tokens)
    (paid : Tokens.transfer (s.tokens.insert a.vault (.holding id.nosToken a.vault 0))
      a.user a.vault a.authority amount = .ok tokens) : tokens.balance a.vault = amount := by
  have apart : a.user ≠ a.vault := by
    intro same
    rw [same] at user
    exact freshVault.2.2 user
  have moved := Tokens.balance_destination paid apart
  rw [Tokens.balance_insert_empty freshVault.2.2 id.nosToken a.vault a.vault,
    Tokens.balance_of_absent (Finmap.lookup_eq_none.mpr freshVault.2.2), Nat.zero_add] at moved
  exact moved

/-- A stake that is new was just made, and is not unstaked. -/
theorem created_step {action : Action} {next : StakeAccount} (sound : Sound s)
    (success : step s action = .ok s') (absent : s.stakes.lookup key = none)
    (after : s'.stakes.lookup key = some next) :
    Standing s' key next ∧ next.timeUnstake = 0 := by
  have other : ∀ {found : Pubkey} {old value : StakeAccount},
      s.stakes.lookup found = some old →
      (s.stakes.insert found value).lookup key = some next → False := by
    intro found old value present inside
    rcases Finmap.lookup_insert_eq_some inside with ⟨rfl, -⟩ | ⟨-, earlier⟩
    · cases absent.symm.trans present
    · cases absent.symm.trans earlier
  have grounded := step_grounded sound success
  cases step_effect success with
  | settings | tick | external | withdraw => cases absent.symm.trans after
  | unstake found | restake found | topup found | extend found | slash found =>
      exact (other found after).elim
  | close found =>
      cases absent.symm.trans (Finmap.lookup_erase_eq_some after).2
  | @stake a amount duration xnos tokens vaulted keyed freshVault fresh user shortest longest signed
      paid =>
      rcases Finmap.lookup_insert_eq_some after with ⟨rfl, rfl⟩ | ⟨-, earlier⟩
      · have moved := created_balance freshVault user paid
        have kind :
          (tokens.lookup a.vault).map TokenAccount.kind = some (id.nosToken, a.vault) := by
          rw [Tokens.kind_transfer paid, Finmap.lookup_insert]
          rfl
        have whole := balance_le_supply kind grounded.1
        refine ⟨⟨⟨shortest, longest, ?_⟩, keyed, vaulted, kind, ⟨le_refl _, le_of_lt sound.clock.1⟩,
          fun _ => ?_⟩, rfl⟩
        · show amount ≤ _
          omega
        · show amount ≤ tokens.balance a.vault
          omega
      · cases absent.symm.trans earlier

theorem sound_step {action : Action} (sound : Sound s) (success : step s action = .ok s') :
    Sound s' := by
  have ⟨tokens, later, fits⟩ := step_grounded sound success
  refine ⟨fun key next after => ?_, tokens, lt_of_lt_of_le sound.clock.1 later, fits⟩
  cases present : s.stakes.lookup key with
  | none => exact (created_step sound success present after).1
  | some stake =>
      have turn := (step_turn sound present success).resolve_left (by rw [after]; exact nofun)
      have kind := (kind_step sound present success).resolve_left (by rw [after]; exact nofun)
      exact (sound.stakes key stake present).next turn after kind ⟨sound.clock.1, later⟩
        ⟨sound.tokens, tokens⟩

end

end Nosana.Staking
