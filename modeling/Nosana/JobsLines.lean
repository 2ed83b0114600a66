import Nosana.JobsConsistency

set_option autoImplicit false

/- What holds of the queue of every market whatever the instructions were, those of admins
included: its tag says what its orders are, and it fits in its account. -/
namespace Nosana.Jobs

open Checked

variable [Runtime]

/-- The queue of a market account that was written back. -/
structure Filed (market : MarketAccount) : Prop where
  tagged : market.line.Tagged
  fits : market.queue.length ≤ Runtime.queueCapacity

def AllFiled (s : State) : Prop :=
  ∀ key market, s.markets.lookup key = some market → Filed market

theorem Genesis.filed {s : State} (genesis : Genesis s) : AllFiled s := by
  intro key market present
  simp [genesis.markets] at present

/-- A new market has an empty queue. -/
theorem filed_init (authority : Pubkey) (expiration : Int) (price : Nat) (timeout : Int)
    (jobType : UInt8) (accessKey : Pubkey) (minimum : Nat) (vault : Pubkey) :
    Filed (MarketAccount.init authority expiration price timeout jobType accessKey minimum vault) :=
  ⟨Queue.tagged_empty, Nat.zero_le _⟩

theorem Filed.remove {market : MarketAccount} (filed : Filed market) (order : Pubkey) :
    Filed (market.withLine (market.line.remove order)) :=
  ⟨filed.tagged.remove order, le_trans (List.length_erase_le) filed.fits⟩

theorem Filed.push {market : MarketAccount} (filed : Filed market) {side : QueueType}
    (real : side ≠ .empty) {order : Pubkey}
    (fits : (market.withLine (market.line.push side order)).queue.length ≤ Runtime.queueCapacity) :
    Filed (market.withLine (market.line.push side order)) :=
  ⟨filed.tagged.push real order, fits⟩

theorem Filed.same {market updated : MarketAccount} (filed : Filed market)
    (line : updated.line = market.line) : Filed updated := by
  have queue : updated.queue = market.queue := congrArg Queue.orders line
  exact ⟨line ▸ filed.tagged, queue ▸ filed.fits⟩

theorem AllFiled.insert {s s' : State} (all : AllFiled s) {key : Pubkey} {market : MarketAccount}
    (filed : Filed market) (markets : s'.markets = s.markets.insert key market) : AllFiled s' := by
  intro other found present
  rw [markets] at present
  rcases Finmap.lookup_insert_eq_some present with ⟨-, rfl⟩ | ⟨-, before⟩
  · exact filed
  · exact all other found before

/-- A queue that an order joined still fits in its account. -/
theorem list_fits {s s' : State} {a : Accounts.List} {ipfsJob : IpfsHash} {timeout : Int}
    (success : list s a ipfsJob timeout = .ok s') {market : MarketAccount}
    (present : s'.markets.lookup a.market = some market) :
    market.queue.length ≤ Runtime.queueCapacity := by
  simp only [list, bind_eq_ok, pure_eq_ok, Prod.exists] at success
  obtain ⟨-, -, _, queued, -, tokens, -, written, exited, rfl⟩ := success
  obtain ⟨fits, rfl⟩ := MarketAccount.exit_eq_ok.mp exited
  rw [Finmap.lookup_insert] at present
  cases present
  exact fits

theorem work_fits {s s' : State} {a : Accounts.Work} (success : work s a = .ok s')
    {market : MarketAccount} (present : s'.markets.lookup a.market = some market) :
    market.queue.length ≤ Runtime.queueCapacity := by
  simp only [work, bind_eq_ok, pure_eq_ok, Prod.exists] at success
  obtain ⟨-, -, _, queued, -, written, exited, rfl⟩ := success
  obtain ⟨fits, rfl⟩ := MarketAccount.exit_eq_ok.mp exited
  rw [Finmap.lookup_insert] at present
  cases present
  exact fits

theorem filed_step {s s' : State} {action : Action} (all : AllFiled s)
    (success : step s action = .ok s') : AllFiled s' := by
  cases step_effect success with
  | openMarket fresh freshVault seeds initial =>
      exact all.insert (initial ▸ filed_init _ _ _ _ _ _ _ _) rfl
  | update present =>
      exact all.insert ((all _ _ present).same (MarketAccount.line_update _ _ _ _ _ _ _)) rfl
  | setSettings present | closeSettings present =>
      exact all.insert ((all _ _ present).same (MarketAccount.line_restrict _ _)) rfl
  | closeMarket closing markets =>
      intro key market present
      rw [markets] at present
      exact all key market (Finmap.lookup_erase_eq_some present).2
  | @listQueued a ipfsJob timeout market job tokens posted waiting known =>
      have fits := list_fits (show list s a ipfsJob timeout = .ok _ from success)
        (Finmap.lookup_insert _)
      exact all.insert ((all _ _ posted.present).push (by decide) fits) rfl
  | listStranded posted => exact all.insert (all _ _ posted.present) rfl
  | listMatched posted | assign posted =>
      exact all.insert ((all _ _ posted.present).remove _) rfl
  | delist present placed opened =>
      exact all.insert ((all _ _ opened).remove _) rfl
  | workMatched present | stop present =>
      exact all.insert ((all _ _ present).remove _) rfl
  | @workQueued a market present waiting absent known =>
      have fits := work_fits (show work s a = .ok _ from success) (Finmap.lookup_insert _)
      exact all.insert ((all _ _ present).push (by decide) fits) rfl
  | workIgnored present => exact all.insert (all _ _ present) rfl
  | _ => exact all

theorem run_filed {s : State} (genesis : Genesis s) (actions : List Action) :
    AllFiled (run s actions) :=
  Machine.run_invariant genesis.filed (fun _ _ _ all success => filed_step all success) actions

/-- On the board, the tag of every queue says what its orders are. -/
theorem AllFiled.board {s : State} (all : AllFiled s) (key : Pubkey) (queue : Queue)
    (opened : s.board.queue key = some queue) : queue.Tagged := by
  obtain ⟨market, present, rfl⟩ := Option.map_eq_some_iff.mp opened
  exact (all key market present).tagged

end Nosana.Jobs
