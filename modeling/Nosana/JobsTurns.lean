import Nosana.JobsFirstCome
import Nosana.JobsLines
import Nosana.Tally

set_option autoImplicit false

/- Nobody who waits in a market is overtaken, and whoever waits is served in turn. -/
namespace Nosana.Jobs

open Checked Matching

/-- An order leaves the queue of a market: it is paired with a newcomer, or taken out by name. -/
def Departs (key : Pubkey) (order : Entry) (event : Event) : Prop :=
  event.action.named key = some order ∨
    ∃ newcomer pair, event.action.newcomer key = some newcomer ∧ matched event = some pair ∧
      waited newcomer pair = order

/-- Whether a step brings somebody of the other side to a market. -/
def comesFor (key : Pubkey) (order : Entry) (event : Event) : Nat :=
  ((event.action.newcomer key).any order.opposes).toNat

/-- What a step does to an order that waits. -/
def Turned (key : Pubkey) (order : Entry) (event : Event) (queue : Queue) : Prop :=
  Departs key order event ∨ ∃ after, event.after.markets.lookup key = some after ∧
    Closer order queue.entries after.line.entries (comesFor key order event)

section

variable {key other : Pubkey} {order newcomer : Entry} {event : Event} {queue : Queue}
  {market account updated : MarketAccount}

theorem comesFor_of_nobody (nobody : event.action.newcomer key = none) :
    comesFor key order event = 0 := by
  rw [comesFor, nobody]
  rfl

theorem comesFor_of_some (comes : event.action.newcomer key = some newcomer) :
    comesFor key order event = (order.opposes newcomer).toNat := by
  rw [comesFor, comes]
  rfl

theorem turned_of_same (waits : order ∈ market.line.entries)
    (nobody : event.action.newcomer key = none)
    (same : event.after.markets.lookup key = some market) : Turned key order event market.line := by
  refine Or.inr ⟨market, same, ?_⟩
  rw [comesFor_of_nobody nobody]
  exact .rest waits

/-- A step that writes one market account moves nobody in another queue. -/
theorem turned_of_insert (present : event.before.markets.lookup key = some market)
    (waits : order ∈ market.line.entries)
    (opened : event.before.markets.lookup other = some account)
    (markets : event.after.markets = event.before.markets.insert other updated)
    (quiet : other ≠ key → event.action.newcomer key = none)
    (here : other = key → order ∈ account.line.entries → Departs key order event ∨
      Closer order account.line.entries updated.line.entries (comesFor key order event)) :
    Turned key order event market.line := by
  by_cases same : other = key
  · subst same
    cases opened.symm.trans present
    refine (here rfl waits).imp_right fun closer => ⟨updated, ?_, closer⟩
    rw [markets, Finmap.lookup_insert]
  · apply turned_of_same waits (quiet same)
    rw [markets, Finmap.lookup_insert_of_ne _ (Ne.symm same), present]

/-- In a queue without the tag of nodes only jobs wait. -/
theorem buyer_of_mem (waiting : queue.tag ≠ QueueType.node.toU8) (waits : order ∈ queue.entries) :
    ∃ job, order = .buyer job := by
  rw [Queue.entries_of_ne waiting] at waits
  obtain ⟨job, -, rfl⟩ := List.mem_map.mp waits
  exact ⟨job, rfl⟩

theorem seller_of_mem (tagged : queue.tag = QueueType.node.toU8) (waits : order ∈ queue.entries) :
    ∃ node, order = .seller node := by
  rw [Queue.entries_of_node tagged] at waits
  obtain ⟨node, -, rfl⟩ := List.mem_map.mp waits
  exact ⟨node, rfl⟩

/-- A job that finds no node is nobody's turn. -/
theorem comesFor_job {job : Pubkey} (waiting : queue.tag ≠ QueueType.node.toU8)
    (waits : order ∈ queue.entries) (comes : event.action.newcomer key = some (.buyer job)) :
    comesFor key order event = 0 := by
  obtain ⟨other, rfl⟩ := buyer_of_mem waiting waits
  rw [comesFor_of_some comes]
  rfl

theorem comesFor_node {node : Pubkey} (valid : queue.Tagged)
    (waiting : queue.tag ≠ QueueType.job.toU8) (waits : order ∈ queue.entries)
    (comes : event.action.newcomer key = some (.seller node)) : comesFor key order event = 0 := by
  rcases valid.empty_or waiting with none | tagged
  · rw [Queue.entries_empty none] at waits
    cases waits
  · obtain ⟨other, rfl⟩ := seller_of_mem tagged waits
    rw [comesFor_of_some comes]
    rfl

theorem closer_of_alone {entries : List Entry} (alone : comesFor key order event = 0)
    (waits : order ∈ entries) : Closer order entries entries (comesFor key order event) := by
  rw [alone]
  exact .rest waits

theorem closer_of_push {entries : List Entry} (alone : comesFor key order event = 0)
    (waits : order ∈ entries) :
    Closer order entries (entries ++ [newcomer]) (comesFor key order event) := by
  rw [alone]
  exact .joined waits newcomer

/-- The first order is served, or one behind it moves up. -/
theorem departs_or_first (pair : Pubkey × Pubkey) {first : Entry} {entries rest : List Entry}
    (orders : entries = first :: rest) (comes : event.action.newcomer key = some newcomer)
    (pairs : matched event = some pair) (oldest : waited newcomer pair = first)
    (waits : order ∈ entries) (opposed : order.opposes newcomer = true) :
    Departs key order event ∨
      Closer order entries (entries.erase first) (comesFor key order event) := by
  subst orders
  by_cases same : first = order
  · exact Or.inl (Or.inr ⟨newcomer, pair, comes, pairs, oldest.trans same⟩)
  · rw [comesFor_of_some comes, opposed, List.erase_cons_head]
    exact Or.inr (.first waits same)

/-- The order is taken out by name, or another one is. -/
theorem departs_or_left {entry : Entry} {entries : List Entry}
    (nobody : event.action.newcomer key = none) (named : event.action.named key = some entry)
    (waits : order ∈ entries) :
    Departs key order event ∨
      Closer order entries (entries.erase entry) (comesFor key order event) := by
  by_cases same : entry = order
  · exact Or.inl (Or.inl (named.trans (congrArg some same)))
  · rw [comesFor_of_nobody nobody]
    exact Or.inr (.left waits same)

end

variable [Runtime]

/-- Every step leaves an order in its turn, or takes it out of the queue. -/
theorem step_turned {s s' : State} {action : Action} {key : Pubkey} {market : MarketAccount}
    {order : Entry} (present : s.markets.lookup key = some market) (valid : market.line.Tagged)
    (waits : order ∈ market.line.entries) (stays : action.closes key = false)
    (success : step s action = .ok s') : Turned key order ⟨s, action, s'⟩ market.line := by
  cases step_effect success with
  | @openMarket a _ _ _ _ _ _ fresh =>
      have apart : key ≠ a.market := by
        intro same
        rw [same] at present
        exact fresh.1 (Finmap.mem_iff.mpr ⟨market, present⟩)
      exact turned_of_same waits rfl ((Finmap.lookup_insert_of_ne _ apart).trans present)
  | @closeMarket a _ _ closing markets =>
      have apart : key ≠ a.market := by
        intro same
        subst same
        rcases closing with rfl | rfl <;> simp [Action.closes] at stays
      have kept : s'.markets.lookup key = some market := by
        rw [markets, Finmap.lookup_erase_ne apart, present]
      rcases closing with rfl | rfl <;> exact turned_of_same waits rfl kept
  | update opened | setSettings opened | closeSettings opened =>
      apply turned_of_insert present waits opened rfl fun _ => rfl
      intro _ inside
      simp only [MarketAccount.line_update, MarketAccount.line_restrict]
      exact Or.inr (.rest inside)
  | @listQueued a _ _ account _ _ posted waiting =>
      refine turned_of_insert present waits posted.present rfl (fun apart => if_neg apart) ?_
      intro same inside
      have joined : (account.line.push .job a.job).entries =
          account.line.entries ++ [.buyer a.job] :=
        Queue.entries_push_job waiting a.job
      exact joined ▸ Or.inr (closer_of_push (comesFor_job waiting inside (if_pos same)) inside)
  | @listStranded a _ _ account _ _ posted waiting =>
      refine turned_of_insert present waits posted.present rfl (fun apart => if_neg apart) ?_
      intro same inside
      exact Or.inr (closer_of_alone (comesFor_job waiting inside (if_pos same)) inside)
  | @listMatched a _ _ account _ _ node rest posted waiting first freshRun =>
      refine turned_of_insert present waits posted.present rfl (fun apart => if_neg apart) ?_
      intro same inside
      have orders : account.line.entries = .seller node :: rest.map .seller := by
        rw [Queue.entries_of_node waiting]
        exact congrArg _ first
      have left : (account.line.remove node).entries = account.line.entries.erase (.seller node) :=
        Queue.entries_remove_node waiting node
      obtain ⟨other, rfl⟩ := seller_of_mem waiting inside
      refine left ▸ departs_or_first (a.job, node) orders (if_pos same) ?_ rfl inside rfl
      show Option.map _ (created _ a.run) = _
      rw [created_of_insert freshRun rfl]
      rfl
  | @assign a _ _ account _ _ posted waiting queued freshRun =>
      refine turned_of_insert present waits posted.present rfl (fun _ => rfl) ?_
      intro same inside
      have left : (account.line.remove a.node).entries =
          account.line.entries.erase (.seller a.node) := Queue.entries_remove_node waiting a.node
      exact left ▸ departs_or_left rfl (if_pos same) inside
  | @delist a account _ _ _ _ opened _ _ waiting =>
      refine turned_of_insert present waits opened rfl (fun _ => rfl) ?_
      intro same inside
      have left : (account.line.remove a.job).entries =
          account.line.entries.erase (.buyer a.job) := Queue.entries_remove_job waiting a.job
      exact left ▸ departs_or_left rfl (if_pos same) inside
  | @workQueued a account opened waiting =>
      refine turned_of_insert present waits opened rfl (fun apart => if_neg apart) ?_
      intro same inside
      rw [← same] at present
      cases present.symm.trans opened
      have joined : (market.line.push .node a.authority).entries =
          market.line.entries ++ [.seller a.authority] :=
        Queue.entries_push_node valid waiting a.authority
      exact joined ▸
        Or.inr (closer_of_push (comesFor_node valid waiting inside (if_pos same)) inside)
  | @workIgnored a account opened waiting =>
      refine turned_of_insert present waits opened rfl (fun apart => if_neg apart) ?_
      intro same inside
      rw [← same] at present
      cases present.symm.trans opened
      exact Or.inr (closer_of_alone (comesFor_node valid waiting inside (if_pos same)) inside)
  | @workMatched a account job rest opened waiting first freshRun =>
      refine turned_of_insert present waits opened rfl (fun apart => if_neg apart) ?_
      intro same inside
      have orders : account.line.entries = .buyer job :: rest.map .buyer := by
        rw [Queue.entries_of_job waiting]
        exact congrArg _ first
      have left : (account.line.remove job).entries = account.line.entries.erase (.buyer job) :=
        Queue.entries_remove_job waiting job
      have jobs : account.line.tag ≠ QueueType.node.toU8 := by
        rw [show account.line.tag = _ from waiting]
        decide
      obtain ⟨other, rfl⟩ := buyer_of_mem jobs inside
      refine left ▸ departs_or_first (job, a.authority) orders (if_pos same) ?_ rfl inside rfl
      show Option.map _ (created _ a.run) = _
      rw [created_of_insert freshRun rfl]
      rfl
  | @stop a account opened waiting =>
      refine turned_of_insert present waits opened rfl (fun _ => rfl) ?_
      intro same inside
      have left : (account.line.remove a.node).entries =
          account.line.entries.erase (.seller a.node) := Queue.entries_remove_node waiting a.node
      exact left ▸ departs_or_left rfl (if_pos same) inside
  | _ => exact turned_of_same waits rfl present

/-- As long as its market is not closed, an order that waits is paired or taken out by name, or it
still waits: behind nobody who came later, and served after no more newcomers of the other side than
there were orders in front of it. -/
theorem nobody_overtakes {s : State} (genesis : Genesis s) (past future : List Action)
    {key : Pubkey} {market : MarketAccount} {order : Entry}
    (present : (run s past).markets.lookup key = some market) (waits : order ∈ market.line.entries)
    (stays : ∀ event ∈ trace (run s past) future, event.action.closes key = false) :
    (∃ event ∈ trace (run s past) future, Departs key order event) ∨
      ∃ later, (run s (past ++ future)).markets.lookup key = some later ∧
        Closer order market.line.entries later.line.entries
          (Machine.tally (comesFor key order) (trace (run s past) future)) := by
  have last : run s (past ++ future) = run (run s past) future := Machine.run_append s past future
  rw [last]
  refine (Machine.guarded_induction (P := fun history state => AllFiled state ∧
    ((∃ event ∈ history, Departs key order event) ∨
      ∃ later, state.markets.lookup key = some later ∧
        Closer order market.line.entries later.line.entries
          (Machine.tally (comesFor key order) history)))
    (fun event : Event => event.action.closes key = false)
    ⟨run_filed genesis past, Or.inr ⟨market, present, .rest waits⟩⟩ ?_ future stays).2
  rintro history state action after ⟨filed, earlier⟩ success - stay
  refine ⟨filed_step filed success, ?_⟩
  rcases earlier with ⟨event, member, departed⟩ | ⟨later, here, closer⟩
  · exact Or.inl ⟨event, List.mem_append_left _ member, departed⟩
  · have tagged := (filed key later here).tagged
    rcases step_turned here tagged closer.waits stay success with departs | ⟨next, there, moved⟩
    · exact Or.inl ⟨_, List.mem_append_right _ (List.mem_singleton.mpr rfl), departs⟩
    · refine Or.inr ⟨next, there, ?_⟩
      rw [Machine.tally_concat]
      exact closer.trans moved

namespace Sample

def secondJob : Pubkey := .address 11

/-- Two jobs are listed. -/
def lining : List Action := [openMarket 2 0, list job firstRun 30, list secondJob secondRun 30]

def working : List Action := [work firstRun node]

end Sample

omit [Runtime] in
theorem nobody_overtakes_sample : ∃ market,
    (Sample.run Sample.lining).markets.lookup Sample.market = some market ∧
      Order.buyer Sample.secondJob ∈ market.line.entries ∧
      ((∃ event ∈ @trace Sample.runtime (Sample.run Sample.lining) Sample.working,
          Departs Sample.market (.buyer Sample.secondJob) event) ∨
        ∃ later, (Sample.run (Sample.lining ++ Sample.working)).markets.lookup Sample.market =
            some later ∧
          Closer (.buyer Sample.secondJob) market.line.entries later.line.entries
            (Machine.tally (comesFor Sample.market (.buyer Sample.secondJob))
              (@trace Sample.runtime (Sample.run Sample.lining) Sample.working))) := by
  have present : ∃ market ∈ (Sample.run Sample.lining).markets.lookup Sample.market,
      Order.buyer Sample.secondJob ∈ market.line.entries := by
    decide +kernel
  obtain ⟨market, here, waits⟩ := present
  have stays : ∀ event ∈ @trace Sample.runtime (Sample.run Sample.lining) Sample.working,
      event.action.closes Sample.market = false := by
    decide +kernel
  exact ⟨market, here, waits, @nobody_overtakes Sample.runtime _ Sample.genesis Sample.lining
    Sample.working _ _ _ here waits stays⟩

/-- The node takes the first job, and the second one moves up. -/
example : Machine.tally (comesFor Sample.market (.buyer Sample.secondJob))
    (@trace Sample.runtime (Sample.run Sample.lining) Sample.working) = 1 := by decide +kernel

end Nosana.Jobs
