import Nosana.JobsFirstCome
import Nosana.JobsSigners
import Nosana.Tally
import Nosana.Totals

set_option autoImplicit false

/- Nodes work where they asked for work, and once for each time they asked: offers are neither lost
nor used twice. -/
namespace Nosana.Jobs

open Checked Matching

/-- How often a node waits in a queue. -/
def Queue.offers (queue : Queue) (node : Pubkey) : Nat := queue.entries.count (.seller node)

/-- How often a node waits in the queues of all markets. -/
def State.offers (s : State) (node : Pubkey) : Nat :=
  s.markets.total fun _ market => market.line.offers node

/-- How many jobs a node runs. -/
def State.employed (s : State) (node : Pubkey) : Nat :=
  s.runs.total fun _ run => if run.node = node then 1 else 0

/-- The run account that an event creates. -/
def startedRun (event : Event) : Option RunAccount :=
  match event.action with
  | .instruction (.list a _ _) => created event a.run
  | .instruction (.assign a _ _) => created event a.run
  | .instruction (.work a) => created event a.run
  | _ => none

/-- The run account that an event closes. -/
def closedRun (event : Event) : Option RunAccount :=
  match event.action with
  | .instruction (.endJob a) => event.before.runs.lookup a.run
  | .instruction (.finish a _) => event.before.runs.lookup a.run
  | .instruction (.quit a) => event.before.runs.lookup a.run
  | .instruction (.quitAdmin a) => event.before.runs.lookup a.run
  | _ => none

namespace Node

variable (node : Pubkey)

def ran (run : Option RunAccount) : Nat :=
  match run with
  | some run => if run.node = node then 1 else 0
  | none => 0

/-- The node asks for work. -/
def offered (event : Event) : Nat :=
  match event.action with
  | .instruction (.work a) => if a.authority = node then 1 else 0
  | _ => 0

/-- The node gets a job. -/
def hired (event : Event) : Nat := ran node (startedRun event)

/-- The node is done with a job. -/
def released (event : Event) : Nat := ran node (closedRun event)

/-- An offer of the node comes to nothing: it is withdrawn, its market is closed, or its market
takes no orders. -/
def departed (event : Event) : Nat :=
  match event.action with
  | .instruction (.stop a) => if a.node = node then 1 else 0
  | .instruction (.close a) =>
    ((event.before.markets.lookup a.market).map fun market => market.line.offers node).getD 0
  | .instruction (.closeAdmin a) =>
    ((event.before.markets.lookup a.market).map fun market => market.line.offers node).getD 0
  | .instruction (.work a) =>
    if a.authority = node ∧ ∃ market ∈ event.before.markets.lookup a.market,
      market.Unknown ∧ market.queueType ≠ QueueType.job.toU8 then 1 else 0
  | _ => 0

end Node

/-! Queues -/

namespace Queue

variable {queue : Queue} {node order : Pubkey}

theorem offers_push_job (waiting : queue.tag ≠ QueueType.node.toU8) :
    (queue.push .job order).offers node = queue.offers node := by
  rw [offers, offers, entries_push_job waiting, List.count_append]
  simp

theorem offers_push_node (valid : queue.Tagged) (waiting : queue.tag ≠ QueueType.job.toU8) :
    (queue.push .node order).offers node = queue.offers node + if order = node then 1 else 0 := by
  rw [offers, offers, entries_push_node valid waiting, List.count_append]
  by_cases same : order = node
  · simp [same]
  · simp [same]

theorem offers_remove_job (tagged : queue.tag = QueueType.job.toU8) :
    (queue.remove order).offers node = queue.offers node := by
  rw [offers, offers, entries_remove_job tagged]
  exact List.count_erase_of_ne (by simp)

theorem offers_remove_node (tagged : queue.tag = QueueType.node.toU8)
    (member : order ∈ queue.orders) :
    (queue.remove order).offers node + (if order = node then 1 else 0) = queue.offers node := by
  rw [offers, offers, entries_remove_node tagged]
  by_cases same : order = node
  · subst same
    have waits : Order.seller order ∈ queue.entries := by
      rw [entries_of_node tagged]
      exact List.mem_map_of_mem member
    have several := List.count_pos_iff.mpr waits
    rw [List.count_erase_self, if_pos rfl]
    omega
  · rw [if_neg same, add_zero]
    exact List.count_erase_of_ne (by simpa using Ne.symm same)

end Queue

/-- The tag of every queue is right. -/
def Sided (s : State) : Prop :=
  ∀ key market, s.markets.lookup key = some market → market.line.Tagged

theorem Sided.insert {s s' : State} (sided : Sided s) {key : Pubkey} {market : MarketAccount}
    (markets : s'.markets = s.markets.insert key market) (valid : market.line.Tagged) :
    Sided s' := by
  intro other found inside
  rw [markets] at inside
  rcases Finmap.lookup_insert_eq_some inside with ⟨-, rfl⟩ | ⟨-, present⟩
  · exact valid
  · exact sided other found present

theorem Genesis.sided {s : State} (genesis : Genesis s) : Sided s := by
  intro key market present
  simp [genesis.markets] at present

section

variable {s s' : State} {key : Pubkey} {market : MarketAccount} (node : Pubkey)

theorem offers_of_fresh (fresh : key ∉ s.markets)
    (markets : s'.markets = s.markets.insert key market) :
    s'.offers node = market.line.offers node + s.offers node := by
  unfold State.offers
  rw [markets, Finmap.total_insert_fresh _ _ _ _ fresh]

theorem offers_of_insert {next : MarketAccount} (present : s.markets.lookup key = some market)
    (markets : s'.markets = s.markets.insert key next) :
    market.line.offers node + s'.offers node = next.line.offers node + s.offers node := by
  unfold State.offers
  rw [markets]
  exact Finmap.total_insert (fun _ market => market.line.offers node) _ _ _ _ present

theorem offers_of_erase (present : s.markets.lookup key = some market)
    (markets : s'.markets = s.markets.erase key) :
    s.offers node = market.line.offers node + s'.offers node := by
  unfold State.offers
  rw [markets]
  exact Finmap.total_erase _ _ _ _ present

end

namespace Node

variable {s s' : State} {action : Action} {node : Pubkey}

theorem hired_of_same (runs : s'.runs = s.runs) : hired node ⟨s, action, s'⟩ = 0 := by
  have unstarted : startedRun ⟨s, action, s'⟩ = none := by
    unfold startedRun
    split
    · exact created_of_same _ runs
    · exact created_of_same _ runs
    · exact created_of_same _ runs
    · rfl
  rw [hired, unstarted, ran]

theorem hired_of_insert {runKey : Pubkey} {run : RunAccount} (fresh : s.Vacant runKey)
    (runs : s'.runs = s.runs.insert runKey run)
    (starts : startedRun ⟨s, action, s'⟩ = created ⟨s, action, s'⟩ runKey) :
    hired node ⟨s, action, s'⟩ = if run.node = node then 1 else 0 := by
  rw [hired, starts, created_of_insert fresh runs, ran]

theorem departed_of_stop {a : Accounts.Stop} :
    departed node ⟨s, .instruction (.stop a), s'⟩ = if a.node = node then 1 else 0 := rfl

theorem departed_of_ignored {a : Accounts.Work} {market : MarketAccount}
    (present : s.markets.lookup a.market = some market) (unknown : market.Unknown)
    (waiting : market.queueType ≠ QueueType.job.toU8) :
    departed node ⟨s, .instruction (.work a), s'⟩ = if a.authority = node then 1 else 0 := by
  have ignored : ∃ found ∈ s.markets.lookup a.market,
    found.Unknown ∧ found.queueType ≠ QueueType.job.toU8 := ⟨market, present, unknown, waiting⟩
  simp only [departed, ignored, and_true]

end Node

section

variable {s s' : State} {action : Action} {key : Pubkey} {market next : MarketAccount}
    {node : Pubkey}

/-- A step that changes the queue of one market. -/
theorem offers_change {hired departed offered : Nat}
    (present : s.markets.lookup key = some market)
    (markets : s'.markets = s.markets.insert key next)
    (hires : Node.hired node ⟨s, action, s'⟩ = hired)
    (departs : Node.departed node ⟨s, action, s'⟩ = departed)
    (offers : Node.offered node ⟨s, action, s'⟩ = offered)
    (changed : next.line.offers node + (hired + departed) = market.line.offers node + offered) :
    s'.offers node + (Node.hired node ⟨s, action, s'⟩ + Node.departed node ⟨s, action, s'⟩) =
      s.offers node + Node.offered node ⟨s, action, s'⟩ := by
  have moved := offers_of_insert node present markets
  rw [hires, departs, offers]
  omega

end

section

variable {s s' : State} {action : Action} {runKey node : Pubkey} {run : RunAccount}

theorem employed_of_same (runs : s'.runs = s.runs) (closes : closedRun ⟨s, action, s'⟩ = none) :
    s'.employed node + Node.released node ⟨s, action, s'⟩ =
      s.employed node + Node.hired node ⟨s, action, s'⟩ := by
  rw [Node.hired_of_same runs, Node.released, closes]
  unfold State.employed
  rw [runs]
  rfl

theorem employed_of_insert (fresh : s.Vacant runKey) (runs : s'.runs = s.runs.insert runKey run)
    (starts : startedRun ⟨s, action, s'⟩ = created ⟨s, action, s'⟩ runKey)
    (closes : closedRun ⟨s, action, s'⟩ = none) :
    s'.employed node + Node.released node ⟨s, action, s'⟩ =
      s.employed node + Node.hired node ⟨s, action, s'⟩ := by
  have added :=
    Finmap.total_insert_fresh (fun _ (run : RunAccount) => if run.node = node then 1 else 0)
    s.runs runKey run fresh.2.2.2.1
  rw [Node.hired_of_insert fresh runs starts, Node.released, closes]
  unfold State.employed
  rw [runs, added]
  exact (Nat.add_zero _).trans (Nat.add_comm _ _)

theorem employed_of_erase (live : s.runs.lookup runKey = some run)
    (runs : s'.runs = s.runs.erase runKey) (starts : startedRun ⟨s, action, s'⟩ = none)
    (closes : closedRun ⟨s, action, s'⟩ = s.runs.lookup runKey) :
    s'.employed node + Node.released node ⟨s, action, s'⟩ =
      s.employed node + Node.hired node ⟨s, action, s'⟩ := by
  rw [Node.hired, starts, Node.released, closes, live]
  unfold State.employed
  rw [runs, Finmap.total_erase _ s.runs runKey run live]
  exact Nat.add_comm _ _

end

section

variable [Runtime] {s s' : State} {action : Action}

theorem sided_step (sided : Sided s) (success : step s action = .ok s') : Sided s' := by
  cases step_effect success with
  | openMarket fresh freshVault seeds initial =>
      refine sided.insert rfl ?_
      rw [initial]
      exact Queue.tagged_empty
  | update present | setSettings present | closeSettings present =>
      refine sided.insert rfl ?_
      simp only [MarketAccount.line_update, MarketAccount.line_restrict]
      exact sided _ _ present
  | closeMarket closing markets =>
      intro key market inside
      rw [markets] at inside
      exact sided key market (Finmap.lookup_erase_eq_some inside).2
  | listQueued posted => exact sided.insert rfl ((sided _ _ posted.present).push (by decide) _)
  | listStranded posted => exact sided.insert rfl (sided _ _ posted.present)
  | listMatched posted | assign posted =>
      exact sided.insert rfl ((sided _ _ posted.present).remove _)
  | delist present placed opened => exact sided.insert rfl ((sided _ _ opened).remove _)
  | workQueued present => exact sided.insert rfl ((sided _ _ present).push (by decide) _)
  | workIgnored present => exact sided.insert rfl (sided _ _ present)
  | workMatched present | stop present => exact sided.insert rfl ((sided _ _ present).remove _)
  | _ => exact sided

/-- An offer comes from its node, and becomes a job or comes to nothing. -/
theorem offers_step (sided : Sided s) (success : step s action = .ok s') (node : Pubkey) :
    s'.offers node + (Node.hired node ⟨s, action, s'⟩ + Node.departed node ⟨s, action, s'⟩) =
      s.offers node + Node.offered node ⟨s, action, s'⟩ := by
  cases step_effect success with
  | openMarket fresh freshVault seeds initial =>
      rw [offers_of_fresh node fresh.1 rfl, initial]
      simp only [Node.hired, startedRun, Node.ran, Node.departed, Node.offered, MarketAccount.line,
        MarketAccount.init, Queue.offers, Queue.entries_empty, List.count_nil, zero_add]
  | update present | setSettings present | closeSettings present =>
      refine offers_change present rfl rfl rfl rfl ?_
      simp only [MarketAccount.line_update, MarketAccount.line_restrict]
      rfl
  | @closeMarket a _ _ closing markets jobs runs =>
      obtain ⟨market, present, -⟩ := closing_eq_ok closing success
      rw [offers_of_erase node present markets]
      rcases closing with rfl | rfl <;>
        simp only [Node.hired, startedRun, Node.ran, Node.departed, Node.offered, present,
          Option.map_some, Option.getD_some] <;> omega
  | @listQueued a ipfsJob timeout market job tokens posted waiting known =>
      refine offers_change posted.present rfl (Node.hired_of_same rfl) rfl rfl ?_
      exact Queue.offers_push_job waiting
  | @listStranded a ipfsJob timeout market job tokens posted =>
      exact offers_change posted.present rfl (Node.hired_of_same rfl) rfl rfl rfl
  | @listMatched a ipfsJob timeout market job tokens first rest posted waiting orders freshRun =>
      refine offers_change posted.present rfl (Node.hired_of_insert freshRun rfl rfl) rfl rfl ?_
      exact Queue.offers_remove_node waiting (by simp [MarketAccount.line, orders])
  | @assign a ipfsJob timeout market job tokens posted waiting member freshRun =>
      refine offers_change posted.present rfl (Node.hired_of_insert freshRun rfl rfl) rfl rfl ?_
      exact Queue.offers_remove_node waiting member
  | @delist a market job tokens present placed opened vaulted queued waiting member =>
      refine offers_change opened rfl rfl rfl rfl ?_
      exact Queue.offers_remove_job waiting
  | @workQueued a market present waiting absent known =>
      refine offers_change present rfl (Node.hired_of_same rfl) (if_neg ?_) rfl ?_
      · rintro ⟨-, other, found, unknown, -⟩
        cases present.symm.trans found
        exact known unknown
      · exact Queue.offers_push_node (sided _ _ present) waiting
  | @workIgnored a market present waiting unknown =>
      refine offers_change present rfl (Node.hired_of_same rfl)
        (Node.departed_of_ignored present unknown waiting) rfl ?_
      rw [Nat.zero_add]
      rfl
  | @workMatched a market job rest present waiting first freshRun =>
      refine offers_change present rfl (Node.hired_of_insert freshRun rfl rfl) (if_neg ?_) rfl ?_
      · rintro ⟨-, other, found, -, waits⟩
        cases present.symm.trans found
        exact waits waiting
      · exact congrArg (· + _) (Queue.offers_remove_job waiting)
  | @stop a market present waiting member =>
      refine offers_change present rfl (Node.hired_of_same rfl) Node.departed_of_stop rfl ?_
      rw [Nat.zero_add]
      exact Queue.offers_remove_node waiting member
  | _ => rfl

/-- A node starts a job by being hired, and is released from it once. -/
theorem employed_step (success : step s action = .ok s') (node : Pubkey) :
    s'.employed node + Node.released node ⟨s, action, s'⟩ =
      s.employed node + Node.hired node ⟨s, action, s'⟩ := by
  cases step_effect success with
  | closeMarket closing markets jobs runs =>
      rcases closing with rfl | rfl <;> exact employed_of_same runs rfl
  | listMatched posted waiting orders freshRun | assign posted waiting member freshRun
  | workMatched present waiting first freshRun =>
      exact employed_of_insert freshRun rfl rfl rfl
  | listQueued | listStranded | workQueued | workIgnored => exact employed_of_same rfl rfl
  | endJob running | finish running => exact employed_of_erase running.live rfl rfl rfl
  | quit present live => exact employed_of_erase live rfl rfl rfl
  | quitAdmin =>
      obtain ⟨-, run, live⟩ := quitAdmin_signed success
      exact employed_of_erase live rfl rfl rfl
  | _ => rfl

omit [Runtime] in
theorem Genesis.nobody (genesis : Genesis s) (node : Pubkey) :
    s.offers node = 0 ∧ s.employed node = 0 := by
  simp only [State.offers, State.employed, genesis.markets, genesis.runs, Finmap.total_empty,
    and_self]

/-- Offers are neither lost nor used twice: over every run, each time a node asked for work it
still waits, got one job, or was turned away or withdrew; and each job that it got it still runs
or was released from once. -/
theorem offers_balance {s : State} (genesis : Genesis s) (actions : List Action) (node : Pubkey) :
    (run s actions).offers node + (Machine.tally (Node.hired node) (trace s actions) +
        Machine.tally (Node.departed node) (trace s actions)) =
      Machine.tally (Node.offered node) (trace s actions) ∧
    (run s actions).employed node + Machine.tally (Node.released node) (trace s actions) =
      Machine.tally (Node.hired node) (trace s actions) := by
  have ⟨nobody, idle⟩ := genesis.nobody node
  have offers := @Machine.tally_balance _ _ _ _ _ step Sided s (fun state => state.offers node)
    (Node.offered node) (fun event => Node.hired node event + Node.departed node event)
    genesis.sided
    (fun _ _ _ sided success => sided_step sided success)
    (fun _ _ _ sided success => offers_step sided success node) actions
  have employed := @Machine.tally_balance _ _ _ _ _ step (fun _ => True) s
    (fun state => state.employed node) (Node.hired node) (Node.released node) trivial
    (fun _ _ _ _ _ => trivial) (fun _ _ _ _ success => employed_step success node) actions
  rw [Machine.tally_add, nobody, Nat.zero_add] at offers
  rw [idle, Nat.zero_add] at employed
  exact ⟨offers, employed⟩

end

/-- The node of the sample asks once, and gets the job. -/
theorem offers_balance_sample :
    (Sample.run Sample.matching).offers Sample.node +
        (Machine.tally (Node.hired Sample.node) (Sample.trace Sample.matching) +
          Machine.tally (Node.departed Sample.node) (Sample.trace Sample.matching)) =
      Machine.tally (Node.offered Sample.node) (Sample.trace Sample.matching) ∧
    Machine.tally (Node.offered Sample.node) (Sample.trace Sample.matching) = 1 ∧
    (Sample.run Sample.matching).employed Sample.node = 1 :=
  ⟨(@offers_balance Sample.runtime _ Sample.genesis Sample.matching Sample.node).1,
    by decide +kernel, by decide +kernel⟩

end Nosana.Jobs
