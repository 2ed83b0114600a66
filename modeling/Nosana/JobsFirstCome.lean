import Nosana.JobsEffects
import Nosana.Matching

set_option autoImplicit false

/- A market pairs jobs and nodes in the order in which they come. -/
namespace Nosana.Jobs

open Checked Matching

/-! The orders that wait -/

/-- A job asks for work and a node offers it. -/
abbrev Entry := Order Pubkey Pubkey

namespace Queue

/-- The orders in a queue, told apart by its tag. -/
def entries (queue : Queue) : List Entry :=
  if queue.tag = QueueType.node.toU8 then queue.orders.map .seller else queue.orders.map .buyer

theorem entries_of_node {queue : Queue} (tagged : queue.tag = QueueType.node.toU8) :
    queue.entries = queue.orders.map .seller := if_pos tagged

theorem entries_of_ne {queue : Queue} (tagged : queue.tag ≠ QueueType.node.toU8) :
    queue.entries = queue.orders.map .buyer := if_neg tagged

theorem entries_of_job {queue : Queue} (tagged : queue.tag = QueueType.job.toU8) :
    queue.entries = queue.orders.map .buyer := by
  apply entries_of_ne
  rw [tagged]
  decide

theorem entries_empty {queue : Queue} (none : queue.orders = []) : queue.entries = [] := by
  simp [entries, none]

/-- A queue without the tag of one side holds the other side, or nothing. -/
theorem Tagged.empty_or {queue : Queue} (valid : queue.Tagged)
    (other : queue.tag ≠ QueueType.job.toU8) :
    queue.orders = [] ∨ queue.tag = QueueType.node.toU8 :=
  valid.sided.imp_right fun sided => sided.resolve_left other

theorem entries_push_job {queue : Queue} (waiting : queue.tag ≠ QueueType.node.toU8)
    (order : Pubkey) : (queue.push .job order).entries = queue.entries ++ [.buyer order] := by
  have tagged : (queue.push .job order).tag ≠ QueueType.node.toU8 := by
    show (if _ then _ else _) ≠ _
    split
    · decide
    · exact waiting
  rw [entries_of_ne tagged, entries_of_ne waiting]
  exact List.map_append

theorem entries_push_node {queue : Queue} (valid : queue.Tagged)
    (waiting : queue.tag ≠ QueueType.job.toU8) (order : Pubkey) :
    (queue.push .node order).entries = queue.entries ++ [.seller order] := by
  rcases valid.empty_or waiting with none | tagged
  · have empty := valid.empty_iff.mpr none
    have sided : (queue.push .node order).tag = QueueType.node.toU8 := if_pos empty
    rw [entries_of_node sided, entries_empty none]
    show (queue.orders ++ [order]).map _ = _
    rw [none]
    rfl
  · have sided : (queue.push .node order).tag = QueueType.node.toU8 := by
      show (if _ then _ else _) = _
      rw [tagged]
      rfl
    rw [entries_of_node sided, entries_of_node tagged]
    exact List.map_append

theorem entries_remove_job {queue : Queue} (tagged : queue.tag = QueueType.job.toU8)
    (order : Pubkey) : (queue.remove order).entries = queue.entries.erase (.buyer order) := by
  have sided : (queue.remove order).tag ≠ QueueType.node.toU8 := by
    intro node
    have before := tag_remove .node (by decide) node
    rw [tagged] at before
    revert before
    decide
  rw [entries_of_ne sided, entries_of_job tagged]
  exact List.map_erase (fun _ _ same => Order.buyer.inj same) ..

theorem entries_remove_node {queue : Queue} (tagged : queue.tag = QueueType.node.toU8)
    (order : Pubkey) : (queue.remove order).entries = queue.entries.erase (.seller order) := by
  have erased : (queue.orders.erase order).map Order.seller =
      (queue.orders.map (Order.seller (α := Pubkey))).erase (.seller order) :=
    List.map_erase (fun _ _ same => Order.seller.inj same) ..
  rw [entries_of_node tagged, ← erased]
  by_cases last : queue.orders.erase order = []
  · rw [entries_empty last, last]
    rfl
  · exact entries_of_node (by simp only [remove, last, if_false, tagged])

end Queue

/-! What a history says about the orders of a market -/

/-- The instructions that close a market. -/
def Action.closes (market : Pubkey) : Action → Bool
  | .instruction (.close a) => a.market == market
  | .instruction (.closeAdmin a) => a.market == market
  | _ => false

/-- Who comes to a market with an instruction. -/
def Action.newcomer (market : Pubkey) : Action → Option Entry
  | .instruction (.list a _ _) => if a.market = market then some (.buyer a.job) else none
  | .instruction (.work a) => if a.market = market then some (.seller a.authority) else none
  | _ => none

/-- Whom an instruction takes out of the queue by name: a project assigns its job to a node,
a node stops, a project delists its job. -/
def Action.named (market : Pubkey) : Action → Option Entry
  | .instruction (.assign a _ _) => if a.market = market then some (.seller a.node) else none
  | .instruction (.stop a) => if a.market = market then some (.seller a.node) else none
  | .instruction (.delist a) => if a.market = market then some (.buyer a.job) else none
  | _ => none

/-- The run account that a step created at an address. -/
def created (event : Event) (key : Pubkey) : Option RunAccount :=
  if event.before.runs.lookup key = none then event.after.runs.lookup key else none

/-- The job and the node that a newcomer made a run of. -/
def matched (event : Event) : Option (Pubkey × Pubkey) :=
  match event.action with
  | .instruction (.list a _ _) => (created event a.run).map fun run => (run.job, run.node)
  | .instruction (.work a) => (created event a.run).map fun run => (run.job, run.node)
  | _ => none

namespace History

/-- The ledger of a market after one more event. -/
def next (market : Pubkey) (ledger : Ledger Pubkey Pubkey) (event : Event) :
    Ledger Pubkey Pubkey :=
  match event.action.newcomer market with
  | some newcomer =>
    match matched event with
    | some pair => ledger.pairOff newcomer pair
    | none => ledger.enter newcomer
  | none =>
    match event.action.named market with
    | some order => ledger.leave order
    | none => ledger

def ledger (market : Pubkey) (history : List Event) : Ledger Pubkey Pubkey :=
  history.foldl (next market) .empty

theorem ledger_concat (market : Pubkey) (past : List Event) (event : Event) :
    ledger market (past ++ [event]) = next market (ledger market past) event := by
  simp [ledger]

end History

/-- What one step can do to the queue of a market. -/
inductive Visit (key : Pubkey) (event : Event) (queue after : Queue) : Prop
  | other (nobody : event.action.newcomer key = none) (unnamed : event.action.named key = none)
      (same : after = queue)
  | served (newcomer : Entry) (comes : event.action.newcomer key = some newcomer)
      (fair : matched event = partner newcomer queue.entries)
      (entries : after.entries =
        if (partner newcomer queue.entries).isSome then queue.entries.tail
        else queue.entries ++ [newcomer])
  | taken (order : Entry) (nobody : event.action.newcomer key = none)
      (named : event.action.named key = some order) (member : order ∈ queue.entries)
      (entries : after.entries = queue.entries.erase order)

/-- The queue of a market after a step, and what the step did to it. -/
def Visited (key : Pubkey) (event : Event) (queue : Queue) : Prop :=
  ∃ after, event.after.markets.lookup key = some after ∧ after.line.Tagged ∧
    Visit key event queue after.line

theorem visited_of_same {key : Pubkey} {event : Event} {market : MarketAccount}
    (present : event.before.markets.lookup key = some market) (valid : market.line.Tagged)
    (same : event.after.markets.lookup key = event.before.markets.lookup key)
    (quiet : event.action.newcomer key = none ∧ event.action.named key = none) :
    Visited key event market.line :=
  ⟨market, same.trans present, valid, .other quiet.1 quiet.2 rfl⟩

/-- A step that writes one market account touches no other queue. -/
theorem visited_of_insert {key other : Pubkey} {event : Event}
    {market account updated : MarketAccount}
    (present : event.before.markets.lookup key = some market) (valid : market.line.Tagged)
    (opened : event.before.markets.lookup other = some account)
    (markets : event.after.markets = event.before.markets.insert other updated)
    (quiet : other ≠ key → event.action.newcomer key = none ∧ event.action.named key = none)
    (here : other = key → account.line.Tagged →
      updated.line.Tagged ∧ Visit key event account.line updated.line) :
    Visited key event market.line := by
  by_cases same : other = key
  · subst same
    cases opened.symm.trans present
    have ⟨tagged, visit⟩ := here rfl valid
    exact ⟨updated, by rw [markets, Finmap.lookup_insert], tagged, visit⟩
  · have kept : event.after.markets.lookup key = event.before.markets.lookup key := by
      rw [markets, Finmap.lookup_insert_of_ne _ (Ne.symm same)]
    exact visited_of_same present valid kept (quiet same)

/-- No run account appears where none is created. -/
theorem created_of_same {event : Event} (key : Pubkey)
    (runs : event.after.runs = event.before.runs) : created event key = none := by
  unfold created
  rw [runs]
  split
  · assumption
  · rfl

theorem created_of_insert {event : Event} {key : Pubkey} {run : RunAccount}
    (fresh : event.before.Vacant key)
    (runs : event.after.runs = event.before.runs.insert key run) :
    created event key = some run := by
  unfold created
  rw [if_pos (Finmap.lookup_eq_none.mpr fresh.2.2.2.1), runs, Finmap.lookup_insert]

namespace Visit

variable {key : Pubkey} {event : Event} {queue : Queue} {newcomer : Entry}

/-- A newcomer who finds nobody of the other side waits. -/
theorem enter {after : Queue} (comes : event.action.newcomer key = some newcomer)
    (alone : partner newcomer queue.entries = none) (unmatched : matched event = none)
    (entries : after.entries = queue.entries ++ [newcomer]) : Visit key event queue after := by
  apply Visit.served newcomer comes
  · rw [alone, unmatched]
  · rw [alone]
    exact entries

/-- A newcomer who finds the other side waiting takes the oldest order. -/
theorem take {after : Queue} {pair : Pubkey × Pubkey} {first : Entry} {rest : List Entry}
    (comes : event.action.newcomer key = some newcomer) (orders : queue.entries = first :: rest)
    (found : partner newcomer (first :: rest) = some pair) (pairs : matched event = some pair)
    (entries : after.entries = queue.entries.erase first) : Visit key event queue after := by
  apply Visit.served newcomer comes
  · rw [orders, found, pairs]
  · rw [entries, orders, found, List.erase_cons_head]
    rfl

end Visit

theorem partner_buyers (job : Pubkey) (orders : List Pubkey) :
    partner (.buyer job) (orders.map (Order.buyer (β := Pubkey))) = none := by
  cases orders <;> rfl

theorem partner_sellers (node : Pubkey) (orders : List Pubkey) :
    partner (.seller node) (orders.map (Order.seller (α := Pubkey))) = none := by
  cases orders <;> rfl

theorem partner_job {queue : Queue} (waiting : queue.tag ≠ QueueType.node.toU8) (job : Pubkey) :
    partner (.buyer job) queue.entries = none := by
  rw [Queue.entries_of_ne waiting]
  exact partner_buyers job queue.orders

theorem partner_node {queue : Queue} (valid : queue.Tagged)
    (waiting : queue.tag ≠ QueueType.job.toU8) (node : Pubkey) :
    partner (.seller node) queue.entries = none := by
  rcases valid.empty_or waiting with none | tagged
  · rw [Queue.entries_empty none]
    rfl
  · rw [Queue.entries_of_node tagged]
    exact partner_sellers node queue.orders

variable [Runtime]

/-- Every step keeps the tag of a market's queue and serves newcomers in order. -/
theorem step_visited {s s' : State} {action : Action} {key : Pubkey} {market : MarketAccount}
    (present : s.markets.lookup key = some market) (valid : market.line.Tagged)
    (known : ¬ market.Unknown) (stays : action.closes key = false)
    (success : step s action = .ok s') : Visited key ⟨s, action, s'⟩ market.line := by
  cases step_effect success with
  | @openMarket a _ _ _ _ _ _ fresh =>
      have apart : key ≠ a.market := by
        intro same
        rw [same] at present
        exact fresh.1 (Finmap.mem_iff.mpr ⟨market, present⟩)
      exact visited_of_same present valid (Finmap.lookup_insert_of_ne _ apart) ⟨rfl, rfl⟩
  | @closeMarket a _ _ closing markets =>
      have apart : key ≠ a.market := by
        intro same
        subst same
        rcases closing with rfl | rfl <;> simp [Action.closes] at stays
      have kept : s'.markets.lookup key = s.markets.lookup key := by
        rw [markets]
        exact Finmap.lookup_erase_ne apart
      rcases closing with rfl | rfl <;> exact visited_of_same present valid kept ⟨rfl, rfl⟩
  | update opened | setSettings opened | closeSettings opened =>
      apply visited_of_insert present valid opened rfl fun _ => ⟨rfl, rfl⟩
      intro _ tagged
      simp only [MarketAccount.line_update, MarketAccount.line_restrict]
      exact ⟨tagged, .other rfl rfl rfl⟩
  | @listQueued a _ _ account _ _ posted waiting =>
      refine visited_of_insert present valid posted.present rfl
        (fun apart => ⟨if_neg apart, rfl⟩) ?_
      intro same tagged
      refine ⟨tagged.push (by decide) a.job, .enter (if_pos same) (partner_job waiting a.job) ?_
        (Queue.entries_push_job waiting a.job)⟩
      show Option.map _ (created _ a.run) = none
      rw [created_of_same a.run rfl]
      rfl
  | @listStranded a _ _ account _ _ posted waiting unknown =>
      refine visited_of_insert present valid posted.present rfl
        (fun apart => ⟨if_neg apart, rfl⟩) ?_
      intro same
      rw [← same] at present
      cases present.symm.trans posted.present
      exact absurd unknown known
  | @listMatched a _ _ account _ _ node rest posted waiting first freshRun =>
      refine visited_of_insert present valid posted.present rfl
        (fun apart => ⟨if_neg apart, rfl⟩) ?_
      intro same tagged
      have orders : account.line.entries = .seller node :: rest.map .seller := by
        rw [Queue.entries_of_node waiting]
        exact congrArg _ first
      refine ⟨tagged.remove node, .take (if_pos same) orders rfl ?_
        (Queue.entries_remove_node waiting node)⟩
      show Option.map _ (created _ a.run) = _
      rw [created_of_insert freshRun rfl]
      rfl
  | @assign a _ _ account _ _ posted waiting queued freshRun =>
      refine visited_of_insert present valid posted.present rfl
        (fun apart => ⟨rfl, if_neg apart⟩) ?_
      intro same tagged
      refine ⟨tagged.remove a.node, .taken (.seller a.node) rfl (if_pos same) ?_
        (Queue.entries_remove_node waiting a.node)⟩
      rw [Queue.entries_of_node waiting]
      exact List.mem_map_of_mem queued
  | @delist a account _ _ _ _ opened _ _ waiting member =>
      refine visited_of_insert present valid opened rfl (fun apart => ⟨rfl, if_neg apart⟩) ?_
      intro same tagged
      refine ⟨tagged.remove a.job, .taken (.buyer a.job) rfl (if_pos same) ?_
        (Queue.entries_remove_job waiting a.job)⟩
      rw [Queue.entries_of_job waiting]
      exact List.mem_map_of_mem member
  | @workQueued a account opened waiting absent =>
      refine visited_of_insert present valid opened rfl (fun apart => ⟨if_neg apart, rfl⟩) ?_
      intro same tagged
      refine ⟨tagged.push (by decide) a.authority, .enter (if_pos same)
        (partner_node tagged waiting a.authority) ?_
        (Queue.entries_push_node tagged waiting a.authority)⟩
      show Option.map _ (created _ a.run) = none
      rw [created_of_same a.run rfl]
      rfl
  | @workIgnored a account opened waiting unknown =>
      refine visited_of_insert present valid opened rfl (fun apart => ⟨if_neg apart, rfl⟩) ?_
      intro same
      rw [← same] at present
      cases present.symm.trans opened
      exact absurd unknown known
  | @workMatched a account job rest opened waiting first freshRun =>
      refine visited_of_insert present valid opened rfl (fun apart => ⟨if_neg apart, rfl⟩) ?_
      intro same tagged
      have orders : account.line.entries = .buyer job :: rest.map .buyer := by
        rw [Queue.entries_of_job waiting]
        exact congrArg _ first
      refine ⟨tagged.remove job, .take (if_pos same) orders rfl ?_
        (Queue.entries_remove_job waiting job)⟩
      show Option.map _ (created _ a.run) = _
      rw [created_of_insert freshRun rfl]
      rfl
  | @stop a account opened waiting member =>
      refine visited_of_insert present valid opened rfl (fun apart => ⟨rfl, if_neg apart⟩) ?_
      intro same tagged
      refine ⟨tagged.remove a.node, .taken (.seller a.node) rfl (if_pos same) ?_
        (Queue.entries_remove_node waiting a.node)⟩
      rw [Queue.entries_of_node waiting]
      exact List.mem_map_of_mem member
  | _ => exact visited_of_same present valid rfl ⟨rfl, rfl⟩

/-! Whole runs -/

/-- The queue of a market is what its history says: the orders that entered and were
neither paired nor taken out, oldest first. -/
def InOrder (key : Pubkey) (history : List Event) (s : State) : Prop :=
  ∃ market, s.markets.lookup key = some market ∧
    market.line.entries = (History.ledger key history).waiting

/-- The queue was in order before every event, and every newcomer got the oldest order of
the other side, or none when none waited. -/
def Fair (key : Pubkey) (history : List Event) : Prop :=
  ∀ past event, past ++ [event] <+: history → InOrder key past event.before ∧
    ∀ newcomer, event.action.newcomer key = some newcomer →
      matched event = partner newcomer (History.ledger key past).waiting

omit [Runtime] in
theorem Fair.of_prefix {key : Pubkey} {past history : List Event} (fair : Fair key history)
    (inside : past <+: history) : Fair key past :=
  fun before event within => fair before event (within.trans inside)

omit [Runtime] in
theorem Fair.concat {key : Pubkey} {history : List Event} {event : Event}
    (fair : Fair key history) (inOrder : InOrder key history event.before)
    (served : ∀ newcomer, event.action.newcomer key = some newcomer →
      matched event = partner newcomer (History.ledger key history).waiting) :
    Fair key (history ++ [event]) := by
  intro past last inside
  rcases List.prefix_concat_iff.mp inside with whole | within
  · obtain ⟨rfl, same⟩ := List.append_inj' whole rfl
    cases same
    exact ⟨inOrder, served⟩
  · exact fair past last within

namespace History

omit [Runtime] in
/-- A newcomer who is served fairly enters the ledger the way it should. -/
theorem next_of_fair {key : Pubkey} {ledger : Ledger Pubkey Pubkey} {event : Event}
    {newcomer : Entry} (comes : event.action.newcomer key = some newcomer)
    (fair : matched event = partner newcomer ledger.waiting) :
    next key ledger event = ledger.serve newcomer := by
  unfold next Ledger.serve
  rw [comes, fair]
  cases partner newcomer ledger.waiting <;> rfl

omit [Runtime] in
theorem next_of_named {key : Pubkey} {ledger : Ledger Pubkey Pubkey} {event : Event}
    {order : Entry} (nobody : event.action.newcomer key = none)
    (named : event.action.named key = some order) :
    next key ledger event = ledger.leave order := by
  unfold next
  rw [nobody, named]

omit [Runtime] in
theorem next_of_nobody {key : Pubkey} {ledger : Ledger Pubkey Pubkey} {event : Event}
    (nobody : event.action.newcomer key = none) (unnamed : event.action.named key = none) :
    next key ledger event = ledger := by
  unfold next
  rw [nobody, unnamed]

/-- Who came to a market, in order. -/
def newcomers (key : Pubkey) (history : List Event) : List Entry :=
  history.filterMap fun event => event.action.newcomer key

omit [Runtime] in
theorem newcomers_concat (key : Pubkey) (past : List Event) (event : Event) :
    newcomers key (past ++ [event]) =
      newcomers key past ++ (event.action.newcomer key).toList := by
  unfold newcomers
  rw [List.filterMap_append]
  cases comes : event.action.newcomer key <;> simp [comes]

omit [Runtime] in
/-- When nobody is taken out by name, the ledger is that of the newcomers alone. -/
theorem ledger_of_fair {key : Pubkey} {history : List Event} (fair : Fair key history)
    (unnamed : ∀ event ∈ history, event.action.named key = none) :
    ledger key history = (newcomers key history).foldl Ledger.serve .empty := by
  induction history using List.reverseRecOn with
  | nil => rfl
  | append_singleton past event ih =>
      have earlier := ih (fair.of_prefix (List.prefix_append _ _))
        fun other member => unnamed other (List.mem_append_left _ member)
      have now := unnamed event (by simp)
      rw [ledger_concat, newcomers_concat, List.foldl_append, ← earlier]
      cases comes : event.action.newcomer key with
      | none => exact next_of_nobody comes now
      | some newcomer => exact next_of_fair comes ((fair past event (List.prefix_refl _)).2 _ comes)

end History

/-- What a run keeps about one market: the tag of its queue is right, and the queue is in
order. -/
def Orderly (key : Pubkey) (history : List Event) (s : State) : Prop :=
  (History.ledger key history).Balanced ∧ ∃ market, s.markets.lookup key = some market ∧
    market.line.Tagged ∧ market.line.entries = (History.ledger key history).waiting

omit [Runtime] in
theorem Orderly.inOrder {key : Pubkey} {history : List Event} {s : State}
    (orderly : Orderly key history s) : InOrder key history s := by
  obtain ⟨-, market, present, -, entries⟩ := orderly
  exact ⟨market, present, entries⟩

omit [Runtime] in
theorem Orderly.next {key : Pubkey} {history : List Event} {event : Event}
    {market : MarketAccount} (balanced : (History.ledger key history).Balanced)
    (entries : market.line.entries = (History.ledger key history).waiting)
    (visited : Visited key event market.line) : Orderly key (history ++ [event]) event.after := by
  obtain ⟨after, present, tagged, visit⟩ := visited
  rw [Orderly, History.ledger_concat]
  cases visit with
  | other nobody unnamed same =>
      rw [History.next_of_nobody nobody unnamed]
      exact ⟨balanced, after, present, tagged, same ▸ entries⟩
  | served newcomer comes fair result =>
      rw [entries] at fair result
      rw [History.next_of_fair comes fair, Ledger.waiting_serve balanced]
      exact ⟨balanced.serve newcomer, after, present, tagged, result⟩
  | taken order nobody named member result =>
      rw [entries] at member result
      rw [History.next_of_named nobody named, Ledger.waiting_leave]
      exact ⟨balanced.leave member, after, present, tagged, result⟩

omit [Runtime] in
theorem Visited.fair {key : Pubkey} {event : Event} {queue : Queue}
    (visited : Visited key event queue) (newcomer : Entry)
    (comes : event.action.newcomer key = some newcomer) :
    matched event = partner newcomer queue.entries := by
  obtain ⟨after, -, -, visit⟩ := visited
  cases visit with
  | other nobody => cases nobody.symm.trans comes
  | served other came fair =>
      cases came.symm.trans comes
      exact fair
  | taken order nobody => cases nobody.symm.trans comes

/-- From the opening of a market on, and while its job type is known: its queue holds, in
the order of arrival, whoever entered and was neither paired nor taken out; every newcomer
is paired with the oldest order of the other side; and when there are only newcomers, the
k-th job goes to the k-th node. -/
theorem first_come_first_served {before s : State} {a : Accounts.Open} {expiration : Int}
    {price : Nat} {timeout : Int} {jobType : UInt8} {minimum : Nat}
    (opened : openMarket before a expiration price timeout jobType minimum = .ok s)
    (actions : List Action)
    (stays : ∀ event ∈ trace s actions, event.action.closes a.market = false)
    (known : ∀ event ∈ trace s actions, ∀ market ∈ event.before.markets.lookup a.market,
      ¬ market.Unknown) :
    InOrder a.market (trace s actions) (run s actions) ∧
    Fair a.market (trace s actions) ∧
    ((∀ event ∈ trace s actions, event.action.named a.market = none) →
      (History.ledger a.market (trace s actions)).paired =
        (buyers (History.newcomers a.market (trace s actions))).zip
          (sellers (History.newcomers a.market (trace s actions)))) := by
  have start : Orderly a.market [] s := by
    cases openMarket_effect opened with
    | openMarket fresh freshVault seeds initial =>
        rw [initial]
        exact ⟨Ledger.balanced_empty, _, Finmap.lookup_insert _, Queue.tagged_empty, rfl⟩
    | closeMarket closing => rcases closing with closing | closing <;> cases closing
  have whole : Orderly a.market (trace s actions) (run s actions) ∧
      Fair a.market (trace s actions) := by
    refine Machine.guarded_induction
      (P := fun past s => Orderly a.market past s ∧ Fair a.market past)
      (fun event : Event => event.action.closes a.market = false ∧
        ∀ market ∈ event.before.markets.lookup a.market, ¬ market.Unknown)
      ⟨start, ?_⟩ ?_ actions fun event member => ⟨stays event member, known event member⟩
    · intro past event inside
      simp at inside
    · rintro past state action after ⟨⟨balanced, market, present, tagged, entries⟩, fair⟩ success -
        ⟨stay, know⟩
      have visited := step_visited present tagged (know market present) stay success
      have served := visited.fair
      rw [entries] at served
      exact ⟨Orderly.next balanced entries visited,
        fair.concat ⟨market, present, entries⟩ served⟩
  refine ⟨whole.1.inOrder, whole.2, fun unnamed => ?_⟩
  rw [History.ledger_of_fair whole.2 unnamed]
  exact paired_eq_zip _

/-- The sample chain after its market was opened. -/
def Sample.opened : State := Sample.run [openMarket 2 0]

/-- A job is listed in the market, and a node takes it. -/
def Sample.serving : List Action := [list job firstRun 30, work firstRun node]

omit [Runtime] in
theorem first_come_first_served_sample :
    InOrder Sample.market (@trace Sample.runtime Sample.opened Sample.serving)
        (@run Sample.runtime Sample.opened Sample.serving) ∧
      (History.ledger Sample.market (@trace Sample.runtime Sample.opened Sample.serving)).paired =
        [(Sample.job, Sample.node)] := by
  have opens : openMarket Sample.start
      ⟨id.nosToken, Sample.market, Sample.vault, Sample.admin, id.systemProgram⟩ 0 2 60 0 0 =
        .ok Sample.opened := rfl
  have served := @first_come_first_served Sample.runtime _ _ _ _ _ _ _ _ opens Sample.serving
    (by decide +kernel) (by decide +kernel)
  exact ⟨served.1, (served.2.2 (by decide +kernel)).trans (by decide +kernel)⟩

end Nosana.Jobs
