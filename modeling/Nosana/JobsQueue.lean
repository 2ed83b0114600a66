import Nosana.JobsState

set_option autoImplicit false

/- The queue of a market on its own: a tag byte and the orders it holds. -/
namespace Nosana.Jobs

open Checked

structure Queue where
  tag : UInt8
  orders : List Pubkey
  deriving DecidableEq

namespace Queue

/-- A new order gives an empty queue its side. -/
def push (queue : Queue) (side : QueueType) (order : Pubkey) : Queue where
  tag := if queue.tag = QueueType.empty.toU8 then side.toU8 else queue.tag
  orders := queue.orders ++ [order]

def remove (queue : Queue) (order : Pubkey) : Queue where
  tag := if queue.orders.erase order = [] then QueueType.empty.toU8 else queue.tag
  orders := queue.orders.erase order

/-- The tag says what the orders are. -/
structure Tagged (queue : Queue) : Prop where
  empty_iff : queue.tag = QueueType.empty.toU8 ↔ queue.orders = []
  sided : queue.orders = [] ∨ queue.tag = QueueType.job.toU8 ∨ queue.tag = QueueType.node.toU8

/-- The tag says what the orders are, and no order waits twice. -/
structure WellFormed (queue : Queue) : Prop extends Tagged queue where
  nodup : queue.orders.Nodup

theorem tagged_empty : Tagged ⟨QueueType.empty.toU8, []⟩ := ⟨by simp, Or.inl rfl⟩

theorem wellFormed_empty : WellFormed ⟨QueueType.empty.toU8, []⟩ :=
  ⟨tagged_empty, List.nodup_nil⟩

theorem Tagged.remove {queue : Queue} (valid : queue.Tagged) (order : Pubkey) :
    (queue.remove order).Tagged := by
  unfold Queue.remove
  by_cases last : queue.orders.erase order = []
  · simp only [last, if_true]
    exact tagged_empty
  · have held : queue.orders ≠ [] := by
      intro none
      rw [none] at last
      exact last rfl
    have tagged : queue.tag ≠ QueueType.empty.toU8 := fun same => held (valid.empty_iff.mp same)
    refine ⟨?_, ?_⟩
    · simp only [last, if_false, iff_false]
      exact tagged
    · simp only [last, if_false, false_or]
      exact valid.sided.resolve_left held

theorem Tagged.push {queue : Queue} (valid : queue.Tagged) {side : QueueType}
    (real : side ≠ .empty) (order : Pubkey) : (queue.push side order).Tagged := by
  have held : queue.orders ++ [order] ≠ [] := by simp
  refine ⟨?_, Or.inr ?_⟩
  · simp only [Queue.push, held, iff_false]
    split
    · cases side <;> first | contradiction | decide
    · assumption
  · simp only [Queue.push]
    split
    · cases side <;> first | contradiction | decide
    · rename_i tagged
      exact valid.sided.resolve_left fun none => tagged (valid.empty_iff.mpr none)

theorem WellFormed.remove {queue : Queue} (valid : queue.WellFormed) (order : Pubkey) :
    (queue.remove order).WellFormed :=
  ⟨valid.toTagged.remove order, valid.nodup.erase order⟩

theorem WellFormed.push {queue : Queue} (valid : queue.WellFormed) {side : QueueType}
    (real : side ≠ .empty) {order : Pubkey} (absent : order ∉ queue.orders) :
    (queue.push side order).WellFormed := by
  refine ⟨valid.toTagged.push real order, ?_⟩
  simp only [Queue.push, List.nodup_append, List.nodup_singleton, List.mem_singleton]
  exact ⟨valid.nodup, trivial, fun _ member _ last same => absent (same.trans last ▸ member)⟩

theorem mem_remove {queue : Queue} (valid : queue.WellFormed) {order other : Pubkey} :
    other ∈ (queue.remove order).orders ↔ other ≠ order ∧ other ∈ queue.orders :=
  valid.nodup.mem_erase_iff

/-- A queue keeps its side while orders leave it. -/
theorem tag_remove {queue : Queue} {order : Pubkey} (side : QueueType) (real : side ≠ .empty)
    (tagged : (queue.remove order).tag = side.toU8) : queue.tag = side.toU8 := by
  unfold remove at tagged
  dsimp only at tagged
  split at tagged
  · cases side <;> contradiction
  · exact tagged

theorem tag_remove_of_mem {queue : Queue} {order other : Pubkey}
    (member : other ∈ (queue.remove order).orders) : (queue.remove order).tag = queue.tag := by
  have held : queue.orders.erase order ≠ [] := List.ne_nil_of_mem member
  simp only [remove, held, if_false]

end Queue

theorem QueueType.ofU8_eq_node (queueType : UInt8) :
    QueueType.ofU8 queueType = .node ↔ queueType = QueueType.node.toU8 := by
  unfold QueueType.ofU8
  split
  · rename_i same
    simp [same, QueueType.toU8]
  · split <;> simp_all [QueueType.toU8]

theorem QueueType.ofU8_eq_job (queueType : UInt8) :
    QueueType.ofU8 queueType = .job ↔ queueType = QueueType.job.toU8 := by
  unfold QueueType.ofU8
  split
  · rename_i same
    simp [same, QueueType.toU8]
  · split <;> simp_all [QueueType.toU8]

namespace MarketAccount

/-- The queue of a market account. -/
def line (market : MarketAccount) : Queue := ⟨market.queueType, market.queue⟩

def withLine (market : MarketAccount) (queue : Queue) : MarketAccount :=
  { market with queueType := queue.tag, queue := queue.orders }

@[simp] theorem line_update (market : MarketAccount) (expiration : Int) (price : Nat)
    (jobType : UInt8) (key : Pubkey) (minimum : Nat) (timeout : Int) :
    (market.update expiration price jobType key minimum timeout).line = market.line := rfl

@[simp] theorem line_restrict (market : MarketAccount) (restricted : Bool) :
    (market.restrict restricted).line = market.line := by
  cases restricted <;> rfl

@[simp] theorem vault_restrict (market : MarketAccount) (restricted : Bool) :
    (market.restrict restricted).vault = market.vault := by
  cases restricted <;> rfl

/-- Does the market take new orders into its queue? -/
def Unknown (market : MarketAccount) : Prop := JobType.ofU8 market.jobType = .unknown

instance (market : MarketAccount) : Decidable market.Unknown :=
  inferInstanceAs (Decidable (_ = _))

theorem addToQueue_of_unknown {market : MarketAccount} (unknown : market.Unknown)
    (order : Pubkey) (isJob : Bool) : market.addToQueue order isJob = market := by
  unfold Unknown at unknown
  simp only [addToQueue, unknown, if_true]

theorem addToQueue_of_known {market : MarketAccount} (known : ¬ market.Unknown)
    (order : Pubkey) (isJob : Bool) :
    market.addToQueue order isJob =
      market.withLine (market.line.push (if isJob then .job else .node) order) := by
  unfold Unknown at known
  by_cases tagged : market.queueType = QueueType.empty.toU8 <;>
    simp [addToQueue, known, Queue.push, withLine, line, setQueueType, tagged]

theorem findInQueue_eq_some {queue : List Pubkey} {key : Pubkey} {index : Nat}
    (found : findInQueue queue key = some index) :
    key ∈ queue ∧ queue.eraseIdx index = queue.erase key := by
  unfold findInQueue at found
  have position := List.findIdx?_eq_some_iff_findIdx_eq.mp found
  have inside : queue.idxOf key < queue.length := by
    unfold List.idxOf
    omega
  refine ⟨List.idxOf_lt_length_iff.mp inside, ?_⟩
  exact (List.erase_eq_eraseIdx_of_idxOf position.2).symm

theorem findInQueue_eq_none {queue : List Pubkey} {key : Pubkey} :
    findInQueue queue key = none ↔ key ∉ queue := by
  unfold findInQueue
  rw [List.findIdx?_eq_none_iff]
  constructor
  · intro all member
    simpa using all key member
  · intro absent other member
    simp only [beq_eq_false_iff_ne]
    exact fun same => absent (same ▸ member)

/-- Removing an order succeeds exactly when it waits. -/
theorem removeFromQueue_eq_ok {market result : MarketAccount} {key : Pubkey} :
    market.removeFromQueue key = .ok result ↔
      key ∈ market.queue ∧ result = market.withLine (market.line.remove key) := by
  unfold removeFromQueue
  cases found : findInQueue market.queue key with
  | none => simp [findInQueue_eq_none.mp found]
  | some index =>
      obtain ⟨member, erased⟩ := findInQueue_eq_some found
      simp only [member, true_and, Except.ok.injEq, erased, eq_comm (a := result)]
      apply Eq.congr_left
      by_cases last : market.queue.erase key = [] <;>
        simp [withLine, Queue.remove, line, setQueueType, last]

/-- Popping takes the order that has waited longest. -/
theorem popFromQueue_eq_ok {market result : MarketAccount} {key : Pubkey} :
    market.popFromQueue = .ok (key, result) ↔
      ∃ rest, market.queue = key :: rest ∧ result = market.withLine (market.line.remove key) := by
  unfold popFromQueue
  cases orders : market.queue with
  | nil => simp [orders]
  | cons first rest =>
      by_cases last : rest = []
      · subst last
        simp only [orders, List.length_singleton, if_true, setQueueType, Except.ok.injEq,
          Prod.mk.injEq, List.cons.injEq]
        constructor
        · rintro ⟨rfl, rfl⟩
          refine ⟨[], ⟨rfl, rfl⟩, ?_⟩
          simp [withLine, Queue.remove, line, orders]
        · rintro ⟨rest, ⟨rfl, rfl⟩, rfl⟩
          refine ⟨rfl, ?_⟩
          simp [withLine, Queue.remove, line, orders]
      · have several : ¬ (first :: rest).length = 1 := by
          simp only [List.length_cons]
          have := List.length_pos_of_ne_nil last
          omega
        simp only [several, if_false, orders, Except.ok.injEq, Prod.mk.injEq, List.cons.injEq]
        constructor
        · rintro ⟨rfl, rfl⟩
          refine ⟨rest, ⟨rfl, rfl⟩, ?_⟩
          simp [withLine, Queue.remove, line, orders, last]
        · rintro ⟨others, ⟨rfl, rfl⟩, rfl⟩
          refine ⟨rfl, ?_⟩
          simp [withLine, Queue.remove, line, orders, last]

theorem nodeConstraint_iff (node : Pubkey) (queue : List Pubkey) (queueType : UInt8) :
    nodeConstraint node queue queueType = true ↔
      queueType = QueueType.job.toU8 ∨ node ∉ queue := by
  unfold nodeConstraint
  by_cases tagged : queueType = QueueType.job.toU8
  · simp [tagged]
  · simp only [ne_eq, tagged, not_false_eq_true, if_true, Option.isNone_iff_eq_none,
      findInQueue_eq_none, false_or]

@[simp] theorem exit_eq_ok [Runtime] {market result : MarketAccount} :
    market.exit = .ok result ↔
      market.queue.length ≤ Runtime.queueCapacity ∧ market = result := by
  unfold exit
  split <;> simp_all

end MarketAccount

end Nosana.Jobs
