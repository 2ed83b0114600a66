import Mathlib.Data.List.Basic
import Mathlib.Data.List.Induction
import Mathlib.Data.List.Perm.Subperm

set_option autoImplicit false

/- A queue that holds one side of a market at a time, and what its history says: who
entered, who left, and who was paired with whom. -/
namespace Matching

/-- An order of one side of a market. -/
inductive Order (α β : Type)
  | buyer (order : α)
  | seller (order : β)
  deriving DecidableEq

variable {α β : Type}

/-- What happened at a queue. The pairs are those made by newcomers. -/
structure Ledger (α β : Type) where
  entered : List (Order α β)
  left : List (Order α β)
  paired : List (α × β)

/-- The oldest order that waits, when it is of the other side. -/
def partner : Order α β → List (Order α β) → Option (α × β)
  | .buyer newcomer, .seller first :: _ => some (newcomer, first)
  | .seller newcomer, .buyer first :: _ => some (first, newcomer)
  | _, _ => none

/-- The side of a pair that waited when the other side came. -/
def waited : Order α β → α × β → Order α β
  | .buyer _, pair => .seller pair.2
  | .seller _, pair => .buyer pair.1

/-- A pair is made of the newcomer and the oldest order. -/
theorem partner_eq_some {newcomer : Order α β} {orders : List (Order α β)} {pair : α × β}
    (found : partner newcomer orders = some pair) :
    ∃ rest, orders = waited newcomer pair :: rest := by
  unfold partner at found
  split at found
  · cases found
    exact ⟨_, rfl⟩
  · cases found
    exact ⟨_, rfl⟩
  · cases found

namespace Ledger

def empty : Ledger α β := ⟨[], [], []⟩

def enter (ledger : Ledger α β) (order : Order α β) : Ledger α β :=
  { ledger with entered := ledger.entered ++ [order] }

def leave (ledger : Ledger α β) (order : Order α β) : Ledger α β :=
  { ledger with left := ledger.left ++ [order] }

def pairOff (ledger : Ledger α β) (newcomer : Order α β) (pair : α × β) : Ledger α β :=
  { ledger.leave (waited newcomer pair) with paired := ledger.paired ++ [pair] }

/-- Only orders that entered have left. -/
def Balanced (ledger : Ledger α β) : Prop := ledger.left.Subperm ledger.entered

theorem balanced_empty : (empty : Ledger α β).Balanced := List.nil_subperm

theorem Balanced.enter {ledger : Ledger α β} (balanced : ledger.Balanced) (order : Order α β) :
    (ledger.enter order).Balanced :=
  balanced.trans (List.sublist_append_left _ _).subperm

variable [DecidableEq α] [DecidableEq β]

/-- The orders that entered and did not leave, in the order of their arrival. -/
def waiting (ledger : Ledger α β) : List (Order α β) := ledger.entered.diff ledger.left

@[simp] theorem waiting_leave (ledger : Ledger α β) (order : Order α β) :
    (ledger.leave order).waiting = ledger.waiting.erase order := by
  show ledger.entered.diff (ledger.left ++ [order]) = _
  rw [List.diff_append, List.diff_cons, List.diff_nil]
  rfl

@[simp] theorem waiting_pairOff (ledger : Ledger α β) (newcomer : Order α β) (pair : α × β) :
    (ledger.pairOff newcomer pair).waiting =
      ledger.waiting.erase (waited newcomer pair) :=
  waiting_leave ledger _

theorem diff_concat {orders gone : List (Order α β)} (order : Order α β)
    (balanced : gone.Subperm orders) :
    (orders ++ [order]).diff gone = orders.diff gone ++ [order] := by
  induction gone generalizing orders with
  | nil => rfl
  | cons first rest ih =>
      have member : first ∈ orders := balanced.subset (List.mem_cons_self ..)
      have fewer : rest.Subperm (orders.erase first) := by
        have erased := balanced.erase first
        rwa [List.erase_cons_head] at erased
      rw [List.diff_cons, List.diff_cons, List.erase_append_left _ member]
      exact ih fewer

/-- A newcomer waits behind all others. -/
theorem waiting_enter {ledger : Ledger α β} (balanced : ledger.Balanced) (order : Order α β) :
    (ledger.enter order).waiting = ledger.waiting ++ [order] :=
  diff_concat order balanced

theorem Balanced.leave {ledger : Ledger α β} (balanced : ledger.Balanced) {order : Order α β}
    (member : order ∈ ledger.waiting) : (ledger.leave order).Balanced := by
  have whole : (ledger.left ++ ledger.waiting).Perm ledger.entered :=
    List.subperm_append_diff_self_of_count_le fun other _ => balanced.count_le other
  have more : (ledger.left ++ [order]).Sublist (ledger.left ++ ledger.waiting) :=
    (List.singleton_sublist.mpr member).append_left _
  exact more.subperm.trans whole.subperm

/-- A newcomer is paired with the oldest order of the other side, or it waits. -/
def serve (ledger : Ledger α β) (newcomer : Order α β) : Ledger α β :=
  match partner newcomer ledger.waiting with
  | some pair => ledger.pairOff newcomer pair
  | none => ledger.enter newcomer

theorem Balanced.serve {ledger : Ledger α β} (balanced : ledger.Balanced) (newcomer : Order α β) :
    (ledger.serve newcomer).Balanced := by
  unfold Ledger.serve
  cases found : partner newcomer ledger.waiting with
  | none => exact balanced.enter newcomer
  | some pair =>
      obtain ⟨rest, orders⟩ := partner_eq_some found
      exact balanced.leave (orders ▸ List.mem_cons_self ..)

theorem waiting_serve {ledger : Ledger α β} (balanced : ledger.Balanced) (newcomer : Order α β) :
    (ledger.serve newcomer).waiting =
      if (partner newcomer ledger.waiting).isSome then ledger.waiting.tail
      else ledger.waiting ++ [newcomer] := by
  unfold Ledger.serve
  cases found : partner newcomer ledger.waiting with
  | none => exact waiting_enter balanced newcomer
  | some pair =>
      obtain ⟨rest, orders⟩ := partner_eq_some found
      show (ledger.pairOff newcomer pair).waiting = ledger.waiting.tail
      rw [waiting_pairOff, orders, List.erase_cons_head, List.tail_cons]

theorem paired_serve (ledger : Ledger α β) (newcomer : Order α β) :
    (ledger.serve newcomer).paired =
      ledger.paired ++ (partner newcomer ledger.waiting).toList := by
  unfold Ledger.serve
  cases found : partner newcomer ledger.waiting with
  | none => exact (List.append_nil _).symm
  | some pair => rfl

end Ledger

/-! The law of the k-th orders -/

/-- The orders of the buyers among the newcomers. -/
def buyers (newcomers : List (Order α β)) : List α :=
  newcomers.filterMap fun
    | .buyer order => some order
    | .seller _ => none

def sellers (newcomers : List (Order α β)) : List β :=
  newcomers.filterMap fun
    | .buyer _ => none
    | .seller order => some order

/-- The orders that found no partner: at most one side has any. -/
def surplus (buyers : List α) (sellers : List β) : List (Order α β) :=
  (buyers.drop sellers.length).map .buyer ++ (sellers.drop buyers.length).map .seller

theorem zip_concat_left {earlier : List α} {others : List β} (order : α) :
    (earlier ++ [order]).zip others =
      earlier.zip others ++ (others[earlier.length]?.map (order, ·)).toList := by
  induction earlier generalizing others with
  | nil => cases others <;> rfl
  | cons first rest ih =>
      cases others with
      | nil => rfl
      | cons other others => simp [ih]

theorem zip_concat_right {earlier : List β} {others : List α} (order : β) :
    others.zip (earlier ++ [order]) =
      others.zip earlier ++ (others[earlier.length]?.map (·, order)).toList := by
  induction earlier generalizing others with
  | nil => cases others <;> simp
  | cons first rest ih =>
      cases others with
      | nil => rfl
      | cons other others => simp [ih]

/-- While one side is the shorter one, none of it is left over, and its next order takes
the first that is left over of the others. -/
theorem drop_concat_of_lt {γ δ : Type} {earlier : List γ} {others : List δ} (order : γ)
    (short : earlier.length < others.length) :
    earlier.drop others.length = [] ∧ (earlier ++ [order]).drop others.length = [] ∧
      others.drop earlier.length =
        others[earlier.length] :: others.drop (earlier ++ [order]).length := by
  have longer : (earlier ++ [order]).length = earlier.length + 1 := List.length_append
  refine ⟨List.drop_eq_nil_of_le (Nat.le_of_lt short), ?_, ?_⟩
  · exact List.drop_eq_nil_of_le (longer ▸ short)
  · rw [longer]
    exact List.drop_eq_getElem_cons short

/-- Otherwise none of the others is left over, and the next order joins those that are. -/
theorem drop_concat_of_le {γ δ : Type} {earlier : List γ} {others : List δ} (order : γ)
    (long : others.length ≤ earlier.length) :
    others.drop earlier.length = [] ∧ others.drop (earlier ++ [order]).length = [] ∧
      (earlier ++ [order]).drop others.length = earlier.drop others.length ++ [order] := by
  have longer : (earlier ++ [order]).length = earlier.length + 1 := List.length_append
  refine ⟨List.drop_eq_nil_of_le long, ?_, List.drop_append_of_le_length long⟩
  exact List.drop_eq_nil_of_le (longer ▸ Nat.le_succ_of_le long)

/-- A buyer takes the first order of the sellers that no buyer took. -/
theorem surplus_buyer (earlier : List α) (others : List β) (order : α) :
    partner (.buyer order) (surplus earlier others) =
        others[earlier.length]?.map (order, ·) ∧
      surplus (earlier ++ [order]) others =
        if earlier.length < others.length then (surplus earlier others).tail
        else surplus earlier others ++ [.buyer order] := by
  by_cases short : earlier.length < others.length
  · obtain ⟨none, still, first⟩ := drop_concat_of_lt order short
    rw [surplus, surplus, none, still, first, List.getElem?_eq_getElem short, if_pos short]
    exact ⟨rfl, rfl⟩
  · have long := Nat.le_of_not_lt short
    obtain ⟨none, still, joined⟩ := drop_concat_of_le order long
    rw [surplus, surplus, none, still, joined, List.getElem?_eq_none long, if_neg short]
    refine ⟨?_, by simp⟩
    cases earlier.drop others.length <;> rfl

theorem surplus_seller (earlier : List β) (others : List α) (order : β) :
    partner (.seller order) (surplus others earlier) =
        others[earlier.length]?.map (·, order) ∧
      surplus others (earlier ++ [order]) =
        if earlier.length < others.length then (surplus others earlier).tail
        else surplus others earlier ++ [.seller order] := by
  by_cases short : earlier.length < others.length
  · obtain ⟨none, still, first⟩ := drop_concat_of_lt order short
    rw [surplus, surplus, none, still, first, List.getElem?_eq_getElem short, if_pos short]
    exact ⟨rfl, by simp⟩
  · have long := Nat.le_of_not_lt short
    obtain ⟨none, still, joined⟩ := drop_concat_of_le order long
    rw [surplus, surplus, none, still, joined, List.getElem?_eq_none long, if_neg short]
    refine ⟨?_, by simp⟩
    cases earlier.drop others.length <;> rfl

variable [DecidableEq α] [DecidableEq β]

theorem serve_surplus {ledger : Ledger α β} (balanced : ledger.Balanced) {earlier : List α}
    {others : List β} (waits : ledger.waiting = surplus earlier others)
    (paired : ledger.paired = earlier.zip others) (newcomer : Order α β) :
    (ledger.serve newcomer).waiting =
        surplus (earlier ++ buyers [newcomer]) (others ++ sellers [newcomer]) ∧
      (ledger.serve newcomer).paired =
        (earlier ++ buyers [newcomer]).zip (others ++ sellers [newcomer]) := by
  rw [Ledger.waiting_serve balanced, Ledger.paired_serve, waits, paired]
  cases newcomer with
  | buyer order =>
      obtain ⟨found, after⟩ := surplus_buyer earlier others order
      show _ = surplus (earlier ++ [order]) (others ++ []) ∧
        _ = (earlier ++ [order]).zip (others ++ [])
      rw [List.append_nil, after, zip_concat_left, found]
      simp
  | seller order =>
      obtain ⟨found, after⟩ := surplus_seller others earlier order
      show _ = surplus (earlier ++ []) (others ++ [order]) ∧
        _ = (earlier ++ []).zip (others ++ [order])
      rw [List.append_nil, after, zip_concat_right, found]
      simp

/-- Whatever the order in which newcomers come, the k-th buyer is paired with the k-th
seller. -/
theorem paired_eq_zip (newcomers : List (Order α β)) :
    (newcomers.foldl Ledger.serve Ledger.empty).paired =
      (buyers newcomers).zip (sellers newcomers) := by
  have whole : (newcomers.foldl Ledger.serve Ledger.empty).Balanced ∧
      (newcomers.foldl Ledger.serve Ledger.empty).waiting =
        surplus (buyers newcomers) (sellers newcomers) ∧
      (newcomers.foldl Ledger.serve Ledger.empty).paired =
        (buyers newcomers).zip (sellers newcomers) := by
    induction newcomers using List.reverseRecOn with
    | nil => exact ⟨Ledger.balanced_empty, rfl, rfl⟩
    | append_singleton rest last ih =>
        obtain ⟨balanced, waits, paired⟩ := ih
        rw [List.foldl_append, List.foldl_cons, List.foldl_nil, buyers, sellers,
          List.filterMap_append, List.filterMap_append]
        exact ⟨balanced.serve last, serve_surplus balanced waits paired last⟩
  exact whole.2.2

/-! The place of an order in a queue -/

/-- The two orders are of different sides. -/
def Order.opposes : Order α β → Order α β → Bool
  | .buyer _, .seller _ => true
  | .seller _, .buyer _ => true
  | _, _ => false

/-- The orders that wait before an order. -/
def ahead (order : Order α β) (orders : List (Order α β)) : List (Order α β) :=
  orders.takeWhile (· ≠ order)

/-- An order still waits, nobody who came got in front of it, and as many as were served were in
front of it. -/
structure Closer (order : Order α β) (before after : List (Order α β)) (served : Nat) : Prop where
  waits : order ∈ after
  line : (ahead order after).Sublist (ahead order before)
  served : (ahead order after).length + served ≤ (ahead order before).length

theorem ahead_cons_of_ne {order first : Order α β} (different : first ≠ order)
    (rest : List (Order α β)) : ahead order (first :: rest) = first :: ahead order rest :=
  List.takeWhile_cons_of_pos (by simpa using different)

@[simp] theorem ahead_cons_self (order : Order α β) (rest : List (Order α β)) :
    ahead order (order :: rest) = [] := List.takeWhile_cons_of_neg (by simp)

theorem ahead_append {order : Order α β} {orders : List (Order α β)} (waits : order ∈ orders)
    (more : List (Order α β)) : ahead order (orders ++ more) = ahead order orders := by
  induction orders with
  | nil => cases waits
  | cons first rest ih =>
      by_cases same : first = order
      · subst same
        rw [List.cons_append, ahead_cons_self, ahead_cons_self]
      · have behind := List.mem_of_ne_of_mem (Ne.symm same) waits
        rw [List.cons_append, ahead_cons_of_ne same, ahead_cons_of_ne same, ih behind]

theorem ahead_erase {order other : Order α β} (different : other ≠ order)
    (orders : List (Order α β)) :
    ahead order (orders.erase other) = (ahead order orders).erase other := by
  induction orders with
  | nil => rfl
  | cons first rest ih =>
      by_cases gone : first = other
      · subst gone
        rw [List.erase_cons_head, ahead_cons_of_ne different, List.erase_cons_head]
      · rw [List.erase_cons_tail (by simpa using gone)]
        by_cases same : first = order
        · subst same
          rw [ahead_cons_self, ahead_cons_self, List.erase_nil]
        · rw [ahead_cons_of_ne same, ahead_cons_of_ne same, ih,
            List.erase_cons_tail (by simpa using gone)]

namespace Closer

variable {order : Order α β} {orders : List (Order α β)}

theorem rest (waits : order ∈ orders) : Closer order orders orders 0 :=
  ⟨waits, List.Sublist.refl _, Nat.le_refl _⟩

/-- Whoever comes waits behind. -/
theorem joined (waits : order ∈ orders) (newcomer : Order α β) :
    Closer order orders (orders ++ [newcomer]) 0 := by
  have same := ahead_append waits [newcomer]
  refine ⟨List.mem_append_left _ waits, ?_, ?_⟩
  · rw [same]
  · exact Nat.le_of_eq (by rw [same, Nat.add_zero])

/-- The first of the queue is served, who was in front of all others. -/
theorem first {first : Order α β} (waits : order ∈ first :: orders) (different : first ≠ order) :
    Closer order (first :: orders) orders 1 := by
  have line := ahead_cons_of_ne different orders
  refine ⟨List.mem_of_ne_of_mem different.symm waits, ?_, ?_⟩
  · rw [line]
    exact List.sublist_cons_self _ _
  · exact Nat.le_of_eq (by rw [line, List.length_cons])

/-- Whoever leaves may have been in front. -/
theorem left {other : Order α β} (waits : order ∈ orders) (different : other ≠ order) :
    Closer order orders (orders.erase other) 0 := by
  have line := ahead_erase different orders
  refine ⟨(List.mem_erase_of_ne different.symm).mpr waits, ?_, ?_⟩
  · rw [line]
    exact List.erase_sublist
  · rw [line]
    exact List.length_erase_le

theorem trans {before now after : List (Order α β)} {earlier later : Nat}
    (first : Closer order before now earlier) (second : Closer order now after later) :
    Closer order before after (earlier + later) := by
  refine ⟨second.waits, second.line.trans first.line, ?_⟩
  have fewer := first.served
  have more := second.served
  omega

end Closer

end Matching
