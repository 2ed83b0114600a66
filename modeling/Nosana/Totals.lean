import Mathlib.Data.Finmap
import Mathlib.Algebra.Order.BigOperators.Group.Finset
import Mathlib.Algebra.Order.BigOperators.Group.Multiset
import Mathlib.Algebra.Order.Group.Nat
import Mathlib.Algebra.Order.Group.Int

set_option autoImplicit false

/- Sums over the entries of a finite map, and how they change when one entry does. -/
namespace Finmap

variable {κ α : Type} [DecidableEq κ]

theorem lookup_insert_eq_ite (key other : κ) (value : α) (map : Finmap fun _ : κ => α) :
    (map.insert key value).lookup other = if other = key then some value else map.lookup other := by
  split
  · rename_i same
    rw [same, lookup_insert]
  · rename_i different
    exact lookup_insert_of_ne map different

theorem lookup_erase_eq_ite (key other : κ) (map : Finmap fun _ : κ => α) :
    (map.erase key).lookup other = if other = key then none else map.lookup other := by
  split
  · rename_i same
    rw [same, lookup_erase]
  · rename_i different
    exact lookup_erase_ne different

/-- An entry of a map with one more is that one or an earlier one. -/
theorem lookup_insert_eq_some {key other : κ} {value found : α} {map : Finmap fun _ : κ => α}
    (inside : (map.insert key value).lookup other = some found) :
    (other = key ∧ found = value) ∨ (other ≠ key ∧ map.lookup other = some found) := by
  rw [lookup_insert_eq_ite] at inside
  split at inside
  · rename_i same
    exact Or.inl ⟨same, (Option.some.inj inside).symm⟩
  · rename_i different
    exact Or.inr ⟨different, inside⟩

theorem lookup_erase_eq_some {key other : κ} {found : α} {map : Finmap fun _ : κ => α}
    (inside : (map.erase key).lookup other = some found) :
    other ≠ key ∧ map.lookup other = some found := by
  rw [lookup_erase_eq_ite] at inside
  split at inside
  · cases inside
  · rename_i different
    exact ⟨different, inside⟩

/-- As functions, insertion is a pointwise update. -/
theorem lookup_map_insert {β : Type} (view : α → β) (key : κ) (value : α)
    (map : Finmap fun _ : κ => α) :
    (fun other => ((map.insert key value).lookup other).map view) =
      Function.update (fun other => (map.lookup other).map view) key (some (view value)) := by
  funext other
  rw [lookup_insert_eq_ite, Function.update_apply]
  split <;> rfl

/-- A view that a new value leaves as it was. -/
theorem lookup_map_insert_same {β : Type} (view : α → β) {key : κ} {old value : α}
    {map : Finmap fun _ : κ => α} (present : map.lookup key = some old)
    (same : view value = view old) :
    (fun other => ((map.insert key value).lookup other).map view) =
      fun other => (map.lookup other).map view := by
  rw [lookup_map_insert, same, Function.update_eq_self_iff, present]
  rfl

theorem lookup_map_erase {β : Type} (view : α → β) (key : κ) (map : Finmap fun _ : κ => α) :
    (fun other => ((map.erase key).lookup other).map view) =
      Function.update (fun other => (map.lookup other).map view) key none := by
  funext other
  rw [lookup_erase_eq_ite, Function.update_apply]
  split <;> rfl

section Total

variable {M : Type} [AddCommMonoid M]

/-- The sum of a measure over the entries of a map. -/
def total (measure : κ → α → M) (map : Finmap fun _ : κ => α) : M :=
  (map.entries.map fun entry => measure entry.1 entry.2).sum

omit [DecidableEq κ] in
@[simp] theorem total_empty (measure : κ → α → M) :
    total measure (∅ : Finmap fun _ : κ => α) = 0 := rfl

theorem total_insert_fresh (measure : κ → α → M) (map : Finmap fun _ : κ => α) (key : κ)
    (value : α) (fresh : key ∉ map) :
    total measure (map.insert key value) = measure key value + total measure map := by
  simp only [total, entries_insert_of_notMem fresh, Multiset.map_cons, Multiset.sum_cons]

theorem insert_erase_of_lookup (map : Finmap fun _ : κ => α) (key : κ) (value fresh : α) :
    (map.erase key).insert key fresh = map.insert key fresh ∧
      (map.lookup key = some value → (map.erase key).insert key value = map) := by
  refine ⟨ext_lookup fun other => ?_, fun present => ext_lookup fun other => ?_⟩
  · simp only [lookup_insert_eq_ite, lookup_erase_eq_ite]
    split <;> rfl
  · simp only [lookup_insert_eq_ite, lookup_erase_eq_ite]
    split
    · rename_i same
      rw [same, present]
    · rfl

/-- Erasing an entry takes its measure out of the sum. -/
theorem total_erase (measure : κ → α → M) (map : Finmap fun _ : κ => α) (key : κ) (value : α)
    (present : map.lookup key = some value) :
    total measure map = measure key value + total measure (map.erase key) := by
  have rebuilt := (insert_erase_of_lookup map key value value).2 present
  conv_lhs => rw [← rebuilt]
  exact total_insert_fresh measure _ key value notMem_erase_self

/-- Replacing an entry exchanges its measure. -/
theorem total_insert (measure : κ → α → M) (map : Finmap fun _ : κ => α) (key : κ)
    (value fresh : α) (present : map.lookup key = some value) :
    measure key value + total measure (map.insert key fresh) =
      measure key fresh + total measure map := by
  rw [← (insert_erase_of_lookup map key value fresh).1,
    total_insert_fresh measure _ key fresh notMem_erase_self,
    total_erase measure map key value present]
  exact add_left_comm _ _ _

theorem total_split (measure : κ → α → M) (map : Finmap fun _ : κ => α) (key : κ) :
    total measure map = (map.lookup key).elim 0 (measure key) + total measure (map.erase key) := by
  cases present : map.lookup key with
  | some value => exact total_erase measure map key value present
  | none =>
      have same : map.erase key = map := by
        apply ext_lookup
        intro other
        rw [lookup_erase_eq_ite]
        split
        · rename_i here
          rw [here, present]
        · rfl
      rw [same, Option.elim_none, zero_add]

/-- Maps that differ at one key have sums that differ by its measure. -/
theorem total_of_frame (measure : κ → α → M) {first second : Finmap fun _ : κ => α} {key : κ}
    (frame : ∀ other, other ≠ key → second.lookup other = first.lookup other) :
    total measure second + (first.lookup key).elim 0 (measure key) =
      total measure first + (second.lookup key).elim 0 (measure key) := by
  have rest : second.erase key = first.erase key := by
    apply ext_lookup
    intro other
    rw [lookup_erase_eq_ite, lookup_erase_eq_ite]
    split
    · rfl
    · rename_i apart
      exact frame other apart
  rw [total_split measure second key, total_split measure first key, rest]
  rw [add_right_comm, add_comm ((second.lookup key).elim 0 (measure key)), add_right_comm]

/-- Two measures that agree on the entries have the same sum. -/
theorem total_congr (first second : κ → α → M) (map : Finmap fun _ : κ => α)
    (same : ∀ key value, map.lookup key = some value → first key value = second key value) :
    total first map = total second map := by
  unfold total
  congr 1
  apply Multiset.map_congr rfl
  intro entry member
  exact same entry.1 entry.2 (lookup_eq_some_iff.mpr member)

theorem total_eq_zero (measure : κ → α → M) (map : Finmap fun _ : κ => α)
    (none : ∀ key value, map.lookup key = some value → measure key value = 0) :
    total measure map = 0 := by
  apply Multiset.sum_eq_zero
  intro amount member
  obtain ⟨entry, inside, rfl⟩ := Multiset.mem_map.mp member
  exact none entry.1 entry.2 (lookup_eq_some_iff.mpr inside)

omit [DecidableEq κ] in
theorem total_add (first second : κ → α → M) (map : Finmap fun _ : κ => α) :
    total (fun key value => first key value + second key value) map =
      total first map + total second map := by
  simp only [total, Multiset.sum_map_add]

end Total

section Order

variable {M : Type} [AddCommMonoid M] [PartialOrder M] [IsOrderedAddMonoid M]

theorem total_nonneg (measure : κ → α → M) (map : Finmap fun _ : κ => α)
    (nonneg : ∀ key value, map.lookup key = some value → 0 ≤ measure key value) :
    0 ≤ total measure map := by
  apply Multiset.sum_nonneg
  intro amount member
  obtain ⟨entry, inside, rfl⟩ := Multiset.mem_map.mp member
  exact nonneg entry.1 entry.2 (lookup_eq_some_iff.mpr inside)

/-- A sum of amounts that are not negative covers each of them. -/
theorem le_total (measure : κ → α → M) (map : Finmap fun _ : κ => α) (key : κ) (value : α)
    (present : map.lookup key = some value)
    (nonneg : ∀ key value, map.lookup key = some value → 0 ≤ measure key value) :
    measure key value ≤ total measure map := by
  rw [total_erase measure map key value present]
  apply le_add_of_nonneg_right
  apply total_nonneg
  intro other found inside
  rw [lookup_erase_eq_ite] at inside
  split at inside
  · cases inside
  · exact nonneg other found inside

/-- The entries at some keys add up to no more than all of them. -/
theorem sum_le_total (measure : κ → α → M) (map : Finmap fun _ : κ => α)
    (nonneg : ∀ key value, map.lookup key = some value → 0 ≤ measure key value) (keys : Finset κ) :
    (∑ key ∈ keys, ((map.lookup key).elim 0 (measure key))) ≤ total measure map := by
  induction keys using Finset.induction_on generalizing map with
  | empty => exact total_nonneg measure map nonneg
  | insert key rest fresh ih =>
      rw [Finset.sum_insert fresh]
      cases present : map.lookup key with
      | none =>
          rw [Option.elim_none, zero_add]
          exact ih map nonneg
      | some value =>
          rw [Option.elim_some, total_erase measure map key value present]
          apply add_le_add_right
          have others : ∀ other ∈ rest, (map.lookup other).elim 0 (measure other) =
              ((map.erase key).lookup other).elim 0 (measure other) := by
            intro other member
            have apart : other ≠ key := by
              rintro rfl
              exact fresh member
            rw [lookup_erase_ne apart]
          rw [Finset.sum_congr rfl others]
          exact ih _ fun other found inside => nonneg other found (lookup_erase_eq_some inside).2

end Order

end Finmap
