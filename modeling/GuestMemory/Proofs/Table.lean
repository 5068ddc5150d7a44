import GuestMemory.Table
import Mathlib.Data.Set.Card

/-!
Counting in a table. Each key occurs once, so there are as many entries of a kind as there are keys of it
(`ncard_filter`), and what a restriction keeps and what it drops make up the whole (`size_filter_not`).
-/
namespace GuestMemory.Table

variable {α : Type}

theorem nodup_keys (t : Table α) : t.keys.Nodup := by
  rw [keys, List.nodup_iff_pairwise_ne, List.pairwise_map]
  exact t.ascending.imp Nat.ne_of_lt

theorem mem_keys {t : Table α} {key : Nat} : key ∈ t.keys ↔ ∃ value, t.find? key = some value := by
  simp [keys, find?_eq_some_iff]

/-- There are as many keys as entries. -/
theorem ncard_keys (t : Table α) : {key | ∃ value, t.find? key = some value}.ncard = t.size := by
  have same : {key | ∃ value, t.find? key = some value} = ↑t.keys.toFinset := by
    ext key
    simp [mem_keys]
  rw [same, Set.ncard_coe_finset, List.toFinset_card_of_nodup t.nodup_keys, keys, List.length_map]
  rfl

/-- A restriction keeps one entry for each key that it keeps. -/
theorem ncard_filter (t : Table α) (keep : Nat → α → Bool) :
    {key | ∃ value, t.find? key = some value ∧ keep key value = true}.ncard = (t.filter keep).size := by
  rw [← ncard_keys]
  congr 1
  ext key
  simp [Option.filter_eq_some_iff]

/-- Every value occurs under as many keys as it occurs times. -/
theorem ncard_find? [DecidableEq α] (t : Table α) (value : α) :
    {key | t.find? key = some value}.ncard = t.values.count value := by
  have same : {key | t.find? key = some value} =
      {key | ∃ found, t.find? key = some found ∧ (found == value) = true} := by
    ext key
    simp
  rw [same, t.ncard_filter fun _ found => found == value, values, List.count, List.countP_map,
    List.countP_eq_length_filter]
  rfl

theorem size_filter_not (t : Table α) (keep : Nat → α → Bool) :
    (t.filter keep).size + (t.filter fun key value => !keep key value).size = t.size :=
  (List.length_eq_length_filter_add fun entry : Nat × α => keep entry.1 entry.2).symm

end GuestMemory.Table
