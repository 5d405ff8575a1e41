import Mathlib.Data.Finset.Card
import Mathlib.Logic.Function.Basic

/-! # Tables of slots

A table with a fixed number of slots, some of them free. Taking a free slot adds
it to the taken ones and releasing one removes it, whatever the other entries are,
and a search from a slot upwards finds the first free one.
-/

namespace SlotTable

open Function

variable {α : Type*} (free : α → Prop) [DecidablePred free]

/-- The slots below `size` that are taken. -/
def used (table : Nat → α) (size : Nat) : Finset Nat :=
  (Finset.range size).filter fun i => ¬ free (table i)

/-- The search for a free slot from `i` on, with `remaining` slots to look at. It ends
behind the last of them when none is free. -/
def firstFree (table : Nat → α) : Nat → Nat → Nat
  | 0, i => i
  | remaining + 1, i => if free (table i) then i else firstFree table remaining (i + 1)

variable {free} {table : Nat → α} {entry : α} {size i remaining : Nat}

theorem mem_used : i ∈ used free table size ↔ i < size ∧ ¬ free (table i) := by
  rw [used, Finset.mem_filter, Finset.mem_range]

/-! ## Taking and releasing -/

theorem used_take (hlt : i < size) (hentry : ¬ free entry) :
    used free (update table i entry) size = insert i (used free table size) := by
  ext j
  rw [Finset.mem_insert, mem_used, mem_used]
  by_cases hj : j = i
  · subst hj
    simp [hlt, hentry]
  · simp [hj]

theorem used_release (hentry : free entry) :
    used free (update table i entry) size = (used free table size).erase i := by
  ext j
  rw [Finset.mem_erase, mem_used, mem_used]
  by_cases hj : j = i
  · subst hj
    simp [hentry]
  · simp [hj]

/-- Other data of an entry can change without the table's noticing. -/
theorem used_keep (hentry : free entry ↔ free (table i)) :
    used free (update table i entry) size = used free table size := by
  ext j
  rw [mem_used, mem_used]
  by_cases hj : j = i
  · subst hj
    rw [update_self, hentry]
  · rw [update_of_ne hj]

theorem card_used_take (hlt : i < size) (hfree : free (table i)) (hentry : ¬ free entry) :
    (used free (update table i entry) size).card = (used free table size).card + 1 := by
  rw [used_take hlt hentry, Finset.card_insert_of_notMem]
  intro hmem
  exact (mem_used.mp hmem).2 hfree

theorem card_used_release (hlt : i < size) (htaken : ¬ free (table i)) (hentry : free entry) :
    (used free (update table i entry) size).card + 1 = (used free table size).card := by
  rw [used_release hentry]
  exact Finset.card_erase_add_one (mem_used.mpr ⟨hlt, htaken⟩)

/-- A table that is not full has a free slot. -/
theorem exists_free (hroom : (used free table size).card < size) : ∃ i < size, free (table i) := by
  by_contra hnone
  push Not at hnone
  have hfull : used free table size = Finset.range size := by
    ext i
    rw [mem_used, Finset.mem_range]
    exact ⟨And.left, fun hlt => ⟨hlt, hnone i hlt⟩⟩
  rw [hfull, Finset.card_range] at hroom
  exact hroom.false

/-! ## The search -/

/-- Tests that agree on the slots it looks at end the search at one place. -/
theorem firstFree_congr {test : α → Prop} [DecidablePred test]
    (hagree : ∀ j, i ≤ j → j < i + remaining → (test (table j) ↔ free (table j))) :
    firstFree test table remaining i = firstFree free table remaining i := by
  induction remaining generalizing i with
  | zero => rfl
  | succ remaining ih =>
      have hfirst := hagree i le_rfl (by omega)
      have hrest : firstFree test table remaining (i + 1) =
          firstFree free table remaining (i + 1) :=
        ih fun j hle hlt => hagree j (by omega) (by omega)
      rw [firstFree, firstFree, hrest]
      simp only [hfirst]

theorem le_firstFree (table : Nat → α) (remaining i : Nat) :
    i ≤ firstFree free table remaining i := by
  induction remaining generalizing i with
  | zero => rfl
  | succ remaining ih =>
      rw [firstFree]
      split
      · rfl
      · exact (Nat.le_succ i).trans (ih (i + 1))

/-- Everything the search passes is taken. -/
theorem taken_of_lt_firstFree {j : Nat} (hle : i ≤ j) (hlt : j < firstFree free table remaining i) :
    ¬ free (table j) := by
  induction remaining generalizing i with
  | zero =>
      rw [firstFree] at hlt
      omega
  | succ remaining ih =>
      rw [firstFree] at hlt
      split at hlt
      · omega
      · rcases Nat.eq_or_lt_of_le hle with rfl | hless
        · assumption
        · exact ih hless hlt

/-- When one of the slots it looks at is free, the search ends at a free one. -/
theorem firstFree_spec {j : Nat} (hle : i ≤ j) (hlt : j < i + remaining) (hfree : free (table j)) :
    firstFree free table remaining i ≤ j ∧ free (table (firstFree free table remaining i)) := by
  induction remaining generalizing i with
  | zero => omega
  | succ remaining ih =>
      rw [firstFree]
      split
      · exact ⟨hle, by assumption⟩
      · next htaken =>
        have hne : i ≠ j := by
          rintro rfl
          exact htaken hfree
        exact ih (by omega) (by omega)

/-- A search that ends in front of the last slot has found a free one. -/
theorem free_of_firstFree_lt (hlt : firstFree free table remaining i < i + remaining) :
    free (table (firstFree free table remaining i)) := by
  induction remaining generalizing i with
  | zero =>
      rw [firstFree] at hlt
      omega
  | succ remaining ih =>
      rw [firstFree] at hlt ⊢
      split
      · assumption
      · next htaken =>
        rw [if_neg htaken] at hlt
        exact ih (by omega)

/-- The search never ends at a taken slot it looks at. -/
theorem ne_firstFree_of_taken {j : Nat} (hlt : j < i + remaining) (htaken : ¬ free (table j)) :
    j ≠ firstFree free table remaining i := by
  intro heq
  subst heq
  exact htaken (free_of_firstFree_lt hlt)

end SlotTable
