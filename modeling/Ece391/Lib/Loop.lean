import Mathlib.Data.List.Range
import Mathlib.Logic.Function.Basic

/-! # Counted loops over an array

Folding over `List.range count` is the C loop `for (i = 0; i < count; i++)`.
The lemmas give the array after a loop that stores one element in each turn.
-/

namespace CountedLoop

open Function

universe u

variable {α : Type u}

/-- A loop that stores a value that depends only on the index. -/
theorem foldl_update (value : Nat → α) (array : Nat → α) (count index : Nat) :
    (List.range count).foldl (fun a i => update a i (value i)) array index =
      if index < count then value index else array index := by
  induction count with
  | zero => simp
  | succ count ih =>
      rw [List.range_succ, List.foldl_append, List.foldl_cons, List.foldl_nil]
      by_cases heq : index = count
      · subst heq
        rw [update_self, if_pos (Nat.lt_succ_self _)]
      · rw [update_of_ne heq, ih]
        have hiff : index < count ↔ index < count + 1 := by omega
        simp only [hiff]

/-- A loop that moves every element down by a fixed distance: the element read
in a turn has not been stored to before. -/
theorem foldl_shift (change : α → α) (distance : Nat) (array : Nat → α) (count index : Nat) :
    (List.range count).foldl (fun a i => update a i (change (a (i + distance)))) array index =
      if index < count then change (array (index + distance)) else array index := by
  induction count generalizing index with
  | zero => simp
  | succ count ih =>
      rw [List.range_succ, List.foldl_append, List.foldl_cons, List.foldl_nil]
      have hread := ih (count + distance)
      rw [if_neg (by omega)] at hread
      by_cases heq : index = count
      · subst heq
        rw [update_self, if_pos (Nat.lt_succ_self _), hread]
      · rw [update_of_ne heq, ih]
        have hiff : index < count ↔ index < count + 1 := by omega
        simp only [hiff]

/-- A loop over the indices from `start` on. -/
theorem foldl_update_from (value : Nat → α) (array : Nat → α) (start count index : Nat) :
    (List.range' start count).foldl (fun a i => update a i (value i)) array index =
      if start ≤ index ∧ index < start + count then value index else array index := by
  induction count with
  | zero => simp
  | succ count ih =>
      rw [List.range'_concat, List.foldl_append, List.foldl_cons, List.foldl_nil, Nat.one_mul]
      by_cases heq : index = start + count
      · subst heq
        rw [update_self, if_pos (by omega)]
      · rw [update_of_ne heq, ih]
        have hiff : (start ≤ index ∧ index < start + count) ↔
            start ≤ index ∧ index < start + (count + 1) := by omega
        simp only [hiff]

/-- A fallible loop relates its ends as each turn relates its own, when that relation is
reflexive and transitive. -/
theorem foldlM_related {σ ι : Type*} {body : σ → ι → Option σ} (related : σ → σ → Prop)
    (hrefl : ∀ s, related s s) (htrans : ∀ s t u, related s t → related t u → related s u)
    {items : List ι} (hbody : ∀ s, ∀ i ∈ items, ∀ t, body s i = some t → related s t)
    {s last : σ} (hloop : items.foldlM body s = some last) : related s last := by
  induction items generalizing s with
  | nil =>
      obtain rfl := Option.some.inj hloop
      exact hrefl s
  | cons i rest ih =>
      rw [List.foldlM_cons] at hloop
      obtain ⟨middle, hmiddle, hrest⟩ := Option.bind_eq_some_iff.mp hloop
      have hfirst := hbody s i List.mem_cons_self middle hmiddle
      have htail := ih (fun s j hj => hbody s j (List.mem_cons_of_mem _ hj)) hrest
      exact htrans s middle last hfirst htail

/-- A fallible loop completes when each turn completes and leaves the state fit for the
next one. -/
theorem foldlM_completes {σ ι : Type*} {body : σ → ι → Option σ} (fit : σ → Prop)
    {items : List ι} (hbody : ∀ s, fit s → ∀ i ∈ items, ∃ t, body s i = some t ∧ fit t) {s : σ}
    (hstart : fit s) : ∃ last, items.foldlM body s = some last := by
  induction items generalizing s with
  | nil => exact ⟨s, rfl⟩
  | cons i rest ih =>
      obtain ⟨middle, hmiddle, hfit⟩ := hbody s hstart i List.mem_cons_self
      obtain ⟨last, hlast⟩ := ih (fun s hs j hj => hbody s hs j (List.mem_cons_of_mem _ hj)) hfit
      refine ⟨last, ?_⟩
      rw [List.foldlM_cons, hmiddle]
      exact hlast

/-- A fallible counted loop completes with an invariant that every turn takes on to the next
index. -/
theorem foldlM_range {σ : Type*} {body : σ → Nat → Option σ} (inv : Nat → σ → Prop) {count : Nat}
    (hbody : ∀ i < count, ∀ s, inv i s → ∃ t, body s i = some t ∧ inv (i + 1) t) {s : σ}
    (hstart : inv 0 s) : ∃ last, (List.range count).foldlM body s = some last ∧ inv count last := by
  induction count with
  | zero => exact ⟨s, rfl, hstart⟩
  | succ count ih =>
      obtain ⟨middle, hmiddle, hinv⟩ := ih fun i hi => hbody i (Nat.lt_succ_of_lt hi)
      obtain ⟨last, hlast, hdone⟩ := hbody count (Nat.lt_succ_self count) middle hinv
      refine ⟨last, ?_, hdone⟩
      rw [List.range_succ, List.foldlM_append, hmiddle]
      exact (Option.bind_some _ _).trans (bind_pure (body middle count) |>.trans hlast)

end CountedLoop
