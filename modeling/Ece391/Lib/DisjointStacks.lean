import Mathlib.Data.List.Nodup
import Mathlib.Logic.Function.Basic

/-! # Families of disjoint stacks

Each index has a stack, and no element is on two stacks or twice on one. The
structure carries both facts, so pushing asks for an element that is on no stack
yet, and popping asks for nothing.
-/

universe u v

/-- Stacks over `ι` whose elements are all different. -/
@[ext]
structure DisjointStacks (ι : Type u) (α : Type v) where
  stack : ι → List α
  nodup : ∀ i, (stack i).Nodup
  disjoint : ∀ i j, i ≠ j → (stack i).Disjoint (stack j)

namespace DisjointStacks

open Function

variable {ι : Type u} {α : Type v}

/-- The element is on some stack. -/
def Holds (s : DisjointStacks ι α) (a : α) : Prop := ∃ i, a ∈ s.stack i

/-- No stack has an element. -/
def empty : DisjointStacks ι α where
  stack _ := []
  nodup _ := List.nodup_nil
  disjoint _ _ _ := List.disjoint_nil_left _

theorem not_holds_empty (a : α) : ¬ (empty : DisjointStacks ι α).Holds a := by
  simp [Holds, empty]

variable [DecidableEq ι]

/-- A new element on top of one stack. -/
def push (s : DisjointStacks ι α) (i : ι) (a : α) (hfree : ¬ s.Holds a) :
    DisjointStacks ι α where
  stack := update s.stack i (a :: s.stack i)
  nodup j := by
    by_cases heq : j = i
    · subst heq
      rw [update_self]
      exact List.nodup_cons.mpr ⟨fun hmem => hfree ⟨j, hmem⟩, s.nodup j⟩
    · rw [update_of_ne heq]
      exact s.nodup j
  disjoint j l hne := by
    have hother : ∀ m, m ≠ i → (a :: s.stack i).Disjoint (s.stack m) := by
      intro m hm
      rw [List.disjoint_cons_left]
      exact ⟨fun hmem => hfree ⟨m, hmem⟩, s.disjoint i m hm.symm⟩
    by_cases hj : j = i
    · subst hj
      rw [update_self, update_of_ne hne.symm]
      exact hother l hne.symm
    · rw [update_of_ne hj]
      by_cases hl : l = i
      · subst hl
        rw [update_self]
        exact List.disjoint_symm (hother j hj)
      · rw [update_of_ne hl]
        exact s.disjoint j l hne

/-- One stack without its top. -/
def pop (s : DisjointStacks ι α) (i : ι) : DisjointStacks ι α where
  stack := update s.stack i (s.stack i).tail
  nodup j := by
    by_cases heq : j = i
    · subst heq
      rw [update_self]
      exact (s.nodup j).tail
    · rw [update_of_ne heq]
      exact s.nodup j
  disjoint j l hne := by
    have hother : ∀ m, m ≠ i → (s.stack i).tail.Disjoint (s.stack m) := fun m hm b hb =>
      s.disjoint i m hm.symm (List.mem_of_mem_tail hb)
    by_cases hj : j = i
    · subst hj
      rw [update_self, update_of_ne hne.symm]
      exact hother l hne.symm
    · rw [update_of_ne hj]
      by_cases hl : l = i
      · subst hl
        rw [update_self]
        exact List.disjoint_symm (hother j hj)
      · rw [update_of_ne hl]
        exact s.disjoint j l hne

variable {s : DisjointStacks ι α} {i j : ι} {a b : α}

@[simp] theorem push_stack_self {hfree : ¬ s.Holds a} :
    (s.push i a hfree).stack i = a :: s.stack i := update_self ..

theorem push_stack_of_ne {hfree : ¬ s.Holds a} (hne : j ≠ i) :
    (s.push i a hfree).stack j = s.stack j := update_of_ne hne ..

@[simp] theorem pop_stack_self : (s.pop i).stack i = (s.stack i).tail := update_self ..

theorem pop_stack_of_ne (hne : j ≠ i) : (s.pop i).stack j = s.stack j := update_of_ne hne ..

theorem holds_push {hfree : ¬ s.Holds a} : (s.push i a hfree).Holds b ↔ b = a ∨ s.Holds b := by
  constructor
  · rintro ⟨j, hmem⟩
    by_cases hj : j = i
    · subst hj
      rw [push_stack_self, List.mem_cons] at hmem
      exact hmem.imp_right fun h => ⟨j, h⟩
    · rw [push_stack_of_ne hj] at hmem
      exact .inr ⟨j, hmem⟩
  · rintro (rfl | ⟨j, hmem⟩)
    · exact ⟨i, by simp⟩
    · by_cases hj : j = i
      · subst hj
        exact ⟨j, by simp [hmem]⟩
      · exact ⟨j, by rwa [push_stack_of_ne hj]⟩

/-- Popping takes exactly the top away: it is on no other stack and nowhere else
on its own. -/
theorem holds_pop {rest : List α} (htop : s.stack i = a :: rest) :
    (s.pop i).Holds b ↔ b ≠ a ∧ s.Holds b := by
  have hnodup := s.nodup i
  rw [htop, List.nodup_cons] at hnodup
  constructor
  · rintro ⟨j, hmem⟩
    by_cases hj : j = i
    · subst hj
      rw [pop_stack_self, htop, List.tail_cons] at hmem
      refine ⟨?_, j, by simp [htop, hmem]⟩
      rintro rfl
      exact hnodup.1 hmem
    · rw [pop_stack_of_ne hj] at hmem
      refine ⟨?_, j, hmem⟩
      rintro rfl
      exact s.disjoint j i hj hmem (by simp [htop])
  · rintro ⟨hne, j, hmem⟩
    by_cases hj : j = i
    · subst hj
      rw [htop, List.mem_cons] at hmem
      exact ⟨j, by simpa [htop] using hmem.resolve_left hne⟩
    · exact ⟨j, by rwa [pop_stack_of_ne hj]⟩

/-- One stack gets other elements: some of its own, and some that are on no stack. -/
def replace (s : DisjointStacks ι α) (i : ι) (list : List α) (hnodup : list.Nodup)
    (hmem : ∀ a ∈ list, a ∈ s.stack i ∨ ¬ s.Holds a) : DisjointStacks ι α where
  stack := update s.stack i list
  nodup j := by
    by_cases heq : j = i
    · subst heq
      rwa [update_self]
    · rw [update_of_ne heq]
      exact s.nodup j
  disjoint j l hne := by
    have hother : ∀ m, m ≠ i → list.Disjoint (s.stack m) := by
      intro m hm a ha hold
      rcases hmem a ha with hown | hfree
      · exact s.disjoint i m hm.symm hown hold
      · exact hfree ⟨m, hold⟩
    by_cases hj : j = i
    · subst hj
      rw [update_self, update_of_ne hne.symm]
      exact hother l hne.symm
    · rw [update_of_ne hj]
      by_cases hl : l = i
      · subst hl
        rw [update_self]
        exact List.disjoint_symm (hother j hj)
      · rw [update_of_ne hl]
        exact s.disjoint j l hne

omit [DecidableEq ι] in
/-- The stacks one after the other repeat no element. -/
theorem nodup_flatMap (s : DisjointStacks ι α) {indices : List ι} (hindices : indices.Nodup) :
    (indices.flatMap s.stack).Nodup :=
  List.nodup_flatMap.mpr ⟨fun i _ => s.nodup i,
    hindices.imp fun {i j} hne => s.disjoint i j hne⟩

end DisjointStacks
