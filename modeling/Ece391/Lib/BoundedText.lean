import Mathlib.Data.List.TakeWhile
import Mathlib.Data.List.Range

/-! # Texts in fields of a fixed size

A text in a field ends at the first zero element, or fills the field and has no zero behind
it. A comparison of two fields that stops at the first difference or at a common zero
compares their texts.
-/

namespace BoundedText

variable {α : Type*} [DecidableEq α] (zero : α)

/-- The text from index `i` on, of `remaining` elements at the most. -/
def text (source : Nat → α) : Nat → Nat → List α
  | 0, _ => []
  | remaining + 1, i =>
      if source i = zero then [] else source i :: text source remaining (i + 1)

variable {zero}

/-- Two texts agree when their first elements do and, unless both end there, the rest. -/
theorem text_succ_eq_iff {first second : Nat → α} {remaining i : Nat} :
    text zero first (remaining + 1) i = text zero second (remaining + 1) i ↔
      first i = second i ∧
        (first i = zero ∨
          text zero first remaining (i + 1) = text zero second remaining (i + 1)) := by
  rw [text, text]
  by_cases hfirst : first i = zero <;> by_cases hsecond : second i = zero
  · simp [hfirst, hsecond]
  · rw [if_pos hfirst, if_neg hsecond, hfirst]
    simp [Ne.symm hsecond]
  · rw [if_neg hfirst, if_pos hsecond, hsecond]
    simp [hfirst]
  · rw [if_neg hfirst, if_neg hsecond, List.cons_eq_cons]
    simp [hfirst]

/-- The text of a field that is given as a list. -/
theorem text_eq_takeWhile (source : Nat → α) (remaining i : Nat) :
    text zero source remaining i =
      ((List.range remaining).map fun j => source (i + j)).takeWhile fun c => c ≠ zero := by
  induction remaining generalizing i with
  | zero => rfl
  | succ remaining ih =>
      have hrest : ((fun j => source (i + j)) ∘ Nat.succ) = fun j => source (i + 1 + j) := by
        funext j
        simp only [Function.comp_apply, Nat.succ_eq_add_one]
        congr 1
        omega
      rw [text, List.range_succ_eq_map, List.map_cons, List.map_map, hrest, List.takeWhile_cons,
        ih, Nat.add_zero]
      by_cases hzero : source i = zero
      · simp [hzero]
      · simp [hzero]

/-- Elements followed by zeros have the text they are, cut to the size of the field. -/
theorem text_getD {chars : List α} (hzero : zero ∉ chars) (remaining i : Nat) :
    text zero (fun j => chars.getD j zero) remaining i = (chars.drop i).take remaining := by
  induction remaining generalizing i with
  | zero => rw [text, List.take_zero]
  | succ remaining ih =>
      rw [text]
      by_cases hi : i < chars.length
      · have hget : chars.getD i zero = chars[i] := by
          rw [List.getD_eq_getElem?_getD, List.getElem?_eq_getElem hi, Option.getD_some]
        have hne : chars[i] ≠ zero := fun heq => hzero (heq ▸ List.getElem_mem hi)
        rw [hget, if_neg hne, ih, List.drop_eq_getElem_cons hi, List.take_succ_cons]
      · have hget : chars.getD i zero = zero := by
          rw [List.getD_eq_getElem?_getD, List.getElem?_eq_none (by omega), Option.getD_none]
        rw [hget, if_pos rfl, List.drop_of_length_le (by omega), List.take_nil]

theorem text_length_le (source : Nat → α) (remaining i : Nat) :
    (text zero source remaining i).length ≤ remaining := by
  rw [text_eq_takeWhile]
  refine (List.takeWhile_prefix _).length_le.trans ?_
  rw [List.length_map, List.length_range]

end BoundedText
