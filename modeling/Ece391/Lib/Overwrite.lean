import Mathlib.Algebra.Ring.Basic
import Mathlib.Logic.Function.Basic
import Mathlib.Tactic.Ring

/-! # Overwriting blocks of memory

A block of consecutive cells that gets contents of its own. The addresses count on from any
one, as naturals do or as words do that wrap; where the cells of a block have to be different
ones, that is stated.
-/

universe u v

namespace Overwrite

open Function

variable {A : Type u} [AddCommMonoidWithOne A] [DecidableEq A] {α : Type v}

/-- Memory with `count` cells from `pos` on holding the items of `f`. -/
def overwrite (mem : A → α) (pos : A) (f : Nat → α) : Nat → A → α
  | 0 => mem
  | count + 1 => update (overwrite mem pos f count) (pos + count) (f count)

/-- The first `count` addresses behind any one are different. -/
def Distinct (A : Type u) [AddCommMonoidWithOne A] (count : Nat) : Prop :=
  ∀ (pos : A) (i j : Nat), i < count → j < count → pos + i = pos + j → i = j

variable {mem : A → α} {pos : A} {f : Nat → α} {first count : Nat}

theorem overwrite_one : overwrite mem pos f 1 = update mem pos (f 0) := by
  rw [overwrite, overwrite, Nat.cast_zero, add_zero]

/-- Two blocks behind one another are one block. -/
theorem overwrite_add (mem : A → α) (pos : A) (f : Nat → α) (first more : Nat) :
    overwrite (overwrite mem pos f first) (pos + first) (fun i => f (first + i)) more =
      overwrite mem pos f (first + more) := by
  induction more with
  | zero => rfl
  | succ more ih =>
      rw [overwrite, ih, ← Nat.add_assoc, overwrite, Nat.cast_add, add_assoc]

/-- Outside of the block memory stays. -/
theorem overwrite_outside {a : A} (hout : ∀ i < count, a ≠ pos + i) :
    overwrite mem pos f count a = mem a := by
  induction count with
  | zero => rfl
  | succ count ih =>
      rw [overwrite, update_of_ne (hout count (Nat.lt_succ_self count))]
      exact ih fun i hi => hout i (Nat.lt_succ_of_lt hi)

theorem overwrite_inside (hcells : Distinct A count) {i : Nat} (hi : i < count) :
    overwrite mem pos f count (pos + i) = f i := by
  induction count with
  | zero => exact absurd hi (Nat.not_lt_zero i)
  | succ count ih =>
      rw [overwrite]
      rcases Nat.lt_succ_iff_lt_or_eq.mp hi with hlt | rfl
      · rw [update_of_ne]
        · exact ih (fun pos i j hi hj => hcells pos i j (by omega) (by omega)) hlt
        · intro heq
          exact hlt.ne (hcells pos i count (by omega) (by omega) heq)
      · rw [update_self]

/-- The later one of two writes to a block is the one that counts. -/
theorem overwrite_overwrite (hcells : Distinct A count) (g : Nat → α) :
    overwrite (overwrite mem pos f count) pos g count = overwrite mem pos g count := by
  funext a
  by_cases hin : ∃ i < count, a = pos + i
  · obtain ⟨i, hi, rfl⟩ := hin
    rw [overwrite_inside hcells hi, overwrite_inside hcells hi]
  · have hout : ∀ i < count, a ≠ pos + i := fun i hi heq => hin ⟨i, hi, heq⟩
    rw [overwrite_outside hout, overwrite_outside hout, overwrite_outside hout]

theorem overwrite_congr {g : Nat → α} (heq : ∀ i < count, f i = g i) :
    overwrite mem pos f count = overwrite mem pos g count := by
  induction count with
  | zero => rfl
  | succ count ih =>
      rw [overwrite, overwrite, heq count (Nat.lt_succ_self count),
        ih fun i hi => heq i (Nat.lt_succ_of_lt hi)]

/-- A write beside a block may come first. -/
theorem overwrite_update {a : A} (item : α) (hout : ∀ i < count, a ≠ pos + i) :
    update (overwrite mem pos f count) a item = overwrite (update mem a item) pos f count := by
  induction count with
  | zero => rfl
  | succ count ih =>
      rw [overwrite, overwrite, update_comm (hout count (Nat.lt_succ_self count)).symm,
        ih fun i hi => hout i (Nat.lt_succ_of_lt hi)]

/-- A block grows by a cell in front of it. -/
theorem overwrite_front (hcells : Distinct A (count + 1)) :
    update (overwrite mem (pos + 1) (fun i => f (1 + i)) count) pos (f 0) =
      overwrite mem pos f (1 + count) := by
  have hbeside : ∀ i < count, pos ≠ pos + 1 + i := by
    intro i hi heq
    have hzero : pos + (0 : Nat) = pos + (1 + i : Nat) := by
      rw [Nat.cast_zero, add_zero, Nat.cast_add, Nat.cast_one, ← add_assoc]
      exact heq
    have := hcells pos 0 (1 + i) (by omega) (by omega) hzero
    omega
  have hadd := overwrite_add mem pos f 1 count
  rw [overwrite_one, Nat.cast_one] at hadd
  rw [overwrite_update _ hbeside, hadd]

/-! ## Copying -/

/-- Memory with a block copied, all of it as it was before. -/
def copyBlock (mem : A → α) (dst src : A) : Nat → A → α := overwrite mem dst fun i => mem (src + i)

/-- Copying upwards reads no cell that it has written. -/
def Upward (dst src : A) (count : Nat) : Prop :=
  ∀ i j : Nat, i < j → j < count → src + j ≠ dst + i

/-- Copying downwards reads no cell that it has written. -/
def Downward (dst src : A) (count : Nat) : Prop :=
  ∀ i j : Nat, j < i → i < count → src + j ≠ dst + i

variable {dst src : A} {done : Nat}

omit [DecidableEq A] in
theorem Downward.shift {front : Nat} (hdown : Downward dst src (front + count)) :
    Downward (dst + front) (src + front) count := by
  intro i j hlt hi heq
  rw [add_assoc, add_assoc, ← Nat.cast_add, ← Nat.cast_add] at heq
  exact hdown (front + i) (front + j) (by omega) (by omega) heq

/-- Upwards a block may be copied in pieces. -/
theorem copyBlock_add (hup : Upward dst src count) {more : Nat} (hle : done + more ≤ count) :
    copyBlock (copyBlock mem dst src done) (dst + done) (src + done) more =
      copyBlock mem dst src (done + more) := by
  have hread : ∀ i < more,
      copyBlock mem dst src done (src + done + i) = mem (src + (done + i : Nat)) := by
    intro i hi
    rw [Nat.cast_add, ← add_assoc]
    refine overwrite_outside fun j hj => ?_
    rw [add_assoc, ← Nat.cast_add]
    exact hup j (done + i) (by omega) (by omega)
  rw [copyBlock, overwrite_congr hread]
  exact overwrite_add mem dst _ done more

/-- Downwards a block may be copied cell by cell. -/
theorem copyBlock_front (mem : A → α) (hdown : Downward dst src (count + 1))
    (hcells : Distinct A (count + 1)) :
    update (copyBlock mem (dst + 1) (src + 1) count) dst
        (copyBlock mem (dst + 1) (src + 1) count src) =
      copyBlock mem dst src (1 + count) := by
  have hread : copyBlock mem (dst + 1) (src + 1) count src = mem (src + (0 : Nat)) := by
    rw [Nat.cast_zero, add_zero]
    refine overwrite_outside fun i hi heq => ?_
    refine hdown (1 + i) 0 (by omega) (by omega) ?_
    rw [Nat.cast_zero, add_zero, Nat.cast_add, Nat.cast_one, ← add_assoc]
    exact heq
  have hshift : ∀ i < count, mem (src + 1 + i) = mem (src + (1 + i : Nat)) := by
    intro i _
    rw [Nat.cast_add, Nat.cast_one, add_assoc]
  rw [hread, copyBlock, overwrite_congr hshift]
  exact overwrite_front (f := fun i => mem (src + i)) hcells

end Overwrite
