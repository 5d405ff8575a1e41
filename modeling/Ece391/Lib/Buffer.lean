import Mathlib.Data.List.Range
import Mathlib.Logic.Function.Basic

/-! # Arrays with bounds

An array of a fixed size, in which an access outside fails, and texts that stand in it from
some index on.
-/

universe u

structure Buffer (α : Type u) where
  size : Nat
  cell : Nat → α

namespace Buffer

open Function

variable {α : Type u} {b after last : Buffer α}

def load (b : Buffer α) (index : Nat) : Option α :=
  if index < b.size then some (b.cell index) else none

def store (b : Buffer α) (index : Nat) (item : α) : Option (Buffer α) :=
  if index < b.size then some { b with cell := update b.cell index item } else none

/-- The items stand in the array from `pos` on. -/
structure Holds (b : Buffer α) (pos : Nat) (items : List α) : Prop where
  fits : pos + items.length ≤ b.size
  cell : ∀ i (hi : i < items.length), b.cell (pos + i) = items[i]

/-- Nothing has changed outside of `count` cells from `pos` on. -/
structure SameOutside (b after : Buffer α) (pos count : Nat) : Prop where
  size : after.size = b.size
  cell : ∀ i, i < pos ∨ pos + count ≤ i → after.cell i = b.cell i

theorem load_of_lt {index : Nat} (hindex : index < b.size) : b.load index = some (b.cell index) :=
  if_pos hindex

theorem store_of_lt {index : Nat} (hindex : index < b.size) (item : α) :
    b.store index item = some { b with cell := update b.cell index item } := if_pos hindex

/-! ## Frames -/

namespace SameOutside

theorem refl (b : Buffer α) (pos count : Nat) : b.SameOutside b pos count := ⟨rfl, fun _ _ => rfl⟩

theorem trans {pos count : Nat} (hfirst : b.SameOutside after pos count)
    (hsecond : after.SameOutside last pos count) : b.SameOutside last pos count :=
  ⟨hsecond.size.trans hfirst.size, fun i hi => (hsecond.cell i hi).trans (hfirst.cell i hi)⟩

/-- A frame may be given up for a larger one. -/
theorem widen {pos count wider more : Nat} (hsame : b.SameOutside after pos count)
    (hleft : wider ≤ pos) (hright : pos + count ≤ wider + more) :
    b.SameOutside after wider more :=
  ⟨hsame.size, fun i hi => hsame.cell i (by omega)⟩

/-- What stands beside the changed cells still stands there. -/
theorem holds {pos count at_ : Nat} {items : List α} (hsame : b.SameOutside after pos count)
    (hholds : b.Holds at_ items) (hbeside : at_ + items.length ≤ pos ∨ pos + count ≤ at_) :
    after.Holds at_ items := by
  refine ⟨hsame.size ▸ hholds.fits, fun i hi => ?_⟩
  rw [hsame.cell (at_ + i) (by omega), hholds.cell i hi]

end SameOutside

/-! ## Texts -/

namespace Holds

theorem nil {pos : Nat} (hpos : pos ≤ b.size) : b.Holds pos [] :=
  ⟨hpos, fun _ hi => absurd hi (Nat.not_lt_zero _)⟩

theorem cons_iff {pos : Nat} {item : α} {rest : List α} :
    b.Holds pos (item :: rest) ↔ b.cell pos = item ∧ pos < b.size ∧ b.Holds (pos + 1) rest := by
  constructor
  · intro hholds
    have hfits := hholds.fits
    rw [List.length_cons] at hfits
    refine ⟨hholds.cell 0 (Nat.succ_pos _), by omega, by omega, fun i hi => ?_⟩
    have hcell := hholds.cell (i + 1) (Nat.succ_lt_succ hi)
    rwa [← Nat.add_assoc, Nat.add_right_comm, List.getElem_cons_succ] at hcell
  · rintro ⟨hfirst, -, hrest⟩
    have hfits := hrest.fits
    refine ⟨by rw [List.length_cons]; omega, fun i hi => ?_⟩
    cases i with
    | zero => exact hfirst
    | succ i =>
        rw [List.length_cons] at hi
        rw [← Nat.add_assoc, Nat.add_right_comm, List.getElem_cons_succ]
        exact hrest.cell i (Nat.lt_of_succ_lt_succ hi)

theorem append_iff {pos : Nat} {front back : List α} :
    b.Holds pos (front ++ back) ↔ b.Holds pos front ∧ b.Holds (pos + front.length) back := by
  induction front generalizing pos with
  | nil =>
      rw [List.nil_append, List.length_nil, Nat.add_zero]
      exact ⟨fun hback => ⟨nil (by have := hback.fits; omega), hback⟩, fun hboth => hboth.2⟩
  | cons item rest ih =>
      rw [List.cons_append, cons_iff, cons_iff, ih, List.length_cons, Nat.add_right_comm,
        ← Nat.add_assoc]
      tauto

theorem load {pos i : Nat} {items : List α} (hholds : b.Holds pos items) (hi : i < items.length) :
    b.load (pos + i) = some items[i] := by
  have hfits := hholds.fits
  rw [load_of_lt (by omega), hholds.cell i hi]

end Holds

/-- Storing one item puts it there and changes nothing else. -/
theorem store_holds {index : Nat} (hindex : index < b.size) (item : α) :
    ∃ after, b.store index item = some after ∧ after.Holds index [item] ∧
      b.SameOutside after index 1 := by
  refine ⟨_, store_of_lt hindex item, ?_, rfl, fun i hi => update_of_ne (by omega) ..⟩
  rw [Holds.cons_iff]
  exact ⟨update_self .., hindex, Holds.nil hindex⟩

/-- A counted loop that stores the same item in each turn. -/
theorem foldlM_store {start count : Nat} (hfits : start + count ≤ b.size) (item : α) :
    ∃ after, (List.range' start count).foldlM (fun b i => b.store i item) b = some after ∧
      after.Holds start (List.replicate count item) ∧ b.SameOutside after start count := by
  induction count generalizing start b with
  | zero => exact ⟨b, rfl, Holds.nil hfits, SameOutside.refl ..⟩
  | succ count ih =>
      obtain ⟨stored, hstore, hholds, hsame⟩ := store_holds (by omega : start < b.size) item
      obtain ⟨after, hloop, hrest, hbeside⟩ :=
        ih (by rw [hsame.size]; omega : start + 1 + count ≤ _)
      refine ⟨after, ?_, ?_, ?_⟩
      · rw [List.range'_succ, List.foldlM_cons, hstore]
        exact hloop
      · have hfirst := hbeside.holds hholds (.inl le_rfl)
        rw [List.replicate_succ, ← List.singleton_append]
        exact Holds.append_iff.mpr ⟨hfirst, hrest⟩
      · exact (hsame.widen le_rfl (by omega)).trans (hbeside.widen (by omega) (by omega))

/-- The array with two items swapped. -/
def swap (b : Buffer α) (first second : Nat) : Buffer α :=
  { b with cell := update (update b.cell first (b.cell second)) second (b.cell first) }

theorem swap_first (b : Buffer α) (first second : Nat) :
    (b.swap first second).cell first = b.cell second := by
  by_cases heq : first = second
  · subst heq
    exact update_self ..
  · exact (update_of_ne heq ..).trans (update_self ..)

theorem swap_second (b : Buffer α) (first second : Nat) :
    (b.swap first second).cell second = b.cell first := update_self ..

theorem swap_of_ne (b : Buffer α) {first second i : Nat} (hfirst : i ≠ first)
    (hsecond : i ≠ second) :
    (b.swap first second).cell i = b.cell i :=
  (update_of_ne hsecond ..).trans (update_of_ne hfirst ..)

/-- Storing each of two items in the other's place swaps them. -/
theorem store_swap {first second : Nat} (hfirst : first < b.size) (hsecond : second < b.size) :
    ((b.store first (b.cell second)).bind fun after => after.store second (b.cell first)) =
      some (b.swap first second) := by
  rw [store_of_lt hfirst, Option.bind_some]
  exact if_pos hsecond

end Buffer
