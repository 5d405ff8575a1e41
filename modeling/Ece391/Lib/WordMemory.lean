import Ece391.Lib.Overwrite
import Mathlib.Data.BitVec

/-! # Words in memory

Memory of bytes at addresses of 32 bits, words in it with the low byte first, and words that
stand on a stack.
-/

namespace WordMemory

open Function Overwrite

/-- A register, or an address. -/
abbrev Word := BitVec 32

abbrev Memory := Word → UInt8

/-- Byte `index` of a register, from the low end. -/
def byteOf (value : Word) (index : Nat) : UInt8 := ⟨value.extractLsb' (8 * index) 8⟩

def loadWord (mem : Memory) (addr : Word) : Word :=
  (mem (addr + 3)).toBitVec ++ (mem (addr + 2)).toBitVec ++ (mem (addr + 1)).toBitVec ++
    (mem addr).toBitVec

def storeWord (mem : Memory) (addr value : Word) : Memory := overwrite mem addr (byteOf value) 4

/-! ## Words and bytes -/

theorem byteOf_getLsbD (value : Word) (i : Nat) {k : Nat} (hk : k < 8) :
    (byteOf value i).toBitVec.getLsbD k = value.getLsbD (8 * i + k) := by
  rw [byteOf, BitVec.getLsbD_extractLsb', decide_eq_true hk, Bool.true_and]

/-- A word is its bytes. -/
theorem byteOf_ext {value other : Word} (heq : ∀ i < 4, byteOf value i = byteOf other i) :
    value = other := by
  apply BitVec.eq_of_getLsbD_eq
  intro k hk
  have hbyte := heq (k / 8) (by omega)
  have hbit := byteOf_getLsbD value (k / 8) (Nat.mod_lt k (by decide))
  rw [hbyte, byteOf_getLsbD other (k / 8) (Nat.mod_lt k (by decide)), Nat.div_add_mod] at hbit
  exact hbit.symm

theorem byteOf_loadWord (mem : Memory) (addr : Word) {i : Nat} (hi : i < 4) :
    byteOf (loadWord mem addr) i = mem (addr + i) := by
  have hcases : i = 0 ∨ i = 1 ∨ i = 2 ∨ i = 3 := by omega
  apply UInt8.toBitVec_inj.mp
  apply BitVec.eq_of_getLsbD_eq
  intro k hk
  rw [byteOf_getLsbD _ _ hk, loadWord, BitVec.getLsbD_append, BitVec.getLsbD_append,
    BitVec.getLsbD_append]
  -- the byte is the one whose eight bits hold bit `8 * i + k`
  rcases hcases with rfl | rfl | rfl | rfl
  · simp [hk]
  · have h1 : ¬ (8 * 1 + k < 8) := by omega
    have h2 : (8 * 1 + k - 8) = k := by omega
    simp [hk, h1, h2]
  · have h1 : ¬ (8 * 2 + k < 8) := by omega
    have h2 : (8 * 2 + k - 8 - 8) = k := by omega
    have h3 : ¬ (8 * 2 + k - 8 < 8) := by omega
    simp [hk, h1, h2, h3]
  · have h1 : ¬ (8 * 3 + k < 8) := by omega
    have h2 : (8 * 3 + k - 8 - 8 - 8) = k := by omega
    have h3 : ¬ (8 * 3 + k - 8 < 8) := by omega
    have h4 : ¬ (8 * 3 + k - 8 - 8 < 8) := by omega
    simp [hk, h1, h2, h3, h4]

theorem word_distinct {count : Nat} (hle : count ≤ 2 ^ 32) : Distinct Word count := by
  intro pos i j hi hj heq
  have hcast : (i : Word) = (j : Word) := add_left_cancel heq
  have hval := congrArg BitVec.toNat hcast
  simp only [BitVec.natCast_eq_ofNat, BitVec.toNat_ofNat] at hval
  omega

/-- Moving a word is moving its four bytes. -/
theorem storeWord_loadWord (mem : Memory) (dst src : Word) :
    storeWord mem dst (loadWord mem src) = copyBlock mem dst src 4 :=
  overwrite_congr fun _ hi => byteOf_loadWord mem src hi

theorem loadWord_storeWord (mem : Memory) (addr value : Word) :
    loadWord (storeWord mem addr value) addr = value := by
  refine byteOf_ext fun i hi => ?_
  rw [byteOf_loadWord _ _ hi]
  exact overwrite_inside (word_distinct (by decide)) hi

theorem storeWord_storeWord (mem : Memory) (addr value other : Word) :
    storeWord (storeWord mem addr value) addr other = storeWord mem addr other :=
  overwrite_overwrite (word_distinct (by decide)) _

/-! ## Blocks that stay -/

/-- `count` bytes from an address on are the same. -/
def SameBytes (mem after : Memory) (addr : Word) (count : Nat) : Prop :=
  ∀ i < count, after (addr + (i : Nat)) = mem (addr + (i : Nat))

variable {mem after last : Memory} {addr value : Word} {count : Nat}

theorem SameBytes.trans (hfirst : SameBytes mem after addr count)
    (hsecond : SameBytes after last addr count) : SameBytes mem last addr count :=
  fun i hi => (hsecond i hi).trans (hfirst i hi)

/-- A part of a block. -/
theorem SameBytes.part (hsame : SameBytes mem after addr count) {offset size : Nat}
    (hle : offset + size ≤ count) : SameBytes mem after (addr + (offset : Nat)) size := by
  intro i hi
  rw [add_assoc, ← Nat.cast_add]
  exact hsame (offset + i) (by omega)

theorem SameBytes.loadWord_eq (hsame : SameBytes mem after addr 4) :
    loadWord after addr = loadWord mem addr := by
  refine byteOf_ext fun i hi => ?_
  rw [byteOf_loadWord _ _ hi, byteOf_loadWord _ _ hi, hsame i hi]

/-- A word stored below a block. -/
theorem storeWord_sameBytes (mem : Memory) (addr value : Word) (hle : count + 4 ≤ 2 ^ 32) :
    SameBytes mem (storeWord mem (addr - 4) value) addr count := by
  intro i hi
  refine overwrite_outside fun j hj heq => ?_
  have hshift : addr - 4 + (4 + i : Nat) = addr - 4 + (j : Nat) := by
    rw [← heq, Nat.cast_add, ← add_assoc, Nat.cast_ofNat, sub_add_cancel]
  have hsame := word_distinct (le_refl (2 ^ 32)) _ _ _ (by omega) (by omega) hshift
  omega

/-! ## Stacks -/

/-- Words that stand from the top of a stack on. -/
def Stacked (mem : Memory) (esp : Word) (words : List Word) : Prop :=
  ∀ i, (hi : i < words.length) → loadWord mem (esp + (4 * i : Nat)) = words[i]

variable {esp : Word} {words : List Word}

theorem Stacked.sameBytes (hstack : Stacked mem esp words)
    (hsame : SameBytes mem after esp (4 * words.length)) : Stacked after esp words := by
  intro i hi
  rw [(hsame.part (by omega)).loadWord_eq, hstack i hi]

theorem Stacked.top (hstack : Stacked mem esp (value :: words)) : loadWord mem esp = value := by
  have htop := hstack 0 (Nat.zero_lt_succ _)
  rwa [Nat.mul_zero, Nat.cast_zero, add_zero] at htop

theorem Stacked.rest (hstack : Stacked mem esp (value :: words)) : Stacked mem (esp + 4) words := by
  intro i hi
  have hword := hstack (i + 1) (Nat.succ_lt_succ hi)
  rwa [Nat.mul_succ, Nat.add_comm, Nat.cast_add, ← add_assoc] at hword

theorem Stacked.behind {front : List Word} (hstack : Stacked mem esp (front ++ words)) :
    Stacked mem (esp + (4 * front.length : Nat)) words := by
  intro i hi
  have hword := hstack (front.length + i) (by rw [List.length_append]; omega)
  rw [List.getElem_append_right (Nat.le_add_right _ _)] at hword
  simp only [Nat.add_sub_cancel_left] at hword
  rwa [Nat.mul_add, Nat.cast_add, ← add_assoc] at hword

/-- A word that is pushed. -/
theorem Stacked.push (hstack : Stacked mem esp words) (value : Word)
    (hle : 4 * words.length + 4 ≤ 2 ^ 32) :
    Stacked (storeWord mem (esp - 4) value) (esp - 4) (value :: words) := by
  intro i hi
  cases i with
  | zero =>
      rw [Nat.mul_zero, Nat.cast_zero, add_zero, loadWord_storeWord]
      rfl
  | succ i =>
      have hword :=
        hstack.sameBytes (storeWord_sameBytes mem esp value hle) i (Nat.lt_of_succ_lt_succ hi)
      rw [Nat.mul_succ, Nat.add_comm, Nat.cast_add, ← add_assoc, Nat.cast_ofNat,
        sub_add_cancel, hword]
      rfl

end WordMemory
