import Ece391.Filesys
import Ece391.Lib.WordMemory

/-! # The memory functions of `lib.c`

`memset` and `memcpy` go by words as soon as the destination is aligned, and `memmove` by
bytes from either end. All of them do what one would do byte by byte on a copy of memory.
-/

namespace Ece391

open Function Overwrite WordMemory

/-! ## `memset` -/

/-- `movb %al, (%edi)` while the counter is not 0. -/
def fillBytes (al : UInt8) : Nat → Memory × Word → Memory × Word
  | 0, s => s
  | count + 1, (mem, edi) => fillBytes al count (update mem edi al, edi + 1)

/-- The low bytes of a register are stored as often as the counter says. -/
def stos (width : Nat) (eax : Word) : Nat → Memory × Word → Memory × Word
  | 0, s => s
  | ecx + 1, (mem, edi) => stos width eax ecx (overwrite mem edi (byteOf eax) width, edi + width)

/-- `rep stosw`. -/
def stosw : Word → Nat → Memory × Word → Memory × Word := stos 2

/-- `rep stosl`. -/
def stosl : Word → Nat → Memory × Word → Memory × Word := stos 4

/-- `.memset_aligned`. -/
def memsetAligned (eax : Word) (ecx : Nat) (s : Memory × Word) : Memory × Word :=
  fillBytes (byteOf eax 0) (ecx &&& 3) (stosl eax (ecx >>> 2) s)

/-- `.memset_top`. -/
def memsetTop (eax : Word) : Nat → Memory × Word → Memory × Word
  | 0, s => s
  | ecx + 1, (mem, edi) =>
      if edi &&& 3 = 0 then memsetAligned eax (ecx + 1) (mem, edi)
      else memsetTop eax ecx (update mem edi (byteOf eax 0), edi + 1)

def memset (mem : Memory) (s c : Word) (n : Nat) : Memory :=
  let c := c &&& 0xFF
  (memsetTop (c <<< 24 ||| c <<< 16 ||| c <<< 8 ||| c) n (mem, s)).1

def memsetWord (mem : Memory) (s c : Word) (n : Nat) : Memory := (stosw c n (mem, s)).1

def memsetDword (mem : Memory) (s c : Word) (n : Nat) : Memory := (stosl c n (mem, s)).1

/-! ## `memcpy` and `memmove` -/

/-- Memory and the two pointers. -/
structure Copying where
  mem : Memory
  esi : Word
  edi : Word

namespace Copying

/-- Bytes are moved upwards while the counter is not 0. -/
def movsb : Nat → Copying → Copying
  | 0, s => s
  | count + 1, s => movsb count ⟨update s.mem s.edi (s.mem s.esi), s.esi + 1, s.edi + 1⟩

/-- `rep movsl`. -/
def movsl : Nat → Copying → Copying
  | 0, s => s
  | ecx + 1, s => movsl ecx ⟨storeWord s.mem s.edi (loadWord s.mem s.esi), s.esi + 4, s.edi + 4⟩

/-- `rep movsb` with the direction flag set. -/
def movsbDown : Nat → Copying → Copying
  | 0, s => s
  | ecx + 1, s => movsbDown ecx ⟨update s.mem s.edi (s.mem s.esi), s.esi - 1, s.edi - 1⟩

/-- `.memcpy_aligned`. -/
def memcpyAligned (ecx : Nat) (s : Copying) : Copying := movsb (ecx &&& 3) (movsl (ecx >>> 2) s)

/-- `.memcpy_top`. -/
def memcpyTop : Nat → Copying → Copying
  | 0, s => s
  | ecx + 1, s =>
      if s.edi &&& 3 = 0 then memcpyAligned (ecx + 1) s
      else memcpyTop ecx ⟨update s.mem s.edi (s.mem s.esi), s.esi + 1, s.edi + 1⟩

end Copying

def memcpy (mem : Memory) (dest src : Word) (n : Nat) : Memory :=
  (Copying.memcpyTop n ⟨mem, src, dest⟩).mem

/-- The direction flag is the second component. -/
def memmove (mem : Memory) (dest src : Word) (n : Nat) : Memory × Bool :=
  if src ≥ dest then ((Copying.movsb n ⟨mem, src, dest⟩).mem, false)
  else ((Copying.movsbDown n ⟨mem, src + n - 1, dest + n - 1⟩).mem, true)

/-! ## Filling -/

theorem fillBytes_eq (al : UInt8) (count : Nat) (mem : Memory) (edi : Word) :
    fillBytes al count (mem, edi) = (overwrite mem edi (fun _ => al) count, edi + count) := by
  induction count generalizing mem edi with
  | zero => simp [fillBytes, overwrite]
  | succ count ih =>
      have hadd := overwrite_add mem edi (fun _ => al) 1 count
      rw [overwrite_one, Nat.cast_one] at hadd
      rw [fillBytes, ih, hadd, Nat.add_comm 1 count, add_assoc, add_comm 1, Nat.cast_add,
        Nat.cast_one]

theorem stos_eq (width : Nat) (eax : Word) (count : Nat) (mem : Memory)
    (edi : Word) :
    stos width eax count (mem, edi) =
      (overwrite mem edi (fun i => byteOf eax (i % width)) (width * count),
        edi + (width * count : Nat)) := by
  induction count generalizing mem edi with
  | zero => simp [stos, overwrite]
  | succ count ih =>
      have hfirst : overwrite mem edi (byteOf eax) width =
          overwrite mem edi (fun i => byteOf eax (i % width)) width :=
        overwrite_congr fun i hi => by rw [Nat.mod_eq_of_lt hi]
      have hadd := overwrite_add mem edi (fun i => byteOf eax (i % width)) width (width * count)
      simp only [Nat.add_mod_left] at hadd
      rw [stos, ih, hfirst, hadd, Nat.mul_succ, Nat.add_comm width, add_assoc, Nat.cast_add,
        add_comm (width : Word)]

/-- A count by words and the bytes that are left. -/
theorem split_words (count : Nat) : 4 * (count >>> 2) + (count &&& 3) = count := by
  have hand : count &&& 3 = count % 4 := Nat.and_two_pow_sub_one_eq_mod count 2
  rw [hand, Nat.shiftRight_eq_div_pow]
  exact Nat.div_add_mod count 4

section Fill

variable {eax : Word} {mem : Memory}

/-- The last bytes behind the aligned words. -/
theorem memsetAligned_eq (hsame : ∀ i < 4, byteOf eax i = byteOf eax 0) (count : Nat) (edi : Word) :
    memsetAligned eax count (mem, edi) =
      (overwrite mem edi (fun _ => byteOf eax 0) count, edi + count) := by
  have hwords : overwrite mem edi (fun i => byteOf eax (i % 4)) (4 * (count >>> 2)) =
      overwrite mem edi (fun _ => byteOf eax 0) (4 * (count >>> 2)) :=
    overwrite_congr fun i _ => hsame (i % 4) (Nat.mod_lt i (by decide))
  rw [memsetAligned, stosl, stos_eq, fillBytes_eq, hwords]
  rw [overwrite_add mem edi (fun _ => byteOf eax 0), add_assoc, ← Nat.cast_add, split_words]

theorem memsetTop_eq (hsame : ∀ i < 4, byteOf eax i = byteOf eax 0) (count : Nat) (edi : Word) :
    memsetTop eax count (mem, edi) =
      (overwrite mem edi (fun _ => byteOf eax 0) count, edi + count) := by
  induction count generalizing mem edi with
  | zero => simp [memsetTop, overwrite]
  | succ count ih =>
      rw [memsetTop]
      split
      · exact memsetAligned_eq hsame (count + 1) edi
      · have hadd := overwrite_add mem edi (fun _ => byteOf eax 0) 1 count
        rw [overwrite_one, Nat.cast_one] at hadd
        rw [ih, hadd, Nat.add_comm 1 count, add_assoc, add_comm 1, Nat.cast_add, Nat.cast_one]

end Fill

/-! ## Copying -/

section Copy

variable {mem : Memory} {dst src : Word} {count done : Nat}

/-- The pointers and memory behind the first `done` bytes. -/
def Copying.behind (mem : Memory) (dst src : Word) (done : Nat) : Copying :=
  ⟨copyBlock mem dst src done, src + done, dst + done⟩

/-- A piece of any size, moved as a whole. -/
theorem Copying.behind_add (mem : Memory) (hup : Upward dst src count) {more : Nat}
    (hle : done + more ≤ count) :
    (⟨copyBlock (behind mem dst src done).mem (behind mem dst src done).edi
        (behind mem dst src done).esi more, (behind mem dst src done).esi + more,
        (behind mem dst src done).edi + more⟩ : Copying) = behind mem dst src (done + more) := by
  simp only [behind]
  rw [copyBlock_add hup hle, add_assoc, add_assoc, ← Nat.cast_add]

theorem Copying.movsb_behind (hup : Upward dst src count) {more : Nat} (hle : done + more ≤ count) :
    movsb more (behind mem dst src done) = behind mem dst src (done + more) := by
  induction more generalizing done with
  | zero => rfl
  | succ more ih =>
      have hbyte := behind_add mem hup (show done + 1 ≤ count by omega)
      rw [copyBlock, overwrite_one, Nat.cast_zero, add_zero, Nat.cast_one] at hbyte
      rw [movsb, hbyte, ih (by omega), Nat.add_assoc, Nat.add_comm 1]

theorem Copying.movsl_behind (hup : Upward dst src count) {more : Nat}
    (hle : done + 4 * more ≤ count) :
    movsl more (behind mem dst src done) = behind mem dst src (done + 4 * more) := by
  induction more generalizing done with
  | zero => rfl
  | succ more ih =>
      have hword := behind_add mem hup (show done + 4 ≤ count by omega)
      rw [movsl, storeWord_loadWord]
      rw [show ((4 : Nat) : Word) = 4 from rfl] at hword
      rw [hword, ih (by omega), Nat.add_assoc, Nat.mul_succ, Nat.add_comm 4]

theorem Copying.memcpyTop_behind (hup : Upward dst src count) {more : Nat}
    (hle : done + more ≤ count) :
    memcpyTop more (behind mem dst src done) = behind mem dst src (done + more) := by
  induction more generalizing done with
  | zero => rfl
  | succ more ih =>
      rw [memcpyTop]
      split
      · have hsplit := split_words (more + 1)
        rw [memcpyAligned, movsl_behind hup (by omega), movsb_behind hup (by omega), Nat.add_assoc,
          hsplit]
      · have hbyte := behind_add mem hup (show done + 1 ≤ count by omega)
        rw [copyBlock, overwrite_one, Nat.cast_zero, add_zero, Nat.cast_one] at hbyte
        rw [hbyte, ih (by omega), Nat.add_assoc, Nat.add_comm 1]

theorem Copying.behind_zero (mem : Memory) (dst src : Word) :
    behind mem dst src 0 = ⟨mem, src, dst⟩ := by
  simp [behind, copyBlock, overwrite]

/-- From the end down, when the last `done` bytes are copied. -/
theorem Copying.movsbDown_mem (hdown : Downward dst src (count + done))
    (hle : count + done ≤ 2 ^ 32) :
    (movsbDown count ⟨copyBlock mem (dst + count) (src + count) done, src + count - 1,
      dst + count - 1⟩).mem = copyBlock mem dst src (count + done) := by
  induction count generalizing done with
  | zero => simp [movsbDown]
  | succ count ih =>
      have hesi : src + (count + 1 : Nat) - 1 = src + count := by
        rw [Nat.cast_add, Nat.cast_one, ← add_assoc, add_sub_cancel_right]
      have hedi : dst + (count + 1 : Nat) - 1 = dst + count := by
        rw [Nat.cast_add, Nat.cast_one, ← add_assoc, add_sub_cancel_right]
      have hshift : Downward (dst + count) (src + count) (done + 1) :=
        Downward.shift (by rwa [Nat.add_comm done, ← Nat.add_assoc])
      have hfront := copyBlock_front mem hshift (word_distinct (by omega))
      rw [add_assoc, add_assoc src, ← Nat.cast_one, ← Nat.cast_add] at hfront
      rw [movsbDown, hesi, hedi, hfront, Nat.add_assoc, ih]
      · rwa [← Nat.add_assoc]
      · rwa [← Nat.add_assoc]

/-- Which blocks may be copied upwards, around the end of the address space too. -/
theorem upward_iff (hle : count ≤ 2 ^ 32) :
    Upward dst src count ↔ dst = src ∨ count ≤ (dst - src).toNat := by
  constructor
  · intro hup
    by_contra hnot
    obtain ⟨hne, hlt⟩ := not_or.mp hnot
    -- the first byte of the destination is one that is read later
    refine hup 0 (dst - src).toNat ?_ (Nat.lt_of_not_le hlt) ?_
    · refine Nat.pos_of_ne_zero fun hzero => hne ?_
      exact sub_eq_zero.mp (BitVec.eq_of_toNat_eq hzero)
    · rw [Nat.cast_zero, add_zero, BitVec.natCast_eq_ofNat, BitVec.ofNat_toNat,
        BitVec.setWidth_eq, add_sub_cancel]
  · intro hcases i j hlt hj heq
    have hdiff : (j : Word) = dst - src + i := by
      rw [sub_add_eq_add_sub, ← heq, add_sub_cancel_left]
    have hval := congrArg BitVec.toNat hdiff
    rcases hcases with rfl | hfar
    · rw [sub_self, zero_add] at hval
      simp only [BitVec.natCast_eq_ofNat, BitVec.toNat_ofNat] at hval
      omega
    · simp only [BitVec.natCast_eq_ofNat, BitVec.toNat_ofNat, BitVec.toNat_add] at hval
      omega

end Copy

/-! ## What the functions do -/

/-- The low byte in all four places. -/
theorem byteOf_spread (c : Word) {i : Nat} (hi : i < 4) :
    byteOf ((c &&& 0xFF) <<< 24 ||| (c &&& 0xFF) <<< 16 ||| (c &&& 0xFF) <<< 8 ||| (c &&& 0xFF)) i =
      byteOf c 0 := by
  apply UInt8.toBitVec_inj.mp
  apply BitVec.eq_of_getLsbD_eq
  intro k hk
  have hmask : ∀ j, (c &&& 0xFF).getLsbD j = (c.getLsbD j && decide (j < 8)) := by
    intro j
    have hlow : (0xFF : Word) = (BitVec.allOnes 8).setWidth 32 := by decide
    rw [BitVec.getLsbD_and, hlow, BitVec.getLsbD_setWidth, BitVec.getLsbD_allOnes]
    by_cases hj : j < 8
    · simp [hj, show j < 32 by omega]
    · simp [hj]
  have hcases : i = 0 ∨ i = 1 ∨ i = 2 ∨ i = 3 := by omega
  rw [byteOf_getLsbD _ _ hk, byteOf_getLsbD _ _ hk]
  simp only [BitVec.getLsbD_or, BitVec.getLsbD_shiftLeft, hmask]
  rcases hcases with rfl | rfl | rfl | rfl
  · simp [hk, show k < 32 by omega, show k < 24 by omega, show k < 16 by omega]
  · simp [show 8 + k < 32 by omega, show 8 + k < 24 by omega, show 8 + k < 16 by omega, hk]
  · simp [show 16 + k < 32 by omega, show 16 + k < 24 by omega, show ¬ 16 + k - 8 < 8 by omega,
      show ¬ 16 + k < 8 by omega, hk]
  · simp [show 24 + k < 32 by omega, show ¬ 24 + k - 16 < 8 by omega,
      show ¬ 24 + k - 8 < 8 by omega, show ¬ 24 + k < 8 by omega, hk]

/-- `memset` stores the low byte of its argument, wherever the block starts and however long it
is. -/
theorem memset_fills (mem : Memory) (s c : Word) (n : Nat) :
    memset mem s c n = overwrite mem s (fun _ => byteOf c 0) n := by
  rw [memset, memsetTop_eq fun i hi => ?_, byteOf_spread c (by decide)]
  rw [byteOf_spread c hi, byteOf_spread c (by decide)]

/-- The counts of `memset_word` and `memset_dword` are not in bytes. -/
theorem memsetWord_fills (mem : Memory) (s c : Word) (n : Nat) :
    memsetWord mem s c n = overwrite mem s (fun i => byteOf c (i % 2)) (2 * n) := by
  rw [memsetWord, stosw, stos_eq]

theorem memsetDword_fills (mem : Memory) (s c : Word) (n : Nat) :
    memsetDword mem s c n = overwrite mem s (fun i => byteOf c (i % 4)) (4 * n) := by
  rw [memsetDword, stosl, stos_eq]

/-- `memcpy` copies the block as it was, unless the destination starts inside the source. -/
theorem memcpy_copies (mem : Memory) {dest src : Word} {n : Nat} (hn : n < 2 ^ 32)
    (hfar : dest = src ∨ n ≤ (dest - src).toNat) :
    memcpy mem dest src n = copyBlock mem dest src n := by
  have hup := (upward_iff hn.le).mpr hfar
  rw [memcpy, ← Copying.behind_zero, Copying.memcpyTop_behind hup (by omega), Nat.zero_add]
  rfl

/-- Every byte of memory its own address. -/
def addressMemory : Memory := fun addr => ⟨addr.setWidth 8⟩

/-- Seven bytes from 8 on, copied to 3 and the following. -/
theorem memcpy_copies_down : memcpy addressMemory 3 8 7 9 = 14 := by
  rw [memcpy_copies addressMemory (by decide : 7 < 2 ^ 32) (by decide)]
  decide

/-- `memmove` copies blocks that overlap in any way. Downwards it leaves the direction flag
set. -/
theorem memmove_copies (mem : Memory) {dest src : Word} {n : Nat} (hdest : dest.toNat + n ≤ 2 ^ 32)
    (hsrc : src.toNat + n ≤ 2 ^ 32) :
    memmove mem dest src n = (copyBlock mem dest src n, decide (src < dest)) := by
  unfold memmove
  split
  · next hle =>
    have hup : Upward dest src n := by
      refine (upward_iff (by omega)).mpr ?_
      rcases eq_or_ne dest src with rfl | hne
      · exact .inl rfl
      · have hval := BitVec.toNat_ne.mp hne
        have hord := BitVec.le_def.mp hle
        refine .inr ?_
        rw [BitVec.toNat_sub]
        omega
    rw [← Copying.behind_zero, Copying.movsb_behind hup (by omega), Nat.zero_add,
      decide_eq_false (BitVec.not_lt.mpr hle)]
    rfl
  · next hlt =>
    have hlt := BitVec.not_le.mp hlt
    have hdown : Downward dest src n := by
      intro i j hj hi heq
      have hord := BitVec.lt_def.mp hlt
      have hval := congrArg BitVec.toNat heq
      simp only [BitVec.natCast_eq_ofNat, BitVec.toNat_add, BitVec.toNat_ofNat] at hval
      omega
    have hmem := @Copying.movsbDown_mem mem dest src n 0 hdown (by omega)
    rw [decide_eq_true hlt]
    exact Prod.ext hmem rfl

/-- Seven bytes from 8 on, moved by one. -/
theorem memmove_copies_up : (memmove addressMemory 9 8 7).1 15 = 14 ∧
    (memmove addressMemory 9 8 7).2 = true := by
  rw [memmove_copies addressMemory (by decide : (9 : Word).toNat + 7 ≤ 2 ^ 32) (by decide)]
  decide

/-! ## Copies of entries -/

/-- The image as memory. -/
def Image.memory (img : Image) : Memory := fun addr => img.mem addr.toNat

/-- The image in another memory. -/
def Image.withMemory (img : Image) (mem : Memory) : Image :=
  { img with mem := fun addr => mem (BitVec.ofNat 32 addr) }

/-- An entry that was copied is read as the one it was copied from. -/
theorem loadDentry_memcpy (img : Image) {dentry dentryLoop : Word}
    (hfar : dentry = dentryLoop ∨ 64 ≤ (dentry - dentryLoop).toNat) :
    (img.withMemory (memcpy img.memory dentry dentryLoop 64)).loadDentry dentry.toNat =
      img.loadDentry dentryLoop.toNat := by
  have hbyte : ∀ i < 64, (img.withMemory (memcpy img.memory dentry dentryLoop 64)).mem
      (u32 (dentry.toNat + i)) = img.mem (u32 (dentryLoop.toNat + i)) := by
    intro i hi
    have haddr : ∀ base : Word, BitVec.ofNat 32 (u32 (base.toNat + i)) = base + (i : Nat) := by
      intro base
      apply BitVec.eq_of_toNat_eq
      simp [u32]
    have hval : (dentryLoop + (i : Nat)).toNat = u32 (dentryLoop.toNat + i) := by
      simp [u32]
    rw [memcpy_copies _ (by decide) hfar, Image.withMemory]
    dsimp only
    rw [haddr dentry, copyBlock, overwrite_inside (word_distinct (by decide)) hi,
      Image.memory, hval]
  generalize img.withMemory (memcpy img.memory dentry dentryLoop 64) = copied at hbyte
  have hbytes : ∀ offset count, offset + count ≤ 64 →
      copied.bytes (dentry.toNat + offset) count = img.bytes (dentryLoop.toNat + offset) count := by
    intro offset count hle
    refine List.map_congr_left fun i hi => ?_
    have hlt := List.mem_range.mp hi
    rw [Nat.add_assoc, hbyte _ (by omega), Nat.add_assoc]
  have hword : ∀ offset, offset + 4 ≤ 64 →
      copied.word (dentry.toNat + offset) = img.word (dentryLoop.toNat + offset) := by
    intro offset hle
    simp only [Image.word, Nat.add_assoc]
    rw [hbyte _ (by omega), hbyte _ (by omega), hbyte _ (by omega), hbyte _ (by omega)]
  have hname := hbytes 0 32 (by decide)
  rw [Nat.add_zero, Nat.add_zero] at hname
  rw [Image.loadDentry, hname, hword 32 (by decide), hword 36 (by decide), hbytes 40 24 (by decide)]
  rfl

end Ece391
