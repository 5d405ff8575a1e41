import Ece391.StartUp
import Mathlib.Algebra.GroupWithZero.Nat

/-! # What `read_data` looks at

`read_data` checks neither the inode number nor a block number before it makes an address
of it. The functions below list the words and bytes it reads from the inodes and the data
blocks, in the order of its loop; the results say which of them are inside the image.
-/

namespace Ece391

/-- A read of `width` bytes of memory. -/
structure Access where
  addr : Nat
  width : Nat
  deriving DecidableEq

/-- An `int` of an inode. -/
def Access.word (addr : Nat) : Access := ⟨addr, 4⟩

/-- A byte of a data block. -/
def Access.byte (addr : Nat) : Access := ⟨addr, 1⟩

/-- The reads of `read_data`'s loop. -/
def readDataLoopAccesses (img : Image) (fileLength length : Nat) :
    Nat → Nat → Nat → Nat → List Access
  | 0, _, _, _ => []
  | fuel + 1, count, inodeBlock, atDb =>
      if count < fileLength ∧ count < length then
        .byte atDb ::
          if u32 (atDb + 1) % MEM_SIZE_4kB = 0 then
            .word (u32 (inodeBlock + 4)) ::
              readDataLoopAccesses img fileLength length fuel (count + 1) (u32 (inodeBlock + 4))
                (u32 (img.dataBlock + img.word (u32 (inodeBlock + 4)) * MEM_SIZE_4kB))
          else
            readDataLoopAccesses img fileLength length fuel (count + 1) inodeBlock (u32 (atDb + 1))
      else []

/-- The length of the file is read first, then the number of the first block. -/
def readDataAccesses (img : Image) (inode offset length : Nat) : List Access :=
  let fileLength := fileSize img inode
  .word (img.inodeBlock inode) ::
    if offset > fileLength then []
    else
      let skipDbs := offset / MEM_SIZE_4kB
      let offsetIndb := offset % MEM_SIZE_4kB
      let inodeBlock := u32 (img.inodeBlock inode + 4 + 4 * skipDbs)
      .word inodeBlock ::
        readDataLoopAccesses img fileLength length length 0 inodeBlock
          (u32 (img.dataBlock + img.word inodeBlock * MEM_SIZE_4kB + offsetIndb))

/-- What the loop stores are the bytes it reads. -/
theorem readDataLoop_accesses (img : Image) (fileLength length fuel count inodeBlock atDb : Nat) :
    (readDataLoop img fileLength length fuel count inodeBlock atDb).2 =
      ((readDataLoopAccesses img fileLength length fuel count inodeBlock atDb).filter
        fun access => access.width = 1).map fun access => img.mem access.addr := by
  induction fuel generalizing count inodeBlock atDb with
  | zero => rfl
  | succ fuel ih =>
      rw [readDataLoop, readDataLoopAccesses]
      split
      · split
        · exact congrArg (List.cons (img.mem atDb)) (ih _ _ _)
        · exact congrArg (List.cons (img.mem atDb)) (ih _ _ _)
      · rfl

theorem readData_accesses (img : Image) (inode offset length : Nat) :
    (readData img inode offset length).2 =
      ((readDataAccesses img inode offset length).filter fun access => access.width = 1).map
        fun access => img.mem access.addr := by
  unfold readData readDataAccesses
  dsimp only
  split
  · rfl
  · rw [readDataLoop_accesses]
    rfl

/-! ## The walk, position by position -/

/-- What one turn of the loop reads: a byte, and behind the last byte of a block the number
of the next one. -/
def Image.turnAccesses (img : Image) (inode pos : Nat) : List Access :=
  .byte (img.byteAddr inode pos) ::
    if (pos + 1) % MEM_SIZE_4kB = 0 then [.word (img.blockEntry inode (pos + 1))] else []

/-- The loop goes through the positions of the file one after the other. -/
theorem readDataLoopAccesses_eq {img : Image} (haligned : img.filesysAddr % MEM_SIZE_4kB = 0)
    (inode fileLength length fuel count pos : Nat)
    (hfuel : min fileLength length ≤ count + fuel) :
    readDataLoopAccesses img fileLength length fuel count (img.blockEntry inode pos)
        (img.byteAddr inode pos) =
      (List.range (min fileLength length - count)).flatMap fun i =>
        img.turnAccesses inode (pos + i) := by
  induction fuel generalizing count pos with
  | zero =>
      have hdone : min fileLength length - count = 0 := by omega
      rw [readDataLoopAccesses, hdone]
      rfl
  | succ fuel ih =>
      by_cases hmore : count < fileLength ∧ count < length
      · have hrange : min fileLength length - count =
            (min fileLength length - (count + 1)) + 1 := by omega
        have hrest : ((fun i => img.turnAccesses inode (pos + i)) ∘ Nat.succ) =
            fun i => img.turnAccesses inode (pos + 1 + i) := by
          funext i
          simp only [Function.comp_apply, Nat.succ_eq_add_one]
          congr 1
          omega
        have htail := ih (count + 1) (pos + 1) (by omega)
        have hmod : u32 (img.byteAddr inode pos + 1) % MEM_SIZE_4kB = (pos + 1) % MEM_SIZE_4kB := by
          rw [u32_mod_block, Nat.add_mod, Image.byteAddr_mod_block haligned, ← Nat.add_mod]
        rw [readDataLoopAccesses, if_pos hmore, hrange, List.range_succ_eq_map, List.flatMap_cons,
          List.flatMap_map, hmod, Nat.add_zero, Image.turnAccesses]
        change _ = _ ++ List.flatMap ((fun i => img.turnAccesses inode (pos + i)) ∘ Nat.succ) _
        rw [hrest]
        by_cases hblock : (pos + 1) % MEM_SIZE_4kB = 0
        · rw [if_pos hblock, if_pos hblock, img.blockEntry_next_block inode hblock,
            img.byteAddr_block_start inode hblock, htail]
          rfl
        · rw [if_neg hblock, if_neg hblock, img.byteAddr_same_block inode hblock,
            ← img.blockEntry_same_block inode hblock, htail]
          rfl
      · have hdone : min fileLength length - count = 0 := by omega
        rw [readDataLoopAccesses, if_neg hmore, hdone]
        rfl

/-- The positions whose bytes a call reads start at the offset; their number does not depend
on it. -/
def Image.walkLength (img : Image) (inode length : Nat) : Nat := min (fileSize img inode) length

theorem Image.blockEntry_congr (img : Image) (inode : Nat) {first second : Nat}
    (hsame : first / MEM_SIZE_4kB = second / MEM_SIZE_4kB) :
    img.blockEntry inode first = img.blockEntry inode second := by
  rw [Image.blockEntry, hsame, Image.blockEntry]

/-- Everything a call reads: the length of the file, and on the walk from the offset on the
numbers of the blocks it enters and its bytes. -/
theorem mem_readDataAccesses {img : Image} (haligned : img.filesysAddr % MEM_SIZE_4kB = 0)
    {inode offset length : Nat} {access : Access} :
    access ∈ readDataAccesses img inode offset length ↔
      access = .word (img.inodeBlock inode) ∨
        offset ≤ fileSize img inode ∧
          ((∃ pos, offset ≤ pos ∧ pos ≤ offset + img.walkLength inode length ∧
              access = .word (img.blockEntry inode pos)) ∨
            ∃ pos, offset ≤ pos ∧ pos < offset + img.walkLength inode length ∧
              access = .byte (img.byteAddr inode pos)) := by
  have hloop := readDataLoopAccesses_eq haligned inode (fileSize img inode) length length 0 offset
    (by omega)
  rw [Nat.sub_zero] at hloop
  unfold readDataAccesses
  dsimp only
  rw [List.mem_cons]
  refine or_congr_right ?_
  split
  · next hpast =>
    simp only [List.not_mem_nil, false_iff, not_and]
    intro hle
    omega
  · next hle =>
    have hoffset : offset ≤ fileSize img inode := Nat.not_lt.mp hle
    change access ∈ Access.word (img.blockEntry inode offset) ::
      readDataLoopAccesses img _ length length 0 (img.blockEntry inode offset)
        (img.byteAddr inode offset) ↔ _
    rw [hloop, List.mem_cons, List.mem_flatMap, and_iff_right hoffset]
    simp only [List.mem_range, Image.walkLength]
    generalize min (fileSize img inode) length = count
    constructor
    · rintro (rfl | ⟨i, hi, hmem⟩)
      · exact .inl ⟨offset, le_rfl, by omega, rfl⟩
      · rw [Image.turnAccesses, List.mem_cons] at hmem
        rcases hmem with rfl | hmem
        · exact .inr ⟨offset + i, by omega, by omega, rfl⟩
        · split at hmem
          · rw [List.mem_singleton] at hmem
            exact .inl ⟨offset + i + 1, by omega, by omega, hmem⟩
          · cases hmem
    · rintro (⟨pos, hlow, hhigh, rfl⟩ | ⟨pos, hlow, hhigh, rfl⟩)
      · by_cases hfirst : pos / MEM_SIZE_4kB = offset / MEM_SIZE_4kB
        · rw [img.blockEntry_congr inode hfirst]
          exact .inl rfl
        · -- the block was entered behind the last byte of the one before
          have hstart : pos / MEM_SIZE_4kB * MEM_SIZE_4kB ≤ pos := Nat.div_mul_le_self _ _
          have hentered : offset < pos / MEM_SIZE_4kB * MEM_SIZE_4kB := by
            simp only [MEM_SIZE_4kB] at hfirst ⊢
            omega
          refine .inr ⟨pos / MEM_SIZE_4kB * MEM_SIZE_4kB - 1 - offset, by omega, ?_⟩
          have hpos : offset + (pos / MEM_SIZE_4kB * MEM_SIZE_4kB - 1 - offset) + 1 =
              pos / MEM_SIZE_4kB * MEM_SIZE_4kB := by omega
          rw [Image.turnAccesses, hpos, if_pos (Nat.mul_mod_left _ _)]
          refine List.mem_cons_of_mem _ (List.mem_singleton.mpr ?_)
          rw [img.blockEntry_congr inode]
          simp only [MEM_SIZE_4kB]
          omega
      · refine .inr ⟨pos - offset, by omega, ?_⟩
        rw [Image.turnAccesses, Nat.add_sub_cancel' hlow]
        exact List.mem_cons_self

/-! ## The bounds of the image -/

/-- Where an inode starts, and where it holds the number of the block of a position, counted
from the start of the image. -/
def inodeOffset (inode : Nat) : Nat := MEM_SIZE_4kB * (1 + inode)

def entryOffset (inode pos : Nat) : Nat := inodeOffset inode + 4 + 4 * (pos / MEM_SIZE_4kB)

namespace Image

variable (img : Image)

/-- The boot block, the inodes and the data blocks. -/
def size : Nat := MEM_SIZE_4kB * (1 + img.amtInodes + img.amtDataBlocks)

/-- The boot loader puts an image at the start of a page, and all of it below 4 GB. -/
structure Placed : Prop where
  aligned : img.filesysAddr % MEM_SIZE_4kB = 0
  fits : img.filesysAddr + img.size ≤ 2 ^ 32

def Inside (access : Access) : Prop :=
  img.filesysAddr ≤ access.addr ∧ access.addr + access.width ≤ img.filesysAddr + img.size

/-- The number of the data block of a position. -/
def blockOf (inode pos : Nat) : Nat := img.word (img.blockEntry inode pos)

end Image

/-- Distances from the start of the image are taken modulo 2^32. -/
theorem Image.Placed.inside_iff {img : Image} (hplaced : img.Placed) {offset width : Nat}
    (hwidth : u32 offset < img.size ↔ u32 offset + width ≤ img.size) :
    img.Inside ⟨u32 (img.filesysAddr + offset), width⟩ ↔ u32 offset < img.size := by
  have hfits := hplaced.fits
  rw [hwidth]
  simp only [Image.Inside, u32] at *
  omega

theorem Image.Placed.inside_word {img : Image} (hplaced : img.Placed) {offset : Nat}
    (haligned : offset % 4 = 0) :
    img.Inside (.word (u32 (img.filesysAddr + offset))) ↔ u32 offset < img.size := by
  refine hplaced.inside_iff ?_
  simp only [Image.size, MEM_SIZE_4kB, u32]
  omega

theorem Image.inodeBlock_offset (img : Image) (inode : Nat) :
    img.inodeBlock inode = u32 (img.filesysAddr + inodeOffset inode) := by
  have hproduct : u32 (inode * MEM_SIZE_4kB) / 4 * 4 = u32 (inode * MEM_SIZE_4kB) := by
    simp only [u32, MEM_SIZE_4kB]
    omega
  rw [Image.inodeBlock, hproduct, u32_add_u32, inodeOffset]
  congr 1
  simp only [MEM_SIZE_4kB]
  omega

theorem Image.blockEntry_offset (img : Image) (inode pos : Nat) :
    img.blockEntry inode pos = u32 (img.filesysAddr + entryOffset inode pos) := by
  rw [Image.blockEntry, img.inodeBlock_offset, Nat.add_assoc, u32_u32_add, entryOffset]
  congr 1
  omega

/-- A byte is inside the image when its block is: a block number wraps at the blocks of the
address space. -/
theorem Image.Placed.inside_byte {img : Image} (hplaced : img.Placed) (inode pos : Nat) :
    img.Inside (.byte (img.byteAddr inode pos)) ↔
      (1 + img.amtInodes + img.blockOf inode pos) % 2 ^ 20 <
        1 + img.amtInodes + img.amtDataBlocks := by
  have haddr : img.byteAddr inode pos =
      u32 (img.filesysAddr +
        (MEM_SIZE_4kB * (1 + img.amtInodes + img.blockOf inode pos) + pos % MEM_SIZE_4kB)) := by
    rw [Image.byteAddr, Image.dataBlock, Nat.add_assoc, u32_u32_add, Image.blockOf]
    congr 1
    simp only [MEM_SIZE_4kB]
    omega
  rw [haddr]
  refine (hplaced.inside_iff Nat.lt_iff_add_one_le).trans ?_
  simp only [Image.size, MEM_SIZE_4kB, u32]
  omega

theorem Image.Placed.inside_inode {img : Image} (hplaced : img.Placed) (inode : Nat) :
    img.Inside (.word (img.inodeBlock inode)) ↔ u32 (inodeOffset inode) < img.size := by
  rw [img.inodeBlock_offset]
  refine hplaced.inside_word ?_
  simp only [inodeOffset, MEM_SIZE_4kB]
  omega

theorem Image.Placed.inside_entry {img : Image} (hplaced : img.Placed) (inode pos : Nat) :
    img.Inside (.word (img.blockEntry inode pos)) ↔ u32 (entryOffset inode pos) < img.size := by
  rw [img.blockEntry_offset]
  refine hplaced.inside_word ?_
  simp only [entryOffset, inodeOffset, MEM_SIZE_4kB]
  omega

/-! ## Bad inodes and blocks -/

/-- The inode number, or the number of a block with requested bytes of the file, is not below
the image's count. -/
def Image.BadNumber (img : Image) (inode offset length : Nat) : Prop :=
  img.amtInodes ≤ inode ∨
    ∃ pos, offset ≤ pos ∧ pos < offset + length ∧ pos < fileSize img inode ∧
      img.amtDataBlocks ≤ img.blockOf inode pos

/-- Bad numbers make a call fail, other calls succeed, and no call reads anything outside the
image. -/
structure RejectsBad (img : Image) (inode offset length : Nat) (result : Int)
    (accesses : List Access) : Prop where
  rejects : result = -1 ↔ img.BadNumber inode offset length
  inside : ∀ access ∈ accesses, img.Inside access

/-- Both the file and the request have the greatest length there is. -/
def Image.LongestRead (img : Image) (inode offset length : Nat) : Prop :=
  offset ≤ fileSize img inode ∧ fileSize img inode = 2 ^ 32 - 1 ∧ length = 2 ^ 32 - 1

/-- The walk from the offset on, which goes as far behind it as the whole file is long, meets
only blocks and entries of block lists that are in the image. -/
structure Image.WalkInside (img : Image) (inode offset length : Nat) : Prop where
  start : u32 (inodeOffset inode) < img.size
  entries : offset ≤ fileSize img inode → ∀ pos, offset ≤ pos →
    pos ≤ offset + img.walkLength inode length → u32 (entryOffset inode pos) < img.size
  blocks : offset ≤ fileSize img inode → ∀ pos, offset ≤ pos →
    pos < offset + img.walkLength inode length →
      (1 + img.amtInodes + img.blockOf inode pos) % 2 ^ 20 < 1 + img.amtInodes + img.amtDataBlocks

theorem Image.fileSize_lt (img : Image) (inode : Nat) : fileSize img inode < 2 ^ 32 := by
  have hword : ∀ addr, img.word addr < 2 ^ 32 := by
    intro addr
    have hfirst := (img.mem (u32 addr)).toNat_lt
    have hsecond := (img.mem (u32 (addr + 1))).toNat_lt
    have hthird := (img.mem (u32 (addr + 2))).toNat_lt
    have hfourth := (img.mem (u32 (addr + 3))).toNat_lt
    unfold Image.word
    omega
  exact hword _

/-- The count reads as -1 only after the longest read. -/
theorem readData_failed_iff {img : Image} (haligned : img.filesysAddr % MEM_SIZE_4kB = 0)
    {inode offset length : Nat} (hlength : length < 2 ^ 32) :
    int32 (readData img inode offset length).1 = -1 ↔ img.LongestRead inode offset length := by
  have hsize := img.fileSize_lt inode
  rw [readData_eq haligned, Image.LongestRead]
  split
  · next hpast =>
    refine ⟨fun hzero => absurd hzero (by decide), fun hlongest => absurd hlongest.1 ?_⟩
    omega
  · next hle =>
    dsimp only
    generalize fileSize img inode = fileLength at hsize hle ⊢
    simp only [int32]
    split <;> omega

/-- `read_data` rejects bad numbers and stays inside the image exactly when its walk stays
there and, short of the longest read, no number is bad. -/
theorem rejectsBad_iff {img : Image} (hplaced : img.Placed) {inode offset length : Nat}
    (hlength : length < 2 ^ 32) :
    RejectsBad img inode offset length (int32 (readData img inode offset length).1)
        (readDataAccesses img inode offset length) ↔
      (img.BadNumber inode offset length ↔ img.LongestRead inode offset length) ∧
        img.WalkInside inode offset length := by
  have hfailed : int32 (readData img inode offset length).1 = -1 ↔
      img.LongestRead inode offset length := readData_failed_iff hplaced.aligned hlength
  constructor
  · intro hrejects
    have hinside : ∀ access, access ∈ readDataAccesses img inode offset length →
        img.Inside access := hrejects.inside
    simp only [mem_readDataAccesses hplaced.aligned] at hinside
    refine ⟨hrejects.rejects.symm.trans hfailed, ?_, ?_, ?_⟩
    · exact (hplaced.inside_inode inode).mp (hinside _ (.inl rfl))
    · intro hle pos hlow hhigh
      exact (hplaced.inside_entry inode pos).mp
        (hinside _ (.inr ⟨hle, .inl ⟨pos, hlow, hhigh, rfl⟩⟩))
    · intro hle pos hlow hhigh
      exact (hplaced.inside_byte inode pos).mp
        (hinside _ (.inr ⟨hle, .inr ⟨pos, hlow, hhigh, rfl⟩⟩))
  · rintro ⟨hbad, hwalk⟩
    refine ⟨hfailed.trans hbad.symm, fun access hmem => ?_⟩
    rcases (mem_readDataAccesses hplaced.aligned).mp hmem with
      rfl | ⟨hle, ⟨pos, hlow, hhigh, rfl⟩ | ⟨pos, hlow, hhigh, rfl⟩⟩
    · exact (hplaced.inside_inode inode).mpr hwalk.start
    · exact (hplaced.inside_entry inode pos).mpr (hwalk.entries hle pos hlow hhigh)
    · exact (hplaced.inside_byte inode pos).mpr (hwalk.blocks hle pos hlow hhigh)

theorem shellImage_placed : shellImage.Placed := ⟨by decide, by decide +kernel⟩

/-- The whole shell is read inside its image. -/
theorem rejectsBad_shell :
    RejectsBad shellImage 0 0 4 (int32 (readData shellImage 0 0 4).1)
      (readDataAccesses shellImage 0 0 4) := by
  have hsize : fileSize shellImage 0 = 4 := by decide +kernel
  have hblocks : ∀ pos < 4, shellImage.blockOf 0 pos = 0 := by decide +kernel
  refine (rejectsBad_iff shellImage_placed (by decide)).mpr ⟨iff_of_false ?_ ?_, ?_, ?_, ?_⟩
  · rintro (hinode | ⟨pos, -, hlt, -, hbad⟩)
    · exact absurd hinode (by decide +kernel)
    · rw [hblocks pos (by omega)] at hbad
      exact absurd hbad (by decide +kernel)
  · rintro ⟨-, hlongest, -⟩
    rw [hsize] at hlongest
    exact absurd hlongest (by decide)
  · decide +kernel
  · intro _ pos _ hle
    rw [Image.walkLength, hsize] at hle
    have hfirst : pos / MEM_SIZE_4kB = 0 := Nat.div_eq_of_lt (by simp only [MEM_SIZE_4kB]; omega)
    rw [entryOffset, hfirst]
    decide +kernel
  · intro _ pos _ hlt
    rw [Image.walkLength, hsize] at hlt
    rw [hblocks pos (by omega)]
    decide +kernel

/-- The image has one inode; a read from the next one succeeds. -/
theorem bad_inode_read :
    ¬ RejectsBad shellImage 1 0 4 (int32 (readData shellImage 1 0 4).1)
      (readDataAccesses shellImage 1 0 4) := by
  intro hrejects
  have hbad : shellImage.BadNumber 1 0 4 := .inl (by decide +kernel)
  have hcount : int32 (readData shellImage 1 0 4).1 = 4 := by decide +kernel
  have hfailed := hrejects.rejects.mpr hbad
  rw [hcount] at hfailed
  exact absurd hfailed (by decide)

end Ece391
