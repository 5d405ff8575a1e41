import Ece391.Constants

/-! # The read-only file system

The image is memory starting at `filesys_addr`: a boot block with the counts
and the directory entries, one block for each inode, then the data blocks. The
functions below walk it by address exactly as `filesys.c` does, with 32-bit
address arithmetic.
-/

namespace Ece391

/-- The memory the kernel sees, and where the boot loader put the image. -/
structure Image where
  filesysAddr : Nat
  mem : Nat → UInt8

/-- One 64-byte directory entry. -/
structure Dentry where
  fileName : List UInt8
  fileType : Nat
  inodeNum : Nat
  reserved : List UInt8
  deriving DecidableEq

/-- Byte `index` of an entry in memory, with its fields laid out in order. -/
def Dentry.byte (dentry : Dentry) (index : Nat) : UInt8 :=
  if index < 32 then dentry.fileName.getD index 0
  else if index < 36 then wordByte dentry.fileType (index - 32)
  else if index < 40 then wordByte dentry.inodeNum (index - 36)
  else dentry.reserved.getD (index - 40) 0

namespace Image

variable (img : Image)

/-- The 4-byte little-endian word at an address. -/
def word (addr : Nat) : Nat :=
  (img.mem (u32 addr)).toNat + 256 * (img.mem (u32 (addr + 1))).toNat +
    256 ^ 2 * (img.mem (u32 (addr + 2))).toNat + 256 ^ 3 * (img.mem (u32 (addr + 3))).toNat

def bytes (addr count : Nat) : List UInt8 :=
  (List.range count).map fun index => img.mem (u32 (addr + index))

/-- `memcpy(dentry, dentry_loop, 64)`. -/
def loadDentry (addr : Nat) : Dentry where
  fileName := img.bytes addr 32
  fileType := img.word (addr + 32)
  inodeNum := img.word (addr + 36)
  reserved := img.bytes (addr + 40) 24

def amtDentrys : Nat := img.word img.filesysAddr

def amtInodes : Nat := img.word (img.filesysAddr + 4)

def amtDataBlocks : Nat := img.word (img.filesysAddr + 8)

/-- Where entry `index` of the boot block starts. -/
def dentryAddr (index : Nat) : Nat := img.filesysAddr + 64 + 64 * index

/-- `inode_block` after both additions: the boot block is skipped, then
`inode*MEM_SIZE_4kB/4` ints, where the product wraps. -/
def inodeBlock (inode : Nat) : Nat :=
  u32 (img.filesysAddr + MEM_SIZE_4kB + u32 (inode * MEM_SIZE_4kB) / 4 * 4)

/-- The first data block, behind the boot block and the inodes. -/
def dataBlock : Nat := u32 (img.filesysAddr + MEM_SIZE_4kB * (img.amtInodes + 1))

end Image

/-- `int8_t` difference of two bytes, as `strncmp` returns it. -/
def byteDiff (first second : UInt8) : Int :=
  let int8 := fun byte : UInt8 =>
    if byte.toNat < 128 then (byte.toNat : Int) else (byte.toNat : Int) - 256
  int8 first - int8 second

/-- `strncmp` from index `i` on, with `remaining` bytes still to compare. -/
def strncmpFrom (s1 s2 : Nat → UInt8) : Nat → Nat → Int
  | 0, _ => 0
  | remaining + 1, i =>
      if s1 i ≠ s2 i ∨ s1 i = NUL then byteDiff (s1 i) (s2 i)
      else strncmpFrom s1 s2 remaining (i + 1)

def strncmp (s1 s2 : Nat → UInt8) (n : Nat) : Int := strncmpFrom s1 s2 n 0

/-- A C string: its characters, then `NUL`. -/
def cstring (chars : List UInt8) (index : Nat) : UInt8 := chars.getD index NUL

/-- The loop of `read_dentry_by_name`, with `remaining` entries to look at. -/
def dentryLoop (img : Image) (fname : List UInt8) : Nat → Nat → Option Dentry
  | 0, _ => none
  | remaining + 1, addr =>
      if strncmp (fun i => img.mem (u32 (addr + i))) (cstring fname) FILE_NAME_SIZE = 0 then
        some (img.loadDentry addr)
      else dentryLoop img fname remaining (u32 (addr + 64))

/-- `none` stands for the return value -1. The count is compared as `int`. -/
def readDentryByName (img : Image) (fname : List UInt8) : Option Dentry :=
  dentryLoop img fname (int32 img.amtDentrys).toNat (u32 (img.dentryAddr 0))

/-- `index` and the entry count are compared as unsigned words. -/
def readDentryByIndex (img : Image) (index : Nat) : Option Dentry :=
  if index > img.amtDentrys then none else some (img.loadDentry (img.dentryAddr index))

def fileSize (img : Image) (inode : Nat) : Nat := img.word (img.inodeBlock inode)

/-- The copy loop of `read_data`; `fuel` bounds its remaining turns. The result
is the final `count` and the bytes stored in `buf`. -/
def readDataLoop (img : Image) (fileLength length : Nat) :
    Nat → Nat → Nat → Nat → Nat × List UInt8
  | 0, count, _, _ => (count, [])
  | fuel + 1, count, inodeBlock, atDb =>
      if count < fileLength ∧ count < length then
        let rest :=
          if u32 (atDb + 1) % MEM_SIZE_4kB = 0 then
            -- this data block is done: the next int of the inode names the next one
            readDataLoop img fileLength length fuel (count + 1) (u32 (inodeBlock + 4))
              (u32 (img.dataBlock + img.word (u32 (inodeBlock + 4)) * MEM_SIZE_4kB))
          else
            readDataLoop img fileLength length fuel (count + 1) inodeBlock (u32 (atDb + 1))
        (rest.1, img.mem atDb :: rest.2)
      else (count, [])

/-- The returned count, and the bytes stored at the front of `buf`. -/
def readData (img : Image) (inode offset length : Nat) : Nat × List UInt8 :=
  let fileLength := fileSize img inode
  if offset > fileLength then (0, [])
  else
    let skipDbs := offset / MEM_SIZE_4kB
    let offsetIndb := offset % MEM_SIZE_4kB
    let inodeBlock := u32 (img.inodeBlock inode + 4 + 4 * skipDbs)
    readDataLoop img fileLength length length 0 inodeBlock
      (u32 (img.dataBlock + img.word inodeBlock * MEM_SIZE_4kB + offsetIndb))

/-! ## What a read returns -/

namespace Image

variable (img : Image)

/-- Where the inode holds the number of the data block of a position. -/
def blockEntry (inode pos : Nat) : Nat :=
  u32 (img.inodeBlock inode + 4 + 4 * (pos / MEM_SIZE_4kB))

/-- Where the byte at a position of a file is, by its block number. -/
def byteAddr (inode pos : Nat) : Nat :=
  u32 (img.dataBlock + img.word (img.blockEntry inode pos) * MEM_SIZE_4kB + pos % MEM_SIZE_4kB)

/-- Byte `pos` of a file, by naive lookup of its block number. -/
def fileByte (inode pos : Nat) : UInt8 := img.mem (img.byteAddr inode pos)

/-- The first `length` bytes of a file. -/
def fileBytes (inode length : Nat) : List UInt8 :=
  (List.range length).map (img.fileByte inode)

/-- The layout the boot loader and `createfs` promise: a 4 KB aligned image
inside the address space, lengths that the 1023 block numbers of an inode can
hold, and valid block and inode numbers. -/
structure WellFormed : Prop where
  aligned : img.filesysAddr % MEM_SIZE_4kB = 0
  fits : img.filesysAddr + MEM_SIZE_4kB * (1 + img.amtInodes + img.amtDataBlocks) ≤ 2 ^ 32
  dentrys : img.amtDentrys ≤ 63
  regular : ∀ index < img.amtDentrys, (img.loadDentry (img.dentryAddr index)).fileType = 2 →
    (img.loadDentry (img.dentryAddr index)).inodeNum < img.amtInodes
  length : ∀ inode < img.amtInodes, fileSize img inode ≤ 1023 * MEM_SIZE_4kB
  blocks : ∀ inode < img.amtInodes, ∀ pos < fileSize img inode,
    img.word (img.blockEntry inode pos) < img.amtDataBlocks

end Image

theorem u32_of_lt {value : Nat} (hlt : value < 2 ^ 32) : u32 value = value := Nat.mod_eq_of_lt hlt

@[simp] theorem u32_u32 (value : Nat) : u32 (u32 value) = u32 value := by
  simp [u32]

@[simp] theorem u32_u32_add (value other : Nat) :
    u32 (u32 value + other) = u32 (value + other) := by
  simp [u32]

@[simp] theorem u32_add_u32 (value other : Nat) :
    u32 (value + u32 other) = u32 (value + other) := by
  simp [u32]

/-- Wrapping at 2^32 keeps the position inside a 4 KB block. -/
theorem u32_mod_block (value : Nat) : u32 value % MEM_SIZE_4kB = value % MEM_SIZE_4kB := by
  simp only [u32, MEM_SIZE_4kB]
  omega

theorem Image.word_u32 (img : Image) (addr : Nat) : img.word (u32 addr) = img.word addr := by
  simp [Image.word]

theorem Image.dataBlock_aligned {img : Image} (haligned : img.filesysAddr % MEM_SIZE_4kB = 0) :
    img.dataBlock % MEM_SIZE_4kB = 0 := by
  rw [Image.dataBlock, u32_mod_block, Nat.add_mul_mod_self_left]
  exact haligned

theorem Image.byteAddr_mod_block {img : Image} (haligned : img.filesysAddr % MEM_SIZE_4kB = 0)
    (inode pos : Nat) : img.byteAddr inode pos % MEM_SIZE_4kB = pos % MEM_SIZE_4kB := by
  have hbase := Image.dataBlock_aligned haligned
  rw [Image.byteAddr, u32_mod_block]
  simp only [MEM_SIZE_4kB] at hbase ⊢
  omega

/-- Past the last byte of a block, the next int of the inode names the block
of the next position. -/
theorem Image.blockEntry_next_block (img : Image) (inode : Nat) {pos : Nat}
    (hblock : (pos + 1) % MEM_SIZE_4kB = 0) :
    u32 (img.blockEntry inode pos + 4) = img.blockEntry inode (pos + 1) := by
  rw [Image.blockEntry, u32_u32_add, Image.blockEntry]
  simp only [MEM_SIZE_4kB] at hblock ⊢
  congr 1
  omega

theorem Image.byteAddr_block_start (img : Image) (inode : Nat) {pos : Nat}
    (hblock : pos % MEM_SIZE_4kB = 0) :
    u32 (img.dataBlock + img.word (img.blockEntry inode pos) * MEM_SIZE_4kB) =
      img.byteAddr inode pos := by
  rw [Image.byteAddr, hblock, Nat.add_zero]

theorem Image.blockEntry_same_block (img : Image) (inode : Nat) {pos : Nat}
    (hblock : (pos + 1) % MEM_SIZE_4kB ≠ 0) :
    img.blockEntry inode (pos + 1) = img.blockEntry inode pos := by
  have hsame : (pos + 1) / MEM_SIZE_4kB = pos / MEM_SIZE_4kB := by
    simp only [MEM_SIZE_4kB] at hblock ⊢
    omega
  rw [Image.blockEntry, hsame, Image.blockEntry]

theorem Image.byteAddr_same_block (img : Image) (inode : Nat) {pos : Nat}
    (hblock : (pos + 1) % MEM_SIZE_4kB ≠ 0) :
    u32 (img.byteAddr inode pos + 1) = img.byteAddr inode (pos + 1) := by
  have hbyte : (pos + 1) % MEM_SIZE_4kB = pos % MEM_SIZE_4kB + 1 := by
    simp only [MEM_SIZE_4kB] at hblock ⊢
    omega
  rw [Image.byteAddr, u32_u32_add, Image.byteAddr, img.blockEntry_same_block inode hblock, hbyte,
    Nat.add_assoc]

/-- From any position the loop stores the bytes of the file one after the
other. The pointers stand at the block number and the byte of the position:
both are moved together exactly when the position enters a new block. -/
theorem readDataLoop_eq {img : Image} (haligned : img.filesysAddr % MEM_SIZE_4kB = 0)
    (inode fileLength length fuel count pos : Nat)
    (hfuel : min fileLength length ≤ count + fuel) :
    readDataLoop img fileLength length fuel count (img.blockEntry inode pos)
        (img.byteAddr inode pos) =
      (max count (min fileLength length),
        (List.range (min fileLength length - count)).map fun i =>
          img.fileByte inode (pos + i)) := by
  induction fuel generalizing count pos with
  | zero =>
      have hdone : min fileLength length - count = 0 := by omega
      have hmax : max count (min fileLength length) = count := by omega
      rw [readDataLoop, hdone, hmax, List.range_zero, List.map_nil]
  | succ fuel ih =>
      by_cases hmore : count < fileLength ∧ count < length
      · have hrange : min fileLength length - count =
            (min fileLength length - (count + 1)) + 1 := by omega
        have hmax : max (count + 1) (min fileLength length) =
            max count (min fileLength length) := by omega
        have hrest : ((fun i => img.fileByte inode (pos + i)) ∘ Nat.succ) =
            fun i => img.fileByte inode (pos + 1 + i) := by
          funext i
          simp only [Function.comp_apply, Nat.succ_eq_add_one]
          congr 1
          omega
        have htail := ih (count + 1) (pos + 1) (by omega)
        have hmod : u32 (img.byteAddr inode pos + 1) % MEM_SIZE_4kB = (pos + 1) % MEM_SIZE_4kB := by
          rw [u32_mod_block, Nat.add_mod, Image.byteAddr_mod_block haligned, ← Nat.add_mod]
        rw [readDataLoop, if_pos hmore, hrange, List.range_succ_eq_map, List.map_cons,
          List.map_map, hrest, hmod]
        by_cases hblock : (pos + 1) % MEM_SIZE_4kB = 0
        · rw [if_pos hblock, img.blockEntry_next_block inode hblock,
            img.byteAddr_block_start inode hblock, htail, hmax]
          rfl
        · rw [if_neg hblock, img.byteAddr_same_block inode hblock,
            ← img.blockEntry_same_block inode hblock, htail, hmax]
          rfl
      · have hdone : min fileLength length - count = 0 := by omega
        have hmax : max count (min fileLength length) = count := by omega
        rw [readDataLoop, if_neg hmore, hdone, hmax, List.range_zero, List.map_nil]

/-- A read returns the file's length cut to the requested one, wherever it
starts, together with that many bytes from the offset on. -/
theorem readData_eq {img : Image} (haligned : img.filesysAddr % MEM_SIZE_4kB = 0)
    (inode offset length : Nat) :
    readData img inode offset length =
      if offset > fileSize img inode then (0, [])
      else (min (fileSize img inode) length,
        (List.range (min (fileSize img inode) length)).map fun i =>
          img.fileByte inode (offset + i)) := by
  have hloop := readDataLoop_eq haligned inode (fileSize img inode) length length 0 offset
    (by omega)
  rw [Nat.sub_zero, Nat.zero_max] at hloop
  by_cases hpast : offset > fileSize img inode
  · simp only [readData, if_pos hpast]
  · simp only [readData, if_neg hpast]
    exact hloop

/-- Every read stores exactly as many bytes as it reports, on any image. -/
theorem readDataLoop_length (img : Image) (fileLength length fuel count inodeBlock atDb : Nat) :
    (readDataLoop img fileLength length fuel count inodeBlock atDb).1 =
      count + (readDataLoop img fileLength length fuel count inodeBlock atDb).2.length := by
  induction fuel generalizing count inodeBlock atDb with
  | zero => simp [readDataLoop]
  | succ fuel ih =>
      rw [readDataLoop]
      split
      · split
        all_goals
          simp only [List.length_cons]
          rw [ih]
          omega
      · simp

theorem readData_length (img : Image) (inode offset length : Nat) :
    (readData img inode offset length).1 = (readData img inode offset length).2.length := by
  by_cases hpast : offset > fileSize img inode
  · simp only [readData, if_pos hpast, List.length_nil]
  · simp only [readData, if_neg hpast]
    rw [readDataLoop_length, Nat.zero_add]

/-! ## The walk over the blocks -/

namespace Image

variable (img : Image)

/-- Entry `index` of the block list of an inode. -/
def blockNumber (inode index : Nat) : Nat :=
  img.word (img.filesysAddr + MEM_SIZE_4kB * (1 + inode) + 4 + 4 * index)

/-- A byte of a data block. -/
def blockByte (block index : Nat) : UInt8 :=
  img.mem (img.filesysAddr + MEM_SIZE_4kB * (1 + img.amtInodes + block) + index)

end Image

/-- No inode and no block list wraps around the address space. -/
theorem Image.WellFormed.inodeBlock_eq {img : Image} (hwf : img.WellFormed) {inode : Nat}
    (hinode : inode < img.amtInodes) :
    img.inodeBlock inode = img.filesysAddr + MEM_SIZE_4kB * (1 + inode) ∧
      img.filesysAddr + MEM_SIZE_4kB * (1 + inode) + MEM_SIZE_4kB ≤ 2 ^ 32 := by
  have hfits := hwf.fits
  simp only [MEM_SIZE_4kB] at hfits ⊢
  refine ⟨?_, by omega⟩
  have hproduct : u32 (inode * 4096) = inode * 4096 := u32_of_lt (by omega)
  rw [Image.inodeBlock, MEM_SIZE_4kB, hproduct]
  exact (u32_of_lt (by omega)).trans (by omega)

/-- Inside a file the walk's pointers are those of the plain lookup. -/
theorem Image.WellFormed.fileByte_eq {img : Image} (hwf : img.WellFormed) {inode pos : Nat}
    (hinode : inode < img.amtInodes) (hpos : pos < fileSize img inode) :
    img.fileByte inode pos =
      img.blockByte (img.blockNumber inode (pos / MEM_SIZE_4kB)) (pos % MEM_SIZE_4kB) := by
  obtain ⟨hblock, hinside⟩ := hwf.inodeBlock_eq hinode
  have hlength := hwf.length inode hinode
  have hentry : img.blockEntry inode pos =
      img.filesysAddr + MEM_SIZE_4kB * (1 + inode) + 4 + 4 * (pos / MEM_SIZE_4kB) := by
    rw [Image.blockEntry, hblock]
    apply u32_of_lt
    simp only [MEM_SIZE_4kB] at hinside hlength ⊢
    omega
  have hvalid := hwf.blocks inode hinode pos hpos
  have hfits := hwf.fits
  rw [Image.fileByte, Image.byteAddr, Image.blockByte, hentry, ← Image.blockNumber]
  rw [hentry, ← Image.blockNumber] at hvalid
  generalize img.blockNumber inode (pos / MEM_SIZE_4kB) = block at hvalid ⊢
  simp only [MEM_SIZE_4kB] at hfits ⊢
  have hdata : img.dataBlock = img.filesysAddr + 4096 * (img.amtInodes + 1) :=
    u32_of_lt (by simp only [MEM_SIZE_4kB]; omega)
  rw [hdata]
  apply congrArg img.mem
  exact (u32_of_lt (by omega)).trans (by omega)

end Ece391
