import Ece391.ProcessInvariant
import Mathlib.Algebra.GroupWithZero.Nat

/-! # Reading a file to its end

A descriptor keeps the position of the next byte. `file_read` advances it by what
`read_data` reports, and `read_data` reports the length of the file cut to the
requested count, wherever the read starts. Reads that stay inside the file
therefore deliver it in order, and the first later read that asks for more than is
left reports too much.
-/

namespace Ece391

open Function

/-! ## What `open` finds -/

theorem Image.bytes_u32 (img : Image) (addr count : Nat) :
    img.bytes (u32 addr) count = img.bytes addr count := by
  simp [Image.bytes]

theorem Image.loadDentry_u32 (img : Image) (addr : Nat) :
    img.loadDentry (u32 addr) = img.loadDentry addr := by
  have hword : ∀ offset, img.word (u32 addr + offset) = img.word (addr + offset) := by
    intro offset
    rw [← img.word_u32 (u32 addr + offset), u32_u32_add, img.word_u32]
  have hbytes : img.bytes (u32 addr + 40) 24 = img.bytes (addr + 40) 24 := by
    rw [← img.bytes_u32 (u32 addr + 40), u32_u32_add, img.bytes_u32]
  simp only [Image.loadDentry, img.bytes_u32, hword, hbytes]

/-- The search returns one of the directory's entries. -/
theorem dentryLoop_mem {img : Image} {fname : List UInt8} {remaining index : Nat} {entry : Dentry}
    (hfind : dentryLoop img fname remaining (u32 (img.dentryAddr index)) = some entry) :
    ∃ i, index ≤ i ∧ i < index + remaining ∧ entry = img.loadDentry (img.dentryAddr i) := by
  induction remaining generalizing index with
  | zero => simp [dentryLoop] at hfind
  | succ remaining ih =>
      rw [dentryLoop] at hfind
      split at hfind
      · obtain rfl := Option.some.inj hfind
        exact ⟨index, le_rfl, by omega, img.loadDentry_u32 _⟩
      · have hnext : u32 (u32 (img.dentryAddr index) + 64) = u32 (img.dentryAddr (index + 1)) := by
          rw [u32_u32_add, Image.dentryAddr, Image.dentryAddr]
          congr 1
        rw [hnext] at hfind
        obtain ⟨i, hle, hlt, heq⟩ := ih hfind
        exact ⟨i, by omega, by omega, heq⟩

/-- In a well-formed image what `open` finds is an entry of the boot block. -/
theorem Image.WellFormed.dentry_mem {img : Image} (hwf : img.WellFormed) {fname : List UInt8}
    {entry : Dentry} (hfind : readDentryByName img fname = some entry) :
    ∃ i < img.amtDentrys, entry = img.loadDentry (img.dentryAddr i) := by
  obtain ⟨i, -, hlt, rfl⟩ := dentryLoop_mem hfind
  have hcount : (int32 img.amtDentrys).toNat = img.amtDentrys := by
    have hle := hwf.dentrys
    rw [int32, if_pos (by omega)]
    rfl
  rw [hcount, Nat.zero_add] at hlt
  exact ⟨i, hlt, rfl⟩

/-- A regular file of a well-formed image is no longer than its block numbers reach. -/
theorem Image.WellFormed.regular_length {img : Image} (hwf : img.WellFormed) {fname : List UInt8}
    {entry : Dentry} (hfind : readDentryByName img fname = some entry)
    (hregular : entry.fileType = 2) : fileSize img entry.inodeNum ≤ 1023 * MEM_SIZE_4kB := by
  obtain ⟨i, hlt, rfl⟩ := hwf.dentry_mem hfind
  exact hwf.length _ (hwf.regular i hlt hregular)

/-- The loop of `open` is the search of a table of slots. -/
theorem freeEntry_firstFree (fds : Nat → FdStruct) (remaining fd : Nat) :
    Kernel.freeEntry fds remaining fd =
      SlotTable.firstFree (fun desc => FD_FLAG_PRESENT &&& desc.flags = 0) fds remaining fd := by
  induction remaining generalizing fd with
  | zero => rfl
  | succ remaining ih => rw [Kernel.freeEntry, SlotTable.firstFree, ih]

/-- `open` never fills in the descriptors of the terminal. -/
theorem le_freeEntry (fds : Nat → FdStruct) (remaining fd : Nat) :
    fd ≤ Kernel.freeEntry fds remaining fd := by
  rw [freeEntry_firstFree]
  exact SlotTable.le_firstFree fds remaining fd

/-! ## One read -/

theorem Kernel.setPcb_scheduledPcb (k : Kernel) (addr : Nat) (pcb : Pcb) :
    (k.setPcb addr pcb).scheduledPcb = k.scheduledPcb := rfl

theorem Kernel.setPcb_pcb_self (k : Kernel) (addr : Nat) (pcb : Pcb) :
    (k.setPcb addr pcb).pcb addr = pcb := update_self ..

/-- The running process is displayed and has a descriptor of a file at a position. -/
structure FileAt (k : Kernel) (fd inode pos : Nat) : Prop where
  shown : k.currTerminal = k.currScheduled
  mapped : k.scheduledPcb < _8MB
  low : STDI_O ≤ fd
  high : fd < MAX_OPEN_FILES
  flags : ((k.pcb k.scheduledPcb).fileArray fd).flags ≠ 0
  table : ((k.pcb k.scheduledPcb).fileArray fd).fopsTable = file_table
  inode : ((k.pcb k.scheduledPcb).fileArray fd).inode = inode
  position : ((k.pcb k.scheduledPcb).fileArray fd).fPos = pos

theorem toU32_natCast {n : Nat} (hlt : n < 2 ^ 32) : toU32 (n : Int) = n := by
  simp only [toU32]
  omega

theorem FileAt.of_desc {k : Kernel} {fd inode pos flags : Nat}
    (hshown : k.currTerminal = k.currScheduled) (hmapped : k.scheduledPcb < _8MB)
    (hlow : STDI_O ≤ fd) (hhigh : fd < MAX_OPEN_FILES) (hflags : flags ≠ 0)
    (hdesc : (k.pcb k.scheduledPcb).fileArray fd = ⟨file_table, inode, pos, flags⟩) :
    FileAt k fd inode pos where
  shown := hshown
  mapped := hmapped
  low := hlow
  high := hhigh
  flags := (congrArg FdStruct.flags hdesc).trans_ne hflags
  table := congrArg FdStruct.fopsTable hdesc
  inode := congrArg FdStruct.inode hdesc
  position := congrArg FdStruct.fPos hdesc

/-- A regular file opened by the displayed and running process stands at its start. -/
theorem FileAt.of_open {k after : Kernel} {img : Image} {filename : List UInt8} {entry : Dentry}
    {fd : Nat} {out : List UInt8} (hshown : k.currTerminal = k.currScheduled)
    (hfind : readDentryByName img filename = some entry) (hregular : entry.fileType = 2)
    (hopen : k.open_ img (some filename) = some (.returned fd out, after)) :
    FileAt after fd entry.inodeNum 0 := by
  have hdisplayed : k.displayedPcb = k.scheduledPcb := by
    rw [Kernel.displayedPcb, hshown, Kernel.scheduledPcb]
  unfold Kernel.open_ at hopen
  rw [Option.bind_some, hfind] at hopen
  obtain ⟨pcb, hpcb, hopen⟩ := Option.bind_eq_some_iff.mp hopen
  obtain ⟨hmapped, rfl⟩ := Kernel.derefPcb_eq_some.mp hpcb
  rw [hdisplayed] at hmapped hopen
  split at hopen
  · -- a call that fails returns -1, which is no descriptor
    obtain ⟨hreturned, -⟩ := Prod.mk.inj (Option.some.inj hopen)
    injection hreturned with hvalue
    omega
  · dsimp only at hopen
    have hlow := le_freeEntry (k.pcb k.scheduledPcb).fileArray (MAX_OPEN_FILES - STDI_O) STDI_O
    generalize Kernel.freeEntry (k.pcb k.scheduledPcb).fileArray (MAX_OPEN_FILES - STDI_O)
      STDI_O = slot at hlow hopen
    split at hopen
    · simp at hopen
    · next hfree =>
      have hdesc : Kernel.openedFd entry ((k.pcb k.scheduledPcb).fileArray slot) =
          ⟨file_table, entry.inodeNum, 0, FD_FLAG_PRESENT + FD_FLAG_FILE⟩ := by
        simp only [Kernel.openedFd, hregular]
      rw [hdesc, show fopsAt file_table = some .file from rfl, Option.map_some] at hopen
      obtain ⟨hreturned, rfl⟩ := Prod.mk.inj (Option.some.inj hopen)
      obtain rfl : slot = fd := by
        injection hreturned with hvalue
        exact Int.ofNat.inj hvalue
      refine FileAt.of_desc hshown hmapped hlow (Nat.lt_of_not_le hfree)
        (by decide : FD_FLAG_PRESENT + FD_FLAG_FILE ≠ 0) ?_
      rw [Kernel.fopsOpen, Kernel.setPcb_scheduledPcb, Kernel.setPcb_pcb_self]
      exact update_self ..

/-- A read returns what `read_data` reports and moves the position by it. -/
theorem FileAt.read {k : Kernel} {fd inode pos n : Nat} (img : Image)
    (hfile : FileAt k fd inode pos) (hpos : 0 < n) (hlt : n < 2 ^ 31) :
    ∃ next, k.read img fd true n =
        some (.returned (int32 (readData img inode pos n).1) (readData img inode pos n).2, next) ∧
      FileAt next fd inode (u32 (pos + (readData img inode pos n).1)) := by
  have hdisplayed : k.displayedPcb = k.scheduledPcb := by
    rw [Kernel.displayedPcb, hfile.shown, Kernel.scheduledPcb]
  have hderef : k.derefPcb k.displayedPcb = some (k.pcb k.scheduledPcb) := by
    rw [hdisplayed]
    exact if_pos hfile.mapped
  have hlow := hfile.low
  have hhigh := hfile.high
  simp only [STDI_O, MAX_OPEN_FILES] at hlow hhigh
  have hcall : k.read img fd true n = k.fileRead img fd n := by
    unfold Kernel.read
    rw [if_neg (by simp only [MAX_OPEN_FILES]; simp; omega), hderef, Option.bind_some,
      Int.toNat_natCast, if_neg hfile.flags, hfile.table]
    rfl
  have hread : k.fileRead img fd n =
      some (.returned (int32 (readData img inode pos n).1) (readData img inode pos n).2,
        k.setPcb k.scheduledPcb
          { k.pcb k.scheduledPcb with
            fileArray := update (k.pcb k.scheduledPcb).fileArray fd
              { (k.pcb k.scheduledPcb).fileArray fd with
                fPos := u32 (pos + (readData img inode pos n).1) } }) := by
    unfold Kernel.fileRead
    rw [if_neg (by omega), if_neg (by omega), hderef, Option.map_some]
    simp only [Int.toNat_natCast, hfile.inode, hfile.position,
      toU32_natCast (show n < 2 ^ 32 by omega), hdisplayed]
  refine ⟨_, hcall.trans hread, ?_⟩
  refine FileAt.of_desc hfile.shown hfile.mapped hfile.low hfile.high hfile.flags ?_
  rw [Kernel.setPcb_scheduledPcb, Kernel.setPcb_pcb_self]
  refine (update_self ..).trans ?_
  rw [← hfile.table, ← hfile.inode]

/-- Inside a file of a well-formed image nothing wraps: the read reports the file's
length cut to the count, and delivers as many bytes from the position on. -/
theorem FileAt.read_within {k : Kernel} {fd inode pos n : Nat} {img : Image}
    (haligned : img.filesysAddr % MEM_SIZE_4kB = 0)
    (hlength : fileSize img inode ≤ 1023 * MEM_SIZE_4kB) (hfile : FileAt k fd inode pos)
    (hwithin : pos ≤ fileSize img inode) (hpos : 0 < n) (hlt : n < 2 ^ 31) :
    ∃ next, k.read img fd true n =
        some (.returned (min (fileSize img inode) n : Nat)
          ((List.range (min (fileSize img inode) n)).map fun i => img.fileByte inode (pos + i)),
          next) ∧
      FileAt next fd inode (pos + min (fileSize img inode) n) := by
  obtain ⟨next, hread, hnext⟩ := hfile.read img hpos hlt
  simp only [MEM_SIZE_4kB] at hlength
  have hdata := readData_eq haligned inode pos n
  rw [if_neg (by omega)] at hdata
  rw [hdata] at hread hnext
  dsimp only at hread hnext
  rw [int32, if_pos (by omega)] at hread
  rw [u32_of_lt (by omega)] at hnext
  exact ⟨next, hread, hnext⟩

/-! ## Sequences of reads -/

/-- Successive reads on one descriptor, with the value and the bytes of each. -/
def readAll (img : Image) (fd : Nat) : Kernel → List Nat → Option (List (Int × List UInt8) × Kernel)
  | k, [] => some ([], k)
  | k, n :: rest =>
      (k.read img fd true n).bind fun
        | (.returned value out, k) =>
            (readAll img fd k rest).map fun result => ((value, out) :: result.1, result.2)
        | (.waiting, _) => none

theorem readAll_cons {img : Image} {fd n : Nat} {k next last : Kernel} {rest : List Nat}
    {value : Int} {out : List UInt8} {results : List (Int × List UInt8)}
    (hread : k.read img fd true n = some (.returned value out, next))
    (hrest : readAll img fd next rest = some (results, last)) :
    readAll img fd k (n :: rest) = some ((value, out) :: results, last) := by
  rw [readAll, hread, Option.bind_some]
  dsimp only
  rw [hrest, Option.map_some]

/-- The position in the caller's descriptor. -/
def Kernel.fPosOf (k : Kernel) (fd : Nat) : Nat := ((k.pcb k.scheduledPcb).fileArray fd).fPos

/-- The reads deliver the file exactly once: after each of them the position is the
sum of the counts cut to the length, what was returned so far is the front of the
file up to the position, and the next read returns what is left, up to its count. -/
def ReadsInOrder (img : Image) (inode fd : Nat) (k : Kernel) (counts : List Nat) : Prop :=
  ∀ done rest, counts = done ++ rest → ∃ results last,
    readAll img fd k done = some (results, last) ∧
      last.fPosOf fd = min (fileSize img inode) done.sum ∧
      (results.map Prod.snd).flatten = img.fileBytes inode (last.fPosOf fd) ∧
      ∀ n more, rest = n :: more → ∃ out next,
        last.read img fd true n =
          some (.returned (min n (fileSize img inode - last.fPosOf fd) : Nat) out, next)

theorem FileAt.fPosOf {k : Kernel} {fd inode pos : Nat} (hfile : FileAt k fd inode pos) :
    k.fPosOf fd = pos := hfile.position

/-- Whatever reads do, the descriptor stays one of the same file. -/
theorem FileAt.readAll {k last : Kernel} {img : Image} {fd inode pos : Nat} {counts : List Nat}
    {results : List (Int × List UInt8)} (hfile : FileAt k fd inode pos)
    (hcounts : ∀ n ∈ counts, 0 < n ∧ n < 2 ^ 31)
    (hreads : readAll img fd k counts = some (results, last)) :
    FileAt last fd inode (last.fPosOf fd) := by
  induction counts generalizing k pos results with
  | nil =>
      obtain ⟨-, rfl⟩ := Prod.mk.inj (Option.some.inj hreads)
      rwa [hfile.fPosOf]
  | cons n rest ih =>
      obtain ⟨hpos, hlt⟩ := hcounts n List.mem_cons_self
      obtain ⟨next, hread, hnext⟩ := hfile.read img hpos hlt
      rw [Ece391.readAll, hread, Option.bind_some] at hreads
      obtain ⟨⟨results', last'⟩, hrest, heq⟩ := Option.map_eq_some_iff.mp hreads
      obtain ⟨-, rfl⟩ := Prod.mk.inj heq
      exact ih hnext (fun m hm => hcounts m (List.mem_cons_of_mem _ hm)) hrest

/-- Reads that together stay inside the file deliver it in order. -/
theorem FileAt.readAll_within {k : Kernel} {img : Image} {fd inode pos : Nat} {counts : List Nat}
    (haligned : img.filesysAddr % MEM_SIZE_4kB = 0)
    (hlength : fileSize img inode ≤ 1023 * MEM_SIZE_4kB) (hfile : FileAt k fd inode pos)
    (hcounts : ∀ n ∈ counts, 0 < n ∧ n < 2 ^ 31) (hwithin : pos + counts.sum ≤ fileSize img inode) :
    ∃ results last, Ece391.readAll img fd k counts = some (results, last) ∧
      FileAt last fd inode (pos + counts.sum) ∧
      (results.map Prod.snd).flatten =
        (List.range counts.sum).map fun i => img.fileByte inode (pos + i) := by
  induction counts generalizing k pos with
  | nil => exact ⟨[], k, rfl, hfile, rfl⟩
  | cons n rest ih =>
      rw [List.sum_cons] at hwithin
      obtain ⟨hpos, hlt⟩ := hcounts n List.mem_cons_self
      obtain ⟨next, hread, hnext⟩ := hfile.read_within haligned hlength (by omega) hpos hlt
      have hmin : min (fileSize img inode) n = n := by omega
      rw [hmin] at hread hnext
      obtain ⟨results, last, hrest, hlast, hbytes⟩ := ih hnext
        (fun m hm => hcounts m (List.mem_cons_of_mem _ hm)) (by omega)
      refine ⟨_, last, readAll_cons hread hrest, ?_, ?_⟩
      · rwa [List.sum_cons, ← Nat.add_assoc]
      · rw [List.map_cons, List.flatten_cons, hbytes, List.sum_cons, List.range_add,
          List.map_append, List.map_map]
        refine congrArg _ (List.map_congr_left fun i _ => ?_)
        rw [Function.comp_apply, Nat.add_assoc]

/-- An empty file is delivered by any reads. -/
theorem FileAt.readAll_empty {k : Kernel} {img : Image} {fd inode : Nat} {counts : List Nat}
    (haligned : img.filesysAddr % MEM_SIZE_4kB = 0) (hempty : fileSize img inode = 0)
    (hfile : FileAt k fd inode 0) (hcounts : ∀ n ∈ counts, 0 < n ∧ n < 2 ^ 31) :
    ∃ results last, Ece391.readAll img fd k counts = some (results, last) ∧
      FileAt last fd inode 0 ∧ (results.map Prod.snd).flatten = [] := by
  induction counts generalizing k with
  | nil => exact ⟨[], k, rfl, hfile, rfl⟩
  | cons n rest ih =>
      obtain ⟨hpos, hlt⟩ := hcounts n List.mem_cons_self
      obtain ⟨next, hread, hnext⟩ := hfile.read_within haligned (by omega) (by omega) hpos hlt
      rw [hempty, Nat.zero_min] at hread hnext
      obtain ⟨results, last, hrest, hlast, hbytes⟩ := ih hnext
        fun m hm => hcounts m (List.mem_cons_of_mem _ hm)
      refine ⟨_, last, readAll_cons hread hrest, hlast, ?_⟩
      rw [List.map_cons, List.flatten_cons, hbytes]
      rfl

section OneFile

variable {k : Kernel} {img : Image} {fd inode : Nat} {counts : List Nat}

/-- A descriptor that was just opened delivers its file in order when the file is
empty, there is one read at the most, or the reads stay inside the file. -/
theorem FileAt.readsInOrder (haligned : img.filesysAddr % MEM_SIZE_4kB = 0)
    (hlength : fileSize img inode ≤ 1023 * MEM_SIZE_4kB) (hfile : FileAt k fd inode 0)
    (hcounts : ∀ n ∈ counts, 0 < n ∧ n < 2 ^ 31)
    (hfits : fileSize img inode = 0 ∨ counts.length ≤ 1 ∨ counts.sum ≤ fileSize img inode) :
    ReadsInOrder img inode fd k counts := by
  rintro done rest rfl
  have hdone : ∀ n ∈ done, 0 < n ∧ n < 2 ^ 31 := fun n hn => hcounts n (List.mem_append_left _ hn)
  obtain ⟨results, last, hreads, hlast, hbytes⟩ : ∃ results last,
      Ece391.readAll img fd k done = some (results, last) ∧
        FileAt last fd inode (min (fileSize img inode) done.sum) ∧
        (results.map Prod.snd).flatten =
          img.fileBytes inode (min (fileSize img inode) done.sum) := by
    -- in each case the position stays inside the file up to the last read
    rcases hfits with hempty | hshort | hsum
    · obtain ⟨results, last, hreads, hlast, hbytes⟩ := hfile.readAll_empty haligned hempty hdone
      refine ⟨results, last, hreads, ?_, ?_⟩ <;> rw [hempty, Nat.zero_min]
      · exact hlast
      · exact hbytes
    · cases done with
      | nil => exact ⟨[], k, rfl, by simpa using hfile, by simp [Image.fileBytes]⟩
      | cons n more =>
          obtain rfl : more = [] := by
            rw [List.length_append, List.length_cons] at hshort
            exact List.eq_nil_of_length_eq_zero (by omega)
          obtain ⟨hpos, hlt⟩ := hdone n List.mem_cons_self
          obtain ⟨next, hread, hnext⟩ := hfile.read_within haligned hlength (Nat.zero_le _) hpos hlt
          refine ⟨_, next, readAll_cons hread rfl, ?_, ?_⟩
          · simpa using hnext
          · simp [Image.fileBytes]
    · rw [List.sum_append] at hsum
      obtain ⟨results, last, hreads, hlast, hbytes⟩ :=
        hfile.readAll_within haligned hlength hdone (by omega)
      have hmin : min (fileSize img inode) done.sum = done.sum := by omega
      rw [Nat.zero_add] at hlast
      refine ⟨results, last, hreads, by rwa [hmin], ?_⟩
      rw [hbytes, hmin, Image.fileBytes]
      simp only [Nat.zero_add]
  refine ⟨results, last, hreads, hlast.fPosOf, by rw [hlast.fPosOf, hbytes], ?_⟩
  rintro n more rfl
  obtain ⟨hpos, hlt⟩ := hcounts n (by simp)
  obtain ⟨next, hread, -⟩ := hlast.read_within haligned hlength (Nat.min_le_left _ _) hpos hlt
  have hreported : min (fileSize img inode) n =
      min n (fileSize img inode - min (fileSize img inode) done.sum) := by
    rw [List.sum_append, List.sum_cons, List.length_append, List.length_cons] at hfits
    have hnil : done.length = 0 → done.sum = 0 := fun hlen => by
      rw [List.eq_nil_of_length_eq_zero hlen, List.sum_nil]
    omega
  rw [hlast.fPosOf, ← hreported]
  exact ⟨_, next, hread⟩

/-- The other direction needs the last read only: it reports the length cut to its
count, which is more than is left unless it stays inside the file. -/
theorem FileAt.fits_of_readsInOrder (haligned : img.filesysAddr % MEM_SIZE_4kB = 0)
    (hlength : fileSize img inode ≤ 1023 * MEM_SIZE_4kB) (hfile : FileAt k fd inode 0)
    (hcounts : ∀ n ∈ counts, 0 < n ∧ n < 2 ^ 31) (horder : ReadsInOrder img inode fd k counts) :
    fileSize img inode = 0 ∨ counts.length ≤ 1 ∨ counts.sum ≤ fileSize img inode := by
  by_cases hshort : counts.length ≤ 1
  · exact .inr (.inl hshort)
  have hne : counts ≠ [] := by
    rintro rfl
    simp at hshort
  obtain ⟨done, n, rfl⟩ : ∃ done n, counts = done ++ [n] :=
    ⟨_, _, (List.dropLast_append_getLast hne).symm⟩
  obtain ⟨results, last, hreads, hposition, -, hlast⟩ := horder done [n] rfl
  obtain ⟨out, next, hread⟩ := hlast n [] rfl
  obtain ⟨hpos, hlt⟩ := hcounts n (by simp)
  have hfile' := hfile.readAll (fun m hm => hcounts m (List.mem_append_left _ hm)) hreads
  obtain ⟨next', hread', -⟩ := hfile'.read_within haligned hlength (by omega) hpos hlt
  rw [hread'] at hread
  have hreported : ((min (fileSize img inode) n : Nat) : Int) =
      (min n (fileSize img inode - last.fPosOf fd) : Nat) := by
    injection hread with hpair
    injection hpair with hreturned
    injection hreturned
  have hreported := Int.ofNat.inj hreported
  rw [List.length_append, List.length_singleton] at hshort
  obtain ⟨first, more, rfl⟩ : ∃ first more, done = first :: more :=
    List.exists_cons_of_ne_nil (by rintro rfl; simp at hshort)
  have hfirst := (hcounts first (by simp)).1
  rw [List.sum_cons] at hposition
  rw [List.sum_append, List.sum_singleton, List.sum_cons]
  omega

end OneFile

/-- A file opened by the displayed and running process is delivered in order exactly
when it is empty, there is one read at the most, or the reads stay inside the file. -/
theorem reads_in_order {k after : Kernel} {img : Image} {filename : List UInt8} {entry : Dentry}
    {fd : Nat} {out : List UInt8} {counts : List Nat} (hwf : img.WellFormed)
    (hshown : k.currTerminal = k.currScheduled)
    (hfind : readDentryByName img filename = some entry) (hregular : entry.fileType = 2)
    (hopen : k.open_ img (some filename) = some (.returned fd out, after))
    (hcounts : ∀ n ∈ counts, 0 < n ∧ n < 2 ^ 31) :
    ReadsInOrder img entry.inodeNum fd after counts ↔
      fileSize img entry.inodeNum = 0 ∨ counts.length ≤ 1 ∨
        counts.sum ≤ fileSize img entry.inodeNum := by
  have hfile := FileAt.of_open hshown hfind hregular hopen
  have hlength := hwf.regular_length hfind hregular
  exact ⟨hfile.fits_of_readsInOrder hwf.aligned hlength hcounts,
    hfile.readsInOrder hwf.aligned hlength hcounts⟩

/-! ## The smallest file -/

theorem shellImage_wellFormed : shellImage.WellFormed where
  aligned := by decide
  fits := by decide
  dentrys := by decide
  regular := by decide
  length := by decide
  blocks := by decide

theorem shellImage_dentry :
    ∃ entry, readDentryByName shellImage shellCommand = some entry ∧ entry.fileType = 2 ∧
      entry.inodeNum = 0 :=
  ⟨shellImage.loadDentry 0x410040, by decide +kernel, by decide, by decide⟩

/-- A fresh process that is displayed opens its first file on the third descriptor. -/
theorem Launched.open_eq {k after : Kernel} {i : Nat} {args : List UInt8} {regs : Regs}
    {img : Image} {filename : List UInt8} {entry : Dentry}
    (hlaunched : Launched k i args regs after)
    (hfind : readDentryByName img filename = some entry) (hregular : entry.fileType = 2) :
    ∃ opened, after.open_ img (some filename) = some (.returned (2 : Nat) [], opened) := by
  have hdisplayed : after.displayedPcb = getPCB (i + 1) := by
    rw [Kernel.displayedPcb, Kernel.head, hlaunched.heads, hlaunched.currTerminal, update_self]
  have hderef : after.derefPcb after.displayedPcb = some (after.pcb (getPCB (i + 1))) := by
    rw [hdisplayed]
    exact if_pos (getPCB_lt i.succ_pos)
  obtain ⟨old, hfds⟩ := hlaunched.fileArray
  have hfree : ((after.pcb (getPCB (i + 1))).fileArray 2).flags = 0 := by
    rw [hfds]
    simp [initFileArray, List.range', STDI_O, MAX_OPEN_FILES]
  have hslot : Kernel.freeEntry (after.pcb (getPCB (i + 1))).fileArray
      (MAX_OPEN_FILES - STDI_O) STDI_O = 2 := by
    rw [show MAX_OPEN_FILES - STDI_O = 5 + 1 from rfl, Kernel.freeEntry, STDI_O, hfree]
    rfl
  have hroom : ¬ int32 (after.pcb (getPCB (i + 1))).fileArrSize ≥ MAX_OPEN_FILES := by
    rw [hlaunched.fileArrSize]
    decide
  unfold Kernel.open_
  rw [Option.bind_some, hfind]
  dsimp only
  rw [hderef, Option.bind_some, if_neg hroom, hslot, if_neg (by decide)]
  have htable : (Kernel.openedFd entry ((after.pcb (getPCB (i + 1))).fileArray 2)).fopsTable =
      file_table := by
    simp only [Kernel.openedFd, hregular]
  rw [htable]
  exact ⟨_, rfl⟩

/-- After the start-up a second shell on the displayed terminal opens the only file. -/
theorem shellImage_open :
    ∃ k after : Kernel, k.currTerminal = k.currScheduled ∧
      k.open_ shellImage (some shellCommand) = some (.returned (2 : Nat) [], after) := by
  obtain ⟨start, k, s, -, -, hset, hstacks, hscheduled, hshown, -⟩ := shellImage_displayed
  have hlaunching := shellImage_launching hset.toProcessTable hstacks
  obtain ⟨next, hexecute⟩ := Kernel.execute_completes ⟨0, 0⟩ hlaunching rfl shellImage_loadable
  rcases Kernel.execute_cases hexecute with ⟨hrefused, -⟩ | ⟨program, _, _, _, hlaunched⟩
  · rw [hlaunching] at hrefused
    simp at hrefused
  · obtain ⟨entry, hfind, hregular, -⟩ := shellImage_dentry
    obtain ⟨opened, hopen⟩ := hlaunched.open_eq hfind hregular
    refine ⟨next, opened, ?_, hopen⟩
    rw [hlaunched.currTerminal, hlaunched.currScheduled, hshown, hscheduled]

/-- Two bytes and then two more are the whole file. -/
theorem reads_in_order_halves :
    ∃ k after : Kernel, k.currTerminal = k.currScheduled ∧
      k.open_ shellImage (some shellCommand) = some (.returned (2 : Nat) [], after) ∧
      ReadsInOrder shellImage 0 2 after [2, 2] := by
  obtain ⟨k, after, hshown, hopen⟩ := shellImage_open
  obtain ⟨entry, hfind, hregular, hinode⟩ := shellImage_dentry
  have hreads := reads_in_order shellImage_wellFormed hshown hfind hregular hopen
    (by decide : ∀ n ∈ [2, 2], 0 < n ∧ n < 2 ^ 31)
  rw [hinode] at hreads
  exact ⟨k, after, hshown, hopen, hreads.mpr (by decide)⟩

/-- The second read of three bytes reports three although one is left. -/
theorem reads_in_order_overrun :
    shellImage.WellFormed ∧ ∃ k after : Kernel, k.currTerminal = k.currScheduled ∧
      k.open_ shellImage (some shellCommand) = some (.returned (2 : Nat) [], after) ∧
      ¬ ReadsInOrder shellImage 0 2 after [3, 3] := by
  obtain ⟨k, after, hshown, hopen⟩ := shellImage_open
  obtain ⟨entry, hfind, hregular, hinode⟩ := shellImage_dentry
  have hfile := FileAt.of_open hshown hfind hregular hopen
  have hlength := shellImage_wellFormed.regular_length hfind hregular
  rw [hinode] at hfile hlength
  refine ⟨shellImage_wellFormed, k, after, hshown, hopen, fun horder => ?_⟩
  have hfits := hfile.fits_of_readsInOrder shellImage_wellFormed.aligned hlength (by decide) horder
  revert hfits
  decide

/-! ## The walk over the blocks -/

/-- Memory at `buf` once the bytes of a read have been stored there. -/
def storedAt (buf : Nat → UInt8) (out : List UInt8) (index : Nat) : UInt8 :=
  out.getD index (buf index)

/-- Whatever block list a file has and wherever a read starts, what it stores is what a
lookup of every single byte finds, and nothing is stored behind it. -/
theorem block_walk {img : Image} (hwf : img.WellFormed) {inode : Nat}
    (hinode : inode < img.amtInodes) (offset length : Nat) (buf : Nat → UInt8) :
    (∀ i < (readData img inode offset length).1, offset + i < fileSize img inode →
        storedAt buf (readData img inode offset length).2 i =
          img.blockByte (img.blockNumber inode ((offset + i) / MEM_SIZE_4kB))
            ((offset + i) % MEM_SIZE_4kB)) ∧
      ∀ i, (readData img inode offset length).1 ≤ i →
        storedAt buf (readData img inode offset length).2 i = buf i := by
  constructor
  · intro i hi hinside
    rw [← hwf.fileByte_eq hinode hinside]
    rw [readData_eq hwf.aligned] at hi ⊢
    by_cases hpast : offset > fileSize img inode
    · simp [if_pos hpast] at hi
    · rw [if_neg hpast] at hi ⊢
      rw [storedAt, List.getD_eq_getElem?_getD, List.getElem?_map, List.getElem?_range hi]
      rfl
  · intro i hi
    rw [readData_length] at hi
    rw [storedAt, List.getD_eq_getElem?_getD, List.getElem?_eq_none hi, Option.getD_none]

/-- One file of 8200 bytes, whose blocks are 2, 0 and 1. -/
def scatteredFile : Image where
  filesysAddr := 0x410000
  mem addr :=
    if addr < 0x410000 then 0
    else
      match addr - 0x410000 with
      | 0 | 4 => 1
      | 8 => 3
      | 64 => 97
      | 96 => 2
      | 4096 => 8
      | 4097 => 32
      | 4100 => 2
      | 4108 => 1
      | 20478 => 101
      | 20479 => 102
      | 8192 => 103
      | 8193 => 104
      | _ => 0

theorem scatteredFile_wellFormed : scatteredFile.WellFormed where
  aligned := by decide
  fits := by decide
  dentrys := by decide
  regular := by decide
  length := by decide
  blocks := by
    intro inode hinode pos hpos
    obtain rfl : inode = 0 := Nat.lt_one_iff.mp hinode
    have hblock : pos / MEM_SIZE_4kB < 3 := by
      rw [show fileSize scatteredFile 0 = 8200 by decide] at hpos
      simp only [MEM_SIZE_4kB]
      omega
    unfold Image.blockEntry
    generalize pos / MEM_SIZE_4kB = block at hblock
    revert block
    decide

/-- A read over the end of the first block finds the last two bytes of block 2 and the
first two of block 0. -/
theorem block_walk_scattered :
    (readData scatteredFile 0 4094 4).1 = 4 ∧
      ∀ i, storedAt (fun _ => 0) (readData scatteredFile 0 4094 4).2 i =
        [101, 102, 103, 104].getD i 0 := by
  have hcount : (readData scatteredFile 0 4094 4).1 = 4 := by decide +kernel
  refine ⟨hcount, fun i => ?_⟩
  obtain ⟨hstored, hbehind⟩ := block_walk scatteredFile_wellFormed
    (by decide : 0 < scatteredFile.amtInodes) 4094 4 fun _ => 0
  rw [hcount] at hstored hbehind
  have hlength : fileSize scatteredFile 0 = 8200 := by decide
  by_cases hi : i < 4
  · have hlookup : ∀ i < 4,
        scatteredFile.blockByte (scatteredFile.blockNumber 0 ((4094 + i) / MEM_SIZE_4kB))
          ((4094 + i) % MEM_SIZE_4kB) = [101, 102, 103, 104].getD i 0 := by decide
    rw [hstored i hi (by omega), hlookup i hi]
  · rw [hbehind i (by omega), List.getD_eq_getElem?_getD, List.getElem?_eq_none (by simp; omega)]
    rfl

end Ece391
