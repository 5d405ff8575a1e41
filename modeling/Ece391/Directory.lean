import Ece391.Descriptors
import Ece391.RtcTimer

/-! # Enumerating the directory

`dir_read` keeps its position in one global, `dir_index`, whichever descriptor it is
called on. Every `open` of a directory and every `halt` of a process that still holds
one rewinds it, and every read on a directory descriptor advances it.
-/

namespace Ece391

open Function Transition

/-! ## What moves the position -/

/-- What an event does to `dir_index`. -/
inductive DirEffect where
  | keep
  | rewind
  | advance
  deriving DecidableEq

/-- The position after an effect, in a directory of `count` entries. -/
def DirEffect.apply (count : Nat) : DirEffect → Nat → Nat
  | .keep, index => index
  | .rewind, _ => 0
  | .advance, index => if index < count then index + 1 else index

def FdStruct.IsDirectory (fd : FdStruct) : Prop := fd.flags ≠ 0 ∧ fd.fopsTable = dir_table

instance : DecidablePred FdStruct.IsDirectory :=
  fun fd => inferInstanceAs (Decidable (fd.flags ≠ 0 ∧ fd.fopsTable = dir_table))

namespace Kernel

variable (k : Kernel)

/-- The PCB that descriptors are looked up in. -/
abbrev lookup (fd : Nat) : FdStruct := (k.pcb k.displayedPcb).fileArray fd

/-- A read on `fd` reaches `dir_read`. -/
def ReadsDirectory (fd : Int) (buf : Bool) : Prop :=
  (buf = true ∧ 0 ≤ fd ∧ fd < MAX_OPEN_FILES ∧ fd ≠ 1) ∧ k.displayedPcb < _8MB ∧
    (k.lookup fd.toNat).IsDirectory

instance (fd : Int) (buf : Bool) : Decidable (k.ReadsDirectory fd buf) :=
  inferInstanceAs (Decidable (_ ∧ _))

/-- An `open` of this name reaches `dir_open`. -/
def OpensDirectory (img : Image) (filename : Option (List UInt8)) : Prop :=
  int32 (k.pcb k.displayedPcb).fileArrSize < MAX_OPEN_FILES ∧
    ∃ entry ∈ filename.bind (readDentryByName img),
      (openedFd entry (k.lookup (freeEntry (k.pcb k.displayedPcb).fileArray
        (MAX_OPEN_FILES - STDI_O) STDI_O))).fopsTable = dir_table

instance (img : Image) (filename : Option (List UInt8)) :
    Decidable (k.OpensDirectory img filename) :=
  inferInstanceAs (Decidable (_ ∧ _))

/-- The running process holds an open directory descriptor. -/
def HoldsDirectory : Prop :=
  ∃ i < MAX_OPEN_FILES, ((k.pcb k.scheduledPcb).fileArray i).IsDirectory

instance : Decidable k.HoldsDirectory := inferInstanceAs (Decidable (∃ i < _, _))

end Kernel

def dirEffect (img : Image) (k : Kernel) : Event → DirEffect
  | .open_ filename => if k.OpensDirectory img filename then .rewind else .keep
  | .read fd buf _ => if k.ReadsDirectory fd buf then .advance else .keep
  | .halt _ _ => if k.HoldsDirectory then .rewind else .keep
  | _ => .keep

/-! ## The driver -/

theorem fopsAt_dir {addr : Nat} : fopsAt addr = some .dir ↔ addr = dir_table := by
  constructor
  · intro htable
    unfold fopsAt at htable
    split at htable
    · simp at htable
    · split at htable
      · assumption
      · repeat' split at htable
        all_goals simp at htable
  · rintro rfl
    rfl

theorem Image.WellFormed.count_eq {img : Image} (hwf : img.WellFormed) :
    int32 img.amtDentrys = img.amtDentrys := by
  have hle := hwf.dentrys
  rw [int32, if_pos (by omega)]

/-- Entry `index` of the directory. -/
def Image.entry (img : Image) (index : Nat) : Dentry := img.loadDentry (img.dentryAddr index)

theorem Kernel.dirRead_end {img : Image} (hwf : img.WellFormed) {k : Kernel} (nbytes : Int)
    (hend : img.amtDentrys ≤ k.dirIndex) : k.dirRead img nbytes = (.returned 0 [], k) := by
  unfold Kernel.dirRead
  rw [hwf.count_eq, if_pos (by omega)]

/-- Below the entry count a read stops behind the name or at the size asked for. -/
theorem Kernel.dirRead_below {img : Image} {k : Kernel} (nbytes : Int)
    (hmore : (k.dirIndex : Int) < int32 img.amtDentrys) :
    k.dirRead img nbytes =
      let stop := nameStop (img.entry k.dirIndex)
        (if nbytes > FILE_NAME_SIZE then FILE_NAME_SIZE else toU32 nbytes % 256) 0
      (.returned stop ((List.range (stop + 1)).map (img.entry k.dirIndex).byte),
        { k with dirIndex := k.dirIndex + 1 }) := by
  have hindex : ¬ k.dirIndex > img.amtDentrys := by
    unfold int32 at hmore
    split at hmore <;> omega
  unfold Kernel.dirRead
  rw [if_neg (by omega), readDentryByIndex, if_neg hindex]
  rfl

theorem Kernel.dirRead_entry {img : Image} (hwf : img.WellFormed) {k : Kernel} (nbytes : Int)
    (hmore : k.dirIndex < img.amtDentrys) :
    k.dirRead img nbytes =
      let stop := nameStop (img.entry k.dirIndex)
        (if nbytes > FILE_NAME_SIZE then FILE_NAME_SIZE else toU32 nbytes % 256) 0
      (.returned stop ((List.range (stop + 1)).map (img.entry k.dirIndex).byte),
        { k with dirIndex := k.dirIndex + 1 }) := by
  apply k.dirRead_below nbytes
  rw [hwf.count_eq]
  exact Int.ofNat_lt.mpr hmore

/-- `dir_read` advances the position until the last entry has been read. -/
theorem Kernel.dirRead_dirIndex {img : Image} (hwf : img.WellFormed) (k : Kernel) (nbytes : Int) :
    (k.dirRead img nbytes).2.dirIndex = DirEffect.advance.apply img.amtDentrys k.dirIndex := by
  unfold DirEffect.apply
  by_cases hmore : k.dirIndex < img.amtDentrys
  · rw [k.dirRead_entry hwf nbytes hmore]
    exact (if_pos hmore).symm
  · rw [k.dirRead_end hwf nbytes (by omega)]
    exact (if_neg hmore).symm

/-! ## The name of an entry -/

/-- The name of an entry ends at its first NUL byte or fills its 32 bytes. -/
def Dentry.name (entry : Dentry) : List UInt8 := entry.fileName.takeWhile fun c => c ≠ NUL

theorem Image.entry_length (img : Image) (index : Nat) :
    (img.entry index).fileName.length = FILE_NAME_SIZE := by
  simp [Image.entry, Image.loadDentry, Image.bytes, FILE_NAME_SIZE]

/-- Inside its name field an entry holds the bytes of the field. -/
theorem Dentry.byte_eq {entry : Dentry} (hlength : entry.fileName.length = FILE_NAME_SIZE) {i : Nat}
    (hi : i < entry.fileName.length) : entry.byte i = entry.fileName[i] := by
  rw [Dentry.byte, if_pos (by simp only [FILE_NAME_SIZE] at hlength; omega)]
  rw [List.getD_eq_getElem?_getD, List.getElem?_eq_getElem hi, Option.getD_some]

/-- The loop of `dir_read` stops behind the name or at its bound. -/
theorem nameStop_min {entry : Dentry} (hlength : entry.fileName.length = FILE_NAME_SIZE)
    {remaining i : Nat} (hrest : i + remaining ≤ FILE_NAME_SIZE) :
    Kernel.nameStop entry remaining i =
      i + min remaining ((entry.fileName.drop i).takeWhile fun c => c ≠ NUL).length := by
  induction remaining generalizing i with
  | zero =>
      rw [Kernel.nameStop, Nat.zero_min]
      rfl
  | succ remaining ih =>
      have hi : i < entry.fileName.length := by omega
      rw [Kernel.nameStop, Dentry.byte_eq hlength hi, List.drop_eq_getElem_cons hi,
        List.takeWhile_cons]
      by_cases hnul : entry.fileName[i] = NUL
      · simp [hnul]
      · rw [if_neg hnul, if_pos (by simpa using hnul), ih (by omega), List.length_cons]
        omega

/-- With room for the whole field the loop stops behind the name. -/
theorem nameStop_eq {entry : Dentry} (hlength : entry.fileName.length = FILE_NAME_SIZE) :
    Kernel.nameStop entry FILE_NAME_SIZE 0 = entry.name.length := by
  have hle : entry.name.length ≤ entry.fileName.length := (List.takeWhile_prefix _).length_le
  rw [nameStop_min hlength (Nat.zero_add _).le, List.drop_zero, Nat.zero_add, ← Dentry.name]
  omega

/-- As far as the name field goes, the bytes of an entry are the field. -/
theorem Dentry.map_byte_take {entry : Dentry} (hlength : entry.fileName.length = FILE_NAME_SIZE)
    {count : Nat} (hcount : count ≤ FILE_NAME_SIZE) :
    (List.range count).map entry.byte = entry.fileName.take count := by
  apply List.ext_getElem
  · rw [List.length_map, List.length_range, List.length_take, hlength, Nat.min_eq_left hcount]
  · intro i hi hi'
    rw [List.length_take] at hi'
    rw [List.getElem_map, List.getElem_range, List.getElem_take, Dentry.byte_eq hlength (by omega)]

/-- The bytes of an entry start with its name. -/
theorem Dentry.map_byte_name (entry : Dentry) (hlength : entry.fileName.length = FILE_NAME_SIZE) :
    (List.range entry.name.length).map entry.byte = entry.name := by
  have hfront : entry.name <+: entry.fileName := List.takeWhile_prefix _
  rw [Dentry.map_byte_take hlength (hlength ▸ hfront.length_le)]
  exact (List.prefix_iff_eq_take.mp hfront).symm

/-- What a directory descriptor returns in its turn `index`: the name of an entry, then
nothing. -/
def ReturnsEntry (img : Image) (index : Nat) (result : SysReturn) : Prop :=
  if index < img.amtDentrys then
    ∃ out, result = .returned (img.entry index).name.length out ∧
      out.take (img.entry index).name.length = (img.entry index).name
  else result = .returned 0 []

/-- Two positions that nothing a read returns can tell apart. -/
def SameEntry (img : Image) (first second : Nat) : Prop :=
  if first < img.amtDentrys ∧ second < img.amtDentrys then
    (img.entry first).name = (img.entry second).name
  else img.amtDentrys ≤ first ∧ img.amtDentrys ≤ second

/-- A read returns the entry its position stands at. -/
theorem Kernel.dirRead_returns {img : Image} (hwf : img.WellFormed) (k : Kernel) {nbytes : Int}
    (hbytes : FILE_NAME_SIZE ≤ nbytes) : ReturnsEntry img k.dirIndex (k.dirRead img nbytes).1 := by
  unfold ReturnsEntry
  split
  · next hmore =>
    have hcopied : (if nbytes > FILE_NAME_SIZE then FILE_NAME_SIZE else toU32 nbytes % 256) =
        FILE_NAME_SIZE := by
      split
      · rfl
      · next hnot =>
        simp only [FILE_NAME_SIZE, toU32] at hbytes hnot ⊢
        omega
    have hlength := img.entry_length k.dirIndex
    rw [k.dirRead_entry hwf nbytes hmore, hcopied, nameStop_eq hlength]
    refine ⟨_, rfl, ?_⟩
    rw [← List.map_take, List.take_range, Nat.min_eq_left (Nat.le_succ _)]
    exact (img.entry k.dirIndex).map_byte_name hlength
  · next hend =>
    rw [k.dirRead_end hwf nbytes (by omega)]

/-- Where no name is empty, a result fits the positions of one entry only. -/
theorem ReturnsEntry.iff_same {img : Image} {first second : Nat} {result : SysReturn}
    (hnames : ∀ index < img.amtDentrys, (img.entry index).name ≠ [])
    (hfirst : ReturnsEntry img first result) :
    ReturnsEntry img second result ↔ SameEntry img first second := by
  unfold ReturnsEntry SameEntry at *
  by_cases hlt : first < img.amtDentrys <;> by_cases hlt' : second < img.amtDentrys
  · rw [if_pos hlt] at hfirst
    rw [if_pos hlt', if_pos ⟨hlt, hlt'⟩]
    obtain ⟨out, rfl, hname⟩ := hfirst
    constructor
    · rintro ⟨out', heq, hname'⟩
      injection heq with hvalue hout
      subst hout
      rw [← hname, ← hname', Int.ofNat.inj hvalue]
    · intro hsame
      rw [← hsame]
      exact ⟨out, rfl, hname⟩
  · rw [if_pos hlt] at hfirst
    rw [if_neg hlt', if_neg (by omega)]
    obtain ⟨out, rfl, -⟩ := hfirst
    have hpos := List.length_pos_iff.mpr (hnames first hlt)
    constructor
    · intro heq
      injection heq with hvalue
      omega
    · omega
  · rw [if_neg hlt] at hfirst
    rw [if_pos hlt', if_neg (by omega)]
    have hpos := List.length_pos_iff.mpr (hnames second hlt')
    constructor
    · rintro ⟨out, heq, -⟩
      rw [hfirst] at heq
      injection heq with hvalue
      omega
    · omega
  · rw [if_neg hlt] at hfirst
    rw [if_neg hlt', if_neg (by omega)]
    exact ⟨fun _ => by omega, fun _ => hfirst⟩

theorem Kernel.readsDirectory_iff {k : Kernel} {fd : Int} {buf : Bool} :
    k.ReadsDirectory fd buf ↔ k.Reads fd buf .dir := by
  constructor
  · rintro ⟨⟨hbuf, hnonneg, hlt, hstdout⟩, hmapped, hflags, htable⟩
    exact ⟨hbuf, hnonneg, hlt, hstdout, hmapped, hflags, fopsAt_dir.mpr htable⟩
  · intro hreads
    exact ⟨⟨hreads.buf, hreads.nonneg, hreads.lt, hreads.notStdout⟩, hreads.mapped, hreads.inUse,
      fopsAt_dir.mp hreads.table⟩

/-! ## Halting -/

/-- Closing entry `i` by its driver rewinds the directory when it is one. -/
theorem Kernel.fopsClose_dirIndex {k after : Kernel} {fops : Fops} {i : Nat}
    (hclose : k.fopsClose fops i = some after) :
    after.dirIndex = (if fops = .dir then 0 else k.dirIndex) ∧
      ∀ addr, ∀ j ≠ i, (after.pcb addr).fileArray j = (k.pcb addr).fileArray j := by
  cases fops with
  | file =>
      obtain ⟨⟨value, last⟩, hlast, rfl⟩ := Option.map_eq_some_iff.mp hclose
      have hdevices := Kernel.close_devices hlast
      refine ⟨congrArg (fun devices => devices.2.1) hdevices, fun addr j hj => ?_⟩
      rcases Kernel.close_cases hlast with ⟨-, rfl⟩ | ⟨-, -, -, rfl⟩
      · rfl
      · by_cases haddr : addr = k.displayedPcb
        · subst haddr
          rw [Kernel.setPcb_pcb_self]
          exact update_of_ne hj ..
        · exact congrArg (fun pcb : Pcb => pcb.fileArray j) (update_of_ne haddr ..)
  | dir =>
      obtain rfl := Option.some.inj hclose
      exact ⟨rfl, fun _ _ _ => rfl⟩
  | rtc | stdin | stdout =>
      obtain rfl := Option.some.inj hclose
      exact ⟨rfl, fun _ _ _ => rfl⟩

/-- One turn of `halt`'s loop rewinds the directory when it closes one, and touches no other
entry of the PCB. -/
theorem Kernel.closeEntry_dirIndex {k after : Kernel} {addr i : Nat}
    (hclose : k.closeEntry addr i = some after) :
    after.dirIndex = (if ((k.pcb addr).fileArray i).IsDirectory then 0 else k.dirIndex) ∧
      ∀ j ≠ i, (after.pcb addr).fileArray j = (k.pcb addr).fileArray j := by
  unfold Kernel.closeEntry at hclose
  obtain ⟨middle, hmiddle, rfl⟩ := Option.map_eq_some_iff.mp hclose
  obtain ⟨hindex, hothers⟩ : middle.dirIndex =
        (if ((k.pcb addr).fileArray i).IsDirectory then 0 else k.dirIndex) ∧
      ∀ j ≠ i, (middle.pcb addr).fileArray j = (k.pcb addr).fileArray j := by
    split at hmiddle
    · next hflags =>
      obtain ⟨fops, htable, hfops⟩ := Option.bind_eq_some_iff.mp hmiddle
      obtain ⟨hindex, hothers⟩ := Kernel.fopsClose_dirIndex hfops
      have hdir : ((k.pcb addr).fileArray i).IsDirectory ↔ fops = .dir := by
        rw [FdStruct.IsDirectory, ← fopsAt_dir, htable, Option.some.injEq]
        exact and_iff_right hflags
      refine ⟨?_, hothers addr⟩
      rw [hindex]
      simp only [hdir]
    · next hflags =>
      obtain rfl := Option.some.inj hmiddle
      exact ⟨(if_neg fun hdir => hflags hdir.1).symm, fun _ _ => rfl⟩
  refine ⟨hindex, fun j hj => ?_⟩
  rw [Kernel.setPcb_pcb_self, ← hothers j hj]
  exact update_of_ne hj ..

theorem Kernel.closeEntries_dirIndex {k after : Kernel} {addr : Nat}
    (hclose : k.closeEntries addr = some after) :
    after.dirIndex =
      if ∃ i < MAX_OPEN_FILES, ((k.pcb addr).fileArray i).IsDirectory then 0 else k.dirIndex := by
  have hloop : ∀ {entries : List Nat} {k after : Kernel}, entries.Nodup →
      entries.foldlM (fun k i => k.closeEntry addr i) k = some after →
      after.dirIndex =
        if ∃ i ∈ entries, ((k.pcb addr).fileArray i).IsDirectory then 0 else k.dirIndex := by
    intro entries
    induction entries with
    | nil =>
        intro k after _ hloop
        obtain rfl := Option.some.inj hloop
        simp
    | cons i rest ih =>
        intro k after hnodup hloop
        rw [List.foldlM_cons] at hloop
        obtain ⟨middle, hmiddle, hrest⟩ := Option.bind_eq_some_iff.mp hloop
        obtain ⟨hindex, hothers⟩ := Kernel.closeEntry_dirIndex hmiddle
        obtain ⟨hnotMem, hnodup⟩ := List.nodup_cons.mp hnodup
        have hsame : (∃ j ∈ rest, ((middle.pcb addr).fileArray j).IsDirectory) ↔
            ∃ j ∈ rest, ((k.pcb addr).fileArray j).IsDirectory := by
          refine exists_congr fun j => and_congr_right fun hj => ?_
          rw [hothers j fun heq => hnotMem (heq ▸ hj)]
        rw [ih hnodup hrest, hindex]
        simp only [hsame, List.exists_mem_cons_iff]
        split <;> split <;> simp_all
  have hentries := hloop List.nodup_range hclose
  simpa only [List.mem_range] using hentries

theorem Kernel.release_dirIndex {k after : Kernel} (hrelease : k.release = some after) :
    after.dirIndex = if k.HoldsDirectory then 0 else k.dirIndex := by
  unfold Kernel.release at hrelease
  obtain ⟨pcb, -, hrelease⟩ := Option.bind_eq_some_iff.mp hrelease
  obtain ⟨closed, hclosed, rfl⟩ := Option.map_eq_some_iff.mp hrelease
  exact (Kernel.closeEntries_dirIndex hclosed :)

theorem Kernel.halt_dirIndex {k after : Kernel} {img : Image} {status : UInt8} {regs : Regs}
    {result : HaltReturn} (hhalt : k.halt img status regs = some (result, after)) :
    after.dirIndex = if k.HoldsDirectory then 0 else k.dirIndex := by
  unfold Kernel.halt at hhalt
  obtain ⟨released, hrelease, hhalt⟩ := Option.bind_eq_some_iff.mp hhalt
  have hreleased := Kernel.release_dirIndex hrelease
  split at hhalt
  · obtain ⟨parent, -, heq⟩ := Option.map_eq_some_iff.mp hhalt
    obtain ⟨-, rfl⟩ := Prod.mk.inj heq
    exact hreleased
  · obtain ⟨⟨last, final⟩, hexecuted, heq⟩ := Option.map_eq_some_iff.mp hhalt
    obtain ⟨d, -, hreset⟩ := released.resetTerminal_eq
    rw [hreset] at hexecuted
    have hexecute : final.dirIndex = released.dirIndex :=
      congrArg (fun devices => devices.2.1) (Kernel.execute_devices hexecuted)
    cases last <;> obtain ⟨-, rfl⟩ := Prod.mk.inj heq <;> exact hexecute.trans hreleased

/-! ## Every event -/

theorem Kernel.terminalRead_dirIndex (k : Kernel) (nbytes : Int) :
    (k.terminalRead nbytes).2.dirIndex = k.dirIndex := by
  unfold Kernel.terminalRead
  split
  · rfl
  · split <;> rfl

theorem Kernel.fileRead_dirIndex {k after : Kernel} {img : Image} {fd nbytes : Int}
    {result : SysReturn} (hread : k.fileRead img fd nbytes = some (result, after)) :
    after.dirIndex = k.dirIndex := by
  unfold Kernel.fileRead at hread
  split at hread
  · obtain ⟨-, rfl⟩ := Prod.mk.inj (Option.some.inj hread)
    rfl
  · split at hread
    · obtain ⟨-, rfl⟩ := Prod.mk.inj (Option.some.inj hread)
      rfl
    · obtain ⟨pcb, -, heq⟩ := Option.map_eq_some_iff.mp hread
      obtain ⟨-, rfl⟩ := Prod.mk.inj heq
      rfl

theorem Kernel.fopsWrite_dirIndex (k : Kernel) (fops : Fops) (buf : Option (Nat → UInt8))
    (nbytes : Int) : (k.fopsWrite fops buf nbytes).2.dirIndex = k.dirIndex := by
  cases fops with
  | file | dir | stdin => rfl
  | rtc => rcases k.rtcWrite_cases buf nbytes with hcall | ⟨freq, -, -, hcall⟩ <;>
      rw [Kernel.fopsWrite, hcall]
  | stdout =>
      unfold Kernel.fopsWrite Kernel.terminalWrite
      cases buf with
      | none => rfl
      | some buf =>
          dsimp only
          split
          · rfl
          · split <;> rfl

theorem Kernel.read_dirIndex {k after : Kernel} {img : Image} (hwf : img.WellFormed)
    {fd nbytes : Int} {buf : Bool} {result : SysReturn}
    (hread : k.read img fd buf nbytes = some (result, after)) :
    after.dirIndex = (dirEffect img k (.read fd buf nbytes)).apply img.amtDentrys k.dirIndex := by
  unfold dirEffect
  dsimp only
  by_cases hdir : k.ReadsDirectory fd buf
  · rw [(Kernel.readsDirectory_iff.mp hdir).read_eq] at hread
    obtain rfl := congrArg Prod.snd (Option.some.inj hread)
    rw [if_pos hdir]
    exact k.dirRead_dirIndex hwf nbytes
  · rw [if_neg hdir]
    rcases Kernel.read_cases hread with ⟨-, rfl⟩ | ⟨fops, hreads, hread⟩
    · rfl
    · cases fops with
      | dir => exact absurd (Kernel.readsDirectory_iff.mpr hreads) hdir
      | file => exact Kernel.fileRead_dirIndex hread
      | rtc | stdout =>
          obtain rfl := congrArg Prod.snd (Option.some.inj hread)
          rfl
      | stdin =>
          obtain rfl := congrArg Prod.snd (Option.some.inj hread)
          exact k.terminalRead_dirIndex nbytes

theorem Kernel.Opens.opensDirectory_iff {k : Kernel} {img : Image}
    {filename : Option (List UInt8)} {entry : Dentry} {fd : Nat} {fops : Fops}
    (hopens : k.Opens img filename entry fd fops) :
    k.OpensDirectory img filename ↔ fops = .dir := by
  obtain ⟨hfound, -, hroom, rfl, -, htable⟩ := hopens
  rw [Kernel.OpensDirectory, hfound]
  constructor
  · rintro ⟨-, other, hother, hdir⟩
    obtain rfl := Option.some.inj hother
    exact Option.some.inj (htable.symm.trans (fopsAt_dir.mpr hdir))
  · rintro rfl
    exact ⟨hroom, entry, rfl, fopsAt_dir.mp htable⟩

theorem Kernel.open_dirIndex {k after : Kernel} {img : Image} {filename : Option (List UInt8)}
    {result : SysReturn} (hopen : k.open_ img filename = some (result, after)) :
    after.dirIndex = (dirEffect img k (.open_ filename)).apply img.amtDentrys k.dirIndex := by
  unfold dirEffect
  dsimp only
  rcases Kernel.open_cases hopen with ⟨-, rfl, hnone⟩ | ⟨entry, fd, fops, hopens, -, rfl⟩
  · rw [if_neg]
    · rfl
    · rintro ⟨hroom, entry, hfound, -⟩
      rw [hnone hroom] at hfound
      simp at hfound
  · simp only [hopens.opensDirectory_iff]
    cases fops <;> rfl

/-- The position is a function of the effects. -/
theorem step_dirIndex {img : Image} (hwf : img.WellFormed) {k next : Kernel} {event : Event}
    (hstep : step img k event = some next) :
    next.dirIndex = (dirEffect img k event).apply img.amtDentrys k.dirIndex := by
  have hdevices : ∀ {after : Kernel}, after.devices = k.devices → after.dirIndex = k.dirIndex :=
    fun heq => congrArg (fun devices => devices.2.1) heq
  cases event with
  | tick ebp inner => exact hdevices (Kernel.pitHandler_devices hstep)
  | key c =>
      obtain rfl := Option.some.inj hstep
      rfl
  | rtc =>
      obtain rfl := Option.some.inj hstep
      rfl
  | execute command regs =>
      obtain ⟨⟨result, last⟩, hexecute, rfl⟩ := Option.map_eq_some_iff.mp hstep
      exact hdevices (Kernel.execute_devices hexecute)
  | halt status regs =>
      obtain ⟨⟨result, last⟩, hhalt, rfl⟩ := Option.map_eq_some_iff.mp hstep
      -- the loop of `halt` closes the directories too, and their `close` rewinds
      have hindex := Kernel.halt_dirIndex hhalt
      unfold dirEffect
      dsimp only
      rw [hindex]
      split <;> rfl
  | read fd buf nbytes =>
      obtain ⟨⟨result, last⟩, hread, rfl⟩ := Option.map_eq_some_iff.mp hstep
      exact Kernel.read_dirIndex hwf hread
  | write fd buf nbytes =>
      obtain ⟨⟨result, last⟩, hwrite, rfl⟩ := Option.map_eq_some_iff.mp hstep
      rcases Kernel.write_cases hwrite with ⟨-, rfl⟩ | ⟨fops, -, heq⟩
      · rfl
      · obtain rfl := congrArg Prod.snd heq
        exact k.fopsWrite_dirIndex fops buf nbytes
  | open_ filename =>
      obtain ⟨⟨result, last⟩, hopen, rfl⟩ := Option.map_eq_some_iff.mp hstep
      exact Kernel.open_dirIndex hopen
  | close fd =>
      obtain ⟨⟨value, last⟩, hclose, rfl⟩ := Option.map_eq_some_iff.mp hstep
      exact hdevices (Kernel.close_devices hclose)
  | getargs buf nbytes =>
      simp only [step, Option.map_eq_some_iff] at hstep
      obtain ⟨⟨result, last⟩, hargs, rfl⟩ := hstep
      obtain rfl := Kernel.getargs_same hargs
      rfl
  | vidmap screenStart =>
      obtain ⟨⟨result, last⟩, hvidmap, rfl⟩ := Option.map_eq_some_iff.mp hstep
      unfold Kernel.vidmap at hvidmap
      split at hvidmap
      · obtain ⟨-, rfl⟩ := Prod.mk.inj (Option.some.inj hvidmap)
        rfl
      · obtain ⟨stored, hstored, heq⟩ := Option.map_eq_some_iff.mp hvidmap
        obtain ⟨-, rfl⟩ := Prod.mk.inj heq
        exact congrArg (fun devices => devices.2.1) (Kernel.storeUserBytes_devices hstored)

/-! ## Runs -/

/-- A read by the process whose PCB is at `owner` on its descriptor `fd`. -/
def ownRead (owner : Nat) (fd : Int) (fired : Fired Kernel Event) : Bool :=
  match fired.event with
  | .read other buf _ => buf && decide (other = fd ∧ fired.pre.scheduledPcb = owner)
  | _ => false

/-- How many reads a descriptor has had. -/
def ownReads (owner : Nat) (fd : Int) (history : List (Fired Kernel Event)) : Nat :=
  history.countP (ownRead owner fd)

/-- The reads on any directory descriptor since the last event that rewound the directory,
as far as there were entries for them. -/
def readsSinceRewind (img : Image) (history : List (Fired Kernel Event)) : Nat :=
  history.foldl (fun index fired =>
    (dirEffect img fired.pre fired.event).apply img.amtDentrys index) 0

theorem Run.dirIndex_eq {img : Image} (hwf : img.WellFormed) {start last : Kernel}
    {history : List (Fired Kernel Event)} (hrun : Run (step img) start history last)
    (hstart : start.dirIndex = 0) : last.dirIndex = readsSinceRewind img history := by
  induction hrun with
  | start => exact hstart
  | extend prior hstep ih =>
      rw [readsSinceRewind, List.foldl_append, ← readsSinceRewind, ← ih]
      exact step_dirIndex hwf hstep

/-- Every read on a directory descriptor since its `open` returns the next entry exactly
when as many reads have been made since the directory was last rewound as on the
descriptor since its `open`, or both numbers lead to the same name. -/
theorem directory_enumerated {img : Image} {k start last : Kernel}
    {filename : Option (List UInt8)} {fd : Nat} {out : List UInt8}
    {history : List (Fired Kernel Event)} (hwf : img.WellFormed)
    (hnames : ∀ index < img.amtDentrys, (img.entry index).name ≠ [])
    (hdir : k.OpensDirectory img filename)
    (hopen : k.open_ img filename = some (.returned fd out, start))
    (hrun : Run (step img) start history last) :
    ∀ index fired, history[index]? = some fired →
      ∀ nbytes : Int, FILE_NAME_SIZE ≤ nbytes → fired.event = .read fd true nbytes →
        fired.pre.scheduledPcb = k.scheduledPcb → fired.pre.ReadsDirectory fd true →
          ∃ result, fired.pre.read img fd true nbytes = some (result, fired.post) ∧
            (ReturnsEntry img (ownReads k.scheduledPcb fd (history.take index)) result ↔
              SameEntry img (readsSinceRewind img (history.take index))
                (ownReads k.scheduledPcb fd (history.take index))) := by
  have hstart : start.dirIndex = 0 := by
    rw [Kernel.open_dirIndex hopen, dirEffect, if_pos hdir]
    rfl
  rintro index fired hfired nbytes hbytes hevent - hreads
  obtain ⟨hprior, hstep⟩ := hrun.before hfired
  have hread := (Kernel.readsDirectory_iff.mp hreads).read_eq img nbytes
  rw [hevent, step, hread] at hstep
  have hpost : (fired.pre.dirRead img nbytes).2 = fired.post := Option.some.inj hstep
  refine ⟨(fired.pre.dirRead img nbytes).1, ?_, ?_⟩
  · rw [hread, ← hpost]
    rfl
  · rw [← Run.dirIndex_eq hwf hprior hstart]
    exact (fired.pre.dirRead_returns hwf hbytes).iff_same hnames

/-! ## Two descriptors -/

section TwoDescriptors

variable {img : Image} {k : Kernel}

/-- The calls of a displayed and running process look its own table up. -/
theorem FdsSound.readsDirectory_iff (hsound : FdsSound img k) {fd : Nat} :
    k.ReadsDirectory fd true ↔ fd < MAX_OPEN_FILES ∧ fd ≠ 1 ∧ (k.fds fd).IsDirectory := by
  rw [Kernel.ReadsDirectory, Kernel.lookup, hsound.displayed, Int.toNat_natCast]
  constructor
  · rintro ⟨⟨-, -, hlt, hne⟩, -, hdir⟩
    exact ⟨by omega, by omega, hdir⟩
  · rintro ⟨hlt, hne, hdir⟩
    exact ⟨⟨rfl, by omega, by omega, by omega⟩, hsound.mapped, hdir⟩

/-- A directory is opened on a new descriptor, and the others stay directories. -/
theorem FdsSound.open_directory (hsound : FdsSound img k) (hwf : img.WellFormed)
    (htypes : img.TypesKnown) (hroom : k.openFds.card < MAX_OPEN_FILES) {filename : List UInt8}
    {entry : Dentry} (hfind : readDentryByName img filename = some entry)
    (htype : entry.fileType = 1) :
    ∃ fd : Nat, ∃ next, k.open_ img (some filename) = some (.returned fd [], next) ∧
      k.OpensDirectory img (some filename) ∧ FdsSound img next ∧ next.dirIndex = 0 ∧
      next.scheduledPcb = k.scheduledPcb ∧ next.openFds.card = k.openFds.card + 1 ∧
      next.ReadsDirectory fd true ∧ (∀ other : Nat, k.ReadsDirectory other true →
        next.ReadsDirectory other true) := by
  obtain ⟨fd, next, hopen, hnext, ⟨⟨hlow, hlt, hfree⟩, -⟩, hfds, hcard⟩ :=
    hsound.open_found hwf htypes hroom hfind
  have hdesc : descOf entry = ⟨dir_table, 0, 0, FD_FLAG_PRESENT + FD_FLAG_DIRECTORY⟩ := by
    simp only [descOf, htype]
  have hdirectory : k.OpensDirectory img (some filename) := by
    rcases Kernel.open_cases hopen with ⟨hfailed, -⟩ | ⟨found, slot, fops, hopens, -, -⟩
    · injection hfailed with hvalue
      omega
    · refine ⟨hopens.room, entry, hfind, ?_⟩
      rw [openedFd_eq (by omega), hdesc]
  refine ⟨fd, next, hopen, hdirectory, hnext, ?_, (Kernel.open_same hopen).scheduledPcb,
    hcard, ?_, ?_⟩
  · rw [Kernel.open_dirIndex hopen, dirEffect, if_pos hdirectory]
    rfl
  · rw [hnext.readsDirectory_iff, hfds, update_self, hdesc]
    refine ⟨hlt, ?_, by decide⟩
    simp only [STDI_O] at hlow
    omega
  · intro other hother
    rw [hsound.readsDirectory_iff] at hother
    rw [hnext.readsDirectory_iff, hfds]
    obtain ⟨hothers, hne, hdir⟩ := hother
    have hdistinct : other ≠ fd := by
      rintro rfl
      exact hdir.1 hfree
    rw [update_of_ne hdistinct]
    exact ⟨hothers, hne, hdir⟩

/-- A read on a directory descriptor leaves it one. -/
theorem FdsSound.read_directory (hsound : FdsSound img k) (hwf : img.WellFormed)
    {fd : Nat} (hreads : k.ReadsDirectory fd true) (nbytes : Int) :
    ∃ next, k.read img fd true nbytes = some ((k.dirRead img nbytes).1, next) ∧
      FdsSound img next ∧ next.dirIndex = DirEffect.advance.apply img.amtDentrys k.dirIndex ∧
      next.scheduledPcb = k.scheduledPcb ∧ next.openFds = k.openFds ∧
      next.ReadsDirectory fd true := by
  have hread := (Kernel.readsDirectory_iff.mp hreads).read_eq img nbytes
  change _ = some ((k.dirRead img nbytes).1, (k.dirRead img nbytes).2) at hread
  have hsame := Kernel.read_same hread
  have htable := SameTable.of_pcb hsame (k.dirRead_pcb img nbytes)
  have hnext := hsound.same hsame htable
  refine ⟨_, hread, hnext, k.dirRead_dirIndex hwf nbytes, hsame.scheduledPcb, ?_, ?_⟩
  · rw [Kernel.openFds, htable.fds, Kernel.openFds]
  · rw [hnext.readsDirectory_iff, htable.fds]
    exact hsound.readsDirectory_iff.mp hreads

end TwoDescriptors

theorem threeFiles_names : ∀ index < threeFiles.amtDentrys, (threeFiles.entry index).name ≠ [] := by
  decide +kernel

/-- A shell that has opened the directory. -/
theorem threeFiles_opened :
    ∃ k start : Kernel, ∃ fd : Nat, k.OpensDirectory threeFiles (some (ascii ['.'])) ∧
      k.open_ threeFiles (some (ascii ['.'])) = some (.returned fd [], start) ∧
      FdsSound threeFiles start ∧ start.dirIndex = 0 ∧ start.scheduledPcb = k.scheduledPcb ∧
      start.ReadsDirectory fd true ∧ start.openFds.card < MAX_OPEN_FILES := by
  obtain ⟨-, start, -, -, hsound, hcount, -⟩ := threeFiles_entered
  obtain ⟨entry, hfind, htype, -⟩ := threeFiles_dir
  obtain ⟨fd, next, hopen, hdirectory, hnext, hindex, hpcb, hcard, hreads, -⟩ :=
    hsound.open_directory threeFiles_wellFormed threeFiles_typesKnown (by rw [hcount]; decide)
      hfind htype
  exact ⟨start, next, fd, hdirectory, hopen, hnext, hindex, hpcb, hreads,
    by rw [hcard, hcount]; decide⟩

/-- The second read on the first descriptor returns the second entry. -/
theorem directory_enumerated_second :
    ∃ k start last : Kernel, ∃ (fd : Nat) (result : SysReturn),
      k.open_ threeFiles (some (ascii ['.'])) = some (.returned fd [], start) ∧
      (∃ history, Run (step threeFiles) start history last ∧
        history.map Fired.event = [.read fd true 32, .read fd true 32] ∧
        ∃ fired, history[1]? = some fired ∧
          fired.pre.read threeFiles fd true 32 = some (result, fired.post)) ∧
      ReturnsEntry threeFiles 1 result := by
  obtain ⟨k, start, fd, hdirectory, hopen, hsound, hindex, hpcb, hreads, -⟩ := threeFiles_opened
  obtain ⟨read, hfirst, hread, -, hreadPcb, -, hreads'⟩ :=
    hsound.read_directory threeFiles_wellFormed hreads 32
  obtain ⟨last, hsecond, -⟩ := hread.read_directory threeFiles_wellFormed hreads' 32
  have hstep : step threeFiles start (.read fd true 32) = some read := by
    rw [step, hfirst]
    rfl
  have hstep' : step threeFiles read (.read fd true 32) = some last := by
    rw [step, hsecond]
    rfl
  have hrun := ((Run.start start).extend hstep).extend hstep'
  obtain ⟨result, hresult, hreturns⟩ := directory_enumerated threeFiles_wellFormed threeFiles_names
    hdirectory hopen hrun 1 _ rfl 32 (by decide) rfl (hreadPcb.trans hpcb) hreads'
  refine ⟨k, start, last, fd, result, hopen, ⟨_, hrun, rfl, _, rfl, hresult⟩, ?_⟩
  -- one read on any directory since the open, and one on this descriptor
  have hsince : readsSinceRewind threeFiles [⟨start, .read fd true 32, read⟩] = 1 := by
    rw [readsSinceRewind, List.foldl_cons, dirEffect, if_pos hreads]
    decide
  have hown : ownReads k.scheduledPcb fd [⟨start, .read fd true 32, read⟩] = 1 := by
    simp [ownReads, ownRead, hpcb]
  change ReturnsEntry _ (ownReads k.scheduledPcb fd [⟨start, .read fd true 32, read⟩]) _ ↔
    SameEntry _ (readsSinceRewind threeFiles [⟨start, .read fd true 32, read⟩])
      (ownReads k.scheduledPcb fd [⟨start, .read fd true 32, read⟩]) at hreturns
  rw [hsince, hown] at hreturns
  apply hreturns.mpr
  unfold SameEntry
  split
  · rfl
  · next hcount =>
      exact absurd (by decide : 1 < threeFiles.amtDentrys ∧ 1 < threeFiles.amtDentrys) hcount

/-- The directory is opened a second time between two reads on the first descriptor: the
second of them returns the first entry again. -/
theorem directory_not_enumerated :
    threeFiles.WellFormed ∧
      (∀ index < threeFiles.amtDentrys, (threeFiles.entry index).name ≠ []) ∧
      ∃ k start read opened last : Kernel, ∃ (fd other : Nat) (first second : SysReturn),
        k.open_ threeFiles (some (ascii ['.'])) = some (.returned fd [], start) ∧
        start.read threeFiles fd true 32 = some (first, read) ∧
        read.open_ threeFiles (some (ascii ['.'])) = some (.returned other [], opened) ∧
        opened.read threeFiles fd true 32 = some (second, last) ∧
        ReturnsEntry threeFiles 0 first ∧ ¬ ReturnsEntry threeFiles 1 second := by
  obtain ⟨k, start, fd, -, hopen, hsound, hindex, -, hreads, hroom⟩ := threeFiles_opened
  obtain ⟨entry, hfind, htype, -⟩ := threeFiles_dir
  obtain ⟨read, hfirst, hread, -, -, hfds, hreads'⟩ :=
    hsound.read_directory threeFiles_wellFormed hreads 32
  obtain ⟨other, opened, hopen', -, hopened, hindex', -, -, -, hkept⟩ :=
    hread.open_directory threeFiles_wellFormed threeFiles_typesKnown (by rw [hfds]; exact hroom)
      hfind htype
  obtain ⟨last, hsecond, -⟩ := hopened.read_directory threeFiles_wellFormed (hkept fd hreads') 32
  have hreturned :=
    start.dirRead_returns threeFiles_wellFormed (by decide : (FILE_NAME_SIZE : Int) ≤ 32)
  have hreturned' :=
    opened.dirRead_returns threeFiles_wellFormed (by decide : (FILE_NAME_SIZE : Int) ≤ 32)
  rw [hindex] at hreturned
  rw [hindex'] at hreturned'
  refine ⟨threeFiles_wellFormed, threeFiles_names, k, start, read, opened, last, fd, other, _, _,
    hopen, hfirst, hopen', hsecond, hreturned, ?_⟩
  rw [hreturned'.iff_same threeFiles_names]
  unfold SameEntry
  decide +kernel

end Ece391
