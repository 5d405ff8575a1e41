import Ece391.FileReads
import Ece391.Lib.SlotTable
import Mathlib.Order.Bounds.Basic

/-! # The descriptor table

A process that is displayed and running works on its own table. Its count is the
number of open descriptors after every call, `open` takes the first free one, and
what fails changes nothing.
-/

namespace Ece391

open Function Transition

/-! ## Calls on descriptors -/

inductive Call where
  | open_ (filename : Option (List UInt8))
  | close (fd : Int)
  | read (fd : Int) (buf : Bool) (nbytes : Int)
  | write (fd : Int) (buf : Option (Nat → UInt8)) (nbytes : Int)

/-- The event a call is for the machine. -/
def Call.event : Call → Event
  | .open_ filename => .open_ filename
  | .close fd => .close fd
  | .read fd buf nbytes => .read fd buf nbytes
  | .write fd buf nbytes => .write fd buf nbytes

namespace Kernel

variable (k : Kernel)

def call (img : Image) : Call → Option (SysReturn × Kernel)
  | .open_ filename => k.open_ img filename
  | .close fd => (k.close fd).map fun result => (.returned result.1 [], result.2)
  | .read fd buf nbytes => k.read img fd buf nbytes
  | .write fd buf nbytes => k.write fd buf nbytes

/-- The descriptors of the running process. -/
def fds : Nat → FdStruct := (k.pcb k.scheduledPcb).fileArray

/-- Its `file_arr_size`. -/
def fdCount : Nat := (k.pcb k.scheduledPcb).fileArrSize

end Kernel

theorem step_call (img : Image) (k : Kernel) (call : Call) :
    step img k call.event = (k.call img call).map Prod.snd := by
  cases call with
  | close fd =>
      rw [Kernel.call, Option.map_map]
      rfl
  | open_ | read | write => rfl

/-! ## What a table holds -/

def FdStruct.Free (fd : FdStruct) : Prop := fd.flags = 0

instance : DecidablePred FdStruct.Free := fun fd => inferInstanceAs (Decidable (fd.flags = 0))

/-- The descriptors in use. -/
def Kernel.openFds (k : Kernel) : Finset Nat := SlotTable.used FdStruct.Free k.fds MAX_OPEN_FILES

/-- The descriptor of an entry of the directory: its operation table, its type, and the
inode of a regular file. -/
def descOf (entry : Dentry) : FdStruct :=
  match entry.fileType with
  | 0 => ⟨rtc_table, 0, 0, FD_FLAG_PRESENT + FD_FLAG_RTC⟩
  | 1 => ⟨dir_table, 0, 0, FD_FLAG_PRESENT + FD_FLAG_DIRECTORY⟩
  | _ => ⟨file_table, entry.inodeNum, 0, FD_FLAG_PRESENT + FD_FLAG_FILE⟩

/-- The running process is displayed, its count is right, its first two descriptors are
the terminal's, and every other open one belongs to an entry of the directory. -/
structure FdsSound (img : Image) (k : Kernel) : Prop where
  shown : k.currTerminal = k.currScheduled
  mapped : k.scheduledPcb < _8MB
  count : k.fdCount = k.openFds.card
  stdin : k.fds 0 = stdinFd
  stdout : k.fds 1 = stdoutFd
  opened : ∀ fd, STDI_O ≤ fd → fd < MAX_OPEN_FILES → ¬ (k.fds fd).Free →
    ∃ filename entry, readDentryByName img filename = some entry ∧
      k.fds fd = { descOf entry with fPos := (k.fds fd).fPos }

/-- Nothing in the table differs. -/
structure SameTable (k next : Kernel) : Prop where
  fds : next.fds = k.fds
  count : next.fdCount = k.fdCount

/-- The three file types of the file system. -/
def Image.TypesKnown (img : Image) : Prop :=
  ∀ index < img.amtDentrys, (img.loadDentry (img.dentryAddr index)).fileType ≤ 2

/-- What a call on the table `fds` returns and leaves behind. -/
def CallLaw (img : Image) (k : Kernel) (result : SysReturn) (next : Kernel) : Call → Prop
  | .open_ filename =>
      match filename.bind (readDentryByName img) with
      | none => result = failed ∧ SameTable k next
      | some entry =>
          if k.openFds.card < MAX_OPEN_FILES then
            ∃ fd : Nat, IsLeast {i | STDI_O ≤ i ∧ i < MAX_OPEN_FILES ∧ (k.fds i).Free} fd ∧
              result = .returned fd [] ∧ next.fds = update k.fds fd (descOf entry)
          else result = failed ∧ SameTable k next
  | .close fd =>
      if STDI_O ≤ fd ∧ fd < MAX_OPEN_FILES ∧ ¬ (k.fds fd.toNat).Free then
        result = .returned 0 [] ∧
          next.fds = update k.fds fd.toNat { k.fds fd.toNat with flags := 0 }
      else result = failed ∧ SameTable k next
  | .read fd buf _ =>
      (buf = false ∨ fd < 0 ∨ fd ≥ MAX_OPEN_FILES ∨ fd = 1 ∨ (k.fds fd.toNat).Free →
        result = failed) ∧
      (∀ out, result = .returned (-1) out → SameTable k next) ∧
      ∃ fPos, next.fds = update k.fds fd.toNat { k.fds fd.toNat with fPos := fPos }
  | .write fd buf _ =>
      (buf = none ∨ fd < 0 ∨ fd ≥ MAX_OPEN_FILES ∨ fd = 0 ∨ (k.fds fd.toNat).Free ∨
          (k.fds fd.toNat).fopsTable ∈ [file_table, dir_table] → result = failed) ∧
      SameTable k next

/-! ## Steps that leave the table alone -/

theorem SameTable.refl (k : Kernel) : SameTable k k := ⟨rfl, rfl⟩

theorem SameProcesses.scheduledPcb {k next : Kernel} (hsame : SameProcesses k next) :
    next.scheduledPcb = k.scheduledPcb := by
  rw [Kernel.scheduledPcb, Kernel.head, hsame.heads, hsame.currScheduled]
  rfl

/-- No PCB is stored to. -/
theorem SameTable.of_pcb {k next : Kernel} (hsame : SameProcesses k next)
    (hpcb : next.pcb = k.pcb) : SameTable k next := by
  constructor
  · rw [Kernel.fds, hsame.scheduledPcb, hpcb]
    rfl
  · rw [Kernel.fdCount, hsame.scheduledPcb, hpcb]
    rfl

section Rewritten

variable {img : Image} {k next : Kernel} {fd : Nat} {desc : FdStruct}

theorem FdsSound.displayed (hsound : FdsSound img k) : k.displayedPcb = k.scheduledPcb := by
  exact congrArg (fun t => getPCB (k.head t)) hsound.shown

/-- The driver finds the running process's PCB. -/
theorem FdsSound.deref (hsound : FdsSound img k) :
    k.derefPcb k.displayedPcb = some (k.pcb k.scheduledPcb) := by
  rw [hsound.displayed]
  exact if_pos hsound.mapped

theorem FdsSound.same (hsound : FdsSound img k) (hprocesses : SameProcesses k next)
    (htable : SameTable k next) : FdsSound img next where
  shown := hprocesses.currTerminal.trans (hsound.shown.trans hprocesses.currScheduled.symm)
  mapped := hprocesses.scheduledPcb.trans_lt hsound.mapped
  count := by rw [htable.count, Kernel.openFds, htable.fds, hsound.count, Kernel.openFds]
  stdin := by rw [htable.fds, hsound.stdin]
  stdout := by rw [htable.fds, hsound.stdout]
  opened := by
    rw [htable.fds]
    exact hsound.opened

/-- One descriptor behind the terminal's is stored to, and the count with it. -/
theorem FdsSound.store (hsound : FdsSound img k) (hprocesses : SameProcesses k next)
    (hfds : next.fds = update k.fds fd desc) (hlow : STDI_O ≤ fd)
    (hcount : next.fdCount = next.openFds.card)
    (hdesc : ¬ desc.Free → ∃ filename entry, readDentryByName img filename = some entry ∧
      desc = { descOf entry with fPos := desc.fPos }) : FdsSound img next where
  shown := hprocesses.currTerminal.trans (hsound.shown.trans hprocesses.currScheduled.symm)
  mapped := hprocesses.scheduledPcb.trans_lt hsound.mapped
  count := hcount
  stdin := by
    rw [hfds, update_of_ne (by simp only [STDI_O] at hlow; omega), hsound.stdin]
  stdout := by
    rw [hfds, update_of_ne (by simp only [STDI_O] at hlow; omega), hsound.stdout]
  opened := by
    intro i hle hlt htaken
    rw [hfds] at htaken ⊢
    by_cases hi : i = fd
    · subst hi
      rw [update_self] at htaken ⊢
      exact hdesc htaken
    · rw [update_of_ne hi] at htaken ⊢
      exact hsound.opened i hle hlt htaken

end Rewritten

theorem descOf_cases {entry : Dentry} (htype : entry.fileType ≤ 2) :
    descOf entry = ⟨rtc_table, 0, 0, FD_FLAG_PRESENT + FD_FLAG_RTC⟩ ∨
      descOf entry = ⟨dir_table, 0, 0, FD_FLAG_PRESENT + FD_FLAG_DIRECTORY⟩ ∨
      entry.fileType = 2 ∧
        descOf entry = ⟨file_table, entry.inodeNum, 0, FD_FLAG_PRESENT + FD_FLAG_FILE⟩ := by
  rcases entry with ⟨fileName, fileType, inodeNum, reserved⟩
  dsimp only at htype
  have hcases : fileType = 0 ∨ fileType = 1 ∨ fileType = 2 := by omega
  rcases hcases with rfl | rfl | rfl
  · exact .inl rfl
  · exact .inr (.inl rfl)
  · exact .inr (.inr ⟨rfl, rfl⟩)

theorem descOf_present (entry : Dentry) : FD_FLAG_PRESENT &&& (descOf entry).flags ≠ 0 := by
  unfold descOf
  split <;> simp only [FD_FLAG_PRESENT, FD_FLAG_RTC, FD_FLAG_DIRECTORY, FD_FLAG_FILE] <;> decide

theorem descOf_not_free (entry : Dentry) : ¬ (descOf entry).Free := by
  unfold FdStruct.Free descOf
  split <;> simp only [FD_FLAG_PRESENT, FD_FLAG_RTC, FD_FLAG_DIRECTORY, FD_FLAG_FILE] <;> decide

/-- Where the present bit says what the other flags say, `open` searches for the first
descriptor without flags. -/
theorem freeEntry_eq {fds : Nat → FdStruct} {remaining fd : Nat}
    (hpresent : ∀ i, fd ≤ i → i < fd + remaining →
      (FD_FLAG_PRESENT &&& (fds i).flags = 0 ↔ (fds i).Free)) :
    Kernel.freeEntry fds remaining fd = SlotTable.firstFree FdStruct.Free fds remaining fd := by
  rw [freeEntry_firstFree]
  exact SlotTable.firstFree_congr hpresent

/-- An entry of a type the directory can hold fills in the whole descriptor. -/
theorem openedFd_eq {entry : Dentry} (htype : entry.fileType ≤ 2) (old : FdStruct) :
    Kernel.openedFd entry old = descOf entry := by
  rcases entry with ⟨fileName, fileType, inodeNum, reserved⟩
  dsimp only at htype
  have hcases : fileType = 0 ∨ fileType = 1 ∨ fileType = 2 := by omega
  rcases hcases with rfl | rfl | rfl <;> rfl

/-! ## Each call -/

section Calls

variable {img : Image} {k next : Kernel} {result : SysReturn}

/-- Every open descriptor jumps through a table of its own, and one of a regular file has
the inode of a file that the image bounds. -/
theorem FdsSound.fops (hsound : FdsSound img k) (hwf : img.WellFormed) (htypes : img.TypesKnown)
    {fd : Nat} (hlt : fd < MAX_OPEN_FILES) (hopen : ¬ (k.fds fd).Free) :
    ∃ fops, fopsAt (k.fds fd).fopsTable = some fops ∧
      (fops = .file → STDI_O ≤ fd ∧ fileSize img (k.fds fd).inode ≤ 1023 * MEM_SIZE_4kB) ∧
      ((k.fds fd).fopsTable ∈ [file_table, dir_table] → fops = .file ∨ fops = .dir) := by
  by_cases hlow : STDI_O ≤ fd
  · obtain ⟨filename, entry, hfind, hdesc⟩ := hsound.opened fd hlow hlt hopen
    obtain ⟨index, hindex, hentry⟩ := hwf.dentry_mem hfind
    have htype := htypes index hindex
    rw [← hentry] at htype
    rw [hdesc]
    dsimp only
    rcases descOf_cases htype with hrtc | hdir | ⟨hregular, hfile⟩
    · rw [hrtc]
      exact ⟨.rtc, rfl, by simp, by decide⟩
    · rw [hdir]
      exact ⟨.dir, rfl, by simp, by decide⟩
    · rw [hfile]
      exact ⟨.file, rfl, fun _ => ⟨hlow, hwf.regular_length hfind hregular⟩, fun _ => .inl rfl⟩
  · have hcases : fd = 0 ∨ fd = 1 := by
      simp only [STDI_O] at hlow
      omega
    rcases hcases with rfl | rfl
    · rw [hsound.stdin]
      exact ⟨.stdin, rfl, by simp, by decide⟩
    · rw [hsound.stdout]
      exact ⟨.stdout, rfl, by simp, by decide⟩

theorem Kernel.openFds_card_le (k : Kernel) : k.openFds.card ≤ MAX_OPEN_FILES := by
  calc k.openFds.card ≤ (Finset.range MAX_OPEN_FILES).card := Finset.card_filter_le _ _
    _ = MAX_OPEN_FILES := Finset.card_range _

/-- A read that is refused. -/
theorem callLaw_read_failed (fd : Int) (buf : Bool) (nbytes : Int) :
    CallLaw img k failed k (.read fd buf nbytes) :=
  ⟨fun _ => rfl, fun _ _ => .refl k, (k.fds fd.toNat).fPos, (update_eq_self _ _).symm⟩

theorem Kernel.dirRead_pcb (k : Kernel) (img : Image) (nbytes : Int) :
    (k.dirRead img nbytes).2.pcb = k.pcb := by
  unfold Kernel.dirRead
  split
  · rfl
  · split <;> rfl

theorem Kernel.terminalRead_pcb (k : Kernel) (nbytes : Int) :
    (k.terminalRead nbytes).2.pcb = k.pcb := by
  unfold Kernel.terminalRead
  split
  · rfl
  · split <;> rfl

/-- Only the driver of a regular file stores to the table. -/
theorem Kernel.fopsRead_pcb {fops : Fops} (k : Kernel) (img : Image) (fd nbytes : Int)
    (hfile : fops ≠ .file) :
    ∃ result next, k.fopsRead img fops fd nbytes = some (result, next) ∧ next.pcb = k.pcb := by
  cases fops with
  | file => exact absurd rfl hfile
  | dir => exact ⟨_, _, rfl, k.dirRead_pcb img nbytes⟩
  | rtc => exact ⟨_, _, rfl, rfl⟩
  | stdin => exact ⟨_, _, rfl, k.terminalRead_pcb nbytes⟩
  | stdout => exact ⟨_, _, rfl, rfl⟩

/-- `file_read` moves the position and never reports -1 for a count that is not negative. -/
theorem FdsSound.fileRead (hsound : FdsSound img k) (hwf : img.WellFormed) {fd : Nat}
    (hlength : fileSize img (k.fds fd).inode ≤ 1023 * MEM_SIZE_4kB) (nbytes : Int) :
    ∃ result next, k.fileRead img fd nbytes = some (result, next) ∧
      (∀ out, result = .returned (-1) out → next = k) ∧
      (∃ fPos, next.fds = update k.fds fd { k.fds fd with fPos := fPos }) ∧
      next.fdCount = k.fdCount := by
  have hkept : k.fds = update k.fds fd { k.fds fd with fPos := (k.fds fd).fPos } :=
    (update_eq_self _ _).symm
  unfold Kernel.fileRead
  split
  · exact ⟨_, _, rfl, fun _ _ => rfl, ⟨_, hkept⟩, rfl⟩
  split
  · exact ⟨_, _, rfl, fun _ _ => rfl, ⟨_, hkept⟩, rfl⟩
  rw [hsound.deref, Option.map_some, hsound.displayed, Int.toNat_natCast]
  refine ⟨_, _, rfl, fun out hfailed => ?_, ?_, ?_⟩
  · exfalso
    injection hfailed with hvalue
    change int32 (readData img (k.fds fd).inode (k.fds fd).fPos (toU32 nbytes)).1 = -1 at hvalue
    rw [readData_eq hwf.aligned] at hvalue
    simp only [MEM_SIZE_4kB] at hlength
    split at hvalue
    · simp [int32] at hvalue
    · rw [int32, if_pos (by dsimp only; omega)] at hvalue
      omega
  · refine ⟨u32 ((k.fds fd).fPos +
      (readData img (k.fds fd).inode (k.fds fd).fPos (toU32 nbytes)).1), ?_⟩
    rw [Kernel.fds, Kernel.setPcb_scheduledPcb, Kernel.setPcb_pcb_self]
    rfl
  · rw [Kernel.fdCount, Kernel.setPcb_scheduledPcb, Kernel.setPcb_pcb_self]
    rfl

/-- Moving the position of a descriptor leaves the table sound. -/
theorem FdsSound.move (hsound : FdsSound img k) (hprocesses : SameProcesses k next) {fd fPos : Nat}
    (hlow : STDI_O ≤ fd) (hlt : fd < MAX_OPEN_FILES) (hopen : ¬ (k.fds fd).Free)
    (hfds : next.fds = update k.fds fd { k.fds fd with fPos := fPos })
    (hcount : next.fdCount = k.fdCount) : FdsSound img next := by
  apply hsound.store hprocesses hfds hlow
  · have hused : SlotTable.used FdStruct.Free (update k.fds fd { k.fds fd with fPos := fPos })
        MAX_OPEN_FILES = SlotTable.used FdStruct.Free k.fds MAX_OPEN_FILES :=
      SlotTable.used_keep Iff.rfl
    rw [hcount, hsound.count, Kernel.openFds, Kernel.openFds, hfds, hused]
  · intro _
    obtain ⟨filename, entry, hfind, hdesc⟩ := hsound.opened fd hlow hlt hopen
    refine ⟨filename, entry, hfind, ?_⟩
    rw [hdesc]

/-- A read moves the position of its own descriptor at the most. -/
theorem FdsSound.read (hsound : FdsSound img k) (hwf : img.WellFormed) (htypes : img.TypesKnown)
    (fd : Int) (buf : Bool) (nbytes : Int) :
    ∃ result next, k.read img fd buf nbytes = some (result, next) ∧
      CallLaw img k result next (.read fd buf nbytes) ∧ FdsSound img next := by
  by_cases hbad : !buf ∨ fd ≥ MAX_OPEN_FILES ∨ fd < 0 ∨ fd = 1
  · exact ⟨failed, k, if_pos hbad, callLaw_read_failed fd buf nbytes, hsound⟩
  by_cases hfree : (k.fds fd.toNat).Free
  · refine ⟨failed, k, ?_, callLaw_read_failed fd buf nbytes, hsound⟩
    unfold Kernel.read
    rw [if_neg hbad, hsound.deref, Option.bind_some]
    exact if_pos hfree
  obtain ⟨hbuf, hhigh, hlow, hstdout⟩ : buf = true ∧ fd < MAX_OPEN_FILES ∧ 0 ≤ fd ∧ fd ≠ 1 := by
    simp only [not_or] at hbad
    simp at hbad
    omega
  lift fd to Nat using hlow
  rw [Int.toNat_natCast] at hfree
  obtain ⟨fops, hfops, hfile, -⟩ := hsound.fops hwf htypes (by omega) hfree
  have hread : k.read img fd buf nbytes = k.fopsRead img fops fd nbytes := by
    unfold Kernel.read
    rw [if_neg hbad, hsound.deref, Option.bind_some]
    refine (if_neg hfree).trans ?_
    rw [show fopsAt ((k.pcb k.scheduledPcb).fileArray (fd : Int).toNat).fopsTable =
      some fops from hfops, Option.bind_some]
  have hnot : ¬ (buf = false ∨ (fd : Int) < 0 ∨ (fd : Int) ≥ MAX_OPEN_FILES ∨ (fd : Int) = 1 ∨
      (k.fds fd).Free) := by
    rintro (hnull | hneg | hbig | hone | hclosed)
    · simp [hbuf] at hnull
    · omega
    · omega
    · exact hstdout hone
    · exact hfree hclosed
  by_cases hregular : fops = .file
  · subst hregular
    obtain ⟨hlow, hlength⟩ := hfile rfl
    obtain ⟨result, next, heq, hfailed, ⟨fPos, hfds⟩, hcount⟩ := hsound.fileRead hwf hlength nbytes
    refine ⟨result, next, hread.trans heq,
      ⟨fun hrefused => absurd hrefused hnot, ?_, fPos, hfds⟩, ?_⟩
    · intro out hout
      rw [hfailed out hout]
      exact .refl k
    · exact hsound.move (Kernel.read_same (hread.trans heq)) hlow (by omega) hfree hfds hcount
  · obtain ⟨result, next, heq, hpcb⟩ := k.fopsRead_pcb img fd nbytes hregular
    have hprocesses := Kernel.read_same (hread.trans heq)
    have hsame := SameTable.of_pcb hprocesses hpcb
    refine ⟨result, next, hread.trans heq, ⟨fun hrefused => absurd hrefused hnot, fun _ _ => hsame,
      (k.fds fd).fPos, ?_⟩, hsound.same hprocesses hsame⟩
    rw [hsame.fds]
    exact (update_eq_self _ _).symm

theorem Kernel.fopsWrite_pcb {fops : Fops} (k : Kernel) (buf : Option (Nat → UInt8))
    (nbytes : Int) : (k.fopsWrite fops buf nbytes).2.pcb = k.pcb := by
  cases fops with
  | file | dir | stdin => rfl
  | rtc =>
      unfold Kernel.fopsWrite Kernel.rtcWrite
      dsimp only
      split
      · rfl
      · split
        · rfl
        · split <;> rfl
  | stdout =>
      unfold Kernel.fopsWrite Kernel.terminalWrite
      dsimp only
      split
      · rfl
      · split
        · rfl
        · split <;> rfl

/-- A write leaves every descriptor as it is. -/
theorem FdsSound.write (hsound : FdsSound img k) (hwf : img.WellFormed) (htypes : img.TypesKnown)
    (fd : Int) (buf : Option (Nat → UInt8)) (nbytes : Int) :
    ∃ result next, k.write fd buf nbytes = some (result, next) ∧
      CallLaw img k result next (.write fd buf nbytes) ∧ FdsSound img next := by
  have hfailed : CallLaw img k failed k (.write fd buf nbytes) := ⟨fun _ => rfl, .refl k⟩
  by_cases hbad : buf.isNone ∨ fd ≥ MAX_OPEN_FILES ∨ fd < 0 ∨ fd = 0
  · exact ⟨failed, k, if_pos hbad, hfailed, hsound⟩
  by_cases hfree : (k.fds fd.toNat).Free
  · refine ⟨failed, k, ?_, hfailed, hsound⟩
    unfold Kernel.write
    rw [if_neg hbad, hsound.deref, Option.bind_some]
    exact if_pos hfree
  obtain ⟨hbuf, hhigh, hlow, hstdin⟩ : buf ≠ none ∧ fd < MAX_OPEN_FILES ∧ 0 ≤ fd ∧ fd ≠ 0 := by
    simp only [not_or] at hbad
    simp at hbad
    exact ⟨by simpa using hbad.1, by omega, by omega, by omega⟩
  lift fd to Nat using hlow
  rw [Int.toNat_natCast] at hfree
  obtain ⟨fops, hfops, -, htable⟩ := hsound.fops hwf htypes (by omega) hfree
  by_cases hfile : (k.fds fd).flags &&& FD_FLAG_FILE ≠ 0
  · refine ⟨failed, k, ?_, hfailed, hsound⟩
    unfold Kernel.write
    rw [if_neg hbad, hsound.deref, Option.bind_some]
    exact (if_neg hfree).trans (if_pos hfile)
  have hwrite : k.write fd buf nbytes = some (k.fopsWrite fops buf nbytes) := by
    unfold Kernel.write
    rw [if_neg hbad, hsound.deref, Option.bind_some]
    refine (if_neg hfree).trans ((if_neg hfile).trans ?_)
    rw [show fopsAt ((k.pcb k.scheduledPcb).fileArray (fd : Int).toNat).fopsTable =
      some fops from hfops]
    rfl
  have hprocesses := Kernel.write_same hwrite
  have hsame := SameTable.of_pcb hprocesses (k.fopsWrite_pcb buf nbytes)
  refine ⟨_, _, hwrite, ⟨?_, hsame⟩, hsound.same hprocesses hsame⟩
  rintro (hnull | hneg | hbig | hzero | hclosed | hdirection)
  · exact absurd hnull hbuf
  · omega
  · omega
  · exact absurd hzero hstdin
  · exact absurd hclosed hfree
  · rcases htable hdirection with rfl | rfl <;> rfl

/-- `close` frees the open descriptors behind the terminal's and no others. -/
theorem FdsSound.close (hsound : FdsSound img k) (fd : Int) :
    ∃ result next, k.call img (.close fd) = some (result, next) ∧
      CallLaw img k result next (.close fd) ∧ FdsSound img next := by
  have hrefused : k.close fd = some (-1, k) →
      ¬ (STDI_O ≤ fd ∧ fd < MAX_OPEN_FILES ∧ ¬ (k.fds fd.toNat).Free) →
      ∃ result next, k.call img (.close fd) = some (result, next) ∧
        CallLaw img k result next (.close fd) ∧ FdsSound img next := by
    intro hclose hbad
    refine ⟨failed, k, by rw [Kernel.call, hclose]; rfl, ?_, hsound⟩
    rw [CallLaw, if_neg hbad]
    exact ⟨rfl, .refl k⟩
  by_cases hrange : fd < STDI_O ∨ fd ≥ MAX_OPEN_FILES
  · exact hrefused (if_pos hrange) (by omega)
  by_cases hfree : (k.fds fd.toNat).Free
  · refine hrefused ?_ (by tauto)
    unfold Kernel.close
    rw [if_neg hrange, hsound.deref, Option.map_some]
    exact congrArg some (if_pos hfree)
  have hlow : STDI_O ≤ fd.toNat := by omega
  have hlt : fd.toNat < MAX_OPEN_FILES := by omega
  have hcall : k.close fd = some (0, k.setPcb k.scheduledPcb
      { k.pcb k.scheduledPcb with
        fileArrSize := u32 (k.fdCount + (2 ^ 32 - 1))
        fileArray := update k.fds fd.toNat { k.fds fd.toNat with flags := 0 } }) := by
    unfold Kernel.close
    rw [if_neg hrange, hsound.deref, Option.map_some, hsound.displayed]
    exact congrArg some (if_neg hfree)
  have hprocesses := Kernel.close_same hcall
  generalize hnext : k.setPcb k.scheduledPcb _ = next at hcall hprocesses
  have hfds : next.fds = update k.fds fd.toNat { k.fds fd.toNat with flags := 0 } := by
    rw [Kernel.fds, hprocesses.scheduledPcb, ← hnext, Kernel.setPcb_pcb_self]
  have hcount : next.fdCount = u32 (k.fdCount + (2 ^ 32 - 1)) := by
    rw [Kernel.fdCount, hprocesses.scheduledPcb, ← hnext, Kernel.setPcb_pcb_self]
  refine ⟨.returned 0 [], next, by rw [Kernel.call, hcall]; rfl, ?_, ?_⟩
  · rw [CallLaw, if_pos ⟨by omega, by omega, hfree⟩]
    exact ⟨rfl, hfds⟩
  · apply hsound.store hprocesses hfds hlow
    · -- the entry was in use, so that the count does not wrap around
      have hcard : (SlotTable.used FdStruct.Free
            (update k.fds fd.toNat { k.fds fd.toNat with flags := 0 }) MAX_OPEN_FILES).card + 1 =
          (SlotTable.used FdStruct.Free k.fds MAX_OPEN_FILES).card :=
        SlotTable.card_used_release hlt hfree rfl
      rw [← hfds] at hcard
      have hle := k.openFds_card_le
      rw [hcount, hsound.count]
      simp only [Kernel.openFds, MAX_OPEN_FILES, u32] at hcard hle ⊢
      omega
    · intro hopen
      exact absurd rfl hopen

/-- In a table that is not full the search finds the least free descriptor behind the
terminal's. -/
theorem FdsSound.least_free (hsound : FdsSound img k) (hroom : k.openFds.card < MAX_OPEN_FILES) :
    IsLeast {i | STDI_O ≤ i ∧ i < MAX_OPEN_FILES ∧ (k.fds i).Free}
      (Kernel.freeEntry k.fds (MAX_OPEN_FILES - STDI_O) STDI_O) := by
  have hsearch : Kernel.freeEntry k.fds (MAX_OPEN_FILES - STDI_O) STDI_O =
      SlotTable.firstFree FdStruct.Free k.fds (MAX_OPEN_FILES - STDI_O) STDI_O := by
    apply freeEntry_eq
    intro i hle hlt
    constructor
    · intro habsent
      by_contra htaken
      obtain ⟨filename, entry, -, hdesc⟩ := hsound.opened i hle hlt htaken
      rw [hdesc] at habsent
      exact descOf_present entry habsent
    · intro hfree
      rw [show (k.fds i).flags = 0 from hfree]
      rfl
  -- the slots of the terminal are taken, so the free slot is one the search looks at
  obtain ⟨i, hi, hifree⟩ := SlotTable.exists_free hroom
  have hilow : STDI_O ≤ i := by
    by_contra hlow
    have hcases : i = 0 ∨ i = 1 := by
      simp only [STDI_O] at hlow
      omega
    rcases hcases with rfl | rfl
    · rw [hsound.stdin] at hifree
      exact absurd hifree (by decide)
    · rw [hsound.stdout] at hifree
      exact absurd hifree (by decide)
  obtain ⟨hfirst, hfree⟩ := SlotTable.firstFree_spec hilow
    (show i < STDI_O + (MAX_OPEN_FILES - STDI_O) from hi) hifree
  rw [hsearch]
  refine ⟨⟨SlotTable.le_firstFree _ _ _, hfirst.trans_lt hi, hfree⟩, ?_⟩
  rintro j ⟨hle, -, hjfree⟩
  by_contra hlt
  exact SlotTable.taken_of_lt_firstFree hle (not_le.mp hlt) hjfree

/-- `open` takes the first free descriptor for an entry of the directory. -/
theorem FdsSound.open_ (hsound : FdsSound img k) (hwf : img.WellFormed) (htypes : img.TypesKnown)
    (filename : Option (List UInt8)) :
    ∃ result next, k.open_ img filename = some (result, next) ∧
      CallLaw img k result next (.open_ filename) ∧ FdsSound img next := by
  have hle := k.openFds_card_le
  have hint : int32 k.fdCount = k.openFds.card := by
    rw [hsound.count, int32, if_pos (by simp only [MAX_OPEN_FILES] at hle; omega)]
  cases hfound : filename.bind (readDentryByName img) with
  | none =>
      refine ⟨failed, k, ?_, ?_, hsound⟩
      · unfold Kernel.open_
        rw [hfound]
      · rw [CallLaw, hfound]
        exact ⟨rfl, .refl k⟩
  | some entry =>
      by_cases hfull : k.openFds.card < MAX_OPEN_FILES
      swap
      · refine ⟨failed, k, ?_, ?_, hsound⟩
        · unfold Kernel.open_
          rw [hfound]
          dsimp only
          rw [hsound.deref, Option.bind_some]
          apply if_pos
          change int32 k.fdCount ≥ _
          rw [hint]
          omega
        · rw [CallLaw, hfound]
          dsimp only
          rw [if_neg hfull]
          exact ⟨rfl, .refl k⟩
      -- with room in the table the search stops at a free entry, so that the count may grow
      have hleast := hsound.least_free hfull
      obtain ⟨⟨hlow, hlt, hfree⟩, -⟩ := id hleast
      generalize hslot : Kernel.freeEntry k.fds (MAX_OPEN_FILES - STDI_O) STDI_O = fd at *
      obtain ⟨name, hfind⟩ : ∃ name, readDentryByName img name = some entry := by
        obtain ⟨name, -, hfind⟩ := Option.bind_eq_some_iff.mp hfound
        exact ⟨name, hfind⟩
      obtain ⟨index, hindex, hentry⟩ := hwf.dentry_mem hfind
      have htype : entry.fileType ≤ 2 := hentry ▸ htypes index hindex
      obtain ⟨fops, hfops⟩ : ∃ fops, fopsAt (descOf entry).fopsTable = some fops := by
        rcases descOf_cases htype with hdesc | hdesc | ⟨-, hdesc⟩ <;> rw [hdesc]
        exacts [⟨.rtc, rfl⟩, ⟨.dir, rfl⟩, ⟨.file, rfl⟩]
      have hopen : k.open_ img filename =
          some (.returned fd [], (k.setPcb k.scheduledPcb
            { k.pcb k.scheduledPcb with
              fileArray := update k.fds fd (descOf entry)
              fileArrSize := u32 (k.fdCount + 1) }).fopsOpen fops) := by
        unfold Kernel.open_
        rw [hfound]
        dsimp only
        rw [hsound.deref, Option.bind_some]
        refine (if_neg (by change ¬ int32 k.fdCount ≥ _; rw [hint]; omega)).trans ?_
        rw [show Kernel.freeEntry (k.pcb k.scheduledPcb).fileArray _ _ = fd from hslot,
          if_neg (by omega), openedFd_eq htype, hfops, hsound.displayed]
        rfl
      have hprocesses := Kernel.open_same hopen
      have hkept : ∀ kernel : Kernel, (kernel.fopsOpen fops).pcb = kernel.pcb := by
        intro kernel
        cases fops <;> rfl
      -- the handlers of the types write to no PCB
      generalize hnext : Kernel.fopsOpen _ fops = next at hopen hprocesses
      have hpcb : next.pcb k.scheduledPcb = { k.pcb k.scheduledPcb with
          fileArray := update k.fds fd (descOf entry)
          fileArrSize := u32 (k.fdCount + 1) } := by
        rw [← hnext, hkept, Kernel.setPcb_pcb_self]
      have hfds : next.fds = update k.fds fd (descOf entry) := by
        rw [Kernel.fds, hprocesses.scheduledPcb, hpcb]
      have hcount : next.fdCount = u32 (k.fdCount + 1) := by
        rw [Kernel.fdCount, hprocesses.scheduledPcb, hpcb]
      refine ⟨_, next, hopen, ?_, ?_⟩
      · rw [CallLaw, hfound]
        dsimp only
        rw [if_pos hfull]
        exact ⟨fd, hleast, rfl, hfds⟩
      · apply hsound.store hprocesses hfds hlow
        · have hcard : (SlotTable.used FdStruct.Free (update k.fds fd (descOf entry))
                MAX_OPEN_FILES).card =
              (SlotTable.used FdStruct.Free k.fds MAX_OPEN_FILES).card + 1 :=
            SlotTable.card_used_take hlt hfree (descOf_not_free entry)
          rw [hcount, Kernel.openFds, hfds, hcard, hsound.count, Kernel.openFds]
          apply u32_of_lt
          simp only [Kernel.openFds, MAX_OPEN_FILES] at hle ⊢
          omega
        · intro _
          exact ⟨name, entry, hfind, rfl⟩

/-- Every call completes, meets its law and leaves a sound table. -/
theorem FdsSound.call (hsound : FdsSound img k) (hwf : img.WellFormed) (htypes : img.TypesKnown)
    (call : Call) :
    ∃ result next, k.call img call = some (result, next) ∧ CallLaw img k result next call ∧
      FdsSound img next := by
  cases call with
  | open_ filename => exact hsound.open_ hwf htypes filename
  | close fd => exact hsound.close fd
  | read fd buf nbytes => exact hsound.read hwf htypes fd buf nbytes
  | write fd buf nbytes => exact hsound.write hwf htypes fd buf nbytes

/-- An entry is opened on a new descriptor while there is room. -/
theorem FdsSound.open_found (hsound : FdsSound img k) (hwf : img.WellFormed)
    (htypes : img.TypesKnown) (hroom : k.openFds.card < MAX_OPEN_FILES) {filename : List UInt8}
    {entry : Dentry} (hfind : readDentryByName img filename = some entry) :
    ∃ fd : Nat, ∃ next, k.open_ img (some filename) = some (.returned fd [], next) ∧
      FdsSound img next ∧ IsLeast {i | STDI_O ≤ i ∧ i < MAX_OPEN_FILES ∧ (k.fds i).Free} fd ∧
      next.fds = update k.fds fd (descOf entry) ∧ next.openFds.card = k.openFds.card + 1 := by
  obtain ⟨result, next, hopen, hlaw, hnext⟩ := hsound.open_ hwf htypes (some filename)
  rw [CallLaw, Option.bind_some, hfind] at hlaw
  dsimp only at hlaw
  rw [if_pos hroom] at hlaw
  obtain ⟨fd, hleast, rfl, hfds⟩ := hlaw
  refine ⟨fd, next, hopen, hnext, hleast, hfds, ?_⟩
  obtain ⟨⟨-, hlt, hfree⟩, -⟩ := hleast
  rw [Kernel.openFds, hfds]
  exact SlotTable.card_used_take hlt hfree (descOf_not_free entry)

theorem Kernel.mem_openFds {fd : Nat} :
    fd ∈ k.openFds ↔ fd < MAX_OPEN_FILES ∧ ¬ (k.fds fd).Free :=
  SlotTable.mem_used

/-- Where everything below a free descriptor is open, `open` takes this one. -/
theorem FdsSound.open_next (hsound : FdsSound img k) (hwf : img.WellFormed)
    (htypes : img.TypesKnown) {fd : Nat} (hlow : STDI_O ≤ fd) (hlt : fd < MAX_OPEN_FILES)
    (hfree : fd ∉ k.openFds) (htaken : ∀ i < fd, i ∈ k.openFds) {filename : List UInt8}
    {entry : Dentry} (hfind : readDentryByName img filename = some entry) :
    ∃ next, k.open_ img (some filename) = some (.returned fd [], next) ∧ FdsSound img next ∧
      next.openFds = insert fd k.openFds := by
  have hfreeFd : (k.fds fd).Free := by
    by_contra hopen
    exact hfree (Kernel.mem_openFds.mpr ⟨hlt, hopen⟩)
  have hroom : k.openFds.card < MAX_OPEN_FILES := by
    have hsub : k.openFds ⊂ Finset.range MAX_OPEN_FILES :=
      ⟨Finset.filter_subset _ _, fun hall => hfree (hall (Finset.mem_range.mpr hlt))⟩
    simpa only [Finset.card_range] using Finset.card_lt_card hsub
  obtain ⟨slot, next, hopen, hnext, ⟨⟨-, hslotLt, hslotFree⟩, hleast⟩, hfds, -⟩ :=
    hsound.open_found hwf htypes hroom hfind
  have hle : slot ≤ fd := hleast ⟨hlow, hlt, hfreeFd⟩
  have hslot : slot = fd := by
    by_contra hne
    exact (Kernel.mem_openFds.mp (htaken slot (by omega))).2 hslotFree
  subst hslot
  refine ⟨next, hopen, hnext, ?_⟩
  rw [Kernel.openFds, hfds]
  exact SlotTable.used_take hslotLt (descOf_not_free entry)

/-- An open descriptor behind the terminal's is closed. -/
theorem FdsSound.close_open (hsound : FdsSound img k) {fd : Nat} (hlow : STDI_O ≤ fd)
    (hopen : fd ∈ k.openFds) :
    ∃ next, k.call img (.close fd) = some (.returned 0 [], next) ∧ FdsSound img next ∧
      next.openFds = k.openFds.erase fd := by
  obtain ⟨hlt, htaken⟩ := Kernel.mem_openFds.mp hopen
  obtain ⟨result, next, hcall, hlaw, hnext⟩ := hsound.close fd
  rw [CallLaw, if_pos ⟨by omega, by omega, htaken⟩] at hlaw
  obtain ⟨rfl, hfds⟩ := hlaw
  refine ⟨next, hcall, hnext, ?_⟩
  rw [Kernel.openFds, hfds]
  exact SlotTable.used_release rfl

end Calls

/-! ## Runs of one process -/

/-- Calls and interrupts keep the table sound. -/
theorem FdsSound.step {img : Image} {k next : Kernel} {event : Event} (hsound : FdsSound img k)
    (hwf : img.WellFormed) (htypes : img.TypesKnown) (hquiet : event.Quiet)
    (hstep : Ece391.step img k event = some next) : FdsSound img next := by
  have hprocesses := step_same hquiet hstep
  have hcall : ∀ call : Call, call.event = event → FdsSound img next := by
    rintro call rfl
    obtain ⟨result, last, heq, -, hlast⟩ := hsound.call hwf htypes call
    rw [step_call, heq] at hstep
    obtain rfl := Option.some.inj hstep
    exact hlast
  have hkept : next.pcb = k.pcb → FdsSound img next :=
    fun hpcb => hsound.same hprocesses (.of_pcb hprocesses hpcb)
  cases event with
  | tick | execute | halt => exact hquiet.elim
  | key c =>
      obtain rfl := Option.some.inj hstep
      exact hkept rfl
  | rtc =>
      obtain rfl := Option.some.inj hstep
      exact hkept rfl
  | read fd buf nbytes => exact hcall (.read fd buf nbytes) rfl
  | write fd buf nbytes => exact hcall (.write fd buf nbytes) rfl
  | open_ filename => exact hcall (.open_ filename) rfl
  | close fd => exact hcall (.close fd) rfl
  | getargs buf nbytes =>
      simp only [Ece391.step, Option.map_eq_some_iff] at hstep
      obtain ⟨⟨result, last⟩, hargs, rfl⟩ := hstep
      obtain rfl := Kernel.getargs_same hargs
      exact hsound
  | vidmap screenStart =>
      obtain ⟨⟨result, last⟩, hvidmap, rfl⟩ := Option.map_eq_some_iff.mp hstep
      exact hkept (Kernel.vidmap_pcb hvidmap)

theorem initFileArray_stdin (old : Nat → FdStruct) : initFileArray old 0 = stdinFd := by
  simp [initFileArray, List.range', STDI_O, MAX_OPEN_FILES]

theorem initFileArray_stdout (old : Nat → FdStruct) : initFileArray old 1 = stdoutFd := by
  simp [initFileArray, List.range', STDI_O, MAX_OPEN_FILES]

theorem initFileArray_flags (old : Nat → FdStruct) {fd : Nat} (hlow : STDI_O ≤ fd)
    (hlt : fd < MAX_OPEN_FILES) : (initFileArray old fd).flags = 0 := by
  simp only [STDI_O, MAX_OPEN_FILES] at hlow hlt
  have hcases : fd = 2 ∨ fd = 3 ∨ fd = 4 ∨ fd = 5 ∨ fd = 6 ∨ fd = 7 := by omega
  rcases hcases with rfl | rfl | rfl | rfl | rfl | rfl <;>
    simp [initFileArray, List.range', STDI_O, MAX_OPEN_FILES]

theorem Launched.scheduledPcb {k after : Kernel} {i : Nat} {args : List UInt8} {regs : Regs}
    (hlaunched : Launched k i args regs after) (hshown : k.currTerminal = k.currScheduled) :
    after.scheduledPcb = getPCB (i + 1) := by
  rw [Kernel.scheduledPcb, Kernel.head, hlaunched.heads, hlaunched.currScheduled, hshown,
    update_self]

/-- A new process has the terminal's descriptors only. -/
theorem Launched.fdCount {k after : Kernel} {i : Nat} {args : List UInt8} {regs : Regs}
    (hlaunched : Launched k i args regs after) (hshown : k.currTerminal = k.currScheduled) :
    after.fdCount = STDI_O := by
  rw [Kernel.fdCount, hlaunched.scheduledPcb hshown, hlaunched.fileArrSize]

/-- A program that was started from the displayed terminal has a sound table. -/
theorem Launched.fdsSound {k after : Kernel} {i : Nat} {args : List UInt8} {regs : Regs}
    (img : Image) (hlaunched : Launched k i args regs after)
    (hshown : k.currTerminal = k.currScheduled) : FdsSound img after := by
  have hpcb := hlaunched.scheduledPcb hshown
  obtain ⟨old, hfds⟩ := hlaunched.fileArray
  rw [← hpcb] at hfds
  change after.fds = initFileArray old at hfds
  refine
    { shown := by rw [hlaunched.currTerminal, hlaunched.currScheduled, hshown]
      mapped := hpcb.trans_lt (getPCB_lt i.succ_pos)
      count := ?_
      stdin := by rw [hfds, initFileArray_stdin]
      stdout := by rw [hfds, initFileArray_stdout]
      opened := fun fd hlow hlt hopen => ?_ }
  · have hopen : after.openFds = {0, 1} := by
      ext fd
      rw [Kernel.openFds, SlotTable.mem_used, hfds, Finset.mem_insert, Finset.mem_singleton]
      constructor
      · rintro ⟨hlt, htaken⟩
        by_contra hne
        apply htaken
        apply initFileArray_flags old _ hlt
        simp only [STDI_O]
        omega
      · rintro (rfl | rfl)
        · rw [initFileArray_stdin]
          decide
        · rw [initFileArray_stdout]
          decide
    rw [hlaunched.fdCount hshown, hopen]
    rfl
  · rw [hfds] at hopen
    exact absurd (initFileArray_flags old hlow hlt) hopen

/-- From its start on, whatever a displayed and running process calls, its count is the
number of its open descriptors, the terminal's descriptors stay, and every further call
completes and meets its law. -/
theorem descriptor_table {img : Image} {k start last : Kernel}
    {command : Option (List UInt8)} {regs : Regs} {eip : Nat} (hwf : img.WellFormed)
    (htypes : img.TypesKnown) (hshown : k.currTerminal = k.currScheduled)
    (hexecute : k.execute img command regs = some (.entered eip, start))
    (hreach : ReachableVia (step img) (fun _ event => event.Quiet) start last) :
    last.fdCount = last.openFds.card ∧ last.fds 0 = stdinFd ∧ last.fds 1 = stdoutFd ∧
      ∀ call, ∃ result next, last.call img call = some (result, next) ∧
        CallLaw img last result next call ∧ next.fdCount = next.openFds.card := by
  have hstart : FdsSound img start := by
    rcases Kernel.execute_cases hexecute with ⟨-, ⟨value, hvalue⟩, -⟩ |
        ⟨program, -, -, -, hlaunched⟩
    · simp at hvalue
    · exact hlaunched.fdsSound img hshown
  have hlast := hreach.invariant (FdsSound img)
    (fun t event next ht hquiet hstep => ht.step hwf htypes hquiet hstep) hstart
  refine ⟨hlast.count, hlast.stdin, hlast.stdout, fun call => ?_⟩
  obtain ⟨result, next, hcall, hlaw, hnext⟩ := hlast.call hwf htypes call
  exact ⟨result, next, hcall, hlaw, hnext.count⟩

/-! ## A process that opened nothing -/

/-- The descriptors of a process that opened nothing: every open one is the terminal's. -/
def Kernel.TerminalOnly (k : Kernel) (addr : Nat) : Prop :=
  ∀ fd < MAX_OPEN_FILES, ((k.pcb addr).fileArray fd).flags ≠ 0 →
    fopsAt ((k.pcb addr).fileArray fd).fopsTable = some .stdin ∨
      fopsAt ((k.pcb addr).fileArray fd).fopsTable = some .stdout

theorem Kernel.TerminalOnly.closeEntry_completes {k : Kernel} {addr i : Nat}
    (honly : k.TerminalOnly addr) (hi : i < MAX_OPEN_FILES) :
    ∃ after, k.closeEntry addr i = some after ∧ after.TerminalOnly addr := by
  have hclosed : k.closeEntry addr i = some (k.setPcb addr
      { k.pcb addr with
        fileArray := update (k.pcb addr).fileArray i
          { (k.pcb addr).fileArray i with flags := 0 } }) := by
    unfold Kernel.closeEntry
    dsimp only
    split
    · next hflags =>
      rcases honly i hi hflags with htable | htable <;> rw [htable] <;> rfl
    · rfl
  refine ⟨_, hclosed, fun fd hfd hflags => ?_⟩
  simp only [Kernel.setPcb, update_self] at hflags ⊢
  by_cases heq : fd = i
  · subst heq
    rw [update_self] at hflags
    exact absurd rfl hflags
  · rw [update_of_ne heq] at hflags ⊢
    exact honly fd hfd hflags

theorem Kernel.TerminalOnly.release_completes {k : Kernel} (honly : k.TerminalOnly k.scheduledPcb)
    (hscheduled : k.scheduledPcb < _8MB) : ∃ released, k.release = some released := by
  obtain ⟨closed, hclosed⟩ : ∃ closed, Kernel.closeEntries
      { k with
        processCount := k.processCount - 1
        processPerTerminal := update k.processPerTerminal k.currScheduled
          (k.processPerTerminal k.currScheduled - 1) } k.scheduledPcb = some closed :=
    CountedLoop.foldlM_completes (fun k' : Kernel => k'.TerminalOnly k.scheduledPcb)
      (fun k' honly' i hi => honly'.closeEntry_completes (List.mem_range.mp hi)) honly
  unfold Kernel.release
  dsimp only
  change ∃ released, ((k.derefPcb k.scheduledPcb).bind fun _ => _) = some released
  rw [Kernel.derefPcb, if_pos hscheduled, Option.bind_some, hclosed]
  exact ⟨_, rfl⟩

theorem Kernel.TerminalOnly.halt_completes {k : Kernel} (honly : k.TerminalOnly k.scheduledPcb)
    (hscheduled : k.scheduledPcb < _8MB) (hparent : k.hasParent)
    (hmapped : (k.pcb k.scheduledPcb).parentTask < _8MB) (img : Image) (status : UInt8)
    (regs : Regs) : ∃ result after, k.halt img status regs = some (result, after) := by
  obtain ⟨released, hrelease⟩ := honly.release_completes hscheduled
  have hsame := (Kernel.release_released hrelease).context k.scheduledPcb
  have hreturns : (k.pcb k.scheduledPcb).parentTask ≠ NULL := hparent
  unfold Kernel.halt
  dsimp only
  rw [hrelease, Option.bind_some, hsame.parentTask, if_pos hreturns, Kernel.derefPcb,
    if_pos hmapped]
  exact ⟨_, _, rfl⟩

/-- A process that was just launched has the terminal's descriptors. -/
theorem Launched.terminalOnly {k after : Kernel} {i : Nat} {args : List UInt8} {regs : Regs}
    (hlaunched : Launched k i args regs after) : after.TerminalOnly (getPCB (i + 1)) := by
  obtain ⟨old, hfds⟩ := hlaunched.fileArray
  intro fd hfd hflags
  rw [hfds] at hflags ⊢
  by_cases hlow : STDI_O ≤ fd
  · exact absurd (initFileArray_flags old hlow hfd) hflags
  · have hcases : fd = 0 ∨ fd = 1 := by
      simp only [STDI_O] at hlow
      omega
    rcases hcases with rfl | rfl
    · exact .inl rfl
    · exact .inr rfl

/-! ## An image with every type of file -/

/-- The directory, the RTC, and the four bytes of a shell. The directory's entry has an
inode number, which nothing reads. -/
def threeFiles : Image where
  filesysAddr := 0x410000
  mem addr :=
    if addr < 0x410000 then 0
    else
      match addr - 0x410000 with
      | 0 => 3
      | 4 | 8 => 1
      | 64 => 46
      | 96 => 1
      | 100 => 5
      | 128 => 114
      | 129 => 116
      | 130 => 99
      | 192 => 115
      | 193 => 104
      | 194 => 101
      | 195 | 196 => 108
      | 224 => 2
      | 4096 => 4
      | 8192 => 0x7F
      | 8193 => 0x45
      | 8194 => 0x4C
      | 8195 => 0x46
      | _ => 0

theorem threeFiles_wellFormed : threeFiles.WellFormed where
  aligned := by decide
  fits := by decide
  dentrys := by decide
  regular := by decide +kernel
  length := by decide
  blocks := by decide

theorem threeFiles_typesKnown : threeFiles.TypesKnown := by
  unfold Image.TypesKnown
  decide +kernel

theorem threeFiles_shell : findProgram threeFiles shellCommand = some ⟨0, 0, []⟩ := by
  decide +kernel

theorem threeFiles_loadable : Loadable threeFiles 0 := by
  unfold Loadable
  decide

/-- After the start-up a second shell is started on the displayed terminal. -/
theorem threeFiles_entered :
    ∃ k start : Kernel, k.currTerminal = k.currScheduled ∧
      k.execute threeFiles (some shellCommand) ⟨0, 0⟩ = some (.entered 0, start) ∧
      FdsSound threeFiles start ∧ start.openFds.card = STDI_O ∧ start.processCount = 4 := by
  obtain ⟨-, k, s, -, -, hset, hstacks, hscheduled, hshown, -⟩ :=
    displayed_completes zeroMemory 0 ⟨0, 0⟩ threeFiles_shell threeFiles_loadable
  have hlaunching := hset.launching_shell hstacks threeFiles_shell
  obtain ⟨start, hexecute⟩ := Kernel.execute_completes ⟨0, 0⟩ hlaunching rfl threeFiles_loadable
  have hshown' := hshown.trans hscheduled.symm
  rcases Kernel.execute_cases hexecute with ⟨-, ⟨value, hvalue⟩, -⟩ | ⟨program, -, -, -, hlaunched⟩
  · simp at hvalue
  have hsound := hlaunched.fdsSound threeFiles hshown'
  refine ⟨k, start, hshown', hexecute, hsound, ?_, ?_⟩
  · rw [← hsound.count, hlaunched.fdCount hshown']
  · rw [hlaunched.processCount, hset.processCount_shells hstacks]
    rfl

/-- The directory, found under its name. -/
theorem threeFiles_dir :
    ∃ entry, readDentryByName threeFiles (ascii ['.']) = some entry ∧ entry.fileType = 1 ∧
      entry.inodeNum = 5 :=
  ⟨threeFiles.loadDentry 0x410040, by decide +kernel, by decide, by decide⟩

def rtcName : List UInt8 := ascii ['r', 't', 'c']

theorem threeFiles_rtc :
    ∃ entry, readDentryByName threeFiles rtcName = some entry ∧ entry.fileType = 0 :=
  ⟨threeFiles.loadDentry 0x410080, by decide +kernel, by decide⟩

/-- The descriptors of a sound table with two open ones are the terminal's. -/
theorem FdsSound.openFds_terminal {img : Image} {k : Kernel} (hsound : FdsSound img k)
    (hcard : k.openFds.card = STDI_O) : k.openFds = {0, 1} := by
  have hsub : {0, 1} ⊆ k.openFds := by
    intro fd hfd
    rcases Finset.mem_insert.mp hfd with rfl | hfd
    · exact Kernel.mem_openFds.mpr ⟨by decide, by rw [hsound.stdin]; decide⟩
    · rw [Finset.mem_singleton.mp hfd]
      exact Kernel.mem_openFds.mpr ⟨by decide, by rw [hsound.stdout]; decide⟩
  exact (Finset.eq_of_subset_of_card_le hsub hcard.le).symm

/-- A shell that opens the directory and the RTC and closes the directory. -/
def reopening : List Event := [.open_ (some (ascii ['.'])), .open_ (some rtcName), .close 2]

theorem reopening_completes {start : Kernel} (hsound : FdsSound threeFiles start)
    (hcard : start.openFds.card = STDI_O) :
    ∃ last, exec (step threeFiles) start reopening = some last ∧ FdsSound threeFiles last ∧
      last.openFds = {0, 1, 3} := by
  have hterminal := hsound.openFds_terminal hcard
  obtain ⟨dir, hdir, -⟩ := threeFiles_dir
  obtain ⟨rtc, hrtc, -⟩ := threeFiles_rtc
  obtain ⟨first, hopen, hfirst, hfirstFds⟩ := hsound.open_next threeFiles_wellFormed
    threeFiles_typesKnown (by decide : STDI_O ≤ 2) (by decide) (by rw [hterminal]; decide)
    (by rw [hterminal]; decide) hdir
  rw [hterminal] at hfirstFds
  obtain ⟨second, hopen', hsecond, hsecondFds⟩ := hfirst.open_next threeFiles_wellFormed
    threeFiles_typesKnown (by decide : STDI_O ≤ 3) (by decide) (by rw [hfirstFds]; decide)
    (by rw [hfirstFds]; decide) hrtc
  rw [hfirstFds] at hsecondFds
  obtain ⟨last, hclose, hlast, hlastFds⟩ := hsecond.close_open (by decide : STDI_O ≤ 2)
    (by rw [hsecondFds]; decide)
  rw [hsecondFds] at hlastFds
  refine ⟨last, ?_, hlast, ?_⟩
  · have hsteps : step threeFiles start (.open_ (some (ascii ['.']))) = some first ∧
        step threeFiles first (.open_ (some rtcName)) = some second ∧
        step threeFiles second (.close 2) = some last := by
      refine ⟨?_, ?_, ?_⟩
      · rw [step, hopen, Option.map_some]
      · rw [step, hopen', Option.map_some]
      · exact (step_call threeFiles second (.close 2)).trans
          (congrArg (Option.map Prod.snd) hclose)
    simp only [reopening, exec, hsteps, Option.bind_some]
  · rw [hlastFds]
    decide

/-- After the directory's descriptor was closed the count is three, and the next `open`
takes the descriptor again. -/
theorem descriptor_table_reopened :
    ∃ k start last next : Kernel, k.currTerminal = k.currScheduled ∧
      k.execute threeFiles (some shellCommand) ⟨0, 0⟩ = some (.entered 0, start) ∧
      exec (step threeFiles) start reopening = some last ∧ last.openFds = {0, 1, 3} ∧
      last.fdCount = 3 ∧ last.fds 0 = stdinFd ∧ last.fds 1 = stdoutFd ∧
      last.call threeFiles (.open_ (some rtcName)) = some (.returned 2 [], next) ∧
      next.fdCount = 4 := by
  obtain ⟨k, start, hshown, hexecute, hsound, hcard, -⟩ := threeFiles_entered
  obtain ⟨last, hexec, hlast, hfds⟩ := reopening_completes hsound hcard
  obtain ⟨history, hrun, hevents⟩ := Run.of_exec hexec
  have hquiet : ∀ event ∈ reopening, event.Quiet := by
    intro event hevent
    simp only [reopening, List.mem_cons, List.not_mem_nil, or_false] at hevent
    rcases hevent with rfl | rfl | rfl <;> trivial
  obtain ⟨hcount, hstdin, hstdout, hcalls⟩ := descriptor_table threeFiles_wellFormed
    threeFiles_typesKnown hshown hexecute
    ⟨history, hrun, fun fired hfired => hquiet _ (hevents ▸ List.mem_map_of_mem hfired)⟩
  obtain ⟨rtc, hrtc, -⟩ := threeFiles_rtc
  obtain ⟨next, hopen, -, hnextFds⟩ := hlast.open_next threeFiles_wellFormed threeFiles_typesKnown
    (by decide : STDI_O ≤ 2) (by decide) (by rw [hfds]; decide) (by rw [hfds]; decide) hrtc
  obtain ⟨result, next', hcall, -, hnextCount⟩ := hcalls (.open_ (some rtcName))
  obtain ⟨-, rfl⟩ := Prod.mk.inj (Option.some.inj (hcall.symm.trans hopen))
  refine ⟨k, start, last, next', hshown, hexecute, hexec, hfds, ?_, hstdin, hstdout, hopen, ?_⟩
  · rw [hcount, hfds]
    rfl
  · rw [hnextCount, hnextFds, hfds]
    rfl

/-- The directory's descriptor does not get the inode of the entry found. -/
theorem descriptor_inode_dir :
    threeFiles.WellFormed ∧ threeFiles.TypesKnown ∧ ∃ k start next : Kernel, ∃ entry fd,
      k.currTerminal = k.currScheduled ∧
      k.execute threeFiles (some shellCommand) ⟨0, 0⟩ = some (.entered 0, start) ∧
      readDentryByName threeFiles (ascii ['.']) = some entry ∧
      start.call threeFiles (.open_ (ascii ['.'])) = some (.returned (fd : Nat) [], next) ∧
      (next.fds fd).inode ≠ entry.inodeNum := by
  obtain ⟨k, start, hshown, hexecute, hsound, hcount, -⟩ := threeFiles_entered
  obtain ⟨entry, hfind, htype, hinode⟩ := threeFiles_dir
  obtain ⟨fd, next, hopen, -, -, hfds, -⟩ := hsound.open_found threeFiles_wellFormed
    threeFiles_typesKnown (by rw [hcount]; decide) hfind
  refine ⟨threeFiles_wellFormed, threeFiles_typesKnown, k, start, next, entry, fd, hshown, hexecute,
    hfind, hopen, ?_⟩
  rw [hfds, update_self, hinode, descOf, htype]
  exact (by decide : (0 : Nat) ≠ 5)

end Ece391
