import Ece391.Arguments
import Ece391.ContextSwitch
import Ece391.Devices

/-! # Loading a program

`execute` copies the file of a program to `PROG_LOAD_ADDR` through the mapping it has just
made for the new slot. What the copy stores to is what the mapping translates the addresses
of the program to, and nothing else.
-/

namespace Ece391

open Function Transition

/-! ## The bytes behind user addresses -/

def Display.loadByte (d : Display) (target : VideoPage) (offset : Nat) : UInt8 :=
  if offset % 2 = 0 then (d.page target (offset / 2)).ch else (d.page target (offset / 2)).attrib

def Kernel.userByte (k : Kernel) : UserByte → UInt8
  | .frame addr => k.phys addr
  | .video page offset => k.display.loadByte page offset

/-- A read through the current mapping. -/
def Kernel.loadUser (k : Kernel) (vaddr : Nat) : Option UInt8 := (k.translate vaddr).map k.userByte

theorem Display.storeByte_loadByte (d : Display) (target other : VideoPage) (offset index : Nat)
    (byte : UInt8) :
    (d.storeByte target offset byte).loadByte other index =
      if other = target ∧ index = offset then byte else d.loadByte other index := by
  unfold storeByte loadByte
  by_cases hpage : other = target
  · subst hpage
    rw [setCell_page_self]
    by_cases hcell : index / 2 = offset / 2
    · rw [hcell, update_self]
      by_cases hindex : index % 2 = 0 <;> by_cases hoffset : offset % 2 = 0
      · have heq : index = offset := by omega
        simp [heq, hoffset]
      · have hne : index ≠ offset := by omega
        simp [hindex, hoffset, hne]
      · have hne : index ≠ offset := by omega
        simp [hindex, hoffset, hne]
      · have heq : index = offset := by omega
        simp [heq, hoffset]
    · have hne : index ≠ offset := by
        rintro rfl
        exact hcell rfl
      simp [update_of_ne hcell, hne]
  · simp [setCell, setPage_page_of_ne hpage, hpage]

/-- Nothing but bytes of frames and video pages differs. -/
structure OnlyUserBytes (k after : Kernel) : Prop where
  kernel : after = { k with phys := after.phys, display := after.display }
  display : after.display =
    { k.display with video := after.display.video, videoBuf := after.display.videoBuf }

namespace OnlyUserBytes

variable {k after last : Kernel}

theorem refl (k : Kernel) : OnlyUserBytes k k := ⟨rfl, rfl⟩

theorem trans (hfirst : OnlyUserBytes k after) (hsecond : OnlyUserBytes after last) :
    OnlyUserBytes k last := by
  constructor
  · rw [hsecond.kernel, hfirst.kernel]
  · rw [hsecond.display, hfirst.display]

theorem translate (honly : OnlyUserBytes k after) (vaddr : Nat) :
    after.translate vaddr = k.translate vaddr := by
  rw [honly.kernel]
  rfl

theorem pcb (honly : OnlyUserBytes k after) : after.pcb = k.pcb := by rw [honly.kernel]

theorem pcbSlots (honly : OnlyUserBytes k after) : after.pcbSlots = k.pcbSlots := by
  rw [honly.kernel]

theorem userPageEntry (honly : OnlyUserBytes k after) : after.userPageEntry = k.userPageEntry := by
  rw [honly.kernel]

end OnlyUserBytes

/-- No two addresses lead to one byte. -/
theorem Kernel.translate_inj {k : Kernel} {first second : Nat} {byte : UserByte}
    (hfirst : k.translate first = some byte) (hsecond : k.translate second = some byte) :
    first = second := by
  unfold Kernel.translate at hfirst hsecond
  split at hfirst
  · obtain rfl := Option.some.inj hfirst
    split at hsecond
    · have heq := UserByte.frame.inj (Option.some.inj hsecond)
      omega
    · split at hsecond
      · obtain ⟨page, -, heq⟩ := Option.map_eq_some_iff.mp hsecond
        cases heq
      · cases hsecond
  · split at hfirst
    · obtain ⟨page, -, rfl⟩ := Option.map_eq_some_iff.mp hfirst
      split at hsecond
      · cases hsecond
      · split at hsecond
        · obtain ⟨page', -, heq⟩ := Option.map_eq_some_iff.mp hsecond
          have hoffset := (UserByte.video.inj heq).2
          omega
        · cases hsecond
    · cases hfirst

/-- A store changes the byte its address leads to. -/
theorem Kernel.storeUser_spec {k after : Kernel} {vaddr : Nat} {byte : UInt8}
    (hstore : k.storeUser vaddr byte = some after) :
    ∃ target, k.translate vaddr = some target ∧ after.userByte = update k.userByte target byte ∧
      OnlyUserBytes k after := by
  unfold Kernel.storeUser at hstore
  obtain ⟨target, htarget, rfl⟩ := Option.map_eq_some_iff.mp hstore
  refine ⟨target, htarget, ?_, ?_⟩
  · funext other
    cases target with
    | frame addr =>
        cases other with
        | frame addr' =>
            by_cases heq : addr' = addr
            · subst heq
              simp [Kernel.userByte]
            · rw [update_of_ne fun h => heq (UserByte.frame.inj h)]
              exact update_of_ne heq _ _
        | video page offset =>
            rw [update_of_ne (by simp)]
            rfl
    | video page offset =>
        cases other with
        | frame addr =>
            rw [update_of_ne (by simp)]
            rfl
        | video page' offset' =>
            change (k.display.storeByte page offset byte).loadByte page' offset' = _
            rw [Display.storeByte_loadByte]
            by_cases heq : page' = page ∧ offset' = offset
            · obtain ⟨rfl, rfl⟩ := heq
              rw [if_pos ⟨rfl, rfl⟩, update_self]
            · rw [if_neg heq, update_of_ne fun h => heq (UserByte.video.inj h)]
              rfl
  · cases target with
    | frame addr => exact ⟨rfl, rfl⟩
    | video page offset =>
        refine ⟨rfl, ?_⟩
        cases page <;> rfl

/-- Bytes stored one after the other are read back, and no other byte differs. -/
theorem Kernel.storeUserBytes_spec {bytes : List UInt8} {k after : Kernel} {vaddr : Nat}
    (hstore : k.storeUserBytes vaddr bytes = some after) :
    OnlyUserBytes k after ∧
      (∀ i (hi : i < bytes.length), after.loadUser (vaddr + i) = some bytes[i]) ∧
      ∀ other, (∀ i < bytes.length, k.translate (vaddr + i) ≠ some other) →
        after.userByte other = k.userByte other := by
  induction bytes generalizing k vaddr with
  | nil =>
      obtain rfl := Option.some.inj hstore
      exact ⟨.refl k, fun i hi => absurd hi (Nat.not_lt_zero i), fun _ _ => rfl⟩
  | cons byte rest ih =>
      simp only [Kernel.storeUserBytes, Option.bind_eq_some_iff] at hstore
      obtain ⟨middle, hbyte, hrest⟩ := hstore
      obtain ⟨target, htarget, hstored, hfirst⟩ := Kernel.storeUser_spec hbyte
      obtain ⟨hsecond, hloaded, hothers⟩ := ih hrest
      have hbehind : ∀ i, vaddr + (i + 1) = vaddr + 1 + i := fun i => by omega
      refine ⟨hfirst.trans hsecond, fun i hi => ?_, fun other hother => ?_⟩
      · cases i with
        | zero =>
            -- the later addresses lead elsewhere
            have hkept : after.userByte target = middle.userByte target := by
              refine hothers target fun i _ heq => ?_
              rw [hfirst.translate] at heq
              have hsame := Kernel.translate_inj heq htarget
              omega
            rw [Nat.add_zero, Kernel.loadUser, hsecond.translate, hfirst.translate, htarget,
              Option.map_some, hkept, hstored, update_self]
            rfl
        | succ i =>
            rw [hbehind]
            exact hloaded i (Nat.lt_of_succ_lt_succ hi)
      · have hrestOther : after.userByte other = middle.userByte other := by
          refine hothers other fun i hi => ?_
          rw [hfirst.translate, ← hbehind]
          exact hother (i + 1) (Nat.succ_lt_succ hi)
        have hne : other ≠ target := by
          rintro rfl
          exact hother 0 (Nat.succ_pos _) htarget
        rw [hrestOther, hstored, update_of_ne hne]

/-! ## A call that fails -/

/-- The process table, the map, the kernel stack and the PCBs are what they were. -/
structure TableKept (k after : Kernel) : Prop where
  processCount : after.processCount = k.processCount
  processPerTerminal : after.processPerTerminal = k.processPerTerminal
  pcbSlots : after.pcbSlots = k.pcbSlots
  heads : after.highestTerminalProcesses = k.highestTerminalProcesses
  userPageEntry : after.userPageEntry = k.userPageEntry
  vidPageEntry : after.vidPageEntry = k.vidPageEntry
  tssEsp0 : after.tssEsp0 = k.tssEsp0
  pcb : after.pcb = k.pcb

/-- An `execute` that comes back has not got as far as counting a process: the return behind
the load is never taken. -/
theorem failed_execute_kept {img : Image} {k after : Kernel} {command : Option (List UInt8)}
    {regs : Regs} {value : Int}
    (hexecute : k.execute img command regs = some (.returned value, after)) :
    k.launching img command = none ∧ TableKept k after := by
  have hdevices := Kernel.execute_devices hexecute
  rcases Kernel.execute_cases hexecute with ⟨hrefused, -, hsame, hpcb, -⟩ | hstarted
  · exact ⟨hrefused, hsame.processCount, hsame.processPerTerminal, hsame.pcbSlots, hsame.heads,
      hsame.userPageEntry, congrArg (fun devices => devices.2.2) hdevices, hsame.tssEsp0, hpcb⟩
  · obtain ⟨program, -, -, hresult, -⟩ := hstarted
    cases hresult

theorem execute_unknown {img : Image} {k : Kernel} {command : List UInt8} {regs : Regs}
    (hroom : k.processCount < MAX_PROCESS_COUNT) (hfind : findProgram img command = none) :
    k.execute img (some command) regs = some (.returned (-1), k) := by
  simp only [Kernel.execute, if_neg (by omega : ¬ k.processCount ≥ MAX_PROCESS_COUNT), hfind]

/-- A shell that has already started one program calls one that is not there. -/
theorem failed_execute_kept_unknown :
    ∃ start history k after, ReachableVia (step shellImage) StartUpStep (boot zeroMemory) start ∧
      Run (step shellImage) start history k ∧
      history.map Fired.event =
        [.tick 0 ⟨0, 0⟩, .execute (some longCommand) ⟨1, 2⟩, .halt 0 ⟨3, 4⟩] ∧
      k.execute shellImage (some [120, SPACE_CHAR, 66]) ⟨5, 6⟩ = some (.returned (-1), after) ∧
      after.processCount = 3 ∧ TableKept k after := by
  obtain ⟨start, history, k, s, hreach, -, hrun, hevents, -, -, -, -, hcount, -⟩ := shellImage_freed
  have hfind : findProgram shellImage [120, SPACE_CHAR, 66] = none := by decide +kernel
  have hexecute : k.execute shellImage (some [120, SPACE_CHAR, 66]) ⟨5, 6⟩ =
      some (.returned (-1), k) :=
    execute_unknown (by rw [hcount]; decide) hfind
  exact ⟨start, history, k, k, hreach, hrun, hevents, hexecute, hcount,
    (failed_execute_kept hexecute).2⟩

/-! ## A call that starts a program -/

/-- Byte `pos` of a file, in the block its inode gives for the position. -/
def Image.contentByte (img : Image) (inode pos : Nat) : UInt8 :=
  img.blockByte (img.blockNumber inode (pos / MEM_SIZE_4kB)) (pos % MEM_SIZE_4kB)

/-- The little-endian word at a position of a file. -/
def Image.contentWord (img : Image) (inode pos : Nat) : Nat :=
  (img.contentByte inode pos).toNat + 256 * (img.contentByte inode (pos + 1)).toNat +
    256 ^ 2 * (img.contentByte inode (pos + 2)).toNat +
      256 ^ 3 * (img.contentByte inode (pos + 3)).toNat

/-- What has been loaded when `execute` enters the program of an inode from slot `i`. -/
structure ProgramLoaded (img : Image) (k : Kernel) (command : List UInt8) (regs : Regs)
    (inode i eip : Nat) (entered : Kernel) : Prop where
  /-- The addresses of the program hold its file. -/
  bytes : ∀ pos < fileSize img inode,
    entered.loadUser (PROG_LOAD_ADDR + pos) = some (img.contentByte inode pos)
  /-- The copy goes through the map of the slot, and stores to nothing in the kernel. -/
  load : ∃ copied loaded,
    (k.countProcess.takeSlot i).copyArgs i (commandArgs command) = some copied ∧
      (copied.mapProgram i).userPageEntry = userPageOf (i + 1) ∧
      (copied.mapProgram i).loadProgram img inode = some loaded ∧
      OnlyUserBytes (copied.mapProgram i) loaded ∧ entered = loaded.enterProgram i eip regs
  others : ∀ other, (∀ pos < fileSize img inode,
    entered.translate (PROG_LOAD_ADDR + pos) ≠ some other) →
      entered.userByte other = k.userByte other
  /-- The frames of the other slots in use, the parent's among them. -/
  frames : ∀ j < MAX_PROCESS_COUNT, k.pcbSlots j ≠ 0 → ∀ addr, _8MB + j * _4MB ≤ addr →
    addr < _8MB + (j + 1) * _4MB → entered.phys addr = k.phys addr
  slot : entered.pcbSlots = update k.pcbSlots i 1 ∧
    ∀ j < MAX_PROCESS_COUNT, k.pcbSlots j ≠ 0 → j ≠ i
  entry : 28 ≤ fileSize img inode → eip = img.contentWord inode 24
  magic : ∀ j < 4, entered.loadUser (PROG_LOAD_ADDR + j) = some (executableMagic.getD j NUL)

/-- The search never ends at a slot in use. -/
theorem ne_slotSearch {slots : Nat → Nat} {j : Nat} (hlt : j < MAX_PROCESS_COUNT)
    (hused : slots j ≠ 0) : j ≠ slotSearch slots := by
  rw [slotSearch, slotSearchFrom_eq]
  exact SlotTable.ne_firstFree_of_taken (by omega) hused

theorem findProgram_eq_some {img : Image} {command : List UInt8} {program : Program}
    (hfind : findProgram img command = some program) :
    ∃ dentry, readDentryByName img (commandWord command) = some dentry ∧
      program.inode = dentry.inodeNum ∧
      (List.range 4).map (fun i => (readData img dentry.inodeNum 0 32).2.getD i NUL) =
        executableMagic ∧
      program.eip = ((readData img dentry.inodeNum 0 32).2.getD 24 0).toNat +
        256 * ((readData img dentry.inodeNum 0 32).2.getD 25 0).toNat +
        256 ^ 2 * ((readData img dentry.inodeNum 0 32).2.getD 26 0).toNat +
        256 ^ 3 * ((readData img dentry.inodeNum 0 32).2.getD 27 0).toNat := by
  unfold findProgram at hfind
  obtain ⟨dentry, hlookup, hfind⟩ := Option.bind_eq_some_iff.mp hfind
  dsimp only at hfind
  split at hfind
  · cases hfind
  · next hmagic =>
    obtain rfl := Option.some.inj hfind
    exact ⟨dentry, hlookup, rfl, not_not.mp hmagic, rfl⟩

/-- The header `execute` looks at, byte by byte. -/
theorem Image.WellFormed.header_getD {img : Image} (hwf : img.WellFormed) {inode j : Nat}
    (hinode : inode < img.amtInodes) (hj : j < fileSize img inode) (hlt : j < 32) :
    (readData img inode 0 32).2.getD j NUL = img.contentByte inode j := by
  have hcount : j < min (fileSize img inode) 32 := by omega
  rw [readData_eq hwf.aligned, if_neg (by omega), List.getD_eq_getElem?_getD, List.getElem?_map,
    List.getElem?_range hcount, Option.map_some, Option.getD_some, Nat.zero_add,
    hwf.fileByte_eq hinode hj]
  rfl

/-- Past the end of a file the header is NUL. -/
theorem Image.WellFormed.header_behind {img : Image} (hwf : img.WellFormed) {inode j : Nat}
    (hj : fileSize img inode ≤ j) : (readData img inode 0 32).2.getD j NUL = NUL := by
  rw [readData_eq hwf.aligned, if_neg (by omega)]
  apply getD_behind
  rw [List.length_map, List.length_range]
  omega

/-- A file with the magic has its four bytes. -/
theorem Image.WellFormed.magic_bytes {img : Image} (hwf : img.WellFormed) {inode : Nat}
    (hinode : inode < img.amtInodes)
    (hmagic : (List.range 4).map (fun i => (readData img inode 0 32).2.getD i NUL) =
      executableMagic) :
    4 ≤ fileSize img inode ∧ ∀ j < 4, img.contentByte inode j = executableMagic.getD j NUL := by
  have hbyte : ∀ j < 4, (readData img inode 0 32).2.getD j NUL = executableMagic.getD j NUL := by
    intro j hj
    have hget : ∀ data : List UInt8,
        ((List.range 4).map fun i => data.getD i NUL).getD j NUL = data.getD j NUL := by
      intro data
      rw [List.getD_eq_getElem?_getD, List.getElem?_map, List.getElem?_range hj]
      rfl
    rw [← hmagic, hget]
  have hsize : 4 ≤ fileSize img inode := by
    by_contra hshort
    have hlast := hbyte 3 (by decide)
    rw [hwf.header_behind (by omega)] at hlast
    exact absurd hlast (by decide)
  refine ⟨hsize, fun j hj => ?_⟩
  rw [← hbyte j hj, hwf.header_getD hinode (by omega) (by omega)]

/-- Copying the arguments stores to PCBs only. -/
theorem Kernel.copyArgs_kept {k copied : Kernel} {i : Nat} {args : List UInt8}
    (hcopied : (k.countProcess.takeSlot i).copyArgs i args = some copied) :
    copied.userByte = k.userByte ∧ copied.pcbSlots = update k.pcbSlots i 1 := by
  obtain ⟨pcbs, -, rfl⟩ := Option.map_eq_some_iff.mp hcopied
  refine ⟨?_, rfl⟩
  funext other
  cases other <;> rfl

theorem Kernel.userByte_of_map (k : Kernel) (entry : Nat) :
    ({ k with userPageEntry := entry } : Kernel).userByte = k.userByte := by
  funext other
  cases other <;> rfl

theorem Kernel.mapProgram_userByte (k : Kernel) (i : Nat) :
    (k.mapProgram i).userByte = k.userByte := k.userByte_of_map (userPageOf (i + 1))

theorem Kernel.pcbSlots_of_map (k : Kernel) (entry : Nat) :
    ({ k with userPageEntry := entry } : Kernel).pcbSlots = k.pcbSlots := rfl

theorem Kernel.mapProgram_pcbSlots (k : Kernel) (i : Nat) :
    (k.mapProgram i).pcbSlots = k.pcbSlots := k.pcbSlots_of_map (userPageOf (i + 1))

theorem Kernel.mapProgram_userPageEntry (k : Kernel) (i : Nat) :
    (k.mapProgram i).userPageEntry = userPageOf (i + 1) := rfl

theorem Kernel.enterProgram_pcbSlots (k : Kernel) (i eip : Nat) (regs : Regs) :
    (k.enterProgram i eip regs).pcbSlots = k.pcbSlots := by
  obtain ⟨pcb, heads, heq⟩ := k.enterProgram_eq i eip regs
  rw [heq]

theorem Kernel.enterProgram_userByte (k : Kernel) (i eip : Nat) (regs : Regs) :
    (k.enterProgram i eip regs).userByte = k.userByte := by
  obtain ⟨pcb, heads, heq⟩ := k.enterProgram_eq i eip regs
  rw [heq]
  funext other
  cases other <;> rfl

theorem Kernel.enterProgram_translate (k : Kernel) (i eip : Nat) (regs : Regs) (vaddr : Nat) :
    (k.enterProgram i eip regs).translate vaddr = k.translate vaddr := by
  obtain ⟨pcb, heads, heq⟩ := k.enterProgram_eq i eip regs
  rw [heq]
  rfl

theorem Kernel.enterProgram_loadUser (k : Kernel) (i eip : Nat) (regs : Regs) (vaddr : Nat) :
    (k.enterProgram i eip regs).loadUser vaddr = k.loadUser vaddr := by
  simp only [Kernel.loadUser, Kernel.enterProgram_translate, Kernel.enterProgram_userByte]

/-- An address of the program page leads into the frame of the slot. -/
theorem Kernel.translate_frame {k : Kernel} {i vaddr addr : Nat}
    (hpage : k.userPageEntry = userPageOf (i + 1))
    (htranslate : k.translate vaddr = some (.frame addr)) :
    _8MB + i * _4MB ≤ addr ∧ addr < _8MB + (i + 1) * _4MB := by
  unfold Kernel.translate at htranslate
  split at htranslate
  · next hrange =>
    obtain rfl := UserByte.frame.inj (Option.some.inj htranslate)
    rw [hpage, frameOf_userPageOf (by omega), Nat.add_sub_cancel]
    simp only [_128MB, USER_VID_ADDR, _4MB, _8MB] at *
    omega
  · split at htranslate
    · obtain ⟨page, -, heq⟩ := Option.map_eq_some_iff.mp htranslate
      cases heq
    · cases htranslate

/-- Whatever program a well-formed image has under the command's word: when `execute` enters
it, the program is in memory as its file has it, and nothing else was stored to. -/
theorem program_loaded {img : Image} (hwf : img.WellFormed) {k entered : Kernel}
    {command : List UInt8} {regs : Regs} {eip : Nat} {entry : Dentry}
    (hword : readDentryByName img (commandWord command) = some entry)
    (hregular : entry.fileType = 2)
    (hexecute : k.execute img (some command) regs = some (.entered eip, entered)) :
    ProgramLoaded img k command regs entry.inodeNum (slotSearch k.pcbSlots) eip entered := by
  obtain ⟨text, program, copied, loaded, htext, -, hfind, rfl, hcopied, hload, rfl⟩ :=
    Kernel.execute_stages hexecute
  obtain rfl := Option.some.inj htext
  obtain ⟨dentry, hlookup, hprogram, hmagic, heip⟩ := findProgram_eq_some hfind
  obtain rfl := Option.some.inj (hword.symm.trans hlookup)
  obtain ⟨index, hindex, hentry⟩ := hwf.dentry_mem hword
  have hinode : entry.inodeNum < img.amtInodes := by
    subst hentry
    exact hwf.regular index hindex hregular
  rw [findProgram_args hfind] at hcopied
  rw [hprogram] at hload
  have hfree : ∀ j < MAX_PROCESS_COUNT, k.pcbSlots j ≠ 0 → j ≠ slotSearch k.pcbSlots :=
    fun j hj hused => ne_slotSearch hj hused
  generalize slotSearch k.pcbSlots = i at hcopied hload hfree ⊢
  obtain ⟨hsame, hslots⟩ := Kernel.copyArgs_kept hcopied
  obtain ⟨honly, hbytes, hothers⟩ := Kernel.storeUserBytes_spec hload
  obtain ⟨hsize, hmagicBytes⟩ := hwf.magic_bytes hinode hmagic
  -- the load is one `read_data` of the whole file
  have hread : readData img entry.inodeNum 0 (fileSize img entry.inodeNum) =
      (fileSize img entry.inodeNum, (List.range (fileSize img entry.inodeNum)).map fun pos =>
        img.fileByte entry.inodeNum (0 + pos)) := by
    rw [readData_eq hwf.aligned, if_neg (by omega), Nat.min_self]
  rw [hread] at hbytes hothers
  simp only [List.length_map, List.length_range, List.getElem_map, List.getElem_range,
    Nat.zero_add] at hbytes hothers
  have hcontent : ∀ pos < fileSize img entry.inodeNum,
      loaded.loadUser (PROG_LOAD_ADDR + pos) = some (img.contentByte entry.inodeNum pos) := by
    intro pos hpos
    rw [hbytes pos hpos, hwf.fileByte_eq hinode hpos]
    rfl
  have hentered : ∀ pos < fileSize img entry.inodeNum,
      (loaded.enterProgram i program.eip regs).loadUser (PROG_LOAD_ADDR + pos) =
        some (img.contentByte entry.inodeNum pos) := by
    intro pos hpos
    rw [Kernel.enterProgram_loadUser]
    exact hcontent pos hpos
  have hkept : ∀ other, (∀ pos < fileSize img entry.inodeNum,
      loaded.translate (PROG_LOAD_ADDR + pos) ≠ some other) →
        loaded.userByte other = k.userByte other := by
    intro other hother
    rw [hothers other fun pos hpos => by rw [← honly.translate]; exact hother pos hpos,
      Kernel.mapProgram_userByte, hsame]
  refine
    { bytes := hentered
      load := ⟨copied, loaded, hcopied, Kernel.mapProgram_userPageEntry copied i, hload, honly, rfl⟩
      others := fun other hother => by
        rw [Kernel.enterProgram_userByte]
        refine hkept other fun pos hpos => ?_
        rw [← loaded.enterProgram_translate i program.eip regs]
        exact hother pos hpos
      frames := fun j hj hused addr hlow hhigh => ?_
      slot := ⟨?_, hfree⟩
      entry := fun hlong => ?_
      magic := fun j hj => ?_ }
  · have hne := hfree j hj hused
    have hmap : loaded.userPageEntry = userPageOf (i + 1) := by
      rw [honly.userPageEntry, Kernel.mapProgram_userPageEntry]
    refine hkept (.frame addr) fun pos hpos htranslate => ?_
    obtain ⟨hlow', hhigh'⟩ := Kernel.translate_frame hmap htranslate
    simp only [_8MB, _4MB] at *
    omega
  · rw [Kernel.enterProgram_pcbSlots, honly.pcbSlots, Kernel.mapProgram_pcbSlots, hslots]
  · have hheader : ∀ j, 24 ≤ j → j < 28 →
        (readData img entry.inodeNum 0 32).2.getD j 0 = img.contentByte entry.inodeNum j :=
      fun j _ hj => hwf.header_getD hinode (by omega) (by omega)
    rw [heip, hheader 24 (by decide) (by decide), hheader 25 (by decide) (by decide),
      hheader 26 (by decide) (by decide), hheader 27 (by decide) (by decide)]
    rfl
  · rw [hentered j (by omega), hmagicBytes j hj]

/-- A second shell on the displayed terminal. -/
theorem program_loaded_shell :
    ∃ (k : Kernel) (inode : Nat) (entered : Kernel), 0 < fileSize shellImage inode ∧
      ProgramLoaded shellImage k shellCommand ⟨1, 2⟩ inode (slotSearch k.pcbSlots) 0 entered := by
  obtain ⟨-, k, s, -, -, hset, hstacks, -⟩ := shellImage_displayed
  have hlaunching := shellImage_launching hset.toProcessTable hstacks
  obtain ⟨entered, hexecute⟩ := Kernel.execute_completes ⟨1, 2⟩ hlaunching rfl shellImage_loadable
  obtain ⟨entry, hfind, hregular, hinode⟩ := shellImage_dentry
  have hword : readDentryByName shellImage (commandWord shellCommand) = some entry := hfind
  refine ⟨k, entry.inodeNum, entered, ?_,
    program_loaded shellImage_wellFormed hword hregular hexecute⟩
  rw [hinode]
  decide

end Ece391
