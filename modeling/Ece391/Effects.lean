import Ece391.Scheduler

/-! # What each event does to the processes

Most events leave every process where it is. The others change the process
table, the mapping and the kernel stack in a few fixed ways, and the lemmas below
list all of them; later modules argue from these lists alone.
-/

namespace Ece391

open Function

/-- Nothing that selects, maps or resumes a process differs, and the cursors and lines
are inside if they were. -/
structure SameProcesses (k after : Kernel) : Prop where
  currScheduled : after.currScheduled = k.currScheduled
  currTerminal : after.currTerminal = k.currTerminal
  totalTerminal : after.totalTerminal = k.totalTerminal
  processCount : after.processCount = k.processCount
  heads : after.highestTerminalProcesses = k.highestTerminalProcesses
  pcbSlots : after.pcbSlots = k.pcbSlots
  processPerTerminal : after.processPerTerminal = k.processPerTerminal
  userPageEntry : after.userPageEntry = k.userPageEntry
  tssEsp0 : after.tssEsp0 = k.tssEsp0
  sound : k.keyState.Sound → after.keyState.Sound
  context : ∀ addr, Pcb.SameContext (k.pcb addr) (after.pcb addr)

namespace SameProcesses

variable {k after : Kernel}

theorem refl (k : Kernel) : SameProcesses k k :=
  ⟨rfl, rfl, rfl, rfl, rfl, rfl, rfl, rfl, rfl, id, fun _ => .refl _⟩

theorem trans {last : Kernel} (hfirst : SameProcesses k after)
    (hsecond : SameProcesses after last) : SameProcesses k last where
  currScheduled := hsecond.currScheduled.trans hfirst.currScheduled
  currTerminal := hsecond.currTerminal.trans hfirst.currTerminal
  totalTerminal := hsecond.totalTerminal.trans hfirst.totalTerminal
  processCount := hsecond.processCount.trans hfirst.processCount
  heads := hsecond.heads.trans hfirst.heads
  pcbSlots := hsecond.pcbSlots.trans hfirst.pcbSlots
  processPerTerminal := hsecond.processPerTerminal.trans hfirst.processPerTerminal
  userPageEntry := hsecond.userPageEntry.trans hfirst.userPageEntry
  tssEsp0 := hsecond.tssEsp0.trans hfirst.tssEsp0
  sound := fun hk => hsecond.sound (hfirst.sound hk)
  context := fun addr => (hfirst.context addr).trans (hsecond.context addr)

/-- Printing and the keyboard work beside the processes. -/
theorem of_io {kb : Keyboard} {display : Display} (hdisplay : k.display.Kept display)
    (hkb : k.kb.InBounds → kb.InBounds) (rtc : Rtc) (dirIndex : Nat) :
    SameProcesses k { k with kb := kb, display := display, rtc := rtc, dirIndex := dirIndex } :=
  { refl k with
    currTerminal := congrArg Prod.fst hdisplay.aim
    sound := fun hk => hk.of_kept hdisplay hkb }

/-- Storing a PCB with the same saved context. -/
theorem setPcb {addr : Nat} {pcb : Pcb} (hpcb : Pcb.SameContext (k.pcb addr) pcb) :
    SameProcesses k (k.setPcb addr pcb) := by
  refine { refl k with context := fun other => ?_ }
  unfold Kernel.setPcb
  dsimp only
  by_cases heq : other = addr
  · subst heq
    rwa [update_self]
  · rw [update_of_ne heq]
    exact .refl _

end SameProcesses

theorem Kernel.derefPcb_eq_some {k : Kernel} {addr : Nat} {pcb : Pcb} :
    k.derefPcb addr = some pcb ↔ addr < _8MB ∧ k.pcb addr = pcb := by
  unfold Kernel.derefPcb
  split <;> simp_all

/-! ## Stores through the user's mapping -/

/-- The page `video_mem` is aimed at, and the entry of the user's video page. -/
def Kernel.video (k : Kernel) : VideoPage × Nat := (k.display.videoMem, k.vidTableEntry)

theorem Kernel.video_of_kept {k after : Kernel} (hdisplay : k.display.Kept after.display)
    (hentry : after.vidTableEntry = k.vidTableEntry) : after.video = k.video :=
  Prod.ext (congrArg Prod.snd hdisplay.aim) hentry

/-- The lines, the Enter flag and the switch that is asked for. -/
def Kernel.input (k : Kernel) : Keyboard × Option Terminal := (k.kb, k.switchFlag)

/-- A user store reaches a frame or a video page. -/
theorem Kernel.storeUser_same {k after : Kernel} {vaddr : Nat} {byte : UInt8}
    (hstore : k.storeUser vaddr byte = some after) :
    SameProcesses k after ∧ after.pcb = k.pcb ∧ after.video = k.video ∧ after.input = k.input := by
  unfold Kernel.storeUser at hstore
  obtain ⟨target, -, rfl⟩ := Option.map_eq_some_iff.mp hstore
  cases target with
  | frame addr => exact ⟨{ SameProcesses.refl k with }, rfl, rfl, rfl⟩
  | video page offset =>
      have hkept := Display.Kept.storeByte k.display page offset byte
      exact ⟨.of_io hkept id k.rtc k.dirIndex, rfl, Kernel.video_of_kept hkept rfl, rfl⟩

theorem Kernel.storeUserBytes_same {bytes : List UInt8} {k after : Kernel} {vaddr : Nat}
    (hstore : k.storeUserBytes vaddr bytes = some after) :
    SameProcesses k after ∧ after.pcb = k.pcb ∧ after.video = k.video ∧ after.input = k.input := by
  induction bytes generalizing k vaddr with
  | nil =>
      obtain rfl := Option.some.inj hstore
      exact ⟨.refl k, rfl, rfl, rfl⟩
  | cons byte rest ih =>
      simp only [Kernel.storeUserBytes, Option.bind_eq_some_iff] at hstore
      obtain ⟨middle, hbyte, hrest⟩ := hstore
      obtain ⟨hfirst, hpcb, hvideo, hinput⟩ := Kernel.storeUser_same hbyte
      obtain ⟨hsecond, hpcb', hvideo', hinput'⟩ := ih hrest
      exact ⟨hfirst.trans hsecond, hpcb'.trans hpcb, hvideo'.trans hvideo, hinput'.trans hinput⟩

/-- Only the 4 MB program page and the video page behind it can be stored to. -/
theorem Kernel.storeUser_range {k after : Kernel} {vaddr : Nat} {byte : UInt8}
    (hstore : k.storeUser vaddr byte = some after) : vaddr < USER_VID_ADDR + PAGE_MEM_SIZE := by
  unfold Kernel.storeUser Kernel.translate at hstore
  obtain ⟨target, htranslate, -⟩ := Option.map_eq_some_iff.mp hstore
  split at htranslate
  · omega
  · split at htranslate
    · omega
    · simp at htranslate

theorem Kernel.storeUserBytes_range {bytes : List UInt8} {k after : Kernel} {vaddr : Nat}
    (hstore : k.storeUserBytes vaddr bytes = some after) :
    bytes = [] ∨ vaddr + bytes.length ≤ USER_VID_ADDR + PAGE_MEM_SIZE := by
  induction bytes generalizing k vaddr with
  | nil => exact .inl rfl
  | cons byte rest ih =>
      simp only [Kernel.storeUserBytes, Option.bind_eq_some_iff] at hstore
      obtain ⟨middle, hbyte, hrest⟩ := hstore
      have hlt := Kernel.storeUser_range hbyte
      right
      rcases ih hrest with rfl | hle
      · simp only [List.length_cons, List.length_nil]
        omega
      · simp only [List.length_cons]
        omega

/-- Bytes stored inside the program page reach the mapped frame. -/
theorem Kernel.storeUserBytes_program {bytes : List UInt8} (k : Kernel) {vaddr : Nat}
    (hlow : _128MB ≤ vaddr) (hhigh : vaddr + bytes.length ≤ USER_VID_ADDR) :
    ∃ phys, k.storeUserBytes vaddr bytes = some { k with phys := phys } := by
  induction bytes generalizing k vaddr with
  | nil => exact ⟨k.phys, rfl⟩
  | cons byte rest ih =>
      simp only [List.length_cons] at hhigh
      have hstore : k.storeUser vaddr byte =
          some { k with
            phys := update k.phys (frameOf k.userPageEntry + (vaddr - _128MB)) byte } := by
        unfold Kernel.storeUser Kernel.translate
        rw [if_pos ⟨hlow, by omega⟩]
        rfl
      obtain ⟨phys, hrest⟩ := ih
        { k with phys := update k.phys (frameOf k.userPageEntry + (vaddr - _128MB)) byte }
        (Nat.le_succ_of_le hlow) (by omega)
      refine ⟨phys, ?_⟩
      rw [Kernel.storeUserBytes, hstore]
      exact hrest

/-! ## What gets through to a driver -/

/-- A read gets through to the driver of the descriptor that is looked up. -/
structure Kernel.Reads (k : Kernel) (fd : Int) (buf : Bool) (fops : Fops) : Prop where
  buf : buf = true
  nonneg : 0 ≤ fd
  lt : fd < MAX_OPEN_FILES
  notStdout : fd ≠ 1
  mapped : k.displayedPcb < _8MB
  inUse : ((k.pcb k.displayedPcb).fileArray fd.toNat).flags ≠ 0
  table : fopsAt ((k.pcb k.displayedPcb).fileArray fd.toNat).fopsTable = some fops

theorem Kernel.Reads.read_eq {k : Kernel} {fd : Int} {buf : Bool} {fops : Fops}
    (hreads : k.Reads fd buf fops) (img : Image) (nbytes : Int) :
    k.read img fd buf nbytes = k.fopsRead img fops fd nbytes := by
  have hgood : ¬ (!buf ∨ fd ≥ MAX_OPEN_FILES ∨ fd < 0 ∨ fd = 1) := by
    rintro (hbuf | hbig | hneg | hstdout)
    · simp [hreads.buf] at hbuf
    · exact absurd hreads.lt (by omega)
    · exact absurd hreads.nonneg (by omega)
    · exact hreads.notStdout hstdout
  unfold Kernel.read
  rw [if_neg hgood, Kernel.derefPcb, if_pos hreads.mapped, Option.bind_some, if_neg hreads.inUse,
    hreads.table, Option.bind_some]

/-- A read is refused before it has any effect, or it gets through. -/
theorem Kernel.read_cases {k after : Kernel} {img : Image} {fd nbytes : Int} {buf : Bool}
    {result : SysReturn} (hread : k.read img fd buf nbytes = some (result, after)) :
    (result = failed ∧ after = k) ∨
      ∃ fops, k.Reads fd buf fops ∧ k.fopsRead img fops fd nbytes = some (result, after) := by
  unfold Kernel.read at hread
  split at hread
  · obtain ⟨rfl, rfl⟩ := Prod.mk.inj (Option.some.inj hread)
    exact .inl ⟨rfl, rfl⟩
  · next hgood =>
    obtain ⟨pcb, hpcb, hread⟩ := Option.bind_eq_some_iff.mp hread
    obtain ⟨hmapped, rfl⟩ := Kernel.derefPcb_eq_some.mp hpcb
    split at hread
    · obtain ⟨rfl, rfl⟩ := Prod.mk.inj (Option.some.inj hread)
      exact .inl ⟨rfl, rfl⟩
    · next hflags =>
      obtain ⟨fops, hfops, hread⟩ := Option.bind_eq_some_iff.mp hread
      simp only [not_or] at hgood
      obtain ⟨hbuf, hbig, hneg, hstdout⟩ := hgood
      exact .inr ⟨fops, ⟨by simpa using hbuf, by omega, by omega, hstdout, hmapped, hflags, hfops⟩,
        hread⟩

/-- A read changes only what the drivers work on, and the keyboard only where the running
process is displayed. -/
theorem Kernel.read_store {k after : Kernel} {img : Image} {fd nbytes : Int} {buf : Bool}
    {result : SysReturn} (hread : k.read img fd buf nbytes = some (result, after)) :
    ∃ kb display rtc dirIndex pcb,
      after = { k with
        kb := kb, display := display, rtc := rtc, dirIndex := dirIndex, pcb := pcb } ∧
      (k.currTerminal ≠ k.currScheduled → kb = k.kb) := by
  rcases Kernel.read_cases hread with ⟨-, rfl⟩ | ⟨fops, -, hread⟩
  · exact ⟨_, _, _, _, _, rfl, fun _ => rfl⟩
  cases fops with
  | file =>
      change k.fileRead img fd nbytes = some (result, after) at hread
      unfold Kernel.fileRead at hread
      split at hread
      · obtain rfl := congrArg Prod.snd (Option.some.inj hread)
        exact ⟨_, _, _, _, _, rfl, fun _ => rfl⟩
      · split at hread
        · obtain rfl := congrArg Prod.snd (Option.some.inj hread)
          exact ⟨_, _, _, _, _, rfl, fun _ => rfl⟩
        · obtain ⟨pcb, -, heq⟩ := Option.map_eq_some_iff.mp hread
          obtain rfl := congrArg Prod.snd heq
          exact ⟨_, _, _, _, _, rfl, fun _ => rfl⟩
  | dir =>
      obtain rfl := congrArg Prod.snd (Option.some.inj hread)
      unfold Kernel.dirRead
      split
      · exact ⟨_, _, _, _, _, rfl, fun _ => rfl⟩
      · split
        · exact ⟨_, _, _, _, _, rfl, fun _ => rfl⟩
        · exact ⟨_, _, _, _, _, rfl, fun _ => rfl⟩
  | stdin =>
      obtain rfl := congrArg Prod.snd (Option.some.inj hread)
      unfold Kernel.terminalRead
      split
      · exact ⟨_, _, _, _, _, rfl, fun _ => rfl⟩
      · split
        · next hshown => exact ⟨_, _, _, _, _, rfl, fun hhidden => absurd hshown.2 hhidden⟩
        · exact ⟨_, _, _, _, _, rfl, fun _ => rfl⟩
  | rtc | stdout =>
      obtain rfl := congrArg Prod.snd (Option.some.inj hread)
      exact ⟨_, _, _, _, _, rfl, fun _ => rfl⟩

/-- A write gets through to the driver of the descriptor that is looked up. -/
structure Kernel.Writes (k : Kernel) (fd : Int) (buf : Option (Nat → UInt8)) (fops : Fops) :
    Prop where
  buf : buf ≠ none
  nonneg : 0 ≤ fd
  lt : fd < MAX_OPEN_FILES
  notStdin : fd ≠ 0
  mapped : k.displayedPcb < _8MB
  inUse : ((k.pcb k.displayedPcb).fileArray fd.toNat).flags ≠ 0
  notFile : ((k.pcb k.displayedPcb).fileArray fd.toNat).flags &&& FD_FLAG_FILE = 0
  table : fopsAt ((k.pcb k.displayedPcb).fileArray fd.toNat).fopsTable = some fops

theorem Kernel.Writes.write_eq {k : Kernel} {fd : Int} {buf : Option (Nat → UInt8)} {fops : Fops}
    (hwrites : k.Writes fd buf fops) (nbytes : Int) :
    k.write fd buf nbytes = some (k.fopsWrite fops buf nbytes) := by
  have hgood : ¬ (buf.isNone ∨ fd ≥ MAX_OPEN_FILES ∨ fd < 0 ∨ fd = 0) := by
    rintro (hbuf | hbig | hneg | hstdin)
    · exact hwrites.buf (by simpa using hbuf)
    · exact absurd hwrites.lt (by omega)
    · exact absurd hwrites.nonneg (by omega)
    · exact hwrites.notStdin hstdin
  unfold Kernel.write
  rw [if_neg hgood, Kernel.derefPcb, if_pos hwrites.mapped, Option.bind_some, if_neg hwrites.inUse,
    if_neg (not_not.mpr hwrites.notFile), hwrites.table, Option.map_some]

/-- A write is refused before it has any effect, or it gets through. -/
theorem Kernel.write_cases {k after : Kernel} {fd nbytes : Int} {buf : Option (Nat → UInt8)}
    {result : SysReturn} (hwrite : k.write fd buf nbytes = some (result, after)) :
    (result = failed ∧ after = k) ∨
      ∃ fops, k.Writes fd buf fops ∧ (result, after) = k.fopsWrite fops buf nbytes := by
  unfold Kernel.write at hwrite
  split at hwrite
  · obtain ⟨rfl, rfl⟩ := Prod.mk.inj (Option.some.inj hwrite)
    exact .inl ⟨rfl, rfl⟩
  · next hgood =>
    obtain ⟨pcb, hpcb, hwrite⟩ := Option.bind_eq_some_iff.mp hwrite
    obtain ⟨hmapped, rfl⟩ := Kernel.derefPcb_eq_some.mp hpcb
    split at hwrite
    · obtain ⟨rfl, rfl⟩ := Prod.mk.inj (Option.some.inj hwrite)
      exact .inl ⟨rfl, rfl⟩
    · next hflags =>
      split at hwrite
      · obtain ⟨rfl, rfl⟩ := Prod.mk.inj (Option.some.inj hwrite)
        exact .inl ⟨rfl, rfl⟩
      · next hfile =>
        obtain ⟨fops, hfops, heq⟩ := Option.map_eq_some_iff.mp hwrite
        simp only [not_or] at hgood
        obtain ⟨hbuf, hbig, hneg, hstdin⟩ := hgood
        exact .inr ⟨fops, ⟨by simpa using hbuf, by omega, by omega, hstdin, hmapped, hflags,
          not_not.mp hfile, hfops⟩, heq.symm⟩

/-- A write changes the display, the rates, or the saved line of the scheduled terminal. -/
theorem Kernel.write_store {k after : Kernel} {fd nbytes : Int} {buf : Option (Nat → UInt8)}
    {result : SysReturn} (hwrite : k.write fd buf nbytes = some (result, after)) :
    ∃ kb display rtc, after = { k with kb := kb, display := display, rtc := rtc } ∧
      (kb = k.kb ∨ kb = k.kb.clearSaved k.currScheduled) := by
  rcases Kernel.write_cases hwrite with ⟨-, rfl⟩ | ⟨fops, -, heq⟩
  · exact ⟨_, _, _, rfl, .inl rfl⟩
  obtain rfl := congrArg Prod.snd heq
  cases fops with
  | file | dir | stdin => exact ⟨_, _, _, rfl, .inl rfl⟩
  | rtc =>
      dsimp only [Kernel.fopsWrite]
      unfold Kernel.rtcWrite
      cases buf with
      | none => exact ⟨_, _, _, rfl, .inl rfl⟩
      | some buf =>
          dsimp only
          split
          · exact ⟨_, _, _, rfl, .inl rfl⟩
          · split
            · exact ⟨_, _, _, rfl, .inl rfl⟩
            · exact ⟨_, _, _, rfl, .inl rfl⟩
  | stdout =>
      dsimp only [Kernel.fopsWrite]
      unfold Kernel.terminalWrite
      cases buf with
      | none => exact ⟨_, _, _, rfl, .inl rfl⟩
      | some buf =>
          dsimp only
          split
          · exact ⟨_, _, _, rfl, .inl rfl⟩
          · split
            · exact ⟨_, _, _, rfl, .inl rfl⟩
            · exact ⟨_, _, _, rfl, .inr rfl⟩

/-- `open` finds an entry and a free descriptor for it. -/
structure Kernel.Opens (k : Kernel) (img : Image) (filename : Option (List UInt8)) (entry : Dentry)
    (fd : Nat) (fops : Fops) : Prop where
  found : filename.bind (readDentryByName img) = some entry
  mapped : k.displayedPcb < _8MB
  room : int32 (k.pcb k.displayedPcb).fileArrSize < MAX_OPEN_FILES
  slot : Kernel.freeEntry (k.pcb k.displayedPcb).fileArray (MAX_OPEN_FILES - STDI_O) STDI_O = fd
  lt : fd < MAX_OPEN_FILES
  table : fopsAt (Kernel.openedFd entry ((k.pcb k.displayedPcb).fileArray fd)).fopsTable = some fops

/-- The table once `open` has filled in a descriptor. -/
def Kernel.storeOpened (k : Kernel) (entry : Dentry) (fd : Nat) : Kernel :=
  k.setPcb k.displayedPcb
    { k.pcb k.displayedPcb with
      fileArray := update (k.pcb k.displayedPcb).fileArray fd
        (Kernel.openedFd entry ((k.pcb k.displayedPcb).fileArray fd))
      fileArrSize := u32 ((k.pcb k.displayedPcb).fileArrSize + 1) }

theorem Kernel.Opens.open_eq {k : Kernel} {img : Image} {filename : Option (List UInt8)}
    {entry : Dentry} {fd : Nat} {fops : Fops} (hopens : k.Opens img filename entry fd fops) :
    k.open_ img filename = some (.returned fd [], (k.storeOpened entry fd).fopsOpen fops) := by
  have hroom := hopens.room
  have hlt := hopens.lt
  unfold Kernel.open_
  rw [hopens.found]
  dsimp only
  rw [Kernel.derefPcb, if_pos hopens.mapped, Option.bind_some, if_neg (by omega), hopens.slot,
    if_neg (by omega), hopens.table]
  rfl

/-- `open` fails for want of an entry or of room, or fills in a descriptor. -/
theorem Kernel.open_cases {k after : Kernel} {img : Image} {filename : Option (List UInt8)}
    {result : SysReturn} (hopen : k.open_ img filename = some (result, after)) :
    (result = failed ∧ after = k ∧
        (int32 (k.pcb k.displayedPcb).fileArrSize < MAX_OPEN_FILES →
          filename.bind (readDentryByName img) = none)) ∨
      ∃ entry fd fops, k.Opens img filename entry fd fops ∧ result = .returned fd [] ∧
        after = (k.storeOpened entry fd).fopsOpen fops := by
  unfold Kernel.open_ at hopen
  split at hopen
  · next hnone =>
    obtain ⟨rfl, rfl⟩ := Prod.mk.inj (Option.some.inj hopen)
    exact .inl ⟨rfl, rfl, fun _ => hnone⟩
  · next entry hfound =>
    obtain ⟨pcb, hpcb, hopen⟩ := Option.bind_eq_some_iff.mp hopen
    obtain ⟨hmapped, rfl⟩ := Kernel.derefPcb_eq_some.mp hpcb
    split at hopen
    · next hfull =>
      obtain ⟨rfl, rfl⟩ := Prod.mk.inj (Option.some.inj hopen)
      exact .inl ⟨rfl, rfl, fun hroom => absurd hroom (by omega)⟩
    · next hroom =>
      dsimp only at hopen
      split at hopen
      · simp at hopen
      · next hlt =>
        obtain ⟨fops, hfops, heq⟩ := Option.map_eq_some_iff.mp hopen
        obtain ⟨rfl, rfl⟩ := Prod.mk.inj heq
        exact .inr ⟨entry, _, fops, ⟨hfound, hmapped, by omega, rfl, by omega, hfops⟩, rfl, rfl⟩

/-- `close` refuses its descriptor or clears its flags. -/
theorem Kernel.close_cases {k after : Kernel} {fd value : Int}
    (hclose : k.close fd = some (value, after)) :
    (value = -1 ∧ after = k) ∨
      value = 0 ∧ STDI_O ≤ fd ∧ fd < MAX_OPEN_FILES ∧
        after = k.setPcb k.displayedPcb
          { k.pcb k.displayedPcb with
            fileArrSize := u32 ((k.pcb k.displayedPcb).fileArrSize + (2 ^ 32 - 1))
            fileArray := update (k.pcb k.displayedPcb).fileArray fd.toNat
              { (k.pcb k.displayedPcb).fileArray fd.toNat with flags := 0 } } := by
  unfold Kernel.close at hclose
  split at hclose
  · obtain ⟨rfl, rfl⟩ := Prod.mk.inj (Option.some.inj hclose)
    exact .inl ⟨rfl, rfl⟩
  · obtain ⟨pcb, hpcb, heq⟩ := Option.map_eq_some_iff.mp hclose
    obtain ⟨-, rfl⟩ := Kernel.derefPcb_eq_some.mp hpcb
    split at heq <;> obtain ⟨rfl, rfl⟩ := Prod.mk.inj heq
    · exact .inl ⟨rfl, rfl⟩
    · exact .inr ⟨rfl, by omega, by omega, rfl⟩

/-! ## Descriptors -/

theorem Kernel.close_same {k after : Kernel} {fd value : Int}
    (hclose : k.close fd = some (value, after)) : SameProcesses k after := by
  rcases Kernel.close_cases hclose with ⟨-, rfl⟩ | ⟨-, -, -, rfl⟩
  · exact .refl _
  · exact .setPcb ⟨rfl, rfl, rfl, rfl, rfl, rfl⟩

/-- No process's arguments differ. -/
def SameArgs (k after : Kernel) : Prop := ∀ addr, (after.pcb addr).args = (k.pcb addr).args

theorem SameArgs.refl (k : Kernel) : SameArgs k k := fun _ => rfl

theorem SameArgs.trans {k middle after : Kernel} (hfirst : SameArgs k middle)
    (hsecond : SameArgs middle after) : SameArgs k after :=
  fun addr => (hsecond addr).trans (hfirst addr)

theorem SameArgs.of_pcb {k after : Kernel} (hpcb : after.pcb = k.pcb) : SameArgs k after := by
  intro addr
  rw [hpcb]

/-- Storing a PCB with the same arguments. -/
theorem SameArgs.update {k after : Kernel} {addr : Nat} {pcb : Pcb}
    (hafter : after.pcb = update k.pcb addr pcb) (hargs : pcb.args = (k.pcb addr).args) :
    SameArgs k after := by
  intro other
  rw [hafter]
  by_cases hother : other = addr
  · subst hother
    rw [update_self, hargs]
  · rw [update_of_ne hother]

theorem Kernel.close_args {k after : Kernel} {fd value : Int}
    (hclose : k.close fd = some (value, after)) : SameArgs k after := by
  rcases Kernel.close_cases hclose with ⟨-, rfl⟩ | ⟨-, -, -, rfl⟩
  · exact .refl _
  · exact .update rfl rfl

/-- Closing descriptors leaves the arguments alone. -/
theorem Kernel.closeEntry_args {k after : Kernel} {addr i : Nat}
    (hclose : k.closeEntry addr i = some after) : SameArgs k after := by
  unfold Kernel.closeEntry at hclose
  obtain ⟨middle, hmiddle, rfl⟩ := Option.map_eq_some_iff.mp hclose
  refine SameArgs.trans (?_ : SameArgs k middle) (.update rfl rfl)
  split at hmiddle
  · obtain ⟨fops, -, hfops⟩ := Option.bind_eq_some_iff.mp hmiddle
    cases fops with
    | file =>
        obtain ⟨⟨value, last⟩, hlast, rfl⟩ := Option.map_eq_some_iff.mp hfops
        exact Kernel.close_args hlast
    | dir | rtc | stdin | stdout =>
        obtain rfl := Option.some.inj hfops
        exact .of_pcb rfl
  · obtain rfl := Option.some.inj hmiddle
    exact .refl _

theorem Kernel.closeEntries_args {k after : Kernel} {addr : Nat}
    (hclose : k.closeEntries addr = some after) : SameArgs k after := by
  apply CountedLoop.foldlM_related SameArgs SameArgs.refl _ _ hclose
  · intro first second third hfirst hsecond
    exact hfirst.trans hsecond
  · intro first i _ second hentry
    exact Kernel.closeEntry_args hentry

theorem Kernel.fopsClose_same {k after : Kernel} {fops : Fops} {fd : Int}
    (hclose : k.fopsClose fops fd = some after) : SameProcesses k after := by
  cases fops with
  | file =>
      obtain ⟨⟨value, last⟩, hlast, rfl⟩ := Option.map_eq_some_iff.mp hclose
      exact Kernel.close_same hlast
  | dir =>
      obtain rfl := Option.some.inj hclose
      exact .of_io (.refl _) id k.rtc 0
  | rtc | stdin | stdout =>
      obtain rfl := Option.some.inj hclose
      exact .refl k

theorem Kernel.closeEntry_same {k after : Kernel} {addr i : Nat}
    (hclose : k.closeEntry addr i = some after) : SameProcesses k after := by
  unfold Kernel.closeEntry at hclose
  obtain ⟨middle, hmiddle, rfl⟩ := Option.map_eq_some_iff.mp hclose
  refine SameProcesses.trans (?_ : SameProcesses k middle) ?_
  · split at hmiddle
    · obtain ⟨fops, -, hfops⟩ := Option.bind_eq_some_iff.mp hmiddle
      exact Kernel.fopsClose_same hfops
    · obtain rfl := Option.some.inj hmiddle
      exact .refl k
  · exact .setPcb ⟨rfl, rfl, rfl, rfl, rfl, rfl⟩

theorem Kernel.closeEntries_same {k after : Kernel} {addr : Nat}
    (hclose : k.closeEntries addr = some after) : SameProcesses k after := by
  apply CountedLoop.foldlM_related SameProcesses SameProcesses.refl _ _ hclose
  · intro first second third hfirst hsecond
    exact hfirst.trans hsecond
  · intro first i _ second hentry
    exact Kernel.closeEntry_same hentry

/-- Closing descriptors leaves the keyboard alone. -/
theorem Kernel.close_input {k after : Kernel} {fd value : Int}
    (hclose : k.close fd = some (value, after)) : after.input = k.input := by
  rcases Kernel.close_cases hclose with ⟨-, rfl⟩ | ⟨-, -, -, rfl⟩ <;> rfl

/-- Closing descriptors writes PCBs and the directory position and nothing else. -/
theorem Kernel.closeEntry_store {k after : Kernel} {addr i : Nat}
    (hclose : k.closeEntry addr i = some after) :
    ∃ pcb dirIndex, after = { k with pcb := pcb, dirIndex := dirIndex } := by
  unfold Kernel.closeEntry at hclose
  obtain ⟨middle, hmiddle, rfl⟩ := Option.map_eq_some_iff.mp hclose
  have hstore : ∃ pcb dirIndex, middle = { k with pcb := pcb, dirIndex := dirIndex } := by
    split at hmiddle
    · obtain ⟨fops, -, hfops⟩ := Option.bind_eq_some_iff.mp hmiddle
      cases fops with
      | file =>
          obtain ⟨⟨value, last⟩, hlast, rfl⟩ := Option.map_eq_some_iff.mp hfops
          rcases Kernel.close_cases hlast with ⟨-, rfl⟩ | ⟨-, -, -, rfl⟩
          · exact ⟨_, _, rfl⟩
          · exact ⟨_, _, rfl⟩
      | dir | rtc | stdin | stdout =>
          obtain rfl := Option.some.inj hfops
          exact ⟨_, _, rfl⟩
    · obtain rfl := Option.some.inj hmiddle
      exact ⟨_, _, rfl⟩
  obtain ⟨pcb, dirIndex, rfl⟩ := hstore
  exact ⟨_, _, rfl⟩

theorem Kernel.closeEntries_store {k after : Kernel} {addr : Nat}
    (hclose : k.closeEntries addr = some after) :
    ∃ pcb dirIndex, after = { k with pcb := pcb, dirIndex := dirIndex } := by
  apply CountedLoop.foldlM_related
    (fun k after => ∃ pcb dirIndex,
      after = { k with pcb := pcb, dirIndex := dirIndex }) _ _ _ hclose
  · intro k
    exact ⟨k.pcb, k.dirIndex, rfl⟩
  · rintro first second third ⟨pcb, dirIndex, rfl⟩ ⟨pcb', dirIndex', rfl⟩
    exact ⟨pcb', dirIndex', rfl⟩
  · intro first i _ second hentry
    exact Kernel.closeEntry_store hentry

theorem Kernel.terminalRead_same (k : Kernel) (nbytes : Int) :
    SameProcesses k (k.terminalRead nbytes).2 := by
  unfold Kernel.terminalRead
  split
  · exact .refl k
  · split
    · have hkb : k.kb.InBounds → ({ k.kb.clearLine with enterFlag := false } : Keyboard).InBounds :=
        fun hkb => ⟨hkb.clearLine.index, hkb.clearLine.savedPos⟩
      exact .of_io (.putc2 k.display NEWLINE) hkb k.rtc k.dirIndex
    · exact .refl k

theorem Kernel.terminalWrite_same (k : Kernel) (buf : Option (Nat → UInt8)) (nbytes : Int) :
    SameProcesses k (k.terminalWrite buf nbytes).2 := by
  cases buf with
  | none => exact .refl k
  | some buf =>
      unfold Kernel.terminalWrite
      dsimp only
      split
      · exact .refl k
      · split
        · exact .refl k
        · exact .of_io (.putfile k.display _ _) (.clearSaved _) k.rtc k.dirIndex

theorem Kernel.rtcWrite_same (k : Kernel) (buf : Option (Nat → UInt8)) (nbytes : Int) :
    SameProcesses k (k.rtcWrite buf nbytes).2 := by
  cases buf with
  | none => exact .refl k
  | some buf =>
      unfold Kernel.rtcWrite
      dsimp only
      split
      · exact .refl k
      · split
        · exact .refl k
        · exact .of_io (.refl _) id _ k.dirIndex

theorem Kernel.dirRead_same (k : Kernel) (img : Image) (nbytes : Int) :
    SameProcesses k (k.dirRead img nbytes).2 := by
  unfold Kernel.dirRead
  split
  · exact .refl k
  · split
    · exact .refl k
    · exact .of_io (.refl _) id k.rtc _

theorem Kernel.fileRead_same {k after : Kernel} {img : Image} {fd nbytes : Int} {result : SysReturn}
    (hread : k.fileRead img fd nbytes = some (result, after)) : SameProcesses k after := by
  unfold Kernel.fileRead at hread
  split at hread
  · obtain ⟨rfl, rfl⟩ := Prod.mk.inj (Option.some.inj hread)
    exact .refl k
  · split at hread
    · obtain ⟨rfl, rfl⟩ := Prod.mk.inj (Option.some.inj hread)
      exact .refl k
    · obtain ⟨pcb, hpcb, heq⟩ := Option.map_eq_some_iff.mp hread
      obtain ⟨-, rfl⟩ := Kernel.derefPcb_eq_some.mp hpcb
      obtain ⟨rfl, rfl⟩ := Prod.mk.inj heq
      exact .setPcb ⟨rfl, rfl, rfl, rfl, rfl, rfl⟩

/-! ## System calls on descriptors -/

theorem Kernel.read_same {k after : Kernel} {img : Image} {fd nbytes : Int} {buf : Bool}
    {result : SysReturn} (hread : k.read img fd buf nbytes = some (result, after)) :
    SameProcesses k after := by
  rcases Kernel.read_cases hread with ⟨-, rfl⟩ | ⟨fops, -, hread⟩
  · exact .refl _
  · cases fops with
    | file => exact Kernel.fileRead_same hread
    | dir =>
        obtain rfl := congrArg Prod.snd (Option.some.inj hread)
        exact k.dirRead_same img nbytes
    | rtc =>
        obtain rfl := congrArg Prod.snd (Option.some.inj hread)
        exact .of_io (.refl _) id _ k.dirIndex
    | stdin =>
        obtain rfl := congrArg Prod.snd (Option.some.inj hread)
        exact k.terminalRead_same nbytes
    | stdout =>
        obtain rfl := congrArg Prod.snd (Option.some.inj hread)
        exact .refl k

theorem Kernel.write_same {k after : Kernel} {fd nbytes : Int} {buf : Option (Nat → UInt8)}
    {result : SysReturn} (hwrite : k.write fd buf nbytes = some (result, after)) :
    SameProcesses k after := by
  rcases Kernel.write_cases hwrite with ⟨-, rfl⟩ | ⟨fops, -, heq⟩
  · exact .refl _
  · obtain rfl := congrArg Prod.snd heq
    cases fops with
    | file | dir | stdin => exact .refl k
    | rtc => exact k.rtcWrite_same buf nbytes
    | stdout => exact k.terminalWrite_same buf nbytes

theorem Kernel.fopsOpen_same (k : Kernel) (fops : Fops) : SameProcesses k (k.fopsOpen fops) := by
  cases fops with
  | dir => exact .of_io (.refl _) id k.rtc 0
  | file | rtc | stdin | stdout => exact .refl k

theorem Kernel.open_same {k after : Kernel} {img : Image} {filename : Option (List UInt8)}
    {result : SysReturn} (hopen : k.open_ img filename = some (result, after)) :
    SameProcesses k after := by
  rcases Kernel.open_cases hopen with ⟨-, rfl, -⟩ | ⟨entry, fd, fops, -, -, rfl⟩
  · exact .refl _
  · refine SameProcesses.trans ?_ (Kernel.fopsOpen_same _ fops)
    exact .setPcb ⟨rfl, rfl, rfl, rfl, rfl, rfl⟩

theorem Kernel.getargs_same {k after : Kernel} {buf : Bool} {nbytes : Int} {result : SysReturn}
    (hargs : k.getargs buf nbytes = some (result, after)) : after = k := by
  unfold Kernel.getargs at hargs
  obtain ⟨character, -, hargs⟩ := Option.bind_eq_some_iff.mp hargs
  split at hargs
  · exact (congrArg Prod.snd (Option.some.inj hargs)).symm
  · split at hargs
    · simp at hargs
    · obtain ⟨out, -, heq⟩ := Option.map_eq_some_iff.mp hargs
      exact (congrArg Prod.snd heq).symm

theorem Kernel.vidmap_same {k after : Kernel} {screenStart : Nat} {result : SysReturn}
    (hvidmap : k.vidmap screenStart = some (result, after)) : SameProcesses k after := by
  unfold Kernel.vidmap at hvidmap
  split at hvidmap
  · obtain ⟨rfl, rfl⟩ := Prod.mk.inj (Option.some.inj hvidmap)
    exact .refl k
  · obtain ⟨last, hlast, heq⟩ := Option.map_eq_some_iff.mp hvidmap
    obtain ⟨-, rfl⟩ := Prod.mk.inj heq
    refine SameProcesses.trans ?_ (Kernel.storeUserBytes_same hlast).1
    exact
      { SameProcesses.refl k with
        sound := fun hk => ⟨hk.inRange, hk.inBounds, hk.pending⟩ }

theorem Kernel.vidmap_pcb {k after : Kernel} {screenStart : Nat} {result : SysReturn}
    (hvidmap : k.vidmap screenStart = some (result, after)) : after.pcb = k.pcb := by
  unfold Kernel.vidmap at hvidmap
  split at hvidmap
  · obtain ⟨rfl, rfl⟩ := Prod.mk.inj (Option.some.inj hvidmap)
    rfl
  · obtain ⟨last, hlast, heq⟩ := Option.map_eq_some_iff.mp hvidmap
    obtain ⟨-, rfl⟩ := Prod.mk.inj heq
    exact (Kernel.storeUserBytes_same hlast).2.1

theorem Kernel.keyboardInterrupt_same (k : Kernel) (c : UInt8) :
    SameProcesses k (k.keyboardInterrupt c) := by
  have heffect := keyboardHandler_effect k.keyState c
  exact
    { SameProcesses.refl k with
      currTerminal := congrArg Prod.fst heffect.kept.aim
      sound := heffect.sound }

/-- Events that are neither ticks nor calls of `execute` and `halt`. -/
def Event.Quiet : Event → Prop
  | .tick _ _ | .execute _ _ | .halt _ _ => False
  | _ => True

/-- A quiet event leaves every process where it is. -/
theorem step_same {img : Image} {k after : Kernel} {event : Event} (hquiet : event.Quiet)
    (hstep : step img k event = some after) : SameProcesses k after := by
  cases event with
  | tick | execute | halt => exact hquiet.elim
  | key c =>
      obtain rfl := Option.some.inj hstep
      exact k.keyboardInterrupt_same c
  | rtc =>
      obtain rfl := Option.some.inj hstep
      exact .of_io (.refl _) id _ k.dirIndex
  | read fd buf nbytes =>
      obtain ⟨⟨result, last⟩, hread, rfl⟩ := Option.map_eq_some_iff.mp hstep
      exact Kernel.read_same hread
  | write fd buf nbytes =>
      obtain ⟨⟨result, last⟩, hwrite, rfl⟩ := Option.map_eq_some_iff.mp hstep
      exact Kernel.write_same hwrite
  | open_ filename =>
      obtain ⟨⟨result, last⟩, hopen, rfl⟩ := Option.map_eq_some_iff.mp hstep
      exact Kernel.open_same hopen
  | close fd =>
      obtain ⟨⟨value, last⟩, hclose, rfl⟩ := Option.map_eq_some_iff.mp hstep
      exact Kernel.close_same hclose
  | getargs buf nbytes =>
      simp only [step, Option.map_eq_some_iff] at hstep
      obtain ⟨⟨result, last⟩, hargs, rfl⟩ := hstep
      obtain rfl := Kernel.getargs_same hargs
      exact .refl _
  | vidmap screenStart =>
      obtain ⟨⟨result, last⟩, hvidmap, rfl⟩ := Option.map_eq_some_iff.mp hstep
      exact Kernel.vidmap_same hvidmap

end Ece391
