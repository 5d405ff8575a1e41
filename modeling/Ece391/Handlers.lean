import Ece391.Effects

/-! # The three operations that move processes

`execute`, `halt` and `pit_handler` each have a short list of outcomes. The
records below give every field an outcome touches that selects, maps or resumes a
process.
-/

namespace Ece391

open Function Transition

/-! ## execute -/

/-- The program a call of `execute` gets as far as starting. -/
def Kernel.launching (k : Kernel) (img : Image) (command : Option (List UInt8)) : Option Program :=
  if k.processCount ≥ MAX_PROCESS_COUNT then none else command.bind (findProgram img)

theorem launching_some_iff {k : Kernel} {img : Image} {command : List UInt8} {program : Program} :
    k.launching img (some command) = some program ↔
      k.processCount < MAX_PROCESS_COUNT ∧ findProgram img command = some program := by
  unfold Kernel.launching
  by_cases hfull : k.processCount ≥ MAX_PROCESS_COUNT
  · rw [if_pos hfull]
    constructor
    · intro hsome
      cases hsome
    · rintro ⟨hroom, -⟩
      omega
  · rw [if_neg hfull]
    constructor
    · intro hfind
      exact ⟨by omega, hfind⟩
    · rintro ⟨-, hfind⟩
      exact hfind

/-- A new process in slot `i`, entered on the chain of the displayed terminal. -/
structure Launched (k : Kernel) (i : Nat) (args : List UInt8) (regs : Regs) (after : Kernel) :
    Prop where
  currScheduled : after.currScheduled = k.currScheduled
  currTerminal : after.currTerminal = k.currTerminal
  totalTerminal : after.totalTerminal = k.totalTerminal
  processCount : after.processCount = k.processCount + 1
  heads : after.highestTerminalProcesses =
    update k.highestTerminalProcesses k.currTerminal (i + 1)
  pcbSlots : after.pcbSlots = update k.pcbSlots i 1
  processPerTerminal : after.processPerTerminal =
    update k.processPerTerminal k.currTerminal (k.processPerTerminal k.currTerminal + 1)
  userPageEntry : after.userPageEntry = userPageOf (i + 1)
  tssEsp0 : after.tssEsp0 = stackTopOf i
  video : after.video = k.video
  input : after.input = k.input
  sound : k.keyState.Sound → after.keyState.Sound
  processNum : (after.pcb (getPCB (i + 1))).processNum = i + 1
  parentTask : (after.pcb (getPCB (i + 1))).parentTask =
    if k.head k.currTerminal ≠ 0 then getPCB (k.head k.currTerminal) else NULL
  esp0 : (after.pcb (getPCB (i + 1))).esp0 = stackTopOf i
  ebp : (after.pcb (getPCB (i + 1))).ebp = regs.ebp
  esp : (after.pcb (getPCB (i + 1))).esp = regs.esp
  fileArrSize : (after.pcb (getPCB (i + 1))).fileArrSize = STDI_O
  fileArray : ∃ old, (after.pcb (getPCB (i + 1))).fileArray = initFileArray old
  context : args.length ≤ maxArgsSpill → ∀ addr, addr % _8KB = 0 → addr ≠ getPCB (i + 1) →
    Pcb.SameContext (k.pcb addr) (after.pcb addr)
  copied : ∃ pcbs, storeKernelBytes k.pcb (getPCB (i + 1) + Pcb.argsOffset) args = some pcbs ∧
    ∀ addr, (after.pcb addr).args = (pcbs addr).args

/-- A program never loads with the count -1: that many bytes do not fit below the
end of the user's pages. -/
theorem Kernel.loadProgram_count {k after : Kernel} {img : Image} {inode : Nat}
    (hload : k.loadProgram img inode = some after) :
    int32 (readData img inode 0 (fileSize img inode)).1 ≠ -1 := by
  have hlength := readData_length img inode 0 (fileSize img inode)
  have hcount : (readData img inode 0 (fileSize img inode)).1 < 2 ^ 31 := by
    rcases Kernel.storeUserBytes_range hload with hnil | hle
    · rw [hlength, hnil]
      decide
    · rw [hlength]
      simp only [USER_VID_ADDR, PAGE_MEM_SIZE] at hle
      omega
  rw [int32, if_pos hcount]
  omega

theorem Kernel.launch_launched {k after : Kernel} {img : Image} {program : Program} {regs : Regs}
    {result : ExecReturn} (hlaunch : k.launch img program regs = some (result, after)) :
    result = .entered program.eip ∧
      Launched k (slotSearch k.pcbSlots) program.args regs after := by
  unfold Kernel.launch at hlaunch
  dsimp only at hlaunch
  rw [show k.countProcess.pcbSlots = k.pcbSlots from rfl] at hlaunch
  generalize slotSearch k.pcbSlots = i at hlaunch ⊢
  obtain ⟨loaded, hloaded, heq⟩ := Option.map_eq_some_iff.mp hlaunch
  obtain ⟨copied, hcopied, hload⟩ := Option.bind_eq_some_iff.mp hloaded
  obtain ⟨pcbs, hpcbs, rfl⟩ := Option.map_eq_some_iff.mp hcopied
  rw [if_neg (Kernel.loadProgram_count hload)] at heq
  obtain ⟨rfl, rfl⟩ := Prod.mk.inj heq
  obtain ⟨hsame, hpcb, hvideo, hinput⟩ := Kernel.storeUserBytes_same hload
  have hheads : loaded.highestTerminalProcesses = k.highestTerminalProcesses := hsame.heads
  have hdisplayed : loaded.currTerminal = k.currTerminal := hsame.currTerminal
  have hpcb' : loaded.pcb = pcbs := hpcb
  refine ⟨rfl, ?_⟩
  simp only [Kernel.enterProgram, Kernel.initPcb, Kernel.pushHead, Kernel.linkParent,
    Kernel.setPcb, update_idem, update_self]
  refine
    { currScheduled := hsame.currScheduled
      currTerminal := hsame.currTerminal
      totalTerminal := hsame.totalTerminal
      processCount := hsame.processCount
      heads := ?_
      pcbSlots := hsame.pcbSlots
      processPerTerminal := hsame.processPerTerminal
      userPageEntry := hsame.userPageEntry
      tssEsp0 := rfl
      video := hvideo
      input := hinput
      sound := hsame.sound
      processNum := ?_
      parentTask := ?_
      esp0 := ?_
      ebp := ?_
      esp := ?_
      fileArrSize := ?_
      fileArray := ?_
      context := ?_
      copied := ⟨pcbs, hpcbs, fun addr => ?_⟩ }
  · show update loaded.highestTerminalProcesses loaded.currTerminal (i + 1) = _
    rw [hheads, hdisplayed]
  all_goals simp only [update_self]
  · rw [Kernel.head, hheads, hdisplayed]
  · exact ⟨_, rfl⟩
  · intro hfits addr haligned hne
    rw [update_of_ne hne, hpcb']
    refine storeKernelBytes_sameContext (getPCB_mod (i + 1)) (Nat.le_add_right _ _) ?_ hpcbs
      haligned hne
    simp only [maxArgsSpill, Pcb.argsOffset, Pcb.processNumOffset, _8KB] at hfits ⊢
    omega
  · by_cases haddr : addr = getPCB (i + 1)
    · subst haddr
      rw [update_self, hpcb']
    · rw [update_of_ne haddr, hpcb']

/-- `execute` refuses without touching a process, or it starts its program. -/
theorem Kernel.execute_cases {k after : Kernel} {img : Image} {command : Option (List UInt8)}
    {regs : Regs} {result : ExecReturn}
    (hexecute : k.execute img command regs = some (result, after)) :
    (k.launching img command = none ∧ (∃ value, result = .returned value) ∧
      SameProcesses k after ∧ after.pcb = k.pcb ∧ after.video = k.video ∧
      after.input = k.input) ∨
    ∃ program, k.launching img command = some program ∧ k.processCount < MAX_PROCESS_COUNT ∧
      result = .entered program.eip ∧
      Launched k (slotSearch k.pcbSlots) program.args regs after := by
  cases command with
  | none =>
      obtain ⟨rfl, rfl⟩ := Prod.mk.inj (Option.some.inj hexecute)
      exact .inl ⟨by simp [Kernel.launching], ⟨-1, rfl⟩, .refl k, rfl, rfl, rfl⟩
  | some command =>
      unfold Kernel.execute at hexecute
      dsimp only at hexecute
      by_cases hfull : k.processCount ≥ MAX_PROCESS_COUNT
      · rw [if_pos hfull] at hexecute
        obtain ⟨rfl, rfl⟩ := Prod.mk.inj (Option.some.inj hexecute)
        have hkept := Display.Kept.printf k.display k.currScheduled maxProcessesText
        exact .inl ⟨if_pos hfull, ⟨0, rfl⟩, .of_io hkept id k.rtc k.dirIndex, rfl,
          Kernel.video_of_kept hkept rfl, rfl⟩
      · rw [if_neg hfull] at hexecute
        have hlaunching : k.launching img (some command) = findProgram img command := if_neg hfull
        rw [hlaunching]
        cases hfind : findProgram img command with
        | none =>
            rw [hfind] at hexecute
            obtain ⟨rfl, rfl⟩ := Prod.mk.inj (Option.some.inj hexecute)
            exact .inl ⟨rfl, ⟨-1, rfl⟩, .refl k, rfl, rfl, rfl⟩
        | some program =>
            rw [hfind] at hexecute
            obtain ⟨hresult, hlaunched⟩ := Kernel.launch_launched hexecute
            exact .inr ⟨program, rfl, by omega, hresult, hlaunched⟩

/-- A program that is entered has gone through all stages of `execute`. -/
theorem Kernel.execute_stages {k entered : Kernel} {img : Image} {command : Option (List UInt8)}
    {regs : Regs} {eip : Nat}
    (hexecute : k.execute img command regs = some (.entered eip, entered)) :
    ∃ text program copied loaded, command = some text ∧ k.processCount < MAX_PROCESS_COUNT ∧
      findProgram img text = some program ∧ eip = program.eip ∧
      (k.countProcess.takeSlot (slotSearch k.pcbSlots)).copyArgs (slotSearch k.pcbSlots)
        program.args = some copied ∧
      (copied.mapProgram (slotSearch k.pcbSlots)).loadProgram img program.inode = some loaded ∧
      entered = loaded.enterProgram (slotSearch k.pcbSlots) program.eip regs := by
  rcases Kernel.execute_cases hexecute with ⟨-, ⟨value, hvalue⟩, -⟩ | hstarted
  · cases hvalue
  obtain ⟨program, hlaunching, hcount, -, -⟩ := hstarted
  have hroom : ¬ k.processCount ≥ MAX_PROCESS_COUNT := by omega
  rw [Kernel.launching, if_neg hroom] at hlaunching
  obtain ⟨text, rfl, hfind⟩ := Option.bind_eq_some_iff.mp hlaunching
  have hlaunch : k.launch img program regs = some (.entered eip, entered) := by
    simpa only [Kernel.execute, if_neg hroom, hfind] using hexecute
  unfold Kernel.launch at hlaunch
  obtain ⟨loaded, hloaded, heq⟩ := Option.map_eq_some_iff.mp hlaunch
  obtain ⟨copied, hcopied, hload⟩ := Option.bind_eq_some_iff.mp hloaded
  rw [if_neg (Kernel.loadProgram_count hload)] at heq
  obtain ⟨heip, rfl⟩ := Prod.mk.inj heq
  exact ⟨text, program, copied, loaded, rfl, hcount, hfind, (ExecReturn.entered.inj heip).symm,
    hcopied, hload, rfl⟩

/-- Stages that all come through enter the program. -/
theorem Kernel.execute_enters {k copied loaded : Kernel} {img : Image}
    {command : Option (List UInt8)} {program : Program} (regs : Regs)
    (hlaunching : k.launching img command = some program)
    (hcopied : (k.countProcess.takeSlot (slotSearch k.pcbSlots)).copyArgs (slotSearch k.pcbSlots)
      program.args = some copied)
    (hload : (copied.mapProgram (slotSearch k.pcbSlots)).loadProgram img program.inode =
      some loaded) :
    k.execute img command regs = some (.entered program.eip,
      loaded.enterProgram (slotSearch k.pcbSlots) program.eip regs) := by
  have hroom : ¬ k.processCount ≥ MAX_PROCESS_COUNT := by
    intro hfull
    rw [Kernel.launching, if_pos hfull] at hlaunching
    cases hlaunching
  rw [Kernel.launching, if_neg hroom] at hlaunching
  obtain ⟨text, rfl, hfind⟩ := Option.bind_eq_some_iff.mp hlaunching
  have hexecute : k.execute img (some text) regs = k.launch img program regs := by
    simp only [Kernel.execute, if_neg hroom, hfind]
  have hslots : k.countProcess.pcbSlots = k.pcbSlots := rfl
  rw [hexecute]
  unfold Kernel.launch
  dsimp only
  rw [hslots, hcopied, Option.bind_some, hload, Option.map_some,
    if_neg (Kernel.loadProgram_count hload)]

/-- The whole program fits into the 4 MB page it is loaded into. -/
def Loadable (img : Image) (inode : Nat) : Prop :=
  PROG_LOAD_ADDR + (readData img inode 0 (fileSize img inode)).2.length ≤ USER_VID_ADDR

/-- A program that fits is started when its arguments can be copied; what the new
process finds is then given in full. -/
theorem Kernel.execute_eq {k : Kernel} {img : Image} {command : Option (List UInt8)}
    {program : Program} {pcbs : PcbMemory} (regs : Regs)
    (hlaunching : k.launching img command = some program)
    (hcopy : storeKernelBytes k.pcb (getPCB (slotSearch k.pcbSlots + 1) + Pcb.argsOffset)
      program.args = some pcbs)
    (hload : Loadable img program.inode) :
    ∃ phys, k.execute img command regs =
      some (.entered program.eip, Kernel.enterProgram
        { (k.countProcess.takeSlot (slotSearch k.pcbSlots)).mapProgram (slotSearch k.pcbSlots) with
          pcb := pcbs
          phys := phys } (slotSearch k.pcbSlots) program.eip regs) := by
  have hcopied : (k.countProcess.takeSlot (slotSearch k.pcbSlots)).copyArgs
      (slotSearch k.pcbSlots) program.args =
      some { k.countProcess.takeSlot (slotSearch k.pcbSlots) with pcb := pcbs } := by
    have hpcb : (k.countProcess.takeSlot (slotSearch k.pcbSlots)).pcb = k.pcb := rfl
    unfold Kernel.copyArgs
    rw [hpcb, hcopy]
    rfl
  obtain ⟨phys, hstore⟩ := Kernel.storeUserBytes_program
    { (k.countProcess.takeSlot (slotSearch k.pcbSlots)).mapProgram (slotSearch k.pcbSlots) with
      pcb := pcbs }
    (by decide : _128MB ≤ PROG_LOAD_ADDR) hload
  exact ⟨phys, Kernel.execute_enters regs hlaunching hcopied hstore⟩

/-- A command without arguments whose program fits is always started. -/
theorem Kernel.execute_completes {k : Kernel} {img : Image} {command : Option (List UInt8)}
    {program : Program} (regs : Regs) (hlaunching : k.launching img command = some program)
    (hargs : program.args = []) (hload : Loadable img program.inode) :
    ∃ after, k.execute img command regs = some (.entered program.eip, after) := by
  have hcopy : storeKernelBytes k.pcb (getPCB (slotSearch k.pcbSlots + 1) + Pcb.argsOffset)
      program.args = some k.pcb := by
    rw [hargs]
    rfl
  obtain ⟨phys, hexecute⟩ := Kernel.execute_eq regs hlaunching hcopy hload
  exact ⟨_, hexecute⟩

/-! ## halt -/

/-- The running process is taken out of the table; the head of its terminal still
names it. -/
structure Released (k after : Kernel) : Prop where
  mapped : k.scheduledPcb < _8MB
  currScheduled : after.currScheduled = k.currScheduled
  currTerminal : after.currTerminal = k.currTerminal
  totalTerminal : after.totalTerminal = k.totalTerminal
  processCount : after.processCount = k.processCount - 1
  heads : after.highestTerminalProcesses = k.highestTerminalProcesses
  pcbSlots : after.pcbSlots = update k.pcbSlots (k.head k.currScheduled - 1) 0
  processPerTerminal : after.processPerTerminal =
    update k.processPerTerminal k.currScheduled (k.processPerTerminal k.currScheduled - 1)
  userPageEntry : after.userPageEntry = k.userPageEntry
  tssEsp0 : after.tssEsp0 = k.tssEsp0
  input : after.input = k.input
  sound : k.keyState.Sound → after.keyState.Sound
  context : ∀ addr, Pcb.SameContext (k.pcb addr) (after.pcb addr)
  others : ∀ addr ≠ k.scheduledPcb, (after.pcb addr).args = (k.pcb addr).args
  cleared : ∀ j < MAX_ARGS, (after.pcb k.scheduledPcb).args j = NUL

/-- The loop that clears `args`. -/
theorem foldl_clear (args : Nat → UInt8) (count : Nat) {j : Nat} (hlt : j < count) :
    (List.range count).foldl (fun args j => update args j NUL) args j = NUL := by
  induction count with
  | zero => omega
  | succ count ih =>
      rw [List.range_succ, List.foldl_append, List.foldl_cons, List.foldl_nil]
      by_cases hj : j = count
      · subst hj
        rw [update_self]
      · rw [update_of_ne hj]
        exact ih (by omega)

theorem Kernel.clearArgs_same (k : Kernel) (addr : Nat) : SameProcesses k (k.clearArgs addr) :=
  .setPcb ⟨rfl, rfl, rfl, rfl, rfl, rfl⟩

theorem Kernel.release_released {k after : Kernel} (hrelease : k.release = some after) :
    Released k after := by
  unfold Kernel.release at hrelease
  obtain ⟨pcb, hpcb, hrelease⟩ := Option.bind_eq_some_iff.mp hrelease
  obtain ⟨closed, hclosed, rfl⟩ := Option.map_eq_some_iff.mp hrelease
  have hsame := (Kernel.closeEntries_same hclosed).trans (closed.clearArgs_same k.scheduledPcb)
  have hinput : closed.input = k.input := by
    obtain ⟨pcb, dirIndex, rfl⟩ := Kernel.closeEntries_store hclosed
    rfl
  refine
    { mapped := (Kernel.derefPcb_eq_some.mp hpcb).1
      currScheduled := hsame.currScheduled
      currTerminal := hsame.currTerminal
      totalTerminal := hsame.totalTerminal
      processCount := hsame.processCount
      heads := hsame.heads
      pcbSlots := ?_
      processPerTerminal := hsame.processPerTerminal
      userPageEntry := hsame.userPageEntry
      tssEsp0 := hsame.tssEsp0
      input := hinput
      sound := hsame.sound
      context := hsame.context
      others := fun addr haddr => ?_
      cleared := fun j hj => ?_ }
  swap
  · have hargs := Kernel.closeEntries_args hclosed addr
    exact (congrArg Pcb.args (update_of_ne haddr _ _)).trans hargs
  swap
  · change ((update closed.pcb k.scheduledPcb _) k.scheduledPcb).args j = NUL
    rw [update_self]
    exact foldl_clear _ _ hj
  have hhead : (closed.clearArgs k.scheduledPcb).head
      (closed.clearArgs k.scheduledPcb).currScheduled = k.head k.currScheduled := by
    rw [Kernel.head, hsame.heads, hsame.currScheduled]
  have hslots := hsame.pcbSlots
  dsimp only at hslots ⊢
  rw [hhead, hslots]

theorem Kernel.resetTerminal_eq (k : Kernel) :
    ∃ d, k.display.Kept d ∧
      k.resetTerminal =
        { k with
          highestTerminalProcesses := update k.highestTerminalProcesses k.currTerminal 0
          display := d } :=
  ⟨_, .clearScreen k.display, rfl⟩

/-- Only PCBs that have a parent lead back to one. -/
def Kernel.hasParent (k : Kernel) : Prop := (k.pcb k.scheduledPcb).parentTask ≠ NULL

instance (k : Kernel) : Decidable k.hasParent := inferInstanceAs (Decidable (_ ≠ _))

/-- `halt` frees the slot of the running process. Then it goes back to the parent,
or the chain of the displayed terminal is emptied and a new shell executed. -/
theorem Kernel.halt_release {k after : Kernel} {img : Image} {status : UInt8} {regs : Regs}
    {result : HaltReturn} (hhalt : k.halt img status regs = some (result, after)) :
    ∃ released, k.release = some released ∧ Released k released ∧
      ((k.hasParent ∧ (k.pcb k.scheduledPcb).parentTask < _8MB ∧
          result = .toParent status (k.pcb k.scheduledPcb).esp (k.pcb k.scheduledPcb).ebp ∧
          after = released.restoreParent
            (released.pcb (k.pcb k.scheduledPcb).parentTask)) ∨
        (¬ k.hasParent ∧ ∃ executed,
          released.resetTerminal.execute img (some shellCommand) regs = some executed ∧
          executed.2 = after)) := by
  unfold Kernel.halt at hhalt
  obtain ⟨released, hrelease, hhalt⟩ := Option.bind_eq_some_iff.mp hhalt
  have hreleased := Kernel.release_released hrelease
  have hcontext := hreleased.context k.scheduledPcb
  rw [hcontext.parentTask] at hhalt
  refine ⟨released, hrelease, hreleased, ?_⟩
  by_cases hparent : k.hasParent
  · rw [if_pos (show (k.pcb k.scheduledPcb).parentTask ≠ NULL from hparent)] at hhalt
    obtain ⟨parent, hparentPcb, heq⟩ := Option.map_eq_some_iff.mp hhalt
    obtain ⟨hmapped, rfl⟩ := Kernel.derefPcb_eq_some.mp hparentPcb
    obtain ⟨rfl, rfl⟩ := Prod.mk.inj heq
    have hreturn : HaltReturn.toParent status (released.pcb k.scheduledPcb).esp
        (released.pcb k.scheduledPcb).ebp =
        .toParent status (k.pcb k.scheduledPcb).esp (k.pcb k.scheduledPcb).ebp := by
      rw [hcontext.esp, hcontext.ebp]
    exact .inl ⟨hparent, hmapped, hreturn, rfl⟩
  · rw [if_neg (show ¬ (k.pcb k.scheduledPcb).parentTask ≠ NULL from hparent)] at hhalt
    obtain ⟨executed, hexecuted, heq⟩ := Option.map_eq_some_iff.mp hhalt
    refine .inr ⟨hparent, executed, hexecuted, ?_⟩
    obtain ⟨last, final⟩ := executed
    cases last <;> exact (Prod.mk.inj heq).2

theorem Kernel.halt_cases {k after : Kernel} {img : Image} {status : UInt8} {regs : Regs}
    {result : HaltReturn} (hhalt : k.halt img status regs = some (result, after)) :
    ∃ released, Released k released ∧
      ((k.hasParent ∧ (k.pcb k.scheduledPcb).parentTask < _8MB ∧
          result = .toParent status (k.pcb k.scheduledPcb).esp (k.pcb k.scheduledPcb).ebp ∧
          after = released.restoreParent
            (released.pcb (k.pcb k.scheduledPcb).parentTask)) ∨
        (¬ k.hasParent ∧ ∃ executed,
          released.resetTerminal.execute img (some shellCommand) regs = some executed ∧
          executed.2 = after)) := by
  obtain ⟨released, -, hcases⟩ := Kernel.halt_release hhalt
  exact ⟨released, hcases⟩

/-! ## pit_handler -/

/-- The terminal that is displayed once a pending switch has taken effect. -/
def Kernel.displayedNext (k : Kernel) : Terminal := k.switchFlag.getD k.currTerminal

/-- Where the handler aims `video_mem` and the user's video page. -/
def Kernel.aimedNext (k : Kernel) : VideoPage × Nat :=
  (videoPageFor k.currScheduled.next k.displayedNext,
    vidEntryOf (videoPageFor k.currScheduled.next k.displayedNext))

/-- What every path of the handler starts with: the pending switch and the aim. -/
def Kernel.prepareTick (k : Kernel) : Kernel :=
  k.applySwitch.aimVideo (videoPageFor k.currScheduled.next k.displayedNext)

theorem Kernel.applySwitch_eq (k : Kernel) :
    ∃ d, d.aim = (k.displayedNext, k.display.videoMem) ∧ (k.display.InRange → d.InRange) ∧
      k.applySwitch = { k with display := d, switchFlag := none } := by
  unfold Kernel.applySwitch Kernel.displayedNext
  cases hflag : k.switchFlag with
  | none =>
      refine ⟨k.display, rfl, id, ?_⟩
      cases k
      simp_all
  | some t =>
      exact ⟨_, k.display.switchTerminal_aim k.currTerminal t,
        Display.switchTerminal_inRange k.currTerminal t, rfl⟩

theorem Kernel.prepareTick_eq (k : Kernel) :
    ∃ d, d.aim = (k.displayedNext, videoPageFor k.currScheduled.next k.displayedNext) ∧
      (k.display.InRange → d.InRange) ∧
      k.prepareTick =
        { k with
          display := d
          switchFlag := none
          vidTableEntry := vidEntryOf (videoPageFor k.currScheduled.next k.displayedNext) } := by
  obtain ⟨d, hd, hrange, heq⟩ := k.applySwitch_eq
  refine ⟨{ d with videoMem := videoPageFor k.currScheduled.next k.displayedNext }, ?_, hrange, ?_⟩
  · have hdisplayed : d.currTerminal = k.displayedNext := congrArg Prod.fst hd
    exact Prod.ext hdisplayed rfl
  · rw [Kernel.prepareTick, heq]
    rfl

theorem Kernel.pitHandler_eq (k : Kernel) (img : Image) (ebp : Nat) (inner : Regs) :
    k.pitHandler img ebp inner =
      if k.totalTerminal < 3 then k.prepareTick.startShell img ebp inner k.currScheduled.next
      else if k.totalTerminal = 3 then some k.prepareTick.finishStartUp
      else k.prepareTick.rotate ebp k.currScheduled.next := by
  obtain ⟨d, hd, -, heq⟩ := k.applySwitch_eq
  have hdisplayed : k.applySwitch.currTerminal = k.displayedNext := by
    rw [heq]
    exact congrArg Prod.fst hd
  have hscheduled : k.applySwitch.currScheduled = k.currScheduled := by rw [heq]
  have htotal : (k.applySwitch.aimVideo (videoPageFor k.currScheduled.next
      k.displayedNext)).totalTerminal = k.totalTerminal := by
    rw [heq]
    rfl
  simp only [Kernel.pitHandler, Kernel.prepareTick, hdisplayed, hscheduled, htotal]

/-- The rotation as one assignment: the running process is saved, the head of the
next terminal mapped and given the kernel stack. -/
theorem Kernel.rotate_eq (k : Kernel) (ebp : Nat) (next : Terminal) :
    k.rotate ebp next =
      if k.scheduledPcb < _8MB ∧ getPCB (k.head next) < _8MB then
        some
          { k with
            userPageEntry := userPageOf (k.head next)
            pcb := update k.pcb k.scheduledPcb
              { k.pcb k.scheduledPcb with esp0 := k.tssEsp0, ebpScheduler := ebp }
            tssEsp0 :=
              if getPCB (k.head next) = k.scheduledPcb then k.tssEsp0
              else (k.pcb (getPCB (k.head next))).esp0
            currScheduled := next }
      else none := by
  by_cases hmapped : k.scheduledPcb < _8MB
  · have hsaved : ∀ k' : Kernel, k'.derefPcb k.scheduledPcb = some (k'.pcb k.scheduledPcb) :=
      fun _ => if_pos hmapped
    by_cases hnext : getPCB (k.head next) < _8MB
    · have hresumed : ∀ k' : Kernel,
          k'.derefPcb (getPCB (k.head next)) = some (k'.pcb (getPCB (k.head next))) :=
        fun _ => if_pos hnext
      rw [if_pos ⟨hmapped, hnext⟩]
      simp only [Kernel.rotate, hsaved, hresumed, Kernel.setPcb, Option.bind_some,
        Option.map_some, update_self, update_idem]
      by_cases hsame : getPCB (k.head next) = k.scheduledPcb
      · simp only [hsame, update_self, if_true]
      · simp only [update_of_ne hsame, if_neg hsame]
    · have hfault : ∀ k' : Kernel, k'.derefPcb (getPCB (k.head next)) = none :=
        fun _ => if_neg hnext
      rw [if_neg fun h => hnext h.2]
      simp only [Kernel.rotate, hsaved, hfault, Kernel.setPcb, Option.bind_some, Option.map_none]
  · have hfault : ∀ k' : Kernel, k'.derefPcb k.scheduledPcb = none := fun _ => if_neg hmapped
    rw [if_neg fun h => hmapped h.1]
    simp only [Kernel.rotate, hfault, Option.bind_none]

/-- The rotation saves the running process and maps the next terminal's head. -/
structure Rotated (k : Kernel) (ebp : Nat) (after : Kernel) : Prop where
  mapped : k.scheduledPcb < _8MB
  nextMapped : getPCB (k.head k.currScheduled.next) < _8MB
  currScheduled : after.currScheduled = k.currScheduled.next
  currTerminal : after.currTerminal = k.displayedNext
  totalTerminal : after.totalTerminal = k.totalTerminal
  switchFlag : after.switchFlag = none
  kb : after.kb = k.kb
  video : after.video = k.aimedNext
  sound : k.keyState.Sound → after.keyState.Sound
  processCount : after.processCount = k.processCount
  heads : after.highestTerminalProcesses = k.highestTerminalProcesses
  pcbSlots : after.pcbSlots = k.pcbSlots
  processPerTerminal : after.processPerTerminal = k.processPerTerminal
  userPageEntry : after.userPageEntry = userPageOf (k.head k.currScheduled.next)
  pcb : after.pcb = update k.pcb k.scheduledPcb
    { k.pcb k.scheduledPcb with esp0 := k.tssEsp0, ebpScheduler := ebp }
  tssEsp0 : after.tssEsp0 =
    if getPCB (k.head k.currScheduled.next) = k.scheduledPcb then k.tssEsp0
    else (k.pcb (getPCB (k.head k.currScheduled.next))).esp0

/-- A tick after the start-up rotates. -/
theorem Kernel.pitHandler_rotated {k after : Kernel} {img : Image} {ebp : Nat} {inner : Regs}
    (hrunning : 3 < k.totalTerminal) (htick : k.pitHandler img ebp inner = some after) :
    Rotated k ebp after := by
  rw [k.pitHandler_eq, if_neg (by omega), if_neg (by omega)] at htick
  obtain ⟨d, hd, hrange, heq⟩ := k.prepareTick_eq
  rw [heq, Kernel.rotate_eq] at htick
  have hdisplayed : d.currTerminal = k.displayedNext := congrArg Prod.fst hd
  split at htick
  · rename_i hmapped
    obtain rfl := Option.some.inj htick
    have hvideo : (d.videoMem, _) = k.aimedNext := Prod.ext (congrArg Prod.snd hd) rfl
    have hsound : k.keyState.Sound → KeyState.Sound ⟨k.kb, d, none⟩ := fun hk =>
      .of_none (hrange hk.inRange) hk.inBounds
    exact ⟨hmapped.1, hmapped.2, rfl, hdisplayed, rfl, rfl, rfl, hvideo, hsound, rfl, rfl,
      rfl, rfl, rfl, rfl, rfl⟩
  · simp at htick

/-- System calls and the other interrupts stay on their terminal. -/
theorem step_scheduled {img : Image} {k after : Kernel} {event : Event}
    (hnotTick : ∀ ebp inner, event ≠ .tick ebp inner) (hstep : step img k event = some after) :
    after.currScheduled = k.currScheduled := by
  by_cases hquiet : event.Quiet
  · exact (step_same hquiet hstep).currScheduled
  have hexecute : ∀ {k after : Kernel} {command : Option (List UInt8)} {regs : Regs}
      {result : ExecReturn}, k.execute img command regs = some (result, after) →
      after.currScheduled = k.currScheduled := by
    intro k after command regs result hexecute
    rcases Kernel.execute_cases hexecute with ⟨-, -, hsame, -⟩ | ⟨program, -, -, -, hlaunched⟩
    · exact hsame.currScheduled
    · exact hlaunched.currScheduled
  cases event with
  | tick ebp inner => exact absurd rfl (hnotTick ebp inner)
  | execute command regs =>
      obtain ⟨⟨result, last⟩, hexecuted, rfl⟩ := Option.map_eq_some_iff.mp hstep
      exact hexecute hexecuted
  | halt status regs =>
      obtain ⟨⟨result, last⟩, hhalt, rfl⟩ := Option.map_eq_some_iff.mp hstep
      obtain ⟨released, hreleased, hcases⟩ := Kernel.halt_cases hhalt
      rcases hcases with ⟨-, -, -, hlast⟩ | ⟨-, ⟨result', last'⟩, hexecuted, hlast⟩
      · obtain rfl := hlast
        exact hreleased.currScheduled
      · obtain rfl : last' = last := hlast
        obtain ⟨d, -, hreset⟩ := released.resetTerminal_eq
        have hscheduled := hexecute hexecuted
        rw [hreset] at hscheduled
        exact hscheduled.trans hreleased.currScheduled
  | key | rtc | read | write | open_ | close | getargs | vidmap => exact (hquiet trivial).elim

/-! ## The start-up ticks -/

/-- What a start-up tick has done when it calls `execute` for the next shell. The
first shell has no process to leave, and is not scheduled by the tick itself. -/
structure LeftForShell (k : Kernel) (ebp : Nat) (left : Kernel) : Prop where
  mapped : k.totalTerminal ≠ 0 → k.scheduledPcb < _8MB
  currScheduled : left.currScheduled =
    if k.totalTerminal = 0 then k.currScheduled else k.currScheduled.next
  currTerminal : left.currTerminal =
    if k.totalTerminal = 0 then k.displayedNext
    else if k.totalTerminal = 1 then .T2 else .T3
  totalTerminal : left.totalTerminal = k.totalTerminal + 1
  switchFlag : left.switchFlag = none
  kb : left.kb = k.kb
  video : left.video = k.aimedNext
  sound : k.keyState.Sound → left.keyState.Sound
  processCount : left.processCount = k.processCount
  heads : left.highestTerminalProcesses = k.highestTerminalProcesses
  pcbSlots : left.pcbSlots = k.pcbSlots
  processPerTerminal : left.processPerTerminal = k.processPerTerminal
  userPageEntry : left.userPageEntry = k.userPageEntry
  tssEsp0 : left.tssEsp0 = k.tssEsp0
  pcb : left.pcb =
    if k.totalTerminal = 0 then k.pcb
    else update k.pcb k.scheduledPcb
      { k.pcb k.scheduledPcb with esp0 := k.tssEsp0, ebpScheduler := ebp }

/-- Where a switch between two terminal numbers leaves the display. -/
def switchedTo (origin target : Nat) (displayed : Terminal) : Terminal :=
  match Terminal.ofNum origin, Terminal.ofNum target with
  | some _, some target => target
  | _, _ => displayed

theorem Kernel.switchNumbers_eq (k : Kernel) (origin target : Nat) :
    ∃ d, d.aim = (switchedTo origin target k.currTerminal, k.display.videoMem) ∧
      (k.display.InRange → d.InRange) ∧
      k.switchNumbers origin target = { k with display := d } := by
  unfold Kernel.switchNumbers switchedTo
  cases Terminal.ofNum origin with
  | none => exact ⟨k.display, rfl, id, rfl⟩
  | some origin =>
      cases Terminal.ofNum target with
      | none => exact ⟨k.display, rfl, id, rfl⟩
      | some target =>
          exact ⟨_, k.display.switchTerminal_aim origin target,
            Display.switchTerminal_inRange origin target, rfl⟩

/-- A tick while shells are missing leaves the running process, if there is one, and
executes the shell. -/
theorem Kernel.pitHandler_shell_eq {k : Kernel} (img : Image) (ebp : Nat) (inner : Regs)
    (hmissing : k.totalTerminal < 3) (hmapped : k.totalTerminal ≠ 0 → k.scheduledPcb < _8MB) :
    ∃ left, LeftForShell k ebp left ∧
      k.pitHandler img ebp inner =
        (left.execute img (some shellCommand) inner).map Prod.snd := by
  rw [k.pitHandler_eq, if_pos hmissing]
  obtain ⟨d, hd, hrange, heq⟩ := k.prepareTick_eq
  rw [heq]
  unfold Kernel.startShell
  dsimp only
  obtain ⟨switched, hswitched, hkept, hnumbers⟩ := Kernel.switchNumbers_eq
    { k with
      display := d
      switchFlag := none
      vidTableEntry := vidEntryOf (videoPageFor k.currScheduled.next k.displayedNext)
      totalTerminal := k.totalTerminal + 1 } (k.totalTerminal + 1 - 1) (k.totalTerminal + 1)
  rw [hnumbers]
  have hshown : ((switched.updateCursor 0 0).setCursors 0 0).currTerminal =
      if k.totalTerminal = 0 then k.displayedNext
      else if k.totalTerminal = 1 then .T2 else .T3 := by
    have haim := (switched.updateCursor 0 0).setCursors_aim 0 0
    rw [Display.updateCursor_aim, hswitched] at haim
    have hfirst := congrArg Prod.fst hd
    have htotal : k.totalTerminal = 0 ∨ k.totalTerminal = 1 ∨ k.totalTerminal = 2 := by omega
    rcases htotal with h | h | h <;> rw [h] at haim ⊢
    · exact (congrArg Prod.fst haim).trans hfirst
    · exact congrArg Prod.fst haim
    · exact congrArg Prod.fst haim
  have hpage : ((switched.updateCursor 0 0).setCursors 0 0).videoMem = k.aimedNext.1 := by
    have haim := (switched.updateCursor 0 0).setCursors_aim 0 0
    rw [Display.updateCursor_aim, hswitched] at haim
    exact (congrArg Prod.snd haim).trans (congrArg Prod.snd hd)
  have hcursors : k.display.InRange → ((switched.updateCursor 0 0).setCursors 0 0).InRange :=
    fun hk => (Display.Kept.setCursors (switched.updateCursor 0 0) 0 0).inRange (hkept (hrange hk))
  generalize (switched.updateCursor 0 0).setCursors 0 0 = shown at hshown hpage hcursors
  -- the first of these ticks has no process to save
  by_cases hfirst : k.totalTerminal = 0
  · rw [if_neg (by simp [hfirst]), Option.bind_some]
    refine ⟨_, ?_, rfl⟩
    exact
      { mapped := fun hne => absurd hfirst hne
        currScheduled := by rw [if_pos hfirst]
        currTerminal := hshown
        totalTerminal := rfl
        switchFlag := rfl
        kb := rfl
        video := Prod.ext hpage rfl
        sound := fun hk => .of_none (hcursors hk.inRange) hk.inBounds
        processCount := rfl
        heads := rfl
        pcbSlots := rfl
        processPerTerminal := rfl
        userPageEntry := rfl
        tssEsp0 := rfl
        pcb := by rw [if_pos hfirst] }
  · have hderef : ∀ k' : Kernel, k'.derefPcb k.scheduledPcb = some (k'.pcb k.scheduledPcb) :=
      fun _ => if_pos (hmapped hfirst)
    have hsaved : ∀ k' : Kernel, k'.highestTerminalProcesses = k.highestTerminalProcesses →
        k'.currScheduled = k.currScheduled → k'.scheduledPcb = k.scheduledPcb := by
      intro k' hheads hscheduled
      rw [Kernel.scheduledPcb, Kernel.head, hheads, hscheduled, Kernel.scheduledPcb]
    rw [if_pos (by simpa using hfirst)]
    simp only [hsaved, hderef, Option.map_some, Option.bind_some]
    refine ⟨_, ?_, rfl⟩
    exact
      { mapped := fun _ => hmapped hfirst
        currScheduled := by rw [if_neg hfirst]
        currTerminal := hshown
        totalTerminal := rfl
        switchFlag := rfl
        kb := rfl
        video := Prod.ext hpage rfl
        sound := fun hk => .of_none (hcursors hk.inRange) hk.inBounds
        processCount := rfl
        heads := rfl
        pcbSlots := rfl
        processPerTerminal := rfl
        userPageEntry := rfl
        tssEsp0 := rfl
        pcb := by
          rw [if_neg hfirst]
          rfl }

/-- Without a process to leave, the tick faults. -/
theorem Kernel.pitHandler_shell_fault {k : Kernel} (img : Image) (ebp : Nat) (inner : Regs)
    (hmissing : k.totalTerminal < 3) (hstarted : k.totalTerminal ≠ 0)
    (hunmapped : ¬ k.scheduledPcb < _8MB) : k.pitHandler img ebp inner = none := by
  rw [k.pitHandler_eq, if_pos hmissing]
  obtain ⟨d, -, -, heq⟩ := k.prepareTick_eq
  rw [heq]
  unfold Kernel.startShell
  dsimp only
  obtain ⟨switched, -, -, hnumbers⟩ := Kernel.switchNumbers_eq
    { k with
      display := d
      switchFlag := none
      vidTableEntry := vidEntryOf (videoPageFor k.currScheduled.next k.displayedNext)
      totalTerminal := k.totalTerminal + 1 } (k.totalTerminal + 1 - 1) (k.totalTerminal + 1)
  have hderef : ∀ k' : Kernel, k'.derefPcb k.scheduledPcb = none := fun _ => if_neg hunmapped
  rw [hnumbers, if_pos (by simpa using hstarted)]
  exact congrArg (fun left => Option.bind left _) (congrArg (Option.map _) (hderef _))

/-- A tick while shells are missing executes the next one. -/
theorem Kernel.pitHandler_shell {k after : Kernel} {img : Image} {ebp : Nat} {inner : Regs}
    (hmissing : k.totalTerminal < 3) (htick : k.pitHandler img ebp inner = some after) :
    ∃ left result, LeftForShell k ebp left ∧
      left.execute img (some shellCommand) inner = some (result, after) := by
  have hmapped : k.totalTerminal ≠ 0 → k.scheduledPcb < _8MB := by
    intro hstarted
    by_contra hunmapped
    rw [Kernel.pitHandler_shell_fault img ebp inner hmissing hstarted hunmapped] at htick
    simp at htick
  obtain ⟨left, hleft, heq⟩ := Kernel.pitHandler_shell_eq img ebp inner hmissing hmapped
  rw [heq] at htick
  obtain ⟨⟨result, last⟩, hexecute, hlast⟩ := Option.map_eq_some_iff.mp htick
  obtain rfl : last = after := hlast
  exact ⟨left, result, hleft, hexecute⟩

/-- Whatever becomes of the shell, the terminal numbers go on. -/
theorem Kernel.pitHandler_shell_numbers {k after : Kernel} {img : Image} {ebp : Nat} {inner : Regs}
    (hmissing : k.totalTerminal < 3) (htick : k.pitHandler img ebp inner = some after) :
    after.totalTerminal = k.totalTerminal + 1 ∧
      after.currScheduled =
        if k.totalTerminal = 0 then k.currScheduled else k.currScheduled.next := by
  obtain ⟨left, result, hleft, hexecute⟩ := Kernel.pitHandler_shell hmissing htick
  rcases Kernel.execute_cases hexecute with ⟨-, -, hsame, -⟩ | ⟨program, -, -, -, hlaunched⟩
  · exact ⟨hsame.totalTerminal.trans hleft.totalTerminal,
      hsame.currScheduled.trans hleft.currScheduled⟩
  · exact ⟨hlaunched.totalTerminal.trans hleft.totalTerminal,
      hlaunched.currScheduled.trans hleft.currScheduled⟩

/-- The tick that ends the start-up displays the first terminal. -/
theorem Kernel.pitHandler_finish {k after : Kernel} {img : Image} {ebp : Nat} {inner : Regs}
    (hlast : k.totalTerminal = 3) (htick : k.pitHandler img ebp inner = some after) :
    SameProcesses
        { k with
          display := { k.display with currTerminal := .T1 }
          currScheduled := .T3
          totalTerminal := 4
          switchFlag := none } after ∧
      after.pcb = k.pcb ∧ after.switchFlag = none ∧ after.kb = k.kb ∧
      after.video = k.aimedNext := by
  rw [k.pitHandler_eq, if_neg (by omega), if_pos hlast] at htick
  obtain rfl := Option.some.inj htick
  obtain ⟨d, hd, hrange, heq⟩ := k.prepareTick_eq
  rw [heq]
  unfold Kernel.finishStartUp
  dsimp only
  obtain ⟨switched, hswitched, hkept, hnumbers⟩ := Kernel.switchNumbers_eq
    { k with
      display := d
      switchFlag := none
      vidTableEntry := vidEntryOf (videoPageFor k.currScheduled.next k.displayedNext) }
    k.totalTerminal 1
  rw [hnumbers]
  rw [hlast] at hswitched
  have hshown : switched.currTerminal = .T1 := congrArg Prod.fst hswitched
  exact ⟨{ SameProcesses.refl k with
    currScheduled := rfl, currTerminal := hshown, totalTerminal := by simp [hlast],
    sound := fun hk => .of_none (hkept (hrange hk.inRange)) hk.inBounds }, rfl, rfl,
    rfl, Prod.ext ((congrArg Prod.snd hswitched).trans (congrArg Prod.snd hd)) rfl⟩

/-! ## Cursors and lines in every run -/

theorem Kernel.execute_sound {k after : Kernel} {img : Image} {command : Option (List UInt8)}
    {regs : Regs} {result : ExecReturn}
    (hexecute : k.execute img command regs = some (result, after))
    (hk : k.keyState.Sound) : after.keyState.Sound := by
  rcases Kernel.execute_cases hexecute with ⟨-, -, hsame, -⟩ | ⟨program, -, -, -, hlaunched⟩
  · exact hsame.sound hk
  · exact hlaunched.sound hk

/-- No event moves a cursor off its page or a line out of its buffer. -/
theorem step_sound {img : Image} {k after : Kernel} {event : Event}
    (hstep : step img k event = some after) (hk : k.keyState.Sound) : after.keyState.Sound := by
  by_cases hquiet : event.Quiet
  · exact (step_same hquiet hstep).sound hk
  cases event with
  | tick ebp inner =>
      rcases Nat.lt_trichotomy k.totalTerminal 3 with hmissing | hlast | hrunning
      · obtain ⟨left, result, hleft, hexecute⟩ := Kernel.pitHandler_shell hmissing hstep
        exact Kernel.execute_sound hexecute (hleft.sound hk)
      · obtain ⟨hsame, -⟩ := Kernel.pitHandler_finish hlast hstep
        exact hsame.sound (.of_none hk.inRange hk.inBounds)
      · exact (Kernel.pitHandler_rotated hrunning hstep).sound hk
  | execute command regs =>
      obtain ⟨⟨result, last⟩, hexecute, rfl⟩ := Option.map_eq_some_iff.mp hstep
      exact Kernel.execute_sound hexecute hk
  | halt status regs =>
      obtain ⟨⟨result, last⟩, hhalt, rfl⟩ := Option.map_eq_some_iff.mp hstep
      obtain ⟨released, hreleased, hcases⟩ := Kernel.halt_cases hhalt
      rcases hcases with ⟨-, -, -, hlast⟩ | ⟨-, ⟨result', last'⟩, hexecuted, hlast⟩
      · obtain rfl := hlast
        exact hreleased.sound hk
      · obtain rfl : last' = last := hlast
        obtain ⟨d, hkept, hreset⟩ := released.resetTerminal_eq
        refine Kernel.execute_sound hexecuted ?_
        rw [hreset]
        exact (hreleased.sound hk).of_kept hkept id
  | key | rtc | read | write | open_ | close | getargs | vidmap => exact (hquiet trivial).elim

theorem boot_sound (m : BootMemory) : (boot m).keyState.Sound := by
  refine .of_none (fun t => ?_) ⟨Nat.zero_le _, fun _ => Nat.zero_le _⟩
  by_cases ht : t = .T1
  · subst ht
    exact ⟨m.x_lt, m.y_lt⟩
  · show update (fun _ : Terminal => 0) .T1 m.x t < _ ∧ update (fun _ : Terminal => 0) .T1 m.y t < _
    rw [update_of_ne ht, update_of_ne ht]
    decide

theorem Reachable.sound {img : Image} {m : BootMemory} {k : Kernel}
    (hreach : Reachable (step img) (boot m) k) : k.keyState.Sound :=
  hreach.invariant (fun k => k.keyState.Sound) (fun _ _ _ hk hstep => step_sound hstep hk)
    (boot_sound m)

end Ece391
