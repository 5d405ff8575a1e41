import Ece391.Handlers

/-! # `execute` and `halt` between ticks

`execute` runs behind a trap gate, and `halt` enables interrupts before its last steps, so
ticks come between the steps of both. Here the two calls are taken apart. On every terminal
one process is in its program or in one of the calls; a tick leaves it where it stands, and it
goes on when its terminal is scheduled again.
-/

namespace Ece391

open Function Transition

/-! ## Where a process stands -/

/-- An `execute` on its way. When `halt` called it, to start a root shell again, it has the
number of the halted process and the status. -/
structure Launching where
  program : Program
  regs : Regs
  halting : Option (Nat × UInt8)

/-- A process in its program, or in front of a step of `execute` or `halt`. -/
inductive CallPhase where
  | away
  /-- The count was checked and the program found. -/
  | checked (l : Launching)
  /-- The process is counted, and the slots below `i` were seen taken. -/
  | searching (l : Launching) (i : Nat)
  /-- The search has ended at `i`. -/
  | picked (l : Launching) (i : Nat)
  /-- The slot is marked, and `pos` bytes of the arguments are copied. -/
  | taken (l : Launching) (i pos : Nat)
  /-- The frame of the slot was mapped, and `pos` bytes of the file are stored. -/
  | loading (l : Launching) (i pos : Nat)
  | loaded (l : Launching) (i : Nat)
  /-- The parent pointer is stored. -/
  | linked (l : Launching) (i : Nat)
  /-- The new process is the head of its terminal. -/
  | pushed (l : Launching) (i : Nat)
  /-- `halt` behind its `sti`: the registers in the PCB of `num` are still to be read. -/
  | leaving (num : Nat) (status : UInt8)

/-- Where `execute` returns to when it fails. -/
def Launching.back (l : Launching) : CallPhase :=
  match l.halting with
  | none => .away
  | some (num, status) => .leaving num status

namespace CallPhase

def isAway : CallPhase → Bool
  | .away => true
  | _ => false

def isLoading : CallPhase → Bool
  | .loading _ _ _ => true
  | _ => false

def isLinked : CallPhase → Bool
  | .linked _ _ => true
  | _ => false

def isPushed : CallPhase → Bool
  | .pushed _ _ => true
  | _ => false

/-- The process whose slot an `execute` has picked and not marked. -/
def unmarked : CallPhase → List Nat
  | .picked _ i => [i + 1]
  | _ => []

/-- The process whose slot an `execute` has marked and not made the head of a chain. -/
def marked : CallPhase → List Nat
  | .taken _ i _ | .loading _ i _ | .loaded _ i | .linked _ i => [i + 1]
  | _ => []

/-- The halted process whose kernel stack is still in use. -/
def halted : CallPhase → List Nat
  | .checked l | .searching l _ | .picked l _ | .taken l _ _ | .loading l _ _ | .loaded l _
  | .linked l _ | .pushed l _ => (l.halting.map Prod.fst).toList
  | .leaving num _ => [num]
  | .away => []

end CallPhase

/-- The bytes of a program's file. -/
def Program.bytes (img : Image) (program : Program) : List UInt8 :=
  (readData img program.inode 0 (fileSize img program.inode)).2

/-- The machine with a process on every terminal. -/
structure Threads where
  kernel : Kernel
  phase : Terminal → CallPhase
  /-- The processes of each terminal, the latest first. The kernel has no such record. -/
  processes : Terminal → List Nat

/-- A step of the scheduled process in its call, or an event. -/
inductive Move where
  | event (event : Event)
  | advance

/-- The interrupts that a process in a call sees beside ticks. -/
def Event.IsInterrupt : Event → Bool
  | .key _ | .rtc => true
  | _ => false

namespace Threads

variable (s : Threads)

abbrev scheduled : Terminal := s.kernel.currScheduled

/-- The phase of the scheduled process. -/
def current : CallPhase := s.phase s.scheduled

/-- The scheduled process is in another phase, and its terminal has these processes. -/
def become (k : Kernel) (phase : CallPhase) (list : List Nat) : Threads where
  kernel := k
  phase := update s.phase s.scheduled phase
  processes := update s.processes s.scheduled list

/-- The scheduled process goes on; no process starts or ends. -/
def goOn (k : Kernel) (phase : CallPhase) : Threads :=
  s.become k phase (s.processes s.scheduled)

/-! ## Steps of `execute` -/

/-- `execute` up to its count check and the check of the program. -/
def beginExecute (img : Image) (command : Option (List UInt8)) (regs : Regs) : Threads :=
  match command with
  | none => s
  | some command =>
      if s.kernel.processCount ≥ MAX_PROCESS_COUNT then
        { s with
          kernel :=
            { s.kernel with
              display := s.kernel.display.printf s.kernel.currScheduled maxProcessesText } }
      else
        match findProgram img command with
        | none => s
        | some program => s.goOn s.kernel (.checked ⟨program, regs, none⟩)

/-- The next step of the scheduled process in its call. -/
def advanceFrom (img : Image) : CallPhase → Option Threads
  | .away => none
  | .checked l => some (s.goOn s.kernel.countProcess (.searching l 0))
  | .searching l i =>
      if i < MAX_PROCESS_COUNT ∧ s.kernel.pcbSlots i ≠ 0 then
        some (s.goOn s.kernel (.searching l (i + 1)))
      else some (s.goOn s.kernel (.picked l i))
  | .picked l i => some (s.goOn (s.kernel.takeSlot i) (.taken l i 0))
  | .taken l i pos =>
      match l.program.args[pos]? with
      | some byte =>
          (storeKernelByte s.kernel.pcb (getPCB (i + 1) + Pcb.argsOffset + pos) byte).map
            fun pcbs => s.goOn { s.kernel with pcb := pcbs } (.taken l i (pos + 1))
      | none => some (s.goOn (s.kernel.mapProgram i) (.loading l i 0))
  | .loading l i pos =>
      match (l.program.bytes img)[pos]? with
      | some byte =>
          (s.kernel.storeUser (PROG_LOAD_ADDR + pos) byte).map fun k =>
            s.goOn k (.loading l i (pos + 1))
      | none =>
          -- the count that `read_data` returns can be read as -1
          if int32 (readData img l.program.inode 0 (fileSize img l.program.inode)).1 = -1 then
            some (s.goOn s.kernel l.back)
          else some (s.goOn s.kernel (.loaded l i))
  | .loaded l i => some (s.goOn (s.kernel.linkParent i) (.linked l i))
  | .linked l i =>
      some (s.become (s.kernel.pushHead i) (.pushed l i) ((i + 1) :: s.processes s.scheduled))
  | .pushed l i => some (s.goOn (s.kernel.initPcb i l.program.eip l.regs) .away)
  | .leaving _ _ => some (s.goOn s.kernel .away)

def advance (img : Image) : Option Threads := s.advanceFrom img s.current

/-! ## Steps of `halt` -/

/-- The `execute` inside `halt`, up to the `sti` behind its mapping of the frame. -/
def restart (img : Image) (k : Kernel) (num : Nat) (status : UInt8) (regs : Regs) :
    Option Threads :=
  let list := (s.processes s.scheduled).tail
  if k.processCount ≥ MAX_PROCESS_COUNT then
    some (s.become { k with display := k.display.printf k.currScheduled maxProcessesText }
      (.leaving num status) list)
  else
    match findProgram img shellCommand with
    | none => some (s.become k (.leaving num status) list)
    | some program =>
        let k := k.countProcess
        let i := slotSearch k.pcbSlots
        ((k.takeSlot i).copyArgs i program.args).map fun k =>
          s.become (k.mapProgram i) (.loading ⟨program, regs, some (num, status)⟩ i 0) list

/-- `halt` up to its `sti`. -/
def beginHalt (img : Image) (status : UInt8) (regs : Regs) : Option Threads :=
  let num := s.kernel.head s.scheduled
  s.kernel.release.bind fun k =>
    if (k.pcb (getPCB num)).parentTask ≠ NULL then
      (k.derefPcb (k.pcb (getPCB num)).parentTask).map fun parent =>
        s.become (k.restoreParent parent) (.leaving num status) (s.processes s.scheduled).tail
    else s.restart img k.resetTerminal num status regs

end Threads

/-- Ticks and other interrupts come at any time, system calls from a program. -/
def Threads.step (img : Image) (s : Threads) : Move → Option Threads
  | .advance => s.advance img
  | .event (.execute command regs) =>
      if s.current.isAway then some (s.beginExecute img command regs) else none
  | .event (.halt status regs) => if s.current.isAway then s.beginHalt img status regs else none
  | .event (.tick ebp inner) =>
      (s.kernel.pitHandler img ebp inner).map fun k => { s with kernel := k }
  | .event event =>
      if s.current.isAway || event.IsInterrupt then
        (Ece391.step img s.kernel event).map fun k => { s with kernel := k }
      else none

theorem CallPhase.isAway_iff {phase : CallPhase} : phase.isAway ↔ phase = .away := by
  cases phase <;> simp [CallPhase.isAway]

/-- An event that is no tick and no call of `execute` or `halt` is carried out as a whole. -/
theorem Threads.step_quiet {img : Image} {s after : Threads} {event : Event}
    (hquiet : event.Quiet) (hstep : Threads.step img s (.event event) = some after) :
    ∃ k, Ece391.step img s.kernel event = some k ∧ { s with kernel := k } = after := by
  cases event with
  | tick | execute | halt => exact hquiet.elim
  | key | rtc | read | write | open_ | close | getargs | vidmap =>
      simp only [Threads.step] at hstep
      split at hstep
      · exact Option.map_eq_some_iff.mp hstep
      · cases hstep

/-- The end of the start-up: a root shell in its program on every terminal. -/
structure Threads.Started (img : Image) (s : Threads) : Prop where
  kernel : AfterStartUp img s.kernel
  phase : ∀ t, s.phase t = .away
  processes : ∀ t, s.processes t = [t.num]

/-! ## Without interrupts -/

/-- The entry is not looked at where it does not matter. -/
theorem Kernel.mapProgram_eq (k : Kernel) (i : Nat) :
    ∃ entry, k.mapProgram i = { k with userPageEntry := entry } := ⟨_, rfl⟩

theorem Kernel.mapProgram_currScheduled (k : Kernel) (i : Nat) :
    (k.mapProgram i).currScheduled = k.currScheduled := by
  obtain ⟨entry, hmap⟩ := k.mapProgram_eq i
  rw [hmap]

namespace Threads

/-- The scheduled process takes steps of its call, and nothing comes between. -/
def Advances (img : Image) : Threads → Threads → Prop :=
  Relation.ReflTransGen fun s after => s.advance img = some after

variable {s : Threads} {img : Image} {l : Launching} {k after : Kernel} {phase next : CallPhase}
  {list list' : List Nat}

theorem become_current (hk : k.currScheduled = s.scheduled) :
    (s.become k phase list).current = phase := by
  change update s.phase s.scheduled phase k.currScheduled = phase
  rw [hk, update_self]

theorem become_become (hk : k.currScheduled = s.scheduled) :
    (s.become k phase list).become after next list' = s.become after next list' := by
  change Threads.mk after (update (update s.phase s.scheduled phase) k.currScheduled next)
    (update (update s.processes s.scheduled list) k.currScheduled list') = _
  rw [hk, update_idem, update_idem]
  rfl

theorem become_goOn (hk : k.currScheduled = s.scheduled) :
    (s.become k phase list).goOn after next = s.become after next list := by
  change (s.become k phase list).become after next
    (update s.processes s.scheduled list k.currScheduled) = _
  rw [hk, update_self, become_become hk]

theorem become_advance (hk : k.currScheduled = s.scheduled) :
    (s.become k phase list).advance img = (s.become k phase list).advanceFrom img phase := by
  rw [advance, become_current hk]

/-- One step that goes on. -/
theorem become_step (hk : k.currScheduled = s.scheduled)
    (hfrom : (s.become k phase list).advanceFrom img phase =
      some ((s.become k phase list).goOn after next)) :
    (s.become k phase list).advance img = some (s.become after next list) := by
  rw [become_advance hk, hfrom, become_goOn hk]

theorem become_steps (hk : k.currScheduled = s.scheduled)
    (hfrom : (s.become k phase list).advanceFrom img phase =
      some ((s.become k phase list).goOn after next)) :
    Advances img (s.become k phase list) (s.become after next list) :=
  .single (become_step hk hfrom)

/-- The rest of the slot search, by induction over the slots that are left. -/
theorem advances_search {remaining i : Nat} (hk : k.currScheduled = s.scheduled)
    (hsum : i + remaining = MAX_PROCESS_COUNT) :
    Advances img (s.become k (.searching l i) list)
      (s.become k (.picked l (slotSearchFrom k.pcbSlots remaining i)) list) := by
  induction remaining generalizing i with
  | zero =>
      have hend : ¬ (i < MAX_PROCESS_COUNT ∧ k.pcbSlots i ≠ 0) := by omega
      exact become_steps hk (if_neg hend)
  | succ remaining ih =>
      rw [slotSearchFrom]
      by_cases hfree : k.pcbSlots i = 0
      · rw [if_pos hfree]
        exact become_steps hk (if_neg fun htaken => htaken.2 hfree)
      · rw [if_neg hfree]
        have hlt : i < MAX_PROCESS_COUNT := by omega
        have hturn : Advances img (s.become k (.searching l i) list)
            (s.become k (.searching l (i + 1)) list) := become_steps hk (if_pos ⟨hlt, hfree⟩)
        exact hturn.trans (ih (by omega))

/-- The copy of the arguments, by induction over the bytes that are left. -/
theorem advances_copy {i pos : Nat} {pcbs : PcbMemory} (hk : k.currScheduled = s.scheduled)
    (hstore : storeKernelBytes k.pcb (getPCB (i + 1) + Pcb.argsOffset + pos)
      (l.program.args.drop pos) = some pcbs) :
    Advances img (s.become k (.taken l i pos) list)
      (s.become (Kernel.mapProgram { k with pcb := pcbs } i) (.loading l i 0) list) := by
  generalize hrest : l.program.args.drop pos = rest at hstore
  induction rest generalizing k pos with
  | nil =>
      obtain rfl := Option.some.inj hstore
      have hend : l.program.args[pos]? = none :=
        List.getElem?_eq_none_iff.mpr (List.drop_eq_nil_iff.mp hrest)
      apply become_steps hk
      rw [advanceFrom, hend]
      rfl
  | cons byte rest ih =>
      simp only [storeKernelBytes, Option.bind_eq_some_iff] at hstore
      obtain ⟨middle, hbyte, hstore⟩ := hstore
      have hget : l.program.args[pos]? = some byte := by
        rw [← List.head?_drop, hrest, List.head?_cons]
      have hbehind : l.program.args.drop (pos + 1) = rest := by
        rw [← List.tail_drop, hrest, List.tail_cons]
      have hturn : Advances img (s.become k (.taken l i pos) list)
          (s.become { k with pcb := middle } (.taken l i (pos + 1)) list) := by
        apply become_steps hk
        rw [advanceFrom, hget]
        change (storeKernelByte k.pcb _ byte).map _ = _
        rw [hbyte]
        rfl
      exact hturn.trans (ih (k := { k with pcb := middle }) hk hbehind hstore)

/-- The load, by induction over the bytes that are left. -/
theorem advances_load {i pos : Nat} {loaded : Kernel} (hk : k.currScheduled = s.scheduled)
    (hstore : k.storeUserBytes (PROG_LOAD_ADDR + pos) ((l.program.bytes img).drop pos) =
      some loaded)
    (hcount : int32 (readData img l.program.inode 0 (fileSize img l.program.inode)).1 ≠ -1) :
    Advances img (s.become k (.loading l i pos) list) (s.become loaded (.loaded l i) list) := by
  generalize hrest : (l.program.bytes img).drop pos = rest at hstore
  induction rest generalizing k pos with
  | nil =>
      obtain rfl := Option.some.inj hstore
      have hend : (l.program.bytes img)[pos]? = none :=
        List.getElem?_eq_none_iff.mpr (List.drop_eq_nil_iff.mp hrest)
      apply become_steps hk
      rw [advanceFrom, hend]
      exact if_neg hcount
  | cons byte rest ih =>
      simp only [Kernel.storeUserBytes, Option.bind_eq_some_iff] at hstore
      obtain ⟨middle, hbyte, hstore⟩ := hstore
      have hget : (l.program.bytes img)[pos]? = some byte := by
        rw [← List.head?_drop, hrest, List.head?_cons]
      have hbehind : (l.program.bytes img).drop (pos + 1) = rest := by
        rw [← List.tail_drop, hrest, List.tail_cons]
      have hturn : Advances img (s.become k (.loading l i pos) list)
          (s.become middle (.loading l i (pos + 1)) list) := by
        apply become_steps hk
        rw [advanceFrom, hget]
        change (k.storeUser _ byte).map _ = _
        rw [hbyte]
        rfl
      have hmiddle : middle.currScheduled = s.scheduled :=
        (Kernel.storeUser_same hbyte).1.currScheduled.trans hk
      exact hturn.trans (ih hmiddle hbehind hstore)

/-- From the mapped frame into the program. -/
theorem advances_enter {i : Nat} {loaded : Kernel} (hk : k.currScheduled = s.scheduled)
    (hload : k.loadProgram img l.program.inode = some loaded) :
    Advances img (s.become k (.loading l i 0) list)
      (s.become (loaded.enterProgram i l.program.eip l.regs) .away ((i + 1) :: list)) := by
  have hloaded : loaded.currScheduled = s.scheduled :=
    (Kernel.storeUserBytes_same hload).1.currScheduled.trans hk
  have hstored : Advances img (s.become k (.loading l i 0) list)
      (s.become loaded (.loaded l i) list) :=
    advances_load hk hload (Kernel.loadProgram_count hload)
  have hlink : Advances img (s.become loaded (.loaded l i) list)
      (s.become (loaded.linkParent i) (.linked l i) list) := become_steps hloaded rfl
  have hpush : Advances img (s.become (loaded.linkParent i) (.linked l i) list)
      (s.become ((loaded.linkParent i).pushHead i) (.pushed l i) ((i + 1) :: list)) := by
    have hlinked : (loaded.linkParent i).currScheduled = s.scheduled := hloaded
    have hlist : (s.become (loaded.linkParent i) (.linked l i) list).processes
        (loaded.linkParent i).currScheduled = list := by
      rw [hlinked]
      exact update_self ..
    refine .single ?_
    rw [become_advance hlinked, advanceFrom, become_become hlinked]
    exact congrArg (fun list => some (s.become _ _ ((i + 1) :: list))) hlist
  have hinit : Advances img
      (s.become ((loaded.linkParent i).pushHead i) (.pushed l i) ((i + 1) :: list))
      (s.become (loaded.enterProgram i l.program.eip l.regs) .away ((i + 1) :: list)) :=
    become_steps hloaded rfl
  exact hstored.trans (hlink.trans (hpush.trans hinit))

theorem goOn_away (haway : s.current = .away) (k : Kernel) (list : List Nat) :
    s.become k .away list =
      { s with kernel := k, processes := update s.processes s.scheduled list } := by
  have hphase : update s.phase s.scheduled .away = s.phase := by
    rw [← haway, current, update_eq_self]
  rw [become, hphase]

/-- Without an interrupt in between, the steps are `execute`. -/
theorem execute_uninterrupted {command : Option (List UInt8)} {regs : Regs} {eip : Nat}
    {entered : Kernel} (haway : s.current = .away)
    (hexecute : s.kernel.execute img command regs = some (.entered eip, entered)) :
    Advances img (s.beginExecute img command regs)
      { s with
        kernel := entered
        processes := update s.processes s.scheduled
          ((slotSearch s.kernel.pcbSlots + 1) :: s.processes s.scheduled) } := by
  obtain ⟨text, program, copied, loaded, rfl, hcount, hfind, -, hcopied, hload, rfl⟩ :=
    Kernel.execute_stages hexecute
  have hbegin : s.beginExecute img (some text) regs =
      s.goOn s.kernel (.checked ⟨program, regs, none⟩) := by
    have hroom : ¬ s.kernel.processCount ≥ MAX_PROCESS_COUNT := by omega
    unfold beginExecute
    dsimp only
    rw [if_neg hroom, hfind]
  obtain ⟨pcbs, hpcbs, hmap⟩ := Option.map_eq_some_iff.mp hcopied
  rw [hbegin, ← goOn_away haway]
  have hcounted : Advances img (s.goOn s.kernel (.checked ⟨program, regs, none⟩))
      (s.goOn s.kernel.countProcess (.searching ⟨program, regs, none⟩ 0)) := become_steps rfl rfl
  have hsearch : Advances img
      (s.goOn s.kernel.countProcess (.searching ⟨program, regs, none⟩ 0))
      (s.goOn s.kernel.countProcess
        (.picked ⟨program, regs, none⟩ (slotSearch s.kernel.pcbSlots))) :=
    advances_search rfl (Nat.zero_add _)
  generalize slotSearch s.kernel.pcbSlots = i at hpcbs hmap hload hsearch ⊢
  subst hmap
  have hargs : storeKernelBytes (s.kernel.countProcess.takeSlot i).pcb
      (getPCB (i + 1) + Pcb.argsOffset + 0) (program.args.drop 0) = some pcbs := by
    rwa [Nat.add_zero, List.drop_zero]
  have htake : Advances img
      (s.goOn s.kernel.countProcess (.picked ⟨program, regs, none⟩ i))
      (s.goOn (s.kernel.countProcess.takeSlot i) (.taken ⟨program, regs, none⟩ i 0)) :=
    become_steps rfl rfl
  have hcopy : Advances img
      (s.goOn (s.kernel.countProcess.takeSlot i) (.taken ⟨program, regs, none⟩ i 0))
      (s.goOn (Kernel.mapProgram { s.kernel.countProcess.takeSlot i with pcb := pcbs } i)
        (.loading ⟨program, regs, none⟩ i 0)) := advances_copy rfl hargs
  have henter : Advances img
      (s.goOn (Kernel.mapProgram { s.kernel.countProcess.takeSlot i with pcb := pcbs } i)
        (.loading ⟨program, regs, none⟩ i 0))
      (s.become (loaded.enterProgram i program.eip regs) .away
        ((i + 1) :: s.processes s.scheduled)) := advances_enter rfl hload
  exact hcounted.trans (hsearch.trans (htake.trans (hcopy.trans henter)))

/-- The last step of a `halt` that goes back to a parent or has not started a shell. -/
theorem advances_leave {num : Nat} {status : UInt8} (hk : k.currScheduled = s.scheduled) :
    Advances img (s.become k (.leaving num status) list) (s.become k .away list) :=
  become_steps hk rfl

/-- The `execute` inside `halt` with its steps. -/
theorem restart_uninterrupted {num : Nat} {status : UInt8} {regs : Regs} {result : ExecReturn}
    (hk : k.currScheduled = s.scheduled)
    (hexecute : k.execute img (some shellCommand) regs = some (result, after)) :
    ∃ middle list, s.restart img k num status regs = some middle ∧
      Advances img middle (s.become after .away list) := by
  unfold restart
  dsimp only
  by_cases hfull : k.processCount ≥ MAX_PROCESS_COUNT
  · rw [Kernel.execute, if_pos hfull] at hexecute
    obtain ⟨-, rfl⟩ := Prod.mk.inj (Option.some.inj hexecute)
    rw [if_pos hfull]
    exact ⟨_, _, rfl, advances_leave hk⟩
  rw [if_neg hfull]
  cases hfind : findProgram img shellCommand with
  | none =>
      rw [Kernel.execute, if_neg hfull, hfind] at hexecute
      obtain ⟨-, rfl⟩ := Prod.mk.inj (Option.some.inj hexecute)
      exact ⟨_, _, rfl, advances_leave hk⟩
  | some program =>
      have hlaunching : k.launching img (some shellCommand) = some program :=
        (if_neg hfull).trans hfind
      rcases Kernel.execute_cases hexecute with ⟨hrefused, -⟩ | ⟨_, _, -, rfl, -⟩
      · rw [hlaunching] at hrefused
        cases hrefused
      obtain ⟨text, program', copied, loaded, htext, -, hfind', -, hcopied, hload, rfl⟩ :=
        Kernel.execute_stages hexecute
      rw [← Option.some.inj htext] at hfind'
      obtain rfl := Option.some.inj (hfind.symm.trans hfind')
      have hslots : k.countProcess.pcbSlots = k.pcbSlots := rfl
      dsimp only
      rw [hslots, hcopied, Option.map_some]
      have hscheduled : copied.currScheduled = s.scheduled := by
        obtain ⟨pcbs, -, rfl⟩ := Option.map_eq_some_iff.mp hcopied
        exact hk
      have hmapped := (copied.mapProgram_currScheduled (slotSearch k.pcbSlots)).trans hscheduled
      have henter : Advances img
          (s.become (copied.mapProgram (slotSearch k.pcbSlots))
            (.loading ⟨program, regs, some (num, status)⟩ (slotSearch k.pcbSlots) 0)
            (s.processes s.scheduled).tail)
          (s.become (loaded.enterProgram (slotSearch k.pcbSlots) program.eip regs) .away
            ((slotSearch k.pcbSlots + 1) :: (s.processes s.scheduled).tail)) :=
        advances_enter hmapped hload
      exact ⟨_, _, rfl, henter⟩

/-- Without an interrupt in between, the steps are `halt`. -/
theorem halt_uninterrupted {status : UInt8} {regs : Regs} {result : HaltReturn}
    (haway : s.current = .away) (hhalt : s.kernel.halt img status regs = some (result, after)) :
    ∃ middle list, s.beginHalt img status regs = some middle ∧ Advances img middle
      { s with kernel := after, processes := update s.processes s.scheduled list } := by
  obtain ⟨released, hrelease, hreleased, hcases⟩ := Kernel.halt_release hhalt
  have hlink := (hreleased.context s.kernel.scheduledPcb).parentTask
  unfold beginHalt
  rw [hrelease, Option.bind_some]
  rcases hcases with ⟨hparent, hmapped, -, rfl⟩ | ⟨hroot, ⟨result', after'⟩, hexecute, rfl⟩
  · have hfound : released.derefPcb (s.kernel.pcb s.kernel.scheduledPcb).parentTask =
        some (released.pcb (s.kernel.pcb s.kernel.scheduledPcb).parentTask) := if_pos hmapped
    have hparent' : (released.pcb (getPCB (s.kernel.head s.scheduled))).parentTask ≠ NULL :=
      hlink.trans_ne hparent
    have hfound' : released.derefPcb
        (released.pcb (getPCB (s.kernel.head s.scheduled))).parentTask =
        some (released.pcb (s.kernel.pcb s.kernel.scheduledPcb).parentTask) :=
      (congrArg released.derefPcb hlink).trans hfound
    rw [if_pos hparent', hfound']
    refine ⟨_, (s.processes s.scheduled).tail, rfl, ?_⟩
    rw [← goOn_away haway]
    exact advances_leave hreleased.currScheduled
  · have hroot' : ¬ (released.pcb (getPCB (s.kernel.head s.scheduled))).parentTask ≠ NULL :=
      fun hparent => hroot (hlink.symm.trans_ne hparent)
    rw [if_neg hroot']
    have hscheduled : released.resetTerminal.currScheduled = s.scheduled := by
      obtain ⟨d, -, hreset⟩ := released.resetTerminal_eq
      rw [hreset]
      exact hreleased.currScheduled
    obtain ⟨middle, list, hrestart, hadvances⟩ := restart_uninterrupted hscheduled hexecute
    rw [goOn_away haway] at hadvances
    exact ⟨middle, list, hrestart, hadvances⟩

end Threads

end Ece391
