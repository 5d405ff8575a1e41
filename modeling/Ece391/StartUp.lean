import Ece391.ProcessRuns

/-! # The start-up

The first three ticks each create a shell and the fourth goes back to the first
terminal. A tick that finds no process to leave faults, so a start-up that comes
to its end has put one shell on each terminal.
-/

namespace Ece391

open Function Transition

theorem Terminal.num_inj {t u : Terminal} (hnum : t.num = u.num) : t = u := by
  cases t <;> cases u <;> first | rfl | exact absurd hnum (by decide)

theorem Terminal.num_pos (t : Terminal) : 1 ≤ t.num := by
  cases t <;> decide

/-- The state after `n` shells, the last of them on the scheduled terminal. -/
structure ShellsStarted (img : Image) (k : Kernel) (s : DisjointStacks Terminal Nat) (n : Nat) :
    Prop extends Consistent k s where
  totalTerminal : k.totalTerminal = n
  scheduled : k.currScheduled.num = n
  shells : ∀ t, s.stack t = if t.num ≤ n then [t.num] else []
  running : Running k
  shell : (findProgram img shellCommand).isSome

/-- What the stacks say about the slots when the first `n` terminals have shells. -/
theorem ProcessTable.slots_of_shells {k : Kernel} {s : DisjointStacks Terminal Nat} {n : Nat}
    (htable : ProcessTable k s) (hstacks : ∀ t, s.stack t = if t.num ≤ n then [t.num] else [])
    (hn : n ≤ 3) :
    (∀ i < MAX_PROCESS_COUNT, k.pcbSlots i = 1 ↔ i < n) ∧ k.processCount = n ∧
      slotSearch k.pcbSlots = n := by
  -- terminal and process have one number as long as only shells were started
  have hholds : ∀ m, s.Holds m ↔ 1 ≤ m ∧ m ≤ n := by
    intro m
    constructor
    · rintro ⟨t, hmem⟩
      rw [hstacks t] at hmem
      split at hmem
      · rw [List.mem_singleton] at hmem
        subst hmem
        exact ⟨t.num_pos, by assumption⟩
      · simp at hmem
    · rintro ⟨hpos, hle⟩
      have hcases : m = 1 ∨ m = 2 ∨ m = 3 := by omega
      have hnum : ∃ t : Terminal, t.num = m := by
        rcases hcases with rfl | rfl | rfl
        exacts [⟨.T1, rfl⟩, ⟨.T2, rfl⟩, ⟨.T3, rfl⟩]
      obtain ⟨t, rfl⟩ := hnum
      exact ⟨t, by simp [hstacks, hle]⟩
  have hslots : ∀ i < MAX_PROCESS_COUNT, k.pcbSlots i = 1 ↔ i < n := by
    intro i hi
    have howner := htable.owner (i + 1)
    rw [hholds, Nat.add_sub_cancel] at howner
    constructor
    · intro hone
      have := howner.mpr ⟨by omega, hi, hone⟩
      omega
    · intro hlt
      exact (howner.mp (by omega)).2.2
  have hlt : n < MAX_PROCESS_COUNT := Nat.lt_of_le_of_lt hn (by decide)
  refine ⟨hslots, ?_, ?_⟩
  · have hoccupied : k.occupied = Finset.range n := by
      ext i
      simp only [Kernel.occupied, Finset.mem_filter, Finset.mem_range]
      constructor
      · exact fun h => (hslots i h.1).mp h.2
      · exact fun h => ⟨by omega, (hslots i (by omega)).mpr h⟩
    rw [htable.count, hoccupied, Finset.card_range]
  · have hfree : k.pcbSlots n = 0 :=
      (htable.slots n hlt).resolve_right fun hone => by simpa using (hslots n hlt).mp hone
    have hrange : n < 0 + MAX_PROCESS_COUNT := by omega
    obtain ⟨hle, hzero⟩ := slotSearchFrom_spec k.pcbSlots (Nat.zero_le n) hrange hfree
    by_contra hne
    change slotSearch k.pcbSlots ≤ n at hle
    have hone := (hslots (slotSearch k.pcbSlots) (by omega)).mpr (by omega)
    change k.pcbSlots (slotSearch k.pcbSlots) = 0 at hzero
    omega

/-- Executing the shell for the next terminal starts it in the next slot. -/
theorem ShellsStarted.of_execute {img : Image} {left after : Kernel}
    {s : DisjointStacks Terminal Nat} {n : Nat} {inner : Regs} {result : ExecReturn}
    (hcons : Consistent left s) (hn : n < 3)
    (hstacks : ∀ t, s.stack t = if t.num ≤ n then [t.num] else [])
    (htotal : left.totalTerminal = n + 1) (hscheduled : left.currScheduled.num = n + 1)
    (hshown : left.currTerminal = left.currScheduled)
    (hshell : (findProgram img shellCommand).isSome)
    (hexecute : left.execute img (some shellCommand) inner = some (result, after)) :
    ∃ s', ShellsStarted img after s' (n + 1) ∧
      ∀ m, s.Holds m → Pcb.SameContext (left.pcb (getPCB m)) (after.pcb (getPCB m)) := by
  obtain ⟨-, hcount, hsearch⟩ := hcons.slots_of_shells hstacks (by omega)
  have hlt : left.processCount < MAX_PROCESS_COUNT := by
    rw [hcount]
    simp only [MAX_PROCESS_COUNT]
    omega
  obtain ⟨program, hprogram⟩ := Option.isSome_iff_exists.mp hshell
  have hlaunching : left.launching img (some shellCommand) = some program :=
    (Kernel.launching_eq_some hlt).trans hprogram
  rcases Kernel.execute_cases hexecute with ⟨hrefused, -⟩ | hstarted
  · rw [hlaunching] at hrefused
    simp at hrefused
  obtain ⟨program', hlaunching', -, -, hlaunched⟩ := hstarted
  obtain rfl : program = program' := Option.some.inj (hlaunching.symm.trans hlaunching')
  obtain ⟨hslot, hfree⟩ := hcons.slotSearch_free hlt
  have hpushed := hcons.launch hslot hfree hlaunched (findProgram_shell_args hprogram)
  refine ⟨_,
    { toConsistent := hpushed
      totalTerminal := hlaunched.totalTerminal.trans htotal
      scheduled := by rw [hlaunched.currScheduled, hscheduled]
      shells := fun t => ?_
      running := hlaunched.running hshown
      shell := hshell },
    fun m hm => hlaunched.kept hcons.toProcessTable hfree hslot (findProgram_shell_args hprogram)
      hm⟩
  by_cases ht : t = left.currTerminal
  · subst ht
    rw [hshown, DisjointStacks.push_stack_self, hstacks, hscheduled, hsearch, if_neg (by omega),
      if_pos (by omega)]
  · have hnum : t.num ≠ n + 1 := by
      intro heq
      rw [hshown] at ht
      exact ht (Terminal.num_inj (heq.trans hscheduled.symm))
    rw [DisjointStacks.push_stack_of_ne ht, hstacks]
    by_cases hle : t.num ≤ n
    · rw [if_pos hle, if_pos (by omega)]
    · rw [if_neg hle, if_neg (by omega)]

/-- The states of a start-up. In the third case the first shell is not on the
scheduled terminal, and the next tick faults. -/
inductive StartUpPhase (img : Image) (k : Kernel) : Prop
  | booted (hcons : Consistent k .empty) (htotal : k.totalTerminal = 0)
      (hscheduled : k.currScheduled = .T1)
  | started (s : DisjointStacks Terminal Nat) (n : Nat) (hpos : 1 ≤ n) (hle : n ≤ 3)
      (hshells : ShellsStarted img k s n)
  | lost (htotal : k.totalTerminal = 1) (hscheduled : k.currScheduled = .T1)
      (hhead : k.head .T1 = 0)
  | ended (s : DisjointStacks Terminal Nat) (hset : Settled img k s)
      (hstacks : ∀ t, s.stack t = [t.num]) (hscheduled : k.currScheduled = .T3)

theorem boot_consistent (m : BootMemory) : Consistent (boot m) .empty := by
  refine
    { chain := fun t => rfl
      owner := fun n => ?_
      slots := fun i _ => .inl rfl
      length := fun t => rfl
      count := ?_
      numbered := fun n hn => absurd hn (DisjointStacks.not_holds_empty n)
      stackTop := fun n hn => absurd hn (DisjointStacks.not_holds_empty n) }
  · have hslot : (boot m).pcbSlots (n - 1) = 0 := rfl
    simp [DisjointStacks.not_holds_empty, hslot]
  · have hoccupied : (boot m).occupied = ∅ := by
      rw [Kernel.occupied, Finset.filter_eq_empty_iff]
      intro i _
      simp [boot]
    rw [hoccupied]
    rfl

theorem StartUpPhase.boot (img : Image) (m : BootMemory) : StartUpPhase img (boot m) :=
  .booted (boot_consistent m) rfl rfl

theorem StartUpPhase.same {img : Image} {k after : Kernel} (hphase : StartUpPhase img k)
    (hsame : SameProcesses k after) : StartUpPhase img after := by
  have htotal := hsame.totalTerminal
  have hscheduled := hsame.currScheduled
  cases hphase with
  | booted hcons hzero hfirst =>
      exact .booted (hcons.same hsame) (htotal.trans hzero) (hscheduled.trans hfirst)
  | started s n hpos hle hshells =>
      refine .started s n hpos hle
        { toConsistent := hshells.toConsistent.same hsame
          totalTerminal := htotal.trans hshells.totalTerminal
          scheduled := by rw [hscheduled, hshells.scheduled]
          shells := hshells.shells
          running := hshells.running.same hsame
          shell := hshells.shell }
  | lost hone hfirst hhead =>
      refine .lost (htotal.trans hone) (hscheduled.trans hfirst) ?_
      rw [Kernel.head, hsame.heads]
      exact hhead
  | ended s hset hstacks hthird =>
      exact .ended s (hset.same hsame) hstacks (hscheduled.trans hthird)

/-- The first tick starts a shell that is not entered from any process. -/
theorem LeftForShell.booted {k left : Kernel} {ebp : Nat} (hleft : LeftForShell k ebp left)
    (hcons : Consistent k .empty) : Consistent left .empty where
  toProcessTable := hcons.congr hleft.heads hleft.pcbSlots hleft.processPerTerminal
    hleft.processCount fun n hn => absurd hn (DisjointStacks.not_holds_empty n)
  numbered n hn := absurd hn (DisjointStacks.not_holds_empty n)
  stackTop n hn := absurd hn (DisjointStacks.not_holds_empty n)

/-- The first shell goes to the first terminal, unless a display switch came before. -/
theorem ShellsStarted.first {img : Image} {k after : Kernel} {ebp : Nat} {inner : Regs}
    (hcons : Consistent k .empty) (hzero : k.totalTerminal = 0) (hscheduled : k.currScheduled = .T1)
    (hshown : k.displayedNext = .T1) (hshell : (findProgram img shellCommand).isSome)
    (htick : k.pitHandler img ebp inner = some after) : ∃ s, ShellsStarted img after s 1 := by
  obtain ⟨left, result, hleft, hexecute⟩ := Kernel.pitHandler_shell (by omega) htick
  have hscheduled' := hleft.currScheduled
  have hshown' := hleft.currTerminal
  rw [if_pos hzero] at hscheduled' hshown'
  have hempty : ∀ t : Terminal, (DisjointStacks.empty : DisjointStacks Terminal Nat).stack t =
      if t.num ≤ 0 then [t.num] else [] := by
    intro t
    have hpos := t.num_pos
    rw [if_neg (by omega)]
    rfl
  have htotal : left.totalTerminal = 0 + 1 := by rw [hleft.totalTerminal, hzero]
  have hfirst : left.currScheduled = .T1 := hscheduled'.trans hscheduled
  obtain ⟨s, hshells, -⟩ := ShellsStarted.of_execute (hleft.booted hcons) (by decide) hempty htotal
    (by rw [hfirst]; rfl) (by rw [hshown', hfirst, hshown]) hshell hexecute
  exact ⟨s, hshells⟩

theorem ShellsStarted.top_scheduled {img : Image} {k : Kernel} {s : DisjointStacks Terminal Nat}
    {n : Nat} (hshells : ShellsStarted img k s n) : s.Holds (k.head k.currScheduled) := by
  have htop : s.stack k.currScheduled = [k.currScheduled.num] := by
    rw [hshells.shells, if_pos (by rw [hshells.scheduled])]
  exact ⟨k.currScheduled, by simp [htop, hshells.head_eq htop]⟩

/-- Each further tick saves the last shell and starts the next one. -/
theorem ShellsStarted.tick {img : Image} {k after : Kernel} {s : DisjointStacks Terminal Nat}
    {n ebp : Nat} {inner : Regs} (hshells : ShellsStarted img k s n) (hpos : 1 ≤ n) (hlt : n < 3)
    (htick : k.pitHandler img ebp inner = some after) :
    ∃ s', ShellsStarted img after s' (n + 1) ∧ ∀ m, s.Holds m →
      (after.pcb (getPCB m)).ebpScheduler =
        if m = k.head k.currScheduled then ebp else (k.pcb (getPCB m)).ebpScheduler := by
  have htotal := hshells.totalTerminal
  obtain ⟨left, result, hleft, hexecute⟩ := Kernel.pitHandler_shell (by omega) htick
  have hscheduled := hleft.currScheduled
  have hshown := hleft.currTerminal
  have hpcb := hleft.pcb
  rw [if_neg (by omega)] at hscheduled hshown hpcb
  have hcons := hshells.save hshells.top_scheduled hshells.running.kernelStack hleft.heads
    hleft.pcbSlots hleft.processPerTerminal hleft.processCount hpcb
  have hnum : left.currScheduled.num = n + 1 := by
    rw [hscheduled, Terminal.num_next, hshells.scheduled]
    omega
  have haim : left.currTerminal = left.currScheduled := by
    apply Terminal.num_inj
    rw [hnum, hshown, htotal]
    split
    · simp [Terminal.num, *]
    · have htwo : n = 2 := by omega
      simp [Terminal.num, htwo]
  obtain ⟨s', hshells', hkept⟩ := ShellsStarted.of_execute hcons hlt hshells.shells
    (hleft.totalTerminal.trans (by rw [htotal])) hnum haim hshells.shell hexecute
  refine ⟨s', hshells', fun m hm => ?_⟩
  rw [(hkept m hm).ebpScheduler, hpcb]
  by_cases hm' : m = k.head k.currScheduled
  · subst hm'
    rw [Kernel.scheduledPcb, update_self, if_pos rfl]
  · have hne : getPCB m ≠ k.scheduledPcb := by
      rwa [Kernel.scheduledPcb, Ne, getPCB_inj (hshells.le_of_holds hshells.top_scheduled).2]
    rw [update_of_ne hne, if_neg hm']

/-- The fourth tick changes the terminal numbers only. -/
theorem ShellsStarted.finish {img : Image} {k after : Kernel} {s : DisjointStacks Terminal Nat}
    {ebp : Nat} {inner : Regs} (hshells : ShellsStarted img k s 3)
    (htick : k.pitHandler img ebp inner = some after) :
    Settled img after s ∧ (∀ t, s.stack t = [t.num]) ∧ after.currScheduled = .T3 ∧
      after.currTerminal = .T1 ∧ after.switchFlag = none ∧ after.kb = k.kb := by
  obtain ⟨hsame, -, hflag, hkb, -⟩ := Kernel.pitHandler_finish hshells.totalTerminal htick
  have hthird : k.currScheduled = .T3 := Terminal.num_inj hshells.scheduled
  have hstacks : ∀ t, s.stack t = [t.num] := by
    intro t
    have hnum : t.num ≤ 3 := by cases t <;> decide
    rw [hshells.shells, if_pos hnum]
  have hset : Settled img
      { k with
        display := { k.display with currTerminal := .T1 }
        currScheduled := .T3
        totalTerminal := 4
        switchFlag := none } s :=
    { toConsistent :=
        { toProcessTable := hshells.congr rfl rfl rfl rfl fun _ _ => rfl
          numbered := hshells.numbered
          stackTop := hshells.stackTop }
      totalTerminal := rfl
      live := fun t => by simp [hstacks]
      running :=
        { userPage := by
            have hpage := hshells.running.userPage
            rwa [hthird] at hpage
          kernelStack := by
            have hstack := hshells.running.kernelStack
            rwa [hthird] at hstack }
      shell := hshells.shell }
  exact ⟨hset.same hsame, hstacks, hsame.currScheduled, hsame.currTerminal, hflag, hkb⟩

/-- The tick after a lost shell faults. -/
theorem pitHandler_lost {img : Image} {k after : Kernel} {ebp : Nat} {inner : Regs}
    (htotal : k.totalTerminal = 1) (hscheduled : k.currScheduled = .T1) (hhead : k.head .T1 = 0) :
    k.pitHandler img ebp inner ≠ some after := by
  intro htick
  obtain ⟨left, result, hleft, -⟩ := Kernel.pitHandler_shell (by omega) htick
  have hmapped := hleft.mapped (by omega)
  rw [Kernel.scheduledPcb, hscheduled, hhead] at hmapped
  exact absurd hmapped (by decide)

/-- A tick of the start-up goes on to the next phase. -/
theorem StartUpPhase.tick {img : Image} {k after : Kernel} {ebp : Nat} {inner : Regs}
    (hphase : StartUpPhase img k) (hrunning : k.totalTerminal ≠ 4)
    (htick : k.pitHandler img ebp inner = some after) : StartUpPhase img after := by
  cases hphase with
  | booted hcons hzero hfirst =>
      by_cases hgood : k.displayedNext = .T1 ∧ (findProgram img shellCommand).isSome
      · obtain ⟨s, hshells⟩ := ShellsStarted.first hcons hzero hfirst hgood.1 hgood.2 htick
        exact .started s 1 (by decide) (by decide) hshells
      · -- the shell is missing, or it goes to another terminal than the scheduled one
        obtain ⟨left, result, hleft, hexecute⟩ := Kernel.pitHandler_shell (by omega) htick
        have hscheduled := hleft.currScheduled
        have hshown := hleft.currTerminal
        rw [if_pos hzero] at hscheduled hshown
        have htotal : left.totalTerminal = 1 := by rw [hleft.totalTerminal, hzero]
        have hhead : left.head .T1 = 0 := (hleft.booted hcons).head_eq_zero rfl
        rcases Kernel.execute_cases hexecute with ⟨-, -, hsame, -⟩ | hstarted
        · refine .lost (hsame.totalTerminal.trans htotal)
            (hsame.currScheduled.trans (hscheduled.trans hfirst)) ?_
          rw [Kernel.head, hsame.heads]
          exact hhead
        · obtain ⟨program, hlaunching, hcount, -, hlaunched⟩ := hstarted
          refine .lost (hlaunched.totalTerminal.trans htotal)
            (hlaunched.currScheduled.trans (hscheduled.trans hfirst)) ?_
          have hother : Terminal.T1 ≠ left.currTerminal := by
            intro heq
            refine hgood ⟨hshown.symm.trans heq.symm, ?_⟩
            rw [Kernel.launching_eq_some hcount] at hlaunching
            exact Option.isSome_iff_exists.mpr ⟨program, hlaunching⟩
          rw [Kernel.head, hlaunched.heads, update_of_ne hother]
          exact hhead
  | started s n hpos hle hshells =>
      by_cases hlast : n = 3
      · subst hlast
        obtain ⟨hset, hstacks, hscheduled, -⟩ := hshells.finish htick
        exact .ended s hset hstacks hscheduled
      · obtain ⟨s', hshells', -⟩ := hshells.tick hpos (by omega) htick
        exact .started s' (n + 1) (by omega) (by omega) hshells'
  | lost hone hfirst hhead => exact absurd htick (pitHandler_lost hone hfirst hhead)
  | ended s hset hstacks hthird => exact absurd hset.totalTerminal hrunning

/-- After the start-up every terminal has its own shell. -/
theorem AfterStartUp.settled {img : Image} {k : Kernel} (hstart : AfterStartUp img k) :
    ∃ s, Settled img k s ∧ (∀ t, s.stack t = [t.num]) ∧ k.currScheduled = .T3 := by
  obtain ⟨⟨m, hreach⟩, htotal⟩ := hstart
  have hphase : StartUpPhase img k := by
    refine hreach.invariant (StartUpPhase img) ?_ (.boot img m)
    intro state event next hphase hallowed hstep
    by_cases hquiet : event.Quiet
    · exact hphase.same (step_same hquiet hstep)
    cases event with
    | tick ebp inner => exact hphase.tick hallowed hstep
    | execute | halt => exact hallowed.elim
    | key | rtc | read | write | open_ | close | getargs | vidmap => exact (hquiet trivial).elim
  cases hphase with
  | booted _ hzero => omega
  | started s n _ hle hshells =>
      have := hshells.totalTerminal
      omega
  | lost hone => omega
  | ended s hset hstacks hscheduled => exact ⟨s, hset, hstacks, hscheduled⟩

/-! ## Start-ups that come to their end -/

/-- A shell that fits is started by the tick whatever the tick leaves behind. -/
theorem LeftForShell.completes {img : Image} {k left : Kernel} {ebp : Nat} {program : Program}
    (inner : Regs) (hleft : LeftForShell k ebp left)
    (hprogram : findProgram img shellCommand = some program) (hload : Loadable img program.inode)
    (hcount : k.processCount < MAX_PROCESS_COUNT)
    (heq : k.pitHandler img ebp inner =
      (left.execute img (some shellCommand) inner).map Prod.snd) :
    ∃ after, k.pitHandler img ebp inner = some after ∧ after.kb = k.kb := by
  have hlaunching : left.launching img (some shellCommand) = some program := by
    rw [Kernel.launching_eq_some (by rw [hleft.processCount]; exact hcount)]
    exact hprogram
  have hcopy : storeKernelBytes left.pcb (getPCB (slotSearch left.pcbSlots + 1) +
      Pcb.argsOffset) program.args = some left.pcb := by
    rw [findProgram_args hprogram]
    rfl
  obtain ⟨phys, hexecute⟩ := Kernel.execute_eq inner hlaunching hcopy hload
  rw [heq, hexecute, Option.map_some]
  refine ⟨_, rfl, ?_⟩
  simp only [Kernel.enterProgram, Kernel.initPcb, Kernel.pushHead, Kernel.linkParent,
    Kernel.setPcb, Kernel.mapProgram, Kernel.takeSlot, Kernel.countProcess]
  exact hleft.kb

theorem ShellsStarted.completes {img : Image} {k : Kernel} {s : DisjointStacks Terminal Nat}
    {n : Nat} {program : Program} (ebp : Nat) (inner : Regs) (hshells : ShellsStarted img k s n)
    (hlt : n < 3) (hprogram : findProgram img shellCommand = some program)
    (hload : Loadable img program.inode) :
    ∃ after, k.pitHandler img ebp inner = some after ∧ after.kb = k.kb := by
  have hmapped : k.scheduledPcb < _8MB :=
    getPCB_lt (hshells.le_of_holds hshells.top_scheduled).1
  have hcount := (hshells.slots_of_shells hshells.shells (by omega)).2.1
  obtain ⟨left, hleft, heq⟩ := Kernel.pitHandler_shell_eq img ebp inner
    (by rw [hshells.totalTerminal]; exact hlt) fun _ => hmapped
  refine hleft.completes inner hprogram hload ?_ heq
  rw [hcount]
  simp only [MAX_PROCESS_COUNT]
  omega

/-- The first tick completes when the image holds a shell that fits. -/
theorem boot_tick_completes {img : Image} {program : Program} (m : BootMemory) (ebp : Nat)
    (inner : Regs) (hprogram : findProgram img shellCommand = some program)
    (hload : Loadable img program.inode) :
    ∃ after, (boot m).pitHandler img ebp inner = some after ∧ after.kb = (boot m).kb := by
  have hnone : (boot m).totalTerminal = 0 := rfl
  have hcount : (boot m).processCount = 0 := rfl
  obtain ⟨left, hleft, heq⟩ := Kernel.pitHandler_shell_eq img ebp inner
    (by rw [hnone]; decide) fun hne => absurd hnone hne
  exact hleft.completes inner hprogram hload (by rw [hcount]; decide) heq

/-- A start-up in which nothing but ticks happens. -/
def StartUpTick (k : Kernel) : Event → Prop
  | .tick _ _ => k.totalTerminal ≠ 4
  | _ => False

/-- Four ticks carry out the whole start-up when the image holds a shell that fits.
Nothing has been typed and the first terminal is displayed. -/
theorem startUp_ticks {img : Image} {program : Program} (m : BootMemory) (ebp : Nat)
    (inner : Regs) (hprogram : findProgram img shellCommand = some program)
    (hload : Loadable img program.inode) :
    ∃ k s, ReachableVia (step img) StartUpTick (boot m) k ∧ Settled img k s ∧
      (∀ t, s.stack t = [t.num]) ∧ k.currScheduled = .T3 ∧ k.currTerminal = .T1 ∧
      k.switchFlag = none ∧ k.kb = (boot m).kb := by
  have hshell : (findProgram img shellCommand).isSome := by rw [hprogram]; rfl
  have hnone : (boot m).totalTerminal = 0 := rfl
  obtain ⟨first, hfirst, hkb1⟩ := boot_tick_completes m ebp inner hprogram hload
  obtain ⟨s1, hshells1⟩ :=
    ShellsStarted.first (boot_consistent m) rfl rfl rfl hshell hfirst
  obtain ⟨second, hsecond, hkb2⟩ := hshells1.completes ebp inner (by decide) hprogram hload
  obtain ⟨s2, hshells2, -⟩ := hshells1.tick (by decide) (by decide) hsecond
  obtain ⟨third, hthird, hkb3⟩ := hshells2.completes ebp inner (by decide) hprogram hload
  obtain ⟨s3, hshells3, -⟩ := hshells2.tick (by decide) (by decide) hthird
  have hfourth : third.pitHandler img ebp inner = some third.prepareTick.finishStartUp := by
    rw [third.pitHandler_eq, if_neg (by rw [hshells3.totalTerminal]; decide),
      if_pos hshells3.totalTerminal]
  obtain ⟨hset, hstacks, hscheduled, hshown, hflag, hkb4⟩ := hshells3.finish hfourth
  refine ⟨_, s3, ?_, hset, hstacks, hscheduled, hshown, hflag,
    hkb4.trans (hkb3.trans (hkb2.trans hkb1))⟩
  have hticks : ∀ {k after : Kernel}, ReachableVia (step img) StartUpTick (boot m) k →
      k.totalTerminal ≠ 4 → k.pitHandler img ebp inner = some after →
      ReachableVia (step img) StartUpTick (boot m) after := by
    intro k after hreach hrunning htick
    have hallowed : StartUpTick k (.tick ebp inner) := hrunning
    exact hreach.extend hallowed htick
  have hreach1 := hticks (.refl _ _) (by rw [hnone]; decide) hfirst
  have hreach2 := hticks hreach1 (by rw [hshells1.totalTerminal]; decide) hsecond
  have hreach3 := hticks hreach2 (by rw [hshells2.totalTerminal]; decide) hthird
  exact hticks hreach3 (by rw [hshells3.totalTerminal]; decide) hfourth

theorem StartUpTick.allowed {k : Kernel} {event : Event} (htick : StartUpTick k event) :
    StartUpStep k event := by
  cases event with
  | tick ebp inner => exact htick
  | key | rtc | read | write | open_ | close | getargs | vidmap | execute | halt => exact htick.elim

theorem startUp_reaches {img : Image} {program : Program} (m : BootMemory) (ebp : Nat)
    (inner : Regs) (hprogram : findProgram img shellCommand = some program)
    (hload : Loadable img program.inode) :
    ∃ k s, ReachableVia (step img) StartUpStep (boot m) k ∧ Settled img k s ∧
      (∀ t, s.stack t = [t.num]) ∧ k.currScheduled = .T3 ∧ k.currTerminal = .T1 ∧
      k.switchFlag = none ∧ k.kb = (boot m).kb := by
  obtain ⟨k, s, ⟨history, hrun, hticks⟩, hrest⟩ := startUp_ticks m ebp inner hprogram hload
  exact ⟨k, s, ⟨history, hrun, fun fired hmem => (hticks fired hmem).allowed⟩, hrest⟩

theorem startUp_completes {img : Image} {program : Program} (m : BootMemory) (ebp : Nat)
    (inner : Regs) (hprogram : findProgram img shellCommand = some program)
    (hload : Loadable img program.inode) :
    ∃ k s, AfterStartUp img k ∧ Settled img k s ∧ (∀ t, s.stack t = [t.num]) ∧
      k.currScheduled = .T3 ∧ k.currTerminal = .T1 ∧ k.switchFlag = none ∧ k.kb = (boot m).kb := by
  obtain ⟨k, s, hreach, hset, hrest⟩ := startUp_reaches m ebp inner hprogram hload
  exact ⟨k, s, ⟨⟨m, hreach⟩, hset.totalTerminal⟩, hset, hrest⟩

/-- One more tick schedules the shell that is displayed. -/
theorem displayed_reaches {img : Image} {program : Program} (m : BootMemory) (ebp : Nat)
    (inner : Regs) (hprogram : findProgram img shellCommand = some program)
    (hload : Loadable img program.inode) :
    ∃ start k s, ReachableVia (step img) StartUpStep (boot m) start ∧ start.totalTerminal = 4 ∧
      step img start (.tick ebp inner) = some k ∧ Settled img k s ∧ (∀ t, s.stack t = [t.num]) ∧
      k.currScheduled = .T1 ∧ k.currTerminal = .T1 ∧ k.switchFlag = none ∧ k.kb = (boot m).kb := by
  obtain ⟨start, s, hreach, hset, hstacks, hscheduled, hshown, hflag, hkb⟩ :=
    startUp_reaches m ebp inner hprogram hload
  obtain ⟨k, htick, hrotated⟩ := hset.tick_completes ebp inner
  refine ⟨start, k, s, hreach, hset.totalTerminal, htick, hset.tick hrotated, hstacks, ?_, ?_,
    hrotated.switchFlag, hrotated.kb.trans hkb⟩
  · rw [hrotated.currScheduled, hscheduled]
    rfl
  · rw [hrotated.currTerminal, Kernel.displayedNext, hflag, Option.getD_none, hshown]

theorem displayed_completes {img : Image} {program : Program} (m : BootMemory) (ebp : Nat)
    (inner : Regs) (hprogram : findProgram img shellCommand = some program)
    (hload : Loadable img program.inode) :
    ∃ start k s, AfterStartUp img start ∧ step img start (.tick ebp inner) = some k ∧
      Settled img k s ∧ (∀ t, s.stack t = [t.num]) ∧ k.currScheduled = .T1 ∧
      k.currTerminal = .T1 ∧ k.switchFlag = none ∧ k.kb = (boot m).kb := by
  obtain ⟨start, k, s, hreach, htotal, hrest⟩ := displayed_reaches m ebp inner hprogram hload
  exact ⟨start, k, s, ⟨⟨m, hreach⟩, htotal⟩, hrest⟩

theorem ProcessTable.slots_shells {k : Kernel} {s : DisjointStacks Terminal Nat}
    (htable : ProcessTable k s) (hstacks : ∀ t, s.stack t = [t.num]) :
    (∀ i < MAX_PROCESS_COUNT, k.pcbSlots i = 1 ↔ i < 3) ∧ k.processCount = 3 := by
  have hshells : ∀ t, s.stack t = if t.num ≤ 3 then [t.num] else [] := by
    intro t
    have hnum : t.num ≤ 3 := by cases t <;> decide
    rw [if_pos hnum, hstacks]
  obtain ⟨hslots, hcount, -⟩ := htable.slots_of_shells hshells (by decide)
  exact ⟨hslots, hcount⟩

theorem ProcessTable.processCount_shells {k : Kernel} {s : DisjointStacks Terminal Nat}
    (htable : ProcessTable k s) (hstacks : ∀ t, s.stack t = [t.num]) : k.processCount = 3 :=
  (htable.slots_shells hstacks).2

/-- With three shells there is room for one more. -/
theorem ProcessTable.launching_shell {img : Image} {k : Kernel} {s : DisjointStacks Terminal Nat}
    {program : Program} (htable : ProcessTable k s) (hstacks : ∀ t, s.stack t = [t.num])
    (hprogram : findProgram img shellCommand = some program) :
    k.launching img (some shellCommand) = some program := by
  rw [Kernel.launching_eq_some (by rw [htable.processCount_shells hstacks]; decide)]
  exact hprogram

/-! ## A smallest image -/

/-- One regular file, `shell`, that consists of the four magic bytes. -/
def shellImage : Image where
  filesysAddr := 0x410000
  mem addr :=
    if addr < 0x410000 then 0
    else
      match addr - 0x410000 with
      | 0 | 4 | 8 => 1
      | 64 => 115
      | 65 => 104
      | 66 => 101
      | 67 | 68 => 108
      | 96 => 2
      | 4096 => 4
      | 8192 => 0x7F
      | 8193 => 0x45
      | 8194 => 0x4C
      | 8195 => 0x46
      | _ => 0

theorem shellImage_shell :
    findProgram shellImage shellCommand = some ⟨0, 0, []⟩ := by decide

theorem shellImage_loadable : Loadable shellImage 0 := by
  unfold Loadable
  decide

/-- Memory that is zero wherever boot does not set it. -/
def zeroMemory : BootMemory where
  pcb _ :=
    { fileArray := fun _ => ⟨0, 0, 0, 0⟩
      fileArrSize := 0
      processNum := 0
      kStack := 0
      parentTask := 0
      childTask := 0
      eip := 0
      esp := 0
      ebp := 0
      esp0 := 0
      args := fun _ => 0
      pad := 0
      ebpScheduler := 0
      behind := fun _ => 0 }
  phys _ := 0
  userPageEntry := 0
  vidPageEntry := 0
  video _ := ⟨0, 0⟩
  videoBuf _ _ := ⟨0, 0⟩
  x := 0
  y := 0
  x_lt := by decide
  y_lt := by decide

/-- A system with the smallest image and its three shells. -/
theorem shellImage_startUp :
    ∃ k s, AfterStartUp shellImage k ∧ Settled shellImage k s ∧ (∀ t, s.stack t = [t.num]) ∧
      k.currScheduled = .T3 ∧ k.currTerminal = .T1 ∧ k.switchFlag = none ∧
      k.kb = (boot zeroMemory).kb :=
  startUp_completes zeroMemory 0 ⟨0, 0⟩ shellImage_shell shellImage_loadable

/-- One more tick schedules the shell that is displayed. -/
theorem shellImage_displayed :
    ∃ start k s, AfterStartUp shellImage start ∧
      step shellImage start (.tick 0 ⟨0, 0⟩) = some k ∧ Settled shellImage k s ∧
      (∀ t, s.stack t = [t.num]) ∧ k.currScheduled = .T1 ∧ k.currTerminal = .T1 ∧
      k.switchFlag = none ∧ k.kb = (boot zeroMemory).kb :=
  displayed_completes zeroMemory 0 ⟨0, 0⟩ shellImage_shell shellImage_loadable

end Ece391
