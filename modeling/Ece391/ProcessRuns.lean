import Ece391.ProcessTable

/-! # The process stacks over whole runs

The start-up puts one shell on each stack. From then on every event moves the
stacks in one of a few ways, always on the stack of the scheduled terminal, as
long as processes are started and root shells end only while their terminal is
the displayed one.
-/

namespace Ece391

open Function Transition

/-! ## The running system -/

/-- Every terminal has a process, and the one on top of the scheduled terminal's
stack is mapped. -/
structure Settled (img : Image) (k : Kernel) (s : DisjointStacks Terminal Nat) : Prop
    extends Consistent k s where
  totalTerminal : k.totalTerminal = 4
  live : ∀ t, s.stack t ≠ []
  running : Running k
  shell : (findProgram img shellCommand).isSome

/-- Processes are started only by a caller on the displayed terminal and with
arguments that stay off the PCB above; a root shell ends only on the displayed
terminal. -/
def Disciplined (img : Image) (k : Kernel) : Event → Prop
  | .execute command _ => ∀ program, k.launching img command = some program →
      k.currTerminal = k.currScheduled ∧ program.args.length ≤ maxArgsSpill
  | .halt _ _ => ¬ k.hasParent → k.currTerminal = k.currScheduled
  | _ => True

/-- How one event moves the stacks: never another one than the scheduled terminal's. -/
inductive StackEffect (img : Image) (k : Kernel) (s : DisjointStacks Terminal Nat) :
    Event → DisjointStacks Terminal Nat → Prop
  | quiet {event : Event} (hquiet : event.Quiet) : StackEffect img k s event s
  | tick (ebp : Nat) (inner : Regs) : StackEffect img k s (.tick ebp inner) s
  | refused (command : Option (List UInt8)) (regs : Regs)
      (hrefused : k.launching img command = none) : StackEffect img k s (.execute command regs) s
  | launched (command : Option (List UInt8)) (regs : Regs) (program : Program)
      (hlaunching : k.launching img command = some program)
      (hfree : ¬ s.Holds (slotSearch k.pcbSlots + 1)) :
      StackEffect img k s (.execute command regs)
        (s.push k.currScheduled (slotSearch k.pcbSlots + 1) hfree)
  | exited (status : UInt8) (regs : Regs) (hparent : k.hasParent) :
      StackEffect img k s (.halt status regs) (s.pop k.currScheduled)
  | restarted (status : UInt8) (regs : Regs) (hroot : ¬ k.hasParent) (n : Nat)
      (hfree : ¬ (s.pop k.currScheduled).Holds n) :
      StackEffect img k s (.halt status regs)
        ((s.pop k.currScheduled).push k.currScheduled n hfree)

/-- The stack of a terminal that is not scheduled stays as it is. -/
theorem StackEffect.stack_of_ne {img : Image} {k : Kernel} {s s' : DisjointStacks Terminal Nat}
    {event : Event} (heffect : StackEffect img k s event s') {t : Terminal}
    (ht : t ≠ k.currScheduled) : s'.stack t = s.stack t := by
  cases heffect with
  | quiet | tick | refused => rfl
  | launched => exact DisjointStacks.push_stack_of_ne ht
  | exited => exact DisjointStacks.pop_stack_of_ne ht
  | restarted =>
      rw [DisjointStacks.push_stack_of_ne ht]
      exact DisjointStacks.pop_stack_of_ne ht

/-- What a switch or a halt restores is kept for every process that is not on the
scheduled terminal. -/
def BackgroundKept (k after : Kernel) (s : DisjointStacks Terminal Nat) : Prop :=
  ∀ t, t ≠ k.currScheduled → ∀ n ∈ s.stack t,
    Pcb.SameContext (k.pcb (getPCB n)) (after.pcb (getPCB n))

theorem findProgram_args {img : Image} {command : List UInt8} {program : Program}
    (hfind : findProgram img command = some program) : program.args = commandArgs command := by
  unfold findProgram at hfind
  obtain ⟨dentry, -, hfind⟩ := Option.bind_eq_some_iff.mp hfind
  dsimp only at hfind
  split at hfind
  · simp at hfind
  · obtain rfl := Option.some.inj hfind
    rfl

theorem findProgram_shell_args {img : Image} {program : Program}
    (hfind : findProgram img shellCommand = some program) :
    program.args.length ≤ maxArgsSpill := by
  rw [findProgram_args hfind]
  decide

theorem Kernel.launching_eq_some {k : Kernel} {img : Image} {command : Option (List UInt8)}
    (hcount : k.processCount < MAX_PROCESS_COUNT) :
    k.launching img command = command.bind (findProgram img) := if_neg (by omega)

/-- A tick only faults where the scheduled terminal or the next one has no process. -/
theorem Kernel.tick_completes {k : Kernel} {img : Image} (htotal : k.totalTerminal = 4)
    (hpos : 0 < k.head k.currScheduled) (hnext : 0 < k.head k.currScheduled.next) (ebp : Nat)
    (inner : Regs) : ∃ after, k.pitHandler img ebp inner = some after ∧ Rotated k ebp after := by
  obtain ⟨d, -, -, heq⟩ := k.prepareTick_eq
  have htick : ∃ after, k.pitHandler img ebp inner = some after := by
    rw [k.pitHandler_eq, if_neg (by omega), if_neg (by omega), heq, Kernel.rotate_eq,
      if_pos ⟨getPCB_lt hpos, getPCB_lt hnext⟩]
    exact ⟨_, rfl⟩
  obtain ⟨after, htick⟩ := htick
  exact ⟨after, htick, Kernel.pitHandler_rotated (by omega) htick⟩

namespace Settled

variable {img : Image} {k after : Kernel} {s : DisjointStacks Terminal Nat}

theorem same (hset : Settled img k s) (hsame : SameProcesses k after) : Settled img after s where
  toConsistent := hset.toConsistent.same hsame
  totalTerminal := hsame.totalTerminal.trans hset.totalTerminal
  live := hset.live
  running := hset.running.same hsame
  shell := hset.shell

/-- A tick after the start-up saves the running process and runs the next one. -/
theorem tick {ebp : Nat} (hset : Settled img k s) (hrotated : Rotated k ebp after) :
    Settled img after s := by
  obtain ⟨hpos, hle, rest, htop⟩ := hset.head_pos (hset.live k.currScheduled)
  obtain ⟨hnextPos, hnextLe, nextRest, hnextTop⟩ := hset.head_pos (hset.live k.currScheduled.next)
  have hholds : s.Holds (k.head k.currScheduled) := ⟨k.currScheduled, by simp [htop]⟩
  have hnextHolds : s.Holds (k.head k.currScheduled.next) :=
    ⟨k.currScheduled.next, by simp [hnextTop]⟩
  have hother : getPCB (k.head k.currScheduled.next) ≠ k.scheduledPcb := by
    rw [Kernel.scheduledPcb, Ne, getPCB_inj hle]
    intro heq
    have hmem : k.head k.currScheduled ∈ s.stack k.currScheduled.next := by
      rw [← heq]
      simp [hnextTop]
    exact s.disjoint _ _ (Terminal.next_ne k.currScheduled) hmem (by simp [htop])
  exact
    { toConsistent := hset.save hholds hset.running.kernelStack hrotated.heads hrotated.pcbSlots
        hrotated.processPerTerminal hrotated.processCount hrotated.pcb
      totalTerminal := hrotated.totalTerminal.trans hset.totalTerminal
      live := hset.live
      running :=
        { userPage := by
            rw [hrotated.userPageEntry, Kernel.head, Kernel.head, hrotated.heads,
              hrotated.currScheduled]
          kernelStack := by
            rw [hrotated.tssEsp0, if_neg hother, Kernel.head, Kernel.head, hrotated.heads,
              hrotated.currScheduled]
            exact hset.stackTop _ hnextHolds }
      shell := hset.shell }

theorem tick_background {ebp : Nat} (hset : Settled img k s) (hrotated : Rotated k ebp after) :
    BackgroundKept k after s := by
  intro t ht n hn
  obtain ⟨-, hle, rest, htop⟩ := hset.head_pos (hset.live k.currScheduled)
  have hne : getPCB n ≠ k.scheduledPcb := by
    rw [Kernel.scheduledPcb, Ne, getPCB_inj hle]
    rintro rfl
    exact s.disjoint t k.currScheduled ht hn (by simp [htop])
  rw [hrotated.pcb, update_of_ne hne]
  exact .refl _

/-- A tick of a running system never faults. -/
theorem tick_completes (hset : Settled img k s) (ebp : Nat) (inner : Regs) :
    ∃ after, k.pitHandler img ebp inner = some after ∧ Rotated k ebp after :=
  Kernel.tick_completes hset.totalTerminal (hset.head_pos (hset.live k.currScheduled)).1
    (hset.head_pos (hset.live k.currScheduled.next)).1 ebp inner

/-- `execute` by a caller on the displayed terminal pushes on the caller's stack. -/
theorem execute {command : Option (List UInt8)} {regs : Regs} {result : ExecReturn}
    (hset : Settled img k s) (hdisc : Disciplined img k (.execute command regs))
    (hexecute : k.execute img command regs = some (result, after)) :
    ∃ s', Settled img after s' ∧ StackEffect img k s (.execute command regs) s' ∧
      BackgroundKept k after s := by
  rcases Kernel.execute_cases hexecute with ⟨hrefused, -, hsame, -⟩ | hstarted
  · exact ⟨s, hset.same hsame, .refused command regs hrefused, fun _ _ n _ =>
      hsame.context (getPCB n)⟩
  · obtain ⟨program, hlaunching, hcount, -, hlaunched⟩ := hstarted
    obtain ⟨hshown, hfits⟩ := hdisc program hlaunching
    obtain ⟨hlt, hfree⟩ := hset.slotSearch_free hcount
    have hnew := hset.not_holds_of_free hfree
    refine ⟨s.push k.currScheduled (slotSearch k.pcbSlots + 1) hnew, ?_,
      .launched command regs program hlaunching hnew, fun t _ n hn =>
        hlaunched.kept hset.toProcessTable hfree hlt hfits ⟨t, hn⟩⟩
    have hcons := hset.launch hlt hfree hlaunched hfits
    simp only [hshown] at hcons
    exact
      { toConsistent := hcons
        totalTerminal := hlaunched.totalTerminal.trans hset.totalTerminal
        live := fun t => by
          by_cases ht : t = k.currScheduled
          · subst ht
            simp
          · rw [DisjointStacks.push_stack_of_ne ht]
            exact hset.live t
        running := hlaunched.running hshown
        shell := hset.shell }

/-- A process without a parent is always replaced by a shell: its slot has just been freed. -/
theorem restart_launched {status : UInt8} {regs : Regs} {result : HaltReturn}
    (hset : Settled img k s) (hroot : ¬ k.hasParent)
    (hhalt : k.halt img status regs = some (result, after)) :
    ∃ released program, k.release = some released ∧ Released k released ∧
      released.resetTerminal.processCount < MAX_PROCESS_COUNT ∧
      findProgram img shellCommand = some program ∧ result = .entered program.eip ∧
      released.resetTerminal.execute img (some shellCommand) regs =
        some (.entered program.eip, after) ∧
      Launched released.resetTerminal (slotSearch released.resetTerminal.pcbSlots) program.args
        regs after := by
  unfold Kernel.halt at hhalt
  obtain ⟨released, hrelease, hhalt⟩ := Option.bind_eq_some_iff.mp hhalt
  have hreleased := Kernel.release_released hrelease
  have hnone : ¬ (k.pcb k.scheduledPcb).parentTask ≠ NULL := hroot
  rw [(hreleased.context k.scheduledPcb).parentTask, if_neg hnone] at hhalt
  obtain ⟨⟨last, final⟩, hexecuted, heq⟩ := Option.map_eq_some_iff.mp hhalt
  have hcount : released.resetTerminal.processCount < MAX_PROCESS_COUNT := by
    have hle := hset.count_le
    have hone := hreleased.processCount
    obtain ⟨d, -, hreset⟩ := released.resetTerminal_eq
    rw [hreset]
    change released.processCount < _
    omega
  obtain ⟨program, hprogram⟩ := Option.isSome_iff_exists.mp hset.shell
  have hlaunching : released.resetTerminal.launching img (some shellCommand) = some program :=
    (Kernel.launching_eq_some hcount).trans hprogram
  rcases Kernel.execute_cases hexecuted with
    ⟨hrefused, -⟩ | ⟨program', hlaunching', -, rfl, hlaunched⟩
  · rw [hlaunching] at hrefused
    cases hrefused
  · obtain rfl := Option.some.inj (hlaunching.symm.trans hlaunching')
    obtain ⟨rfl, rfl⟩ := Prod.mk.inj heq
    exact ⟨released, program, hrelease, hreleased, hcount, hprogram, rfl, hexecuted, hlaunched⟩

/-- `halt` pops the caller's stack; a root shell is replaced by a new one. -/
theorem halt {status : UInt8} {regs : Regs} {result : HaltReturn}
    (hset : Settled img k s) (hdisc : Disciplined img k (.halt status regs))
    (hhalt : k.halt img status regs = some (result, after)) :
    ∃ s', Settled img after s' ∧ StackEffect img k s (.halt status regs) s' ∧
      BackgroundKept k after s := by
  obtain ⟨n, rest, htop⟩ := List.exists_cons_of_ne_nil (hset.live k.currScheduled)
  obtain ⟨released, hreleased, hcases⟩ := Kernel.halt_cases hhalt
  rcases hcases with ⟨hparent, -, -, hafter⟩ | ⟨hroot, -⟩
  · -- back to the parent, which is on the same stack
    obtain ⟨hcons, hrunning, hbelow⟩ := hset.restore htop hreleased hparent hafter
    refine ⟨s.pop k.currScheduled, ?_, .exited status regs hparent, fun _ _ n _ => ?_⟩
    swap
    · subst hafter
      exact hreleased.context (getPCB n)
    exact
      { toConsistent := hcons
        totalTerminal := by
          subst hafter
          exact hreleased.totalTerminal.trans hset.totalTerminal
        live := fun t => by
          by_cases ht : t = k.currScheduled
          · subst ht
            simpa [htop] using hbelow
          · rw [DisjointStacks.pop_stack_of_ne ht]
            exact hset.live t
        running := hrunning
        shell := hset.shell }
  · -- a root shell: its stack is emptied and gets a new process on the displayed terminal
    have hshown := hdisc hroot
    obtain ⟨released, program, -, hreleased, hcount, hprogram, -, -, hlaunched⟩ :=
      hset.restart_launched hroot hhalt
    obtain ⟨hcons, rfl⟩ := hset.reset htop hreleased hroot hshown
    obtain ⟨d, hd, hreset⟩ := released.resetTerminal_eq
    have hscheduled : released.resetTerminal.currScheduled = k.currScheduled := by
      rw [hreset]
      exact hreleased.currScheduled
    have hdisplayed : released.resetTerminal.currTerminal = k.currScheduled := by
      rw [hreset]
      exact (congrArg Prod.fst hd.aim).trans (hreleased.currTerminal.trans hshown)
    have htotal : released.resetTerminal.totalTerminal = 4 := by
      rw [hreset]
      exact hreleased.totalTerminal.trans hset.totalTerminal
    obtain ⟨hlt, hfree⟩ := hcons.slotSearch_free hcount
    have hnew := hcons.not_holds_of_free hfree
    have hpushed := hcons.launch hlt hfree hlaunched (findProgram_shell_args hprogram)
    simp only [hdisplayed] at hpushed
    refine ⟨_, ?_, .restarted status regs hroot _ hnew, fun t ht m hm => ?_⟩
    swap
    · have hheld : (s.pop k.currScheduled).Holds m :=
        ⟨t, by rwa [DisjointStacks.pop_stack_of_ne ht]⟩
      have hkept := hlaunched.kept hcons.toProcessTable hfree hlt
        (findProgram_shell_args hprogram) hheld
      refine (hreleased.context (getPCB m)).trans ?_
      rwa [hreset] at hkept
    exact
      { toConsistent := hpushed
        totalTerminal := hlaunched.totalTerminal.trans htotal
        live := fun t => by
          by_cases ht : t = k.currScheduled
          · subst ht
            simp
          · rw [DisjointStacks.push_stack_of_ne ht, DisjointStacks.pop_stack_of_ne ht]
            exact hset.live t
        running := hlaunched.running (hdisplayed.trans hscheduled.symm)
        shell := hset.shell }

/-- One disciplined event moves the stacks and leaves a running system. -/
theorem step {event : Event} (hset : Settled img k s) (hdisc : Disciplined img k event)
    (hstep : Ece391.step img k event = some after) :
    ∃ s', Settled img after s' ∧ StackEffect img k s event s' ∧ BackgroundKept k after s := by
  by_cases hquiet : event.Quiet
  · have hsame := step_same hquiet hstep
    exact ⟨s, hset.same hsame, .quiet hquiet, fun _ _ n _ => hsame.context (getPCB n)⟩
  cases event with
  | tick ebp inner =>
      have hrunning : 3 < k.totalTerminal := by
        rw [hset.totalTerminal]
        decide
      have hrotated := Kernel.pitHandler_rotated hrunning hstep
      exact ⟨s, hset.tick hrotated, .tick ebp inner, hset.tick_background hrotated⟩
  | execute command regs =>
      obtain ⟨⟨result, last⟩, hexecute, rfl⟩ := Option.map_eq_some_iff.mp hstep
      exact hset.execute hdisc hexecute
  | halt status regs =>
      obtain ⟨⟨result, last⟩, hhalt, rfl⟩ := Option.map_eq_some_iff.mp hstep
      exact hset.halt hdisc hhalt
  | key | rtc | read | write | open_ | close | getargs | vidmap => exact (hquiet trivial).elim

end Settled

end Ece391
