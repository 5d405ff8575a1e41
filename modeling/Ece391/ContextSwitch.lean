import Ece391.ProcessInvariant
import Mathlib.Data.List.TakeWhile

/-! # Context switches

A log beside the kernel notes which process ran, and with which EBP, when each
terminal was last left. The saved fields of the PCBs always agree with it, so a
tick resumes exactly what an earlier tick left.
-/

namespace Ece391

open Function Transition

/-- What ran when a terminal was left, and the EBP of the handler's frame. -/
structure Departure where
  head : Nat
  ebp : Nat
  deriving DecidableEq

/-- The kernel with the last departure from each terminal. -/
structure Logged where
  kernel : Kernel
  left : Terminal → Option Departure

/-- A tick that schedules another terminal leaves the one it interrupted. -/
def logEvent (k after : Kernel) (left : Terminal → Option Departure) :
    Event → Terminal → Option Departure
  | .tick ebp _ =>
      if after.currScheduled = k.currScheduled then left
      else update left k.currScheduled (some ⟨k.head k.currScheduled, ebp⟩)
  | _ => left

def logStep (img : Image) (l : Logged) (event : Event) : Option Logged :=
  (step img l.kernel event).map fun after => ⟨after, logEvent l.kernel after l.left event⟩

/-- The start-up with its log. -/
def LoggedStartUp (img : Image) (l : Logged) : Prop :=
  (∃ m, ReachableVia (logStep img) (fun l event => StartUpStep l.kernel event)
    ⟨boot m, fun _ => none⟩ l) ∧ l.kernel.totalTerminal = 4

/-! ## The property -/

theorem frameOf_userPageOf {num : Nat} (hpos : 1 ≤ num) :
    frameOf (userPageOf num) = _8MB + (num - 1) * _4MB := by
  have haddr : _8MB + num * _4MB - _4MB = 2 ^ 22 * (num + 1) := by
    simp only [_8MB, _4MB]
    omega
  have hflags : MAP_MASK < 2 ^ 22 := by decide
  rw [userPageOf, haddr, ← Nat.two_pow_add_eq_or_of_lt hflags]
  simp only [frameOf, MAP_MASK, _8MB, _4MB]
  omega

/-- The log agrees with the PCBs of the terminals that are started and not scheduled. -/
def LogAgrees (l : Logged) : Prop :=
  ∀ t, t ≠ l.kernel.currScheduled → t.num ≤ l.kernel.totalTerminal →
    l.left t = some ⟨l.kernel.head t, l.kernel.resumeEbp t⟩

/-- Nothing that resumes a terminal that was not scheduled has changed. -/
theorem Settled.resume_kept {img : Image} {k after : Kernel} {s s' : DisjointStacks Terminal Nat}
    {event : Event} (hset : Settled img k s) (hset' : Settled img after s')
    (heffect : StackEffect img k s event s') (hkept : BackgroundKept k after s) {t : Terminal}
    (ht : t ≠ k.currScheduled) :
    after.head t = k.head t ∧ after.resumeEbp t = k.resumeEbp t := by
  obtain ⟨-, -, rest, htop⟩ := hset.head_pos (hset.live t)
  have hhead : after.head t = k.head t := by
    have htop' := heffect.stack_of_ne ht
    rw [htop] at htop'
    exact hset'.head_eq htop'
  refine ⟨hhead, ?_⟩
  have hcontext := hkept t ht (k.head t) (by rw [htop]; exact List.mem_cons_self)
  rw [Kernel.resumeEbp, hhead, hcontext.ebpScheduler, Kernel.resumeEbp]

/-- A disciplined event keeps the log in agreement: it can change the scheduled
terminal only, and a tick writes what it changes there into the log. -/
theorem Settled.logAgrees_step {img : Image} {l after : Logged} {s : DisjointStacks Terminal Nat}
    {event : Event} (hset : Settled img l.kernel s) (hlog : LogAgrees l)
    (hdisc : Disciplined img l.kernel event) (hstep : logStep img l event = some after) :
    (∃ s', Settled img after.kernel s') ∧ LogAgrees after := by
  obtain ⟨next, hnext, rfl⟩ := Option.map_eq_some_iff.mp hstep
  obtain ⟨s', hset', heffect, hkept⟩ := hset.step hdisc hnext
  refine ⟨⟨s', hset'⟩, fun t ht hstarted => ?_⟩
  dsimp only at ht hstarted ⊢
  have hresume : ∀ u, u ≠ l.kernel.currScheduled →
      l.left u = some ⟨next.head u, next.resumeEbp u⟩ := by
    intro u hu
    obtain ⟨hhead, hebp⟩ := hset.resume_kept hset' heffect hkept hu
    rw [hhead, hebp]
    refine hlog u hu ?_
    rw [hset.totalTerminal]
    cases u <;> decide
  by_cases htick : ∃ ebp inner, event = .tick ebp inner
  · obtain ⟨ebp, inner, rfl⟩ := htick
    have hrotated := Kernel.pitHandler_rotated (by rw [hset.totalTerminal]; decide) hnext
    have hmoved : next.currScheduled ≠ l.kernel.currScheduled := by
      rw [hrotated.currScheduled]
      exact Terminal.next_ne _
    simp only [logEvent, if_neg hmoved]
    by_cases hleft : t = l.kernel.currScheduled
    · subst hleft
      rw [update_self, Kernel.resumeEbp, hrotated.pcb, Kernel.head, Kernel.head, hrotated.heads]
      simp only [Kernel.scheduledPcb, update_self]
    · rw [update_of_ne hleft]
      exact hresume t hleft
  · have hscheduled := step_scheduled (fun ebp inner heq => htick ⟨ebp, inner, heq⟩) hnext
    rw [hscheduled] at ht
    cases event with
    | tick ebp inner => exact absurd ⟨ebp, inner, rfl⟩ htick
    | _ => exact hresume t ht

/-! ## The log of the start-up -/

theorem ShellsStarted.head_num {img : Image} {k : Kernel}
    {s : DisjointStacks Terminal Nat} {n : Nat}
    (hshells : ShellsStarted img k s n) {t : Terminal} (ht : t.num ≤ n) :
    k.head t = t.num ∧ s.Holds t.num := by
  have htop : s.stack t = [t.num] := by rw [hshells.shells, if_pos ht]
  exact ⟨hshells.head_eq htop, ⟨t, by simp [htop]⟩⟩

/-- Each further start-up tick logs the shell it leaves. -/
theorem ShellsStarted.logAgrees_tick {img : Image} {l : Logged} {next : Kernel}
    {s : DisjointStacks Terminal Nat} {n ebp : Nat} {inner : Regs}
    (hshells : ShellsStarted img l.kernel s n) (hpos : 1 ≤ n) (hlt : n < 3) (hlog : LogAgrees l)
    (htick : l.kernel.pitHandler img ebp inner = some next) :
    LogAgrees ⟨next, logEvent l.kernel next l.left (.tick ebp inner)⟩ := by
  obtain ⟨s', hshells', hsaved⟩ := hshells.tick hpos hlt htick
  have hmoved : next.currScheduled ≠ l.kernel.currScheduled := by
    intro heq
    have hnum := hshells'.scheduled
    rw [heq, hshells.scheduled] at hnum
    omega
  intro t ht hstarted
  dsimp only at ht hstarted ⊢
  rw [hshells'.totalTerminal] at hstarted
  have hold : t.num ≤ n := by
    have hne : t.num ≠ n + 1 := fun heq => ht (Terminal.num_inj (heq.trans hshells'.scheduled.symm))
    omega
  obtain ⟨hhead, hholds⟩ := hshells.head_num hold
  obtain ⟨hhead', -⟩ := hshells'.head_num hstarted
  rw [logEvent, if_neg hmoved, Kernel.resumeEbp, hhead', hsaved _ hholds]
  by_cases hleft : t = l.kernel.currScheduled
  · subst hleft
    rw [update_self, hhead, if_pos rfl]
  · have hne : t.num ≠ l.kernel.head l.kernel.currScheduled := by
      rw [(hshells.head_num (by rw [hshells.scheduled])).1]
      exact fun heq => hleft (Terminal.num_inj heq)
    rw [update_of_ne hleft, if_neg hne, hlog t hleft (by rw [hshells.totalTerminal]; exact hold),
      Kernel.resumeEbp, hhead]

/-- The last start-up tick leaves no terminal. -/
theorem ShellsStarted.logAgrees_finish {img : Image} {l : Logged} {next : Kernel}
    {s : DisjointStacks Terminal Nat} {ebp : Nat} {inner : Regs}
    (hshells : ShellsStarted img l.kernel s 3) (hlog : LogAgrees l)
    (htick : l.kernel.pitHandler img ebp inner = some next) :
    next.currScheduled = l.kernel.currScheduled ∧
      LogAgrees { kernel := next, left := l.left } := by
  obtain ⟨hsame, hpcb, -⟩ := Kernel.pitHandler_finish hshells.totalTerminal htick
  have hthird : l.kernel.currScheduled = .T3 := Terminal.num_inj hshells.scheduled
  have hscheduled : next.currScheduled = l.kernel.currScheduled := by
    rw [hsame.currScheduled, hthird]
  refine ⟨hscheduled, fun t ht _ => ?_⟩
  dsimp only at ht ⊢
  have hheads : next.highestTerminalProcesses = l.kernel.highestTerminalProcesses := hsame.heads
  have hnum : t.num ≤ l.kernel.totalTerminal := by
    rw [hshells.totalTerminal]
    cases t <;> decide
  rw [hscheduled] at ht
  rw [hlog t ht hnum, Kernel.resumeEbp, Kernel.resumeEbp, Kernel.head, Kernel.head, hheads, hpcb]

theorem LogAgrees.same {l : Logged} {next : Kernel} (hlog : LogAgrees l)
    (hsame : SameProcesses l.kernel next) : LogAgrees { kernel := next, left := l.left } := by
  intro t ht hstarted
  dsimp only at ht hstarted ⊢
  rw [hsame.currScheduled] at ht
  rw [hsame.totalTerminal] at hstarted
  have hcontext := hsame.context (getPCB (l.kernel.head t))
  rw [hlog t ht hstarted, Kernel.resumeEbp, Kernel.resumeEbp, Kernel.head, Kernel.head, hsame.heads,
    hcontext.ebpScheduler]

/-- The log agrees throughout the start-up. -/
theorem StartUpPhase.logAgrees_step {img : Image} {l after : Logged} {event : Event}
    (hphase : StartUpPhase img l.kernel) (hlog : LogAgrees l)
    (hallowed : StartUpStep l.kernel event) (hstep : logStep img l event = some after) :
    StartUpPhase img after.kernel ∧ LogAgrees after := by
  obtain ⟨next, hnext, rfl⟩ := Option.map_eq_some_iff.mp hstep
  by_cases hquiet : event.Quiet
  · have hsame := step_same hquiet hnext
    refine ⟨hphase.same hsame, ?_⟩
    cases event with
    | tick | execute | halt => exact hquiet.elim
    | _ => exact hlog.same hsame
  cases event with
  | execute | halt => exact hallowed.elim
  | key | rtc | read | write | open_ | close | getargs | vidmap => exact (hquiet trivial).elim
  | tick ebp inner =>
      have hnextPhase := hphase.tick hallowed hnext
      refine ⟨hnextPhase, ?_⟩
      cases hphase with
      | booted hcons hzero hfirst =>
          -- only the scheduled terminal is started
          obtain ⟨htotal, hscheduled⟩ := Kernel.pitHandler_shell_numbers (by omega) hnext
          rw [hzero] at htotal
          rw [if_pos hzero, hfirst] at hscheduled
          intro t ht hstarted
          dsimp only at ht hstarted
          rw [hscheduled] at ht
          rw [htotal] at hstarted
          have hnum : t.num = Terminal.T1.num := Nat.le_antisymm hstarted t.num_pos
          exact absurd (Terminal.num_inj hnum) ht
      | started s n hpos hle hshells =>
          by_cases hlast : n = 3
          · subst hlast
            obtain ⟨hscheduled, hagrees⟩ := hshells.logAgrees_finish hlog hnext
            simp only [logEvent, if_pos hscheduled]
            exact hagrees
          · exact hshells.logAgrees_tick hpos (by omega) hlog hnext
      | lost hone hfirst hhead => exact absurd hnext (pitHandler_lost hone hfirst hhead)
      | ended s hset => exact absurd hset.totalTerminal hallowed

theorem LoggedStartUp.settled {img : Image} {l : Logged} (hstart : LoggedStartUp img l) :
    (∃ s, Settled img l.kernel s) ∧ LogAgrees l := by
  obtain ⟨⟨m, hreach⟩, htotal⟩ := hstart
  have hinv : StartUpPhase img l.kernel ∧ LogAgrees l := by
    refine hreach.invariant (fun l => StartUpPhase img l.kernel ∧ LogAgrees l) ?_ ⟨.boot img m, ?_⟩
    · intro state event next hinv hallowed hstep
      exact hinv.1.logAgrees_step hinv.2 hallowed hstep
    · intro t _ hstarted
      have hzero : (boot m).totalTerminal = 0 := rfl
      dsimp only at hstarted
      have hpos := t.num_pos
      omega
  refine ⟨?_, hinv.2⟩
  cases hinv.1 with
  | booted _ hzero => omega
  | started s n _ hle hshells =>
      have htotal' := hshells.totalTerminal
      omega
  | lost hone => omega
  | ended s hset => exact ⟨s, hset⟩

/-! ## Every reachable state -/

theorem findProgram_word {img : Image} {command other : List UInt8} {program : Program}
    (hword : commandWord other = commandWord command)
    (hfind : findProgram img command = some program) :
    findProgram img other = some { program with args := commandArgs other } := by
  unfold findProgram at hfind ⊢
  obtain ⟨dentry, hdentry, hfind⟩ := Option.bind_eq_some_iff.mp hfind
  rw [hword, hdentry, Option.bind_some]
  dsimp only at hfind ⊢
  split at hfind
  · simp at hfind
  · rename_i hmagic
    obtain rfl := Option.some.inj hfind
    rw [if_neg hmagic]

/-- The arguments of a shell command that are made of one letter. -/
theorem findProgram_letters {args : List UInt8} (hne : args ≠ []) (hletters : ∀ c ∈ args, c = 65) :
    findProgram shellImage (shellCommand ++ SPACE_CHAR :: args) = some ⟨0, 0, args⟩ := by
  obtain ⟨first, rest, rfl⟩ := List.exists_cons_of_ne_nil hne
  have hword : commandWord (shellCommand ++ SPACE_CHAR :: first :: rest) = shellCommand := rfl
  have hfirst : first = 65 := hletters first List.mem_cons_self
  have hskip : (SPACE_CHAR :: first :: rest).dropWhile (fun c => decide (c = SPACE_CHAR)) =
      first :: rest := by
    rw [List.dropWhile_cons_of_pos (by simp), List.dropWhile_cons_of_neg (by simp [hfirst,
      SPACE_CHAR])]
  have hargs : commandArgs (shellCommand ++ SPACE_CHAR :: first :: rest) = first :: rest := by
    rw [commandArgs, hword, List.drop_left, hskip, List.takeWhile_eq_self_iff]
    intro c hmem
    simp [hletters c hmem, NUL]
  rw [findProgram_word hword shellImage_shell, hargs]

/-- A copy of letters from the arguments of a process to an offset in the PCB above. -/
theorem storeKernelBytes_letters (pcbs : PcbMemory) {num offset : Nat} (hpos : 2 ≤ num)
    (hle : num ≤ MAX_PROCESS_COUNT) (hoffset : offset < _8KB) :
    ∃ middle, storeKernelBytes pcbs (getPCB num + Pcb.argsOffset)
      (List.replicate (_8KB - Pcb.argsOffset + offset) 65 ++ [65]) =
        some (update middle (getPCB (num - 1))
          ((middle (getPCB (num - 1))).storeByte offset 65)) := by
  have hlength : (List.replicate (_8KB - Pcb.argsOffset + offset) (65 : UInt8)).length =
      _8KB - Pcb.argsOffset + offset := List.length_replicate
  have haddr : getPCB num + Pcb.argsOffset + (_8KB - Pcb.argsOffset + offset) =
      getPCB (num - 1) + offset := by
    simp only [getPCB, Pcb.argsOffset, _8KB, _8MB, MAX_PROCESS_COUNT] at *
    omega
  have hmapped : getPCB (num - 1) + offset < _8MB := by
    simp only [getPCB, _8KB, _8MB, MAX_PROCESS_COUNT] at *
    omega
  have hbase : (getPCB (num - 1) + offset) / _8KB * _8KB = getPCB (num - 1) := by
    simp only [getPCB, _8KB, _8MB, MAX_PROCESS_COUNT] at *
    omega
  have hmod : (getPCB (num - 1) + offset) % _8KB = offset := by
    simp only [getPCB, _8KB, _8MB, MAX_PROCESS_COUNT] at *
    omega
  have hfits : getPCB num + Pcb.argsOffset +
      (List.replicate (_8KB - Pcb.argsOffset + offset) (65 : UInt8)).length ≤ _8MB := by
    rw [hlength, haddr]
    exact Nat.le_of_lt hmapped
  obtain ⟨middle, hmiddle⟩ := storeKernelBytes_completes pcbs hfits
  refine ⟨middle, ?_⟩
  rw [storeKernelBytes_append, hmiddle, Option.bind_some, hlength, haddr]
  simp only [storeKernelBytes, storeKernelByte, if_pos hmapped, hbase, hmod, Option.bind_some]

end Ece391
