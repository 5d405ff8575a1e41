import Ece391.Isolation
import Ece391.ExecuteHalt
import Ece391.Lib.Sessions

/-! # User programs on the kernel

A user program computes between its calls of the library in `ece391syscall.S`. While it runs
ticks and keys come in between, other processes make calls of their own, and the children it
starts run in its place. What is proved here for all programs is about attentive sessions: the
program calls while its terminal is displayed, so that its calls find its own descriptors, and
what happens beside it spares its PCB.
-/

namespace Ece391

open Function Transition Sessions

/-! ## Calls and replies -/

/-- What a program asks of the kernel; every call is given a buffer. -/
inductive UserCall where
  | fd (call : Call)
  | getargs (nbytes : Int)
  | execute (command : List UInt8) (regs : Regs)
  | vidmap (screenStart : Nat)

/-- The value in `eax`, and what is stored from the front of the buffer on. -/
structure Reply where
  value : Int
  out : List UInt8

def SysReturn.reply : SysReturn → Option Reply
  | .returned value out => some ⟨value, out⟩
  | .waiting => none

/-- A program that was started replies when it halts. -/
def ExecReturn.reply : ExecReturn → Option Reply
  | .returned value => some ⟨value, []⟩
  | .entered _ => none

def Kernel.serve (img : Image) (k : Kernel) : UserCall → Option (Option Reply × Kernel)
  | .fd call => (k.call img call).map fun result => (result.1.reply, result.2)
  | .getargs nbytes => (k.getargs true nbytes).map fun result => (result.1.reply, result.2)
  | .execute command regs =>
      (k.execute img (some command) regs).map fun result => (result.1.reply, result.2)
  | .vidmap screenStart => (k.vidmap screenStart).map fun result => (result.1.reply, result.2)

/-- The event a call is for the machine. -/
def UserCall.event : UserCall → Event
  | .fd call => call.event
  | .getargs nbytes => .getargs true nbytes
  | .execute command regs => .execute (some command) regs
  | .vidmap screenStart => .vidmap screenStart

/-- An event of the process that runs, which no interrupt is. -/
def MachineEvent.ByProcess : MachineEvent → Bool
  | .kernel (.tick _ _) | .kernel (.key _) | .kernel .rtc => false
  | _ => true

/-- Process `n` is the one that runs, on terminal `t`. -/
def Kernel.runs (k : Kernel) (t : Terminal) (n : Nat) : Bool := k.currScheduled = t ∧ k.head t = n

/-- What `execute` of process `n` returns when a halt makes `n` the head again. -/
def returnedTo (t : Terminal) (n : Nat) (k : Kernel) (event : MachineEvent) (after : Kernel) :
    Option Reply :=
  match event with
  | .kernel (.halt status _) =>
      if k.head t ≠ n ∧ after.head t = n then some ⟨status.toNat, []⟩ else none
  | _ => none

/-- The kernel as process `n` on terminal `t` finds it. Others call and store while it does not
run, interrupts come at any time. -/
def kernelService (img : Image) (t : Terminal) (n : Nat) :
    Service Kernel UserCall Reply MachineEvent where
  serve := Kernel.serve img
  step := machineStep img
  turn k := k.runs t n
  beside k event := !event.ByProcess || !k.runs t n
  deliver := returnedTo t n

/-- A program of user space; its value is what `main` returns. -/
abbrev UserProgram (Pos : Type) := Client Pos UserCall Reply Int

abbrev UserSession (Pos : Type) := Session Kernel Pos UserCall Reply

/-- Memory at a buffer that ends with the program's stack frame; what it holds before the
program stores to it is arbitrary. -/
abbrev UserBuffer := Nat → UInt8

/-- The text in a buffer of `size` bytes. -/
def bufferText (buf : UserBuffer) (size : Nat) : List UInt8 :=
  (bufferBytes buf size).takeWhile (· ≠ NUL)

/-- `ece391_fdputs`. -/
def fdputs (fd : Int) (text : List UInt8) : UserCall :=
  .fd (.write fd (some fun i => text.getD i NUL) text.length)

theorem Kernel.runs_iff {k : Kernel} {t : Terminal} {n : Nat} :
    k.runs t n ↔ k.currScheduled = t ∧ k.head t = n := by
  simp [Kernel.runs]

theorem Kernel.serve_step {img : Image} {k after : Kernel} {call : UserCall} {reply : Option Reply}
    (hserve : k.serve img call = some (reply, after)) : step img k call.event = some after := by
  cases call with
  | fd call =>
      obtain ⟨⟨result, last⟩, hcall, heq⟩ := Option.map_eq_some_iff.mp hserve
      obtain ⟨-, rfl⟩ := Prod.mk.inj heq
      rw [UserCall.event, step_call, hcall, Option.map_some]
  | getargs nbytes =>
      simp only [Kernel.serve, Option.map_eq_some_iff] at hserve
      obtain ⟨⟨result, last⟩, hcall, heq⟩ := hserve
      obtain ⟨-, rfl⟩ := Prod.mk.inj heq
      simp only [UserCall.event, step, Option.map_eq_some_iff]
      exact ⟨_, hcall, rfl⟩
  | execute command regs =>
      obtain ⟨⟨result, last⟩, hcall, heq⟩ := Option.map_eq_some_iff.mp hserve
      obtain ⟨-, rfl⟩ := Prod.mk.inj heq
      simp only [UserCall.event, step, hcall, Option.map_some]
  | vidmap screenStart =>
      obtain ⟨⟨result, last⟩, hvidmap, heq⟩ := Option.map_eq_some_iff.mp hserve
      obtain ⟨-, rfl⟩ := Prod.mk.inj heq
      simp only [UserCall.event, step, hvidmap, Option.map_some]

/-! ## What happens beside a process -/

/-- Process `n` is on the stack of terminal `t`. -/
def Hosted (img : Image) (t : Terminal) (n : Nat) (k : Kernel) : Prop :=
  ∃ s, Settled img k s ∧ n ∈ s.stack t

/-- The events beside a process that leave its PCB alone: whoever changes descriptors does not
find it at the displayed terminal's head, and arguments stay in the block of the new process. -/
def Spares (img : Image) (n : Nat) (k : Kernel) : MachineEvent → Prop
  | .kernel (.execute command regs) => Disciplined img k (.execute command regs) ∧
      ∀ program, k.launching img command = some program → program.args.length ≤ argsRoom
  | .kernel (.halt status regs) => Disciplined img k (.halt status regs) ∧
      (k.displayedPcb = k.scheduledPcb ∨ ¬ k.HasFile k.scheduledPcb)
  | .kernel event => k.displayedPcb ≠ getPCB n ∨ ¬ k.ChangesTable img event
  | .fill buf call => k.displayedPcb ≠ getPCB n ∨ ¬ k.ChangesTable img (call.event buf)
  | .store _ _ => True

section Beside

variable {img : Image} {t : Terminal} {n : Nat} {k after : Kernel}

theorem Hosted.head (hk : Hosted img t n k) : 1 ≤ n ∧ n ≤ MAX_PROCESS_COUNT := by
  obtain ⟨s, hset, hmem⟩ := hk
  exact hset.le_of_holds ⟨t, hmem⟩

/-- A process that does not run is not the head of the scheduled terminal. -/
theorem Hosted.ne_scheduled (hk : Hosted img t n k) (hidle : ¬ k.runs t n) :
    n ≠ k.head k.currScheduled := by
  obtain ⟨s, hset, hmem⟩ := hk
  obtain ⟨-, -, rest, htop⟩ := hset.head_pos (hset.live k.currScheduled)
  rintro rfl
  by_cases ht : k.currScheduled = t
  · exact hidle (Kernel.runs_iff.mpr ⟨ht, by rw [ht]⟩)
  · exact s.disjoint _ _ ht (by simp [htop]) hmem

/-- A call that starts something leaves the PCBs of the live processes alone. -/
theorem Kernel.execute_pcb_kept {command : Option (List UInt8)} {regs : Regs} {result : ExecReturn}
    (hexecute : k.execute img command regs = some (result, after))
    (hfits : ∀ program, k.launching img command = some program → program.args.length ≤ argsRoom)
    (hbound : n ≤ MAX_PROCESS_COUNT) (hother : n ≠ slotSearch k.pcbSlots + 1) :
    after.pcb (getPCB n) = k.pcb (getPCB n) := by
  rcases Kernel.execute_cases hexecute with ⟨-, -, -, hpcb, -⟩ | ⟨program, -, -, hresult, -⟩
  · rw [hpcb]
  · rw [hresult] at hexecute
    obtain ⟨program', pcbs, hlaunching, -, hcopy, hothers⟩ := Kernel.execute_pcb hexecute
    have hroom := hfits program' hlaunching
    have hne : getPCB n ≠ getPCB (slotSearch k.pcbSlots + 1) := by
      intro heq
      exact hother ((getPCB_inj hbound).mp heq.symm).symm
    rw [hothers _ hne]
    refine storeKernelBytes_block (getPCB_mod _) (Nat.le_add_right _ _) ?_ hcopy hne
    simp only [argsRoom, Pcb.argsOffset, _8KB] at hroom ⊢
    omega

theorem Hosted.ne_slotSearch (hk : Hosted img t n k) (hroom : k.processCount < MAX_PROCESS_COUNT) :
    n ≠ slotSearch k.pcbSlots + 1 := by
  obtain ⟨s, hset, hmem⟩ := hk
  rintro rfl
  exact hset.not_holds_of_free (hset.slotSearch_free hroom).2 ⟨t, hmem⟩

/-- An `execute` of somebody else. -/
theorem Hosted.execute (hk : Hosted img t n k) (hidle : ¬ k.runs t n)
    {command : Option (List UInt8)} {regs : Regs} {result : ExecReturn}
    (hspares : Spares img n k (.kernel (.execute command regs)))
    (hexecute : k.execute img command regs = some (result, after)) :
    Hosted img t n after ∧ after.pcb (getPCB n) = k.pcb (getPCB n) ∧
      (k.head t = n → after.head t = n) := by
  obtain ⟨hdisc, hfits⟩ := hspares
  obtain ⟨s, hset, hmem⟩ := id hk
  obtain ⟨s', hset', heffect, -⟩ := hset.execute hdisc hexecute
  have hmem' : n ∈ s'.stack t := by
    cases heffect with
    | quiet hquiet => exact hquiet.elim
    | refused => exact hmem
    | launched _ _ _ _ hfree =>
        by_cases ht : t = k.currScheduled
        · rw [ht, DisjointStacks.push_stack_self]
          rw [ht] at hmem
          exact List.mem_cons_of_mem _ hmem
        · rwa [DisjointStacks.push_stack_of_ne ht]
  refine ⟨⟨s', hset', hmem'⟩, ?_⟩
  rcases Kernel.execute_cases hexecute with ⟨-, -, hsame, hpcb, -⟩ | hstarted
  · exact ⟨by rw [hpcb], fun hhead => by rwa [Kernel.head, hsame.heads]⟩
  · obtain ⟨program, hlaunching, hroom, -, hlaunched⟩ := hstarted
    refine ⟨Kernel.execute_pcb_kept hexecute hfits hk.head.2 (hk.ne_slotSearch hroom),
      fun hhead => ?_⟩
    -- the head of `t` does not run, so it is another terminal that gets a new head
    have ht : t ≠ k.currTerminal := by
      rintro rfl
      exact hidle (Kernel.runs_iff.mpr ⟨(hdisc program hlaunching).1.symm, hhead⟩)
    rwa [Kernel.head, hlaunched.heads, update_of_ne ht]

/-- A `halt` of somebody else. -/
theorem Hosted.halt (hk : Hosted img t n k) (hidle : ¬ k.runs t n) {status : UInt8} {regs : Regs}
    {result : HaltReturn} (hspares : Spares img n k (.kernel (.halt status regs)))
    (hhalt : k.halt img status regs = some (result, after)) :
    Hosted img t n after ∧ after.pcb (getPCB n) = k.pcb (getPCB n) ∧
      (k.head t = n → after.head t = n) := by
  obtain ⟨hdisc, hown⟩ := hspares
  obtain ⟨s, hset, hmem⟩ := id hk
  have hne := hk.ne_scheduled hidle
  obtain ⟨-, -, rest, htop⟩ := hset.head_pos (hset.live k.currScheduled)
  obtain ⟨s', hset', heffect, -⟩ := hset.halt hdisc hhalt
  -- on its own terminal the process waits below the head that halts
  have hstays : t = k.currScheduled → n ∈ rest := by
    rintro rfl
    rw [htop] at hmem
    exact (List.mem_cons.mp hmem).resolve_left hne
  obtain ⟨released, hrelease, hreleased, hcases⟩ := Kernel.halt_release hhalt
  have haddr : getPCB n ≠ k.scheduledPcb := by
    rw [Kernel.scheduledPcb, Ne, getPCB_inj (hset.head_pos (hset.live k.currScheduled)).2.1]
    exact hne
  have hpcb := Kernel.release_pcb hrelease hown _ haddr
  have hmem' : n ∈ s'.stack t := by
    by_cases ht : t = k.currScheduled
    · have hrest := hstays ht
      rw [ht]
      cases heffect with
      | quiet hquiet => exact hquiet.elim
      | exited => rwa [DisjointStacks.pop_stack_self, htop]
      | restarted _ _ hroot =>
          rw [(hset.reset htop hreleased hroot (hdisc hroot)).2] at hrest
          cases hrest
    · rwa [heffect.stack_of_ne ht]
  have hhead : k.head t = n → after.head t = n := by
    intro hhead
    have ht : t ≠ k.currScheduled := by
      rintro rfl
      exact hne hhead.symm
    obtain ⟨-, -, below, htop'⟩ := hset.head_pos (hset.live t)
    rw [← heffect.stack_of_ne ht] at htop'
    rw [hset'.head_eq htop', hhead]
  refine ⟨⟨s', hset', hmem'⟩, ?_, hhead⟩
  rcases hcases with ⟨-, -, -, rfl⟩ | ⟨hroot, ⟨result', last⟩, hexecute, hlast⟩
  · exact hpcb
  · obtain rfl : last = after := hlast
    obtain ⟨d, -, hreset⟩ := released.resetTerminal_eq
    have hkept : released.resetTerminal.pcb = released.pcb := by rw [hreset]
    rw [← hpcb, ← hkept]
    have hshown := hdisc hroot
    obtain ⟨hcons, -⟩ := hset.reset htop hreleased hroot hshown
    have hholds : (s.pop k.currScheduled).Holds n := by
      rw [DisjointStacks.holds_pop htop]
      exact ⟨hne, t, hmem⟩
    refine Kernel.execute_pcb_kept hexecute ?_ hk.head.2 ?_
    · intro program hlaunching
      rw [findProgram_args (launching_some_iff.mp hlaunching).2]
      decide
    · obtain ⟨released', -, hrelease', -, hcount, -⟩ := hset.restart_launched hroot hhalt
      obtain rfl := Option.some.inj (hrelease.symm.trans hrelease')
      rintro rfl
      exact hcons.not_holds_of_free (hcons.slotSearch_free hcount).2 hholds

/-- What spares a process leaves its descriptors and arguments alone, and it stays the head of
its terminal when it is. -/
theorem Hosted.beside (hk : Hosted img t n k) {event : MachineEvent}
    (hbeside : (kernelService img t n).beside k event = true) (hspares : Spares img n k event)
    (hstep : machineStep img k event = some after) :
    Hosted img t n after ∧ Pcb.SameTables (k.pcb (getPCB n)) (after.pcb (getPCB n)) ∧
      (k.head t = n → after.head t = n) := by
  have hidle : event.ByProcess = true → ¬ k.runs t n := by
    intro hprocess
    simpa [kernelService, hprocess] using hbeside
  cases event with
  | store vaddr byte =>
      obtain ⟨hsame, hpcb, -, -⟩ := Kernel.storeUser_same hstep
      obtain ⟨s, hset, hmem⟩ := hk
      refine ⟨⟨s, hset.same hsame, hmem⟩, ?_, fun hhead => by rwa [Kernel.head, hsame.heads]⟩
      rw [hpcb]
      exact ⟨rfl, rfl, rfl⟩
  | fill buf call =>
      obtain ⟨next, bytes, hcall, hstore⟩ := machineStep_fill hstep
      obtain ⟨hstored, hpcb, -, -⟩ := Kernel.storeUserBytes_same hstore
      have hsame := (step_same (call.quiet buf) hcall).trans hstored
      obtain ⟨s, hset, hmem⟩ := hk
      refine ⟨⟨s, hset.same hsame, hmem⟩, ?_, fun hhead => by rwa [Kernel.head, hsame.heads]⟩
      rw [hpcb, step_pcb (call.quiet buf) hcall (hspares.imp_left Ne.symm)]
      exact ⟨rfl, rfl, rfl⟩
  | kernel event =>
    by_cases hquiet : event.Quiet
    · have hsame := step_same hquiet hstep
      have haddr : getPCB n ≠ k.displayedPcb ∨ ¬ k.ChangesTable img event := by
        cases event with
        | tick | execute | halt => exact hquiet.elim
        | _ => exact hspares.imp_left Ne.symm
      obtain ⟨s, hset, hmem⟩ := hk
      refine ⟨⟨s, hset.same hsame, hmem⟩, ?_, fun hhead => by rwa [Kernel.head, hsame.heads]⟩
      rw [step_pcb hquiet hstep haddr]
      exact ⟨rfl, rfl, rfl⟩
    cases event with
    | tick ebp inner =>
        obtain ⟨s, hset, hmem⟩ := hk
        have hrotated := Kernel.pitHandler_rotated (by rw [hset.totalTerminal]; decide) hstep
        refine ⟨⟨s, hset.tick hrotated, hmem⟩, ?_,
          fun hhead => by rwa [Kernel.head, hrotated.heads]⟩
        rw [hrotated.pcb]
        -- a tick saves `ebp` in the PCB of the process that is left, and nothing else
        by_cases haddr : getPCB n = k.scheduledPcb
        · rw [haddr, update_self]
          exact ⟨rfl, rfl, rfl⟩
        · rw [update_of_ne haddr]
          exact ⟨rfl, rfl, rfl⟩
    | execute command regs =>
        obtain ⟨⟨result, last⟩, hexecute, rfl⟩ := Option.map_eq_some_iff.mp hstep
        obtain ⟨hhosted, hpcb, hhead⟩ := hk.execute (hidle rfl) hspares hexecute
        exact ⟨hhosted, by rw [hpcb]; exact ⟨rfl, rfl, rfl⟩, hhead⟩
    | halt status regs =>
        obtain ⟨⟨result, last⟩, hhalt, rfl⟩ := Option.map_eq_some_iff.mp hstep
        obtain ⟨hhosted, hpcb, hhead⟩ := hk.halt (hidle rfl) hspares hhalt
        exact ⟨hhosted, by rw [hpcb]; exact ⟨rfl, rfl, rfl⟩, hhead⟩
    | key | rtc | read | write | open_ | close | getargs | vidmap => exact (hquiet trivial).elim

end Beside

/-! ## The table of a process -/

/-- The table in a PCB, whether its process runs or not. -/
structure PcbSound (img : Image) (pcb : Pcb) : Prop where
  count : pcb.fileArrSize = (SlotTable.used FdStruct.Free pcb.fileArray MAX_OPEN_FILES).card
  stdin : pcb.fileArray 0 = stdinFd
  stdout : pcb.fileArray 1 = stdoutFd
  opened : ∀ fd, STDI_O ≤ fd → fd < MAX_OPEN_FILES → ¬ (pcb.fileArray fd).Free →
    ∃ filename entry, readDentryByName img filename = some entry ∧
      pcb.fileArray fd = { descOf entry with fPos := (pcb.fileArray fd).fPos }

theorem PcbSound.same {img : Image} {first second : Pcb} (hsound : PcbSound img first)
    (hsame : Pcb.SameTables first second) : PcbSound img second where
  count := by rw [hsame.fileArrSize, hsame.fileArray, hsound.count]
  stdin := by rw [hsame.fileArray, hsound.stdin]
  stdout := by rw [hsame.fileArray, hsound.stdout]
  opened := by
    rw [hsame.fileArray]
    exact hsound.opened

theorem FdsSound.pcbSound {img : Image} {k : Kernel} (hsound : FdsSound img k) :
    PcbSound img (k.pcb k.scheduledPcb) :=
  ⟨hsound.count, hsound.stdin, hsound.stdout, hsound.opened⟩

/-- Process `n` has terminal `t` and a sound table. -/
structure Attends (img : Image) (t : Terminal) (n : Nat) (k : Kernel) : Prop where
  hosted : Hosted img t n k
  head : k.head t = n
  table : PcbSound img (k.pcb (getPCB n))

section Own

variable {img : Image} {t : Terminal} {n : Nat} {k after : Kernel}

theorem Kernel.runs_scheduledPcb (hruns : k.runs t n) : k.scheduledPcb = getPCB n := by
  obtain ⟨hscheduled, hhead⟩ := Kernel.runs_iff.mp hruns
  rw [Kernel.scheduledPcb, hscheduled, hhead]

theorem Attends.fds (hruns : k.runs t n) : k.fds = (k.pcb (getPCB n)).fileArray := by
  rw [Kernel.fds, Kernel.runs_scheduledPcb hruns]

/-- While it runs and is displayed its calls find its table. -/
theorem Attends.fdsSound (hk : Attends img t n k) (hruns : k.runs t n)
    (hshown : k.currTerminal = t) : FdsSound img k := by
  have haddr := Kernel.runs_scheduledPcb hruns
  have htable := hk.table
  rw [← haddr] at htable
  exact
    { shown := hshown.trans (Kernel.runs_iff.mp hruns).1.symm
      mapped := haddr.trans_lt (getPCB_lt hk.hosted.head.1)
      count := htable.count
      stdin := htable.stdin
      stdout := htable.stdout
      opened := htable.opened }

theorem Hosted.same (hk : Hosted img t n k) (hsame : SameProcesses k after) :
    Hosted img t n after := by
  obtain ⟨s, hset, hmem⟩ := hk
  exact ⟨s, hset.same hsame, hmem⟩

/-- A call on descriptors leaves the process where it is. -/
theorem Attends.of_fdsSound (hk : Attends img t n k) (hruns : k.runs t n)
    (hsame : SameProcesses k after) (hsound : FdsSound img after) :
    Attends img t n after ∧ after.runs t n ∧ after.currTerminal = k.currTerminal := by
  obtain ⟨hscheduled, hhead⟩ := Kernel.runs_iff.mp hruns
  have hruns' : after.runs t n := by
    rw [Kernel.runs_iff, hsame.currScheduled, Kernel.head, hsame.heads]
    exact ⟨hscheduled, hhead⟩
  refine ⟨⟨hk.hosted.same hsame, (Kernel.runs_iff.mp hruns').2, ?_⟩, hruns', hsame.currTerminal⟩
  rw [← Kernel.runs_scheduledPcb hruns']
  exact hsound.pcbSound

/-- Every call on descriptors completes and meets its law. -/
theorem Attends.call (hk : Attends img t n k) (hruns : k.runs t n) (hshown : k.currTerminal = t)
    (hwf : img.WellFormed) (htypes : img.TypesKnown) (call : Call) :
    ∃ result after, k.call img call = some (result, after) ∧ CallLaw img k result after call ∧
      Attends img t n after ∧ after.runs t n ∧ after.currTerminal = t := by
  obtain ⟨result, after, hcall, hlaw, hsound⟩ := (hk.fdsSound hruns hshown).call hwf htypes call
  have hquiet : call.event.Quiet := by cases call <;> trivial
  have hsame : SameProcesses k after :=
    step_same hquiet ((step_call img k call).trans (by rw [hcall, Option.map_some]))
  obtain ⟨hafter, hruns', hshown'⟩ := hk.of_fdsSound hruns hsame hsound
  exact ⟨result, after, hcall, hlaw, hafter, hruns', hshown'.trans hshown⟩

end Own

/-! ## Sessions -/

/-- The moves of an attentive session: the program calls while its terminal is displayed, and
the others spare its PCB. -/
def Attentive (img : Image) (t : Terminal) (n : Nat) (k : Kernel) : ClientMove MachineEvent → Prop
  | .own => k.currTerminal = t
  | .other event => Spares img n k event

/-- The program starts no other. -/
def StartsNothing {Pos : Type} (program : UserProgram Pos) : Prop :=
  ∀ pos command regs, program.next pos ≠ .inl (.execute command regs)

/-- Where the program gives `vidmap` a pointer of its own, all of it lies in its page. -/
def MapsInside {Pos : Type} (program : UserProgram Pos) : Prop :=
  ∀ pos screenStart, program.next pos = .inl (.vidmap screenStart) →
    screenStart + 4 ≤ USER_VID_ADDR ∨ USER_VID_ADDR ≤ screenStart

/-- An own call that completes, made by an attentive process. -/
structure OwnCall {Pos : Type} (img : Image) (t : Terminal) (n : Nat) (program : UserProgram Pos)
    (k : Kernel) (pos : Pos) (call : UserCall) (reply : Option Reply) (after : Kernel) : Prop where
  attends : Attends img t n k
  runs : k.runs t n
  shown : k.currTerminal = t
  next : program.next pos = .inl call
  served : k.serve img call = some (reply, after)
  kept : Attends img t n after

/-- An event beside an attentive process, which makes no call while the others run. -/
structure OtherEvent (img : Image) (t : Terminal) (n : Nat) (k : Kernel) (event : MachineEvent)
    (after : Kernel) : Prop where
  attends : Attends img t n k
  idle : event.ByProcess → k.currScheduled ≠ t
  spares : Spares img n k event
  stepped : machineStep img k event = some after
  kept : Attends img t n after
  tables : Pcb.SameTables (k.pcb (getPCB n)) (after.pcb (getPCB n))

section Rule

variable {img : Image} {t : Terminal} {n : Nat} {Pos : Type} {program : UserProgram Pos}
  {s last : UserSession Pos} {history : List (Fired (UserSession Pos) (ClientMove MachineEvent))}

theorem Attends.serve {k after : Kernel} (hk : Attends img t n k) (hruns : k.runs t n)
    (hshown : k.currTerminal = t) (hwf : img.WellFormed) (htypes : img.TypesKnown)
    {call : UserCall} (hstarts : ∀ command regs, call ≠ .execute command regs)
    {reply : Option Reply} (hserve : k.serve img call = some (reply, after)) :
    Attends img t n after := by
  cases call with
  | fd call =>
      obtain ⟨result, last, hcall, -, hlast, -⟩ := hk.call hruns hshown hwf htypes call
      rw [Kernel.serve, hcall, Option.map_some] at hserve
      obtain ⟨-, rfl⟩ := Prod.mk.inj (Option.some.inj hserve)
      exact hlast
  | getargs nbytes =>
      simp only [Kernel.serve, Option.map_eq_some_iff] at hserve
      obtain ⟨⟨result, last⟩, hargs, heq⟩ := hserve
      obtain ⟨-, rfl⟩ := Prod.mk.inj heq
      obtain rfl := Kernel.getargs_same hargs
      exact hk
  | execute command regs => exact absurd rfl (hstarts command regs)
  | vidmap screenStart =>
      obtain ⟨⟨result, last⟩, hvidmap, heq⟩ := Option.map_eq_some_iff.mp hserve
      obtain ⟨-, rfl⟩ := Prod.mk.inj heq
      have hsame := Kernel.vidmap_same hvidmap
      refine ⟨hk.hosted.same hsame, ?_, ?_⟩
      · rw [Kernel.head, hsame.heads]
        exact hk.head
      · rw [Kernel.vidmap_pcb hvidmap]
        exact hk.table

/-- The head of its terminal is not brought back by a halt. -/
theorem Attends.deliver_none {k : Kernel} (hk : Attends img t n k) (event : MachineEvent)
    (after : Kernel) : (kernelService img t n).deliver k event after = none := by
  change returnedTo t n k event after = none
  cases event with
  | store | fill => rfl
  | kernel event =>
      cases event with
      | halt status regs => exact if_neg fun h => h.1 hk.head
      | _ => rfl

/-- The rule for a program that starts no other: what its own calls establish stays while
others run, when it only speaks about the PCB of the process and what the others leave. -/
theorem UserSession.invariant (hwf : img.WellFormed) (htypes : img.TypesKnown)
    (hstarts : StartsNothing program)
    (hrun : Run (Session.step program (kernelService img t n)) s history last)
    (leaves : Kernel → MachineEvent → Prop)
    (hallowed : ∀ fired ∈ history, Attentive img t n fired.pre.state fired.event ∧
      ∀ event, fired.event = .other event → leaves fired.pre.state event)
    (holds : Kernel → Pos → List (UserCall × Reply) → Prop)
    (hown : ∀ k pos answered call reply after, holds k pos answered →
      OwnCall img t n program k pos call reply after →
      match reply with
      | some reply => holds after (program.resume pos reply) (answered ++ [(call, reply)])
      | none => holds after pos answered)
    (hother : ∀ k pos answered event after, holds k pos answered → leaves k event →
      OtherEvent img t n k event after → holds after pos answered)
    (hattends : Attends img t n s.state) (hstart : holds s.state s.pos s.answered) :
    Attends img t n last.state ∧ holds last.state last.pos last.answered := by
  refine Session.invariant hrun (fun k pos answered => Attends img t n k ∧ holds k pos answered)
    (fun k move => Attentive img t n k move ∧ ∀ event, move = .other event → leaves k event)
    hallowed ?_ ?_ ⟨hattends, hstart⟩
  · rintro k pos answered call reply after ⟨hk, hholds⟩ ⟨hshown, -⟩ hnext hruns hserve
    have hafter := hk.serve hruns hshown hwf htypes (fun command regs heq =>
      hstarts pos command regs (hnext.trans (congrArg _ heq))) hserve
    have hheld := hown k pos answered call reply after hholds
      ⟨hk, hruns, hshown, hnext, hserve, hafter⟩
    cases reply with
    | none => exact ⟨hafter, hheld⟩
    | some reply => exact ⟨hafter, hheld⟩
  · rintro k pos answered event after ⟨hk, hholds⟩ ⟨hspares, hleaves⟩ hbeside hstep
    obtain ⟨hhosted, hsame, hhead⟩ := hk.hosted.beside hbeside hspares hstep
    have hkept : Attends img t n after := ⟨hhosted, hhead hk.head, hk.table.same hsame⟩
    have hidle : event.ByProcess → k.currScheduled ≠ t := by
      intro hcall hscheduled
      have hruns : k.runs t n := Kernel.runs_iff.mpr ⟨hscheduled, hk.head⟩
      simp [kernelService, hcall, hruns] at hbeside
    have hafter : Attends img t n after ∧ holds after pos answered :=
      ⟨hkept, hother k pos answered event after hholds (hleaves event rfl)
        ⟨hk, hidle, hspares, hstep, hkept, hsame⟩⟩
    have hnone := hk.deliver_none event after
    rw [hnone]
    split
    · next heq => cases heq
    · exact hafter

theorem UserSession.attends (hwf : img.WellFormed) (htypes : img.TypesKnown)
    (hstarts : StartsNothing program)
    (hrun : Run (Session.step program (kernelService img t n)) s history last)
    (hallowed : ∀ fired ∈ history, Attentive img t n fired.pre.state fired.event)
    (hattends : Attends img t n s.state) : Attends img t n last.state :=
  (UserSession.invariant hwf htypes hstarts hrun (fun _ _ => True)
    (fun fired hmem => ⟨hallowed fired hmem, fun _ _ => trivial⟩) (fun _ _ _ => True)
    (fun _ _ _ _ reply _ _ _ => by cases reply <;> trivial) (fun _ _ _ _ _ _ _ _ => trivial)
    hattends trivial).1

theorem Attends.key {k : Kernel} (hk : Attends img t n k) (c : UInt8) :
    Attends img t n (k.keyboardInterrupt c) := by
  have hstep : machineStep img k (.kernel (.key c)) = some (k.keyboardInterrupt c) := rfl
  have hspares : Spares img n k (.kernel (.key c)) := .inr id
  obtain ⟨hhosted, hsame, hhead⟩ := hk.hosted.beside rfl hspares hstep
  exact ⟨hhosted, hhead hk.head, hk.table.same hsame⟩

/-- A key that is pressed beside a process leaves its session where it is. -/
theorem Attends.key_session (hk : Attends img t n s.state) (c : UInt8) :
    s.step program (kernelService img t n) (.other (.kernel (.key c))) =
      some { s with state := s.state.keyboardInterrupt c } :=
  Session.other_silent rfl rfl (hk.deliver_none _ _)

end Rule

end Ece391
