import Ece391.Arguments
import Ece391.ContextSwitch
import Ece391.Lib.Nesting

/-! # What `halt` takes back

`execute` counts a process, takes a slot, moves the head of a terminal and maps the
program. `halt` takes each of these back through what the PCBs say. In between the child
may run for long: it uses descriptors, starts and ends children of its own, and ticks run
the processes of the other terminals.
-/

namespace Ece391

open Function Transition PointerChain

/-! ## Runs of a child -/

/-- A tick after the start-up, and what is done until the next one. -/
def Quantum (img : Image) (k : Kernel) (history : List (Fired Kernel Event)) (next : Kernel) :
    Prop :=
  ∃ ebp inner resumed rest, 3 < k.totalTerminal ∧ step img k (.tick ebp inner) = some resumed ∧
    Run (step img) resumed rest next ∧ (∀ fired ∈ rest, fired.event.Quiet) ∧
    history = ⟨k, .tick ebp inner, resumed⟩ :: rest

/-- Three ticks, through the other terminals and back. -/
def Rotation (img : Image) (k : Kernel) (history : List (Fired Kernel Event)) (next : Kernel) :
    Prop :=
  ∃ left back first second third, Quantum img k first left ∧ Quantum img left second back ∧
    Quantum img back third next ∧ history = first ++ (second ++ third)

/-- A call or an interrupt that creates and ends nothing, or a full rotation. -/
def Segment (img : Image) (k : Kernel) (history : List (Fired Kernel Event)) (next : Kernel) :
    Prop :=
  (∃ event : Event, event.Quiet ∧ step img k event = some next ∧ history = [⟨k, event, next⟩]) ∨
    Rotation img k history next

/-- The call launches a process. -/
def Starts (img : Image) (k : Kernel) (event : Event) (entered : Kernel) : Prop :=
  ∃ command regs eip, event = .execute command regs ∧
    k.execute img command regs = some (.entered eip, entered)

def Event.IsHalt : Event → Prop
  | .halt _ _ => True
  | _ => False

/-- What a process does between its start and its end. -/
abbrev ChildRun (img : Image) : Kernel → List (Fired Kernel Event) → Kernel → Prop :=
  Nested (step img) (Segment img) (Starts img) Event.IsHalt

theorem Quantum.run {img : Image} {k next : Kernel} {history : List (Fired Kernel Event)}
    (hquantum : Quantum img k history next) : Run (step img) k history next := by
  obtain ⟨ebp, inner, resumed, rest, -, htick, hrun, -, rfl⟩ := hquantum
  exact .cons htick hrun

/-- What a child does is a run of the machine. -/
theorem ChildRun.run {img : Image} {k last : Kernel} {history : List (Fired Kernel Event)}
    (hchild : ChildRun img k history last) : Run (step img) k history last := by
  refine Nested.run ?_ hchild
  rintro k more next (⟨event, -, hstep, rfl⟩ | ⟨left, back, first, second, third, hfirst, hsecond,
    hthird, rfl⟩)
  · exact .single hstep
  · exact hfirst.run.append (hsecond.run.append hthird.run)

/-! ## What is taken back -/

/-- Two PCBs agree on the descriptors and the arguments. -/
structure Pcb.SameTables (first second : Pcb) : Prop where
  fileArray : second.fileArray = first.fileArray
  fileArrSize : second.fileArrSize = first.fileArrSize
  args : second.args = first.args

/-- The head of the displayed terminal `t` runs in its own frame, and the chains of the
terminals are in order. -/
structure RunsDisplayed (k : Kernel) (t : Terminal) : Prop where
  shown : k.currTerminal = t
  scheduled : k.currScheduled = t
  process : k.head t ≠ 0
  userPage : k.userPageEntry = userPageOf (k.head t)
  chained : ∃ s, Chained k s

/-- Everything `execute` moves is where it was, and the live processes have their
descriptors and arguments. -/
structure TakenBack (k after : Kernel) : Prop where
  processCount : after.processCount = k.processCount
  processPerTerminal : after.processPerTerminal = k.processPerTerminal
  pcbSlots : after.pcbSlots = k.pcbSlots
  heads : after.highestTerminalProcesses = k.highestTerminalProcesses
  userPageEntry : after.userPageEntry = k.userPageEntry
  tssEsp0 : after.tssEsp0 = k.tssEsp0
  tables : ∀ n, k.Live n → Pcb.SameTables (k.pcb (getPCB n)) (after.pcb (getPCB n))

/-! ## When it is -/

/-- The room for arguments in the block of a process. -/
def argsRoom : Nat := _8KB - Pcb.argsOffset

/-- The PCB of a terminal's head holds the number of the process and its kernel stack. -/
structure OwnPcb (k : Kernel) (t : Terminal) : Prop where
  processNum : (k.pcb (getPCB (k.head t))).processNum = k.head t
  esp0 : (k.pcb (getPCB (k.head t))).esp0 = k.tssEsp0

/-- The call changes a descriptor of the displayed terminal's head. -/
def Kernel.ChangesTable (k : Kernel) (img : Image) : Event → Prop
  | .read fd buf _ => k.Reads fd buf .file
  | .open_ filename => ∃ entry fd fops, k.Opens img filename entry fd fops
  | .close fd => STDI_O ≤ fd ∧ fd < MAX_OPEN_FILES ∧
      ((k.pcb k.displayedPcb).fileArray fd.toNat).flags ≠ 0
  | _ => False

/-- The running process has a regular file open. -/
def Kernel.HasFile (k : Kernel) (addr : Nat) : Prop :=
  ∃ fd < MAX_OPEN_FILES, ((k.pcb addr).fileArray fd).flags ≠ 0 ∧
    fopsAt ((k.pcb addr).fileArray fd).fopsTable = some .file

/-- Processes start on the displayed terminal `t`, with arguments that stay in their block.
Descriptors change, and processes with an open file end, while `t` is displayed. -/
def KeepsTakenBack (img : Image) (t : Terminal) (k : Kernel) : Event → Prop
  | .execute command _ => k.currTerminal = t ∧
      ∀ program, k.launching img command = some program → program.args.length ≤ argsRoom
  | .halt _ _ => k.currTerminal = t ∨ ¬ k.HasFile k.scheduledPcb
  | event => k.currTerminal = t ∨ ¬ k.ChangesTable img event

/-! ## Stores to PCBs -/

theorem Kernel.fileRead_pcb {k after : Kernel} {img : Image} {fd nbytes : Int} {result : SysReturn}
    (hread : k.fileRead img fd nbytes = some (result, after)) :
    ∀ addr ≠ k.displayedPcb, after.pcb addr = k.pcb addr := by
  intro addr haddr
  unfold Kernel.fileRead at hread
  split at hread
  · obtain ⟨-, rfl⟩ := Prod.mk.inj (Option.some.inj hread)
    rfl
  · split at hread
    · obtain ⟨-, rfl⟩ := Prod.mk.inj (Option.some.inj hread)
      rfl
    · obtain ⟨pcb, hpcb, heq⟩ := Option.map_eq_some_iff.mp hread
      obtain ⟨-, rfl⟩ := Prod.mk.inj heq
      exact update_of_ne haddr _ _

theorem Kernel.fopsOpen_pcb (k : Kernel) (fops : Fops) : (k.fopsOpen fops).pcb = k.pcb := by
  cases fops <;> rfl

theorem Kernel.close_pcb {k after : Kernel} {fd value : Int}
    (hclose : k.close fd = some (value, after)) :
    (∀ addr ≠ k.displayedPcb, after.pcb addr = k.pcb addr) ∧
      after.displayedPcb = k.displayedPcb := by
  rcases Kernel.close_cases hclose with ⟨-, rfl⟩ | ⟨-, -, -, rfl⟩
  · exact ⟨fun _ _ => rfl, rfl⟩
  · exact ⟨fun addr haddr => update_of_ne haddr _ _, rfl⟩

/-- A quiet event stores to the PCB of the displayed terminal's head, and only when it
changes a descriptor. -/
theorem step_pcb {img : Image} {k after : Kernel} {event : Event} (hquiet : event.Quiet)
    (hstep : step img k event = some after) {addr : Nat}
    (hother : addr ≠ k.displayedPcb ∨ ¬ k.ChangesTable img event) :
    after.pcb addr = k.pcb addr := by
  cases event with
  | tick | execute | halt => exact hquiet.elim
  | key c =>
      obtain rfl := Option.some.inj hstep
      rfl
  | rtc =>
      obtain rfl := Option.some.inj hstep
      rfl
  | read fd buf nbytes =>
      obtain ⟨⟨result, last⟩, hread, rfl⟩ := Option.map_eq_some_iff.mp hstep
      rcases Kernel.read_cases hread with ⟨-, rfl⟩ | ⟨fops, hreads, hread⟩
      · rfl
      · -- only a file keeps its position in the PCB
        by_cases hfile : fops = .file
        · subst hfile
          exact Kernel.fileRead_pcb hread addr (hother.resolve_right (not_not.mpr hreads))
        · obtain ⟨result', next, heq, hpcb⟩ := k.fopsRead_pcb img fd nbytes hfile
          rw [heq] at hread
          obtain ⟨-, rfl⟩ := Prod.mk.inj (Option.some.inj hread)
          rw [hpcb]
  | write fd buf nbytes =>
      obtain ⟨⟨result, last⟩, hwrite, rfl⟩ := Option.map_eq_some_iff.mp hstep
      obtain ⟨kb, display, rtc, rfl, -⟩ := Kernel.write_store hwrite
      rfl
  | open_ filename =>
      obtain ⟨⟨result, last⟩, hopen, rfl⟩ := Option.map_eq_some_iff.mp hstep
      rcases Kernel.open_cases hopen with ⟨-, rfl, -⟩ | ⟨entry, fd, fops, hopens, -, rfl⟩
      · rfl
      · have haddr := hother.resolve_right (not_not.mpr ⟨entry, fd, fops, hopens⟩)
        change ((k.storeOpened entry fd).fopsOpen fops).pcb addr = _
        rw [Kernel.fopsOpen_pcb]
        exact update_of_ne haddr _ _
  | close fd =>
      obtain ⟨⟨value, last⟩, hclose, rfl⟩ := Option.map_eq_some_iff.mp hstep
      rcases hother with haddr | hrefused
      · exact (Kernel.close_pcb hclose).1 addr haddr
      · rcases Kernel.close_cases hclose with ⟨-, rfl⟩ | ⟨hvalue, hlow, hlt, -⟩
        · rfl
        · unfold Kernel.close at hclose
          rw [if_neg (by omega)] at hclose
          obtain ⟨pcb, hpcb, heq⟩ := Option.map_eq_some_iff.mp hclose
          obtain ⟨-, rfl⟩ := Kernel.derefPcb_eq_some.mp hpcb
          split at heq
          · obtain ⟨-, rfl⟩ := Prod.mk.inj heq
            rfl
          · next hflags => exact absurd ⟨hlow, hlt, hflags⟩ hrefused
  | getargs buf nbytes =>
      simp only [step, Option.map_eq_some_iff] at hstep
      obtain ⟨⟨result, last⟩, hargs, rfl⟩ := hstep
      obtain rfl := Kernel.getargs_same hargs
      rfl
  | vidmap screenStart =>
      obtain ⟨⟨result, last⟩, hvidmap, rfl⟩ := Option.map_eq_some_iff.mp hstep
      rw [Kernel.vidmap_pcb hvidmap]

/-- Closing a file goes through the displayed terminal's head; nothing else that `halt`
closes leaves the PCB of the process. -/
theorem Kernel.closeEntry_pcb {k after : Kernel} {addr i : Nat} (hi : i < MAX_OPEN_FILES)
    (hclose : k.closeEntry addr i = some after)
    (hown : k.displayedPcb = addr ∨ ¬ k.HasFile addr) :
    (after.displayedPcb = addr ∨ ¬ after.HasFile addr) ∧
      ∀ other ≠ addr, after.pcb other = k.pcb other := by
  unfold Kernel.closeEntry at hclose
  obtain ⟨middle, hmiddle, rfl⟩ := Option.map_eq_some_iff.mp hclose
  have hstored : (middle.displayedPcb = addr ∨ middle.pcb = k.pcb ∧ ¬ k.HasFile addr) ∧
      ∀ other ≠ addr, middle.pcb other = k.pcb other := by
    split at hmiddle
    · next hflags =>
      obtain ⟨fops, htable, hfops⟩ := Option.bind_eq_some_iff.mp hmiddle
      cases fops with
      | file =>
          have hshown := hown.resolve_right (not_not.mpr ⟨i, hi, hflags, htable⟩)
          obtain ⟨⟨value, last⟩, hlast, rfl⟩ := Option.map_eq_some_iff.mp hfops
          obtain ⟨hothers, hsame⟩ := Kernel.close_pcb hlast
          rw [hshown] at hothers
          exact ⟨.inl (hsame.trans hshown), hothers⟩
      | dir | rtc | stdin | stdout =>
          obtain rfl := Option.some.inj hfops
          exact ⟨hown.imp id fun hnone => ⟨rfl, hnone⟩, fun _ _ => rfl⟩
    · obtain rfl := Option.some.inj hmiddle
      exact ⟨hown.imp id fun hnone => ⟨rfl, hnone⟩, fun _ _ => rfl⟩
  obtain ⟨hshown, hothers⟩ := hstored
  refine ⟨?_, fun other hother => (update_of_ne hother _ _).trans (hothers other hother)⟩
  rcases hshown with hshown | ⟨hpcb, hnone⟩
  · exact .inl hshown
  · refine .inr ?_
    rintro ⟨fd, hfd, hflags, htable⟩
    simp only [Kernel.setPcb, update_self, hpcb] at hflags htable
    by_cases heq : fd = i
    · subst heq
      rw [update_self] at hflags
      exact hflags rfl
    · rw [update_of_ne heq] at hflags htable
      exact hnone ⟨fd, hfd, hflags, htable⟩

theorem Kernel.closeEntries_pcb {k after : Kernel} {addr : Nat}
    (hclose : k.closeEntries addr = some after)
    (hown : k.displayedPcb = addr ∨ ¬ k.HasFile addr) :
    ∀ other ≠ addr, after.pcb other = k.pcb other := by
  have hloop := CountedLoop.foldlM_related
    (fun k after : Kernel => (k.displayedPcb = addr ∨ ¬ k.HasFile addr) →
      (after.displayedPcb = addr ∨ ¬ after.HasFile addr) ∧
        ∀ other ≠ addr, after.pcb other = k.pcb other)
    (fun k hk => ⟨hk, fun _ _ => rfl⟩) ?_ ?_ hclose
  · exact (hloop hown).2
  · intro first second third hfirst hsecond hk
    obtain ⟨hmiddle, hothers⟩ := hfirst hk
    obtain ⟨hlast, hothers'⟩ := hsecond hmiddle
    exact ⟨hlast, fun other hother => (hothers' other hother).trans (hothers other hother)⟩
  · intro first i hi second hentry hk
    exact Kernel.closeEntry_pcb (List.mem_range.mp hi) hentry hk

theorem Kernel.release_pcb {k after : Kernel} (hrelease : k.release = some after)
    (hown : k.displayedPcb = k.scheduledPcb ∨ ¬ k.HasFile k.scheduledPcb) :
    ∀ other ≠ k.scheduledPcb, after.pcb other = k.pcb other := by
  intro other hother
  unfold Kernel.release at hrelease
  obtain ⟨pcb, -, hrelease⟩ := Option.bind_eq_some_iff.mp hrelease
  obtain ⟨closed, hclosed, rfl⟩ := Option.map_eq_some_iff.mp hrelease
  exact (update_of_ne hother _ _).trans (Kernel.closeEntries_pcb hclosed hown other hother)

/-- Bytes stored inside one block leave the other blocks alone. -/
theorem storeKernelBytes_block {pcbs after : PcbMemory} {base start : Nat} {bytes : List UInt8}
    (hbase : base % _8KB = 0) (hstart : base ≤ start) (hlength : start + bytes.length ≤ base + _8KB)
    (hstore : storeKernelBytes pcbs start bytes = some after) {addr : Nat} (hne : addr ≠ base) :
    after addr = pcbs addr := by
  induction bytes generalizing pcbs start with
  | nil =>
      obtain rfl := Option.some.inj hstore
      rfl
  | cons byte rest ih =>
      simp only [storeKernelBytes, Option.bind_eq_some_iff] at hstore
      obtain ⟨middle, hbyte, hrest⟩ := hstore
      simp only [List.length_cons] at hlength
      have htail : after addr = middle addr := ih (by omega) (by omega) hrest
      rw [htail]
      unfold storeKernelByte at hbyte
      split at hbyte
      · have hblock : start / _8KB * _8KB = base := by
          simp only [_8KB] at *
          omega
        obtain rfl := Option.some.inj hbyte
        rw [hblock]
        exact update_of_ne hne _ _
      · cases hbyte

/-- A launch stores to its own PCB, and wherever the copy of the arguments gets to. -/
theorem Kernel.execute_pcb {k entered : Kernel} {img : Image} {command : Option (List UInt8)}
    {regs : Regs} {eip : Nat}
    (hexecute : k.execute img command regs = some (.entered eip, entered)) :
    ∃ program pcbs, k.launching img command = some program ∧
      Launched k (slotSearch k.pcbSlots) program.args regs entered ∧
      storeKernelBytes k.pcb (getPCB (slotSearch k.pcbSlots + 1) + Pcb.argsOffset) program.args =
        some pcbs ∧
      ∀ addr ≠ getPCB (slotSearch k.pcbSlots + 1), entered.pcb addr = pcbs addr := by
  rcases Kernel.execute_cases hexecute with ⟨-, ⟨value, hvalue⟩, -⟩ | hstarted
  · cases hvalue
  obtain ⟨program, hlaunching, hcount, -, hlaunched⟩ := hstarted
  obtain ⟨text, program', copied, loaded, rfl, -, hfind, -, hcopied, hload, rfl⟩ :=
    Kernel.execute_stages hexecute
  rw [Kernel.launching_eq_some hcount] at hlaunching
  obtain rfl : program = program' := Option.some.inj (hlaunching.symm.trans hfind)
  obtain ⟨pcbs, hcopy, rfl⟩ := Option.map_eq_some_iff.mp hcopied
  refine ⟨program, pcbs, (Kernel.launching_eq_some hcount).trans hfind, hlaunched, hcopy,
    fun addr haddr => ?_⟩
  simp only [Kernel.enterProgram, Kernel.initPcb, Kernel.pushHead, Kernel.linkParent, Kernel.setPcb,
    update_idem]
  rw [update_of_ne haddr, (Kernel.storeUserBytes_same hload).2.1]
  rfl

/-! ## What a child leaves alone -/

/-- Two PCBs agree on what leads back from a process and to its kernel stack. -/
structure Pcb.SameLinks (first second : Pcb) : Prop where
  processNum : second.processNum = first.processNum
  parentTask : second.parentTask = first.parentTask
  esp : second.esp = first.esp
  ebp : second.ebp = first.ebp
  esp0 : second.esp0 = first.esp0

theorem Pcb.SameContext.links {first second : Pcb} (hsame : Pcb.SameContext first second) :
    Pcb.SameLinks first second :=
  ⟨hsame.processNum, hsame.parentTask, hsame.esp, hsame.ebp, hsame.esp0⟩

theorem Pcb.SameLinks.trans {first second third : Pcb} (hfirst : SameLinks first second)
    (hsecond : SameLinks second third) : SameLinks first third :=
  ⟨hsecond.1.trans hfirst.1, hsecond.2.trans hfirst.2, hsecond.3.trans hfirst.3,
    hsecond.4.trans hfirst.4, hsecond.5.trans hfirst.5⟩

theorem Pcb.SameTables.trans {first second third : Pcb} (hfirst : SameTables first second)
    (hsecond : SameTables second third) : SameTables first third :=
  ⟨hsecond.1.trans hfirst.1, hsecond.2.trans hfirst.2, hsecond.3.trans hfirst.3⟩

/-- The process table and the links of the live processes stay, and of their descriptors
only those of terminal `t`'s head change. -/
structure Undisturbed (t : Terminal) (k after : Kernel) : Prop where
  totalTerminal : after.totalTerminal = k.totalTerminal
  processCount : after.processCount = k.processCount
  processPerTerminal : after.processPerTerminal = k.processPerTerminal
  pcbSlots : after.pcbSlots = k.pcbSlots
  heads : after.highestTerminalProcesses = k.highestTerminalProcesses
  links : ∀ n, k.Live n → Pcb.SameLinks (k.pcb (getPCB n)) (after.pcb (getPCB n))
  tables : ∀ n, k.Live n → n ≠ k.head t →
    Pcb.SameTables (k.pcb (getPCB n)) (after.pcb (getPCB n))

theorem Undisturbed.refl (t : Terminal) (k : Kernel) : Undisturbed t k k :=
  ⟨rfl, rfl, rfl, rfl, rfl, fun _ _ => ⟨rfl, rfl, rfl, rfl, rfl⟩, fun _ _ _ => ⟨rfl, rfl, rfl⟩⟩

theorem Undisturbed.live {t : Terminal} {k after : Kernel} (hundisturbed : Undisturbed t k after)
    (n : Nat) : after.Live n ↔ k.Live n := by
  rw [Kernel.Live, hundisturbed.pcbSlots, Kernel.Live]

theorem Undisturbed.trans {t : Terminal} {k middle after : Kernel}
    (hfirst : Undisturbed t k middle) (hsecond : Undisturbed t middle after) :
    Undisturbed t k after where
  totalTerminal := hsecond.totalTerminal.trans hfirst.totalTerminal
  processCount := hsecond.processCount.trans hfirst.processCount
  processPerTerminal := hsecond.processPerTerminal.trans hfirst.processPerTerminal
  pcbSlots := hsecond.pcbSlots.trans hfirst.pcbSlots
  heads := hsecond.heads.trans hfirst.heads
  links n hn := (hfirst.links n hn).trans (hsecond.links n ((hfirst.live n).mpr hn))
  tables n hn hother := by
    refine (hfirst.tables n hn hother).trans (hsecond.tables n ((hfirst.live n).mpr hn) ?_)
    rwa [Kernel.head, hfirst.heads]

/-- The user page and the kernel stack are those of the scheduled terminal's head. -/
structure Mapped (k : Kernel) : Prop where
  userPage : k.userPageEntry = userPageOf (k.head k.currScheduled)
  kernelStack : k.tssEsp0 = (k.pcb k.scheduledPcb).esp0

theorem Mapped.same {k after : Kernel} (hmapped : Mapped k) (hsame : SameProcesses k after) :
    Mapped after where
  userPage := by
    rw [hsame.userPageEntry, Kernel.head, hsame.heads, hsame.currScheduled]
    exact hmapped.userPage
  kernelStack := by
    rw [hsame.tssEsp0, hsame.scheduledPcb, (hsame.context _).esp0]
    exact hmapped.kernelStack

section Steps

variable {img : Image} {t : Terminal} {k after : Kernel}

theorem Undisturbed.quiet {event : Event} (hquiet : event.Quiet)
    (hallowed : KeepsTakenBack img t k event) (hstep : step img k event = some after) :
    Undisturbed t k after := by
  have hsame := step_same hquiet hstep
  have hown : k.currTerminal = t ∨ ¬ k.ChangesTable img event := by
    cases event with
    | tick | execute | halt => exact hquiet.elim
    | _ => exact hallowed
  refine ⟨hsame.totalTerminal, hsame.processCount, hsame.processPerTerminal, hsame.pcbSlots,
    hsame.heads, fun n _ => (hsame.context _).links, fun n hn hother => ?_⟩
  have haddr : getPCB n ≠ k.displayedPcb ∨ ¬ k.ChangesTable img event := by
    refine hown.imp_left fun hshown heq => ?_
    rw [Kernel.displayedPcb, hshown] at heq
    exact hother ((getPCB_inj hn.2.1).mp heq.symm).symm
  rw [step_pcb hquiet hstep haddr]
  exact ⟨rfl, rfl, rfl⟩

/-- A tick saves into the head it leaves only what is there already. -/
theorem Undisturbed.tick {ebp : Nat} (hmapped : Mapped k) (hrotated : Rotated k ebp after) :
    Undisturbed t k after ∧ Mapped after := by
  have hsaved : ∀ addr, Pcb.SameLinks (k.pcb addr) (after.pcb addr) ∧
      Pcb.SameTables (k.pcb addr) (after.pcb addr) := by
    intro addr
    rw [hrotated.pcb]
    by_cases haddr : addr = k.scheduledPcb
    · rw [haddr, update_self]
      exact ⟨⟨rfl, rfl, rfl, rfl, hmapped.kernelStack⟩, rfl, rfl, rfl⟩
    · rw [update_of_ne haddr]
      exact ⟨⟨rfl, rfl, rfl, rfl, rfl⟩, rfl, rfl, rfl⟩
  have hnext : after.scheduledPcb = getPCB (k.head k.currScheduled.next) := by
    rw [Kernel.scheduledPcb, Kernel.head, hrotated.heads, hrotated.currScheduled]
  refine ⟨⟨hrotated.totalTerminal, hrotated.processCount, hrotated.processPerTerminal,
    hrotated.pcbSlots, hrotated.heads, fun n _ => (hsaved _).1, fun n _ _ => (hsaved _).2⟩, ?_, ?_⟩
  · rw [hrotated.userPageEntry, Kernel.head, Kernel.head, hrotated.heads, hrotated.currScheduled]
  · rw [hrotated.tssEsp0, hnext, (hsaved _).1.esp0]
    split
    · next hsame => rw [hsame, hmapped.kernelStack]
    · rfl

theorem Undisturbed.quietRun {rest : List (Fired Kernel Event)} {next : Kernel} (hmapped : Mapped k)
    (hrun : Run (step img) k rest next) (hquiet : ∀ fired ∈ rest, fired.event.Quiet)
    (hallowed : ∀ fired ∈ rest, KeepsTakenBack img t fired.pre fired.event) :
    Undisturbed t k next ∧ Mapped next ∧ next.currScheduled = k.currScheduled := by
  refine hrun.invariant_of_allowed
    (fun s => Undisturbed t k s ∧ Mapped s ∧ s.currScheduled = k.currScheduled)
    (fun s event => event.Quiet ∧ KeepsTakenBack img t s event) ?_
    (fun fired hmem => ⟨hquiet fired hmem, hallowed fired hmem⟩) ⟨.refl t k, hmapped, rfl⟩
  rintro s event next ⟨hundisturbed, hmapped, hscheduled⟩ ⟨hquiet, hallowed⟩ hstep
  have hsame := step_same hquiet hstep
  exact ⟨hundisturbed.trans (.quiet hquiet hallowed hstep), hmapped.same hsame,
    hsame.currScheduled.trans hscheduled⟩

theorem Undisturbed.quantum {history : List (Fired Kernel Event)} {next : Kernel}
    (hmapped : Mapped k) (hquantum : Quantum img k history next)
    (hallowed : ∀ fired ∈ history, KeepsTakenBack img t fired.pre fired.event) :
    Undisturbed t k next ∧ Mapped next ∧ next.currScheduled = k.currScheduled.next := by
  obtain ⟨ebp, inner, resumed, rest, hup, htick, hrun, hquiet, rfl⟩ := hquantum
  have hrotated := Kernel.pitHandler_rotated hup htick
  obtain ⟨hleft, hresumed⟩ := Undisturbed.tick (t := t) hmapped hrotated
  obtain ⟨hrest, hnext, hscheduled⟩ := Undisturbed.quietRun hresumed hrun hquiet
    fun fired hmem => hallowed fired (List.mem_cons_of_mem _ hmem)
  exact ⟨hleft.trans hrest, hnext, hscheduled.trans hrotated.currScheduled⟩

/-- A full rotation comes back to the terminal it left. -/
theorem Undisturbed.rotation {history : List (Fired Kernel Event)} {next : Kernel}
    (hmapped : Mapped k) (hrotation : Rotation img k history next)
    (hallowed : ∀ fired ∈ history, KeepsTakenBack img t fired.pre fired.event) :
    Undisturbed t k next ∧ Mapped next ∧ next.currScheduled = k.currScheduled := by
  obtain ⟨left, back, first, second, third, hfirst, hsecond, hthird, rfl⟩ := hrotation
  simp only [List.mem_append] at hallowed
  obtain ⟨hleft, hmappedLeft, hscheduledLeft⟩ := Undisturbed.quantum hmapped hfirst
    fun fired hmem => hallowed fired (.inl hmem)
  obtain ⟨hback, hmappedBack, hscheduledBack⟩ := Undisturbed.quantum hmappedLeft hsecond
    fun fired hmem => hallowed fired (.inr (.inl hmem))
  obtain ⟨hnext, hmappedNext, hscheduledNext⟩ := Undisturbed.quantum hmappedBack hthird
    fun fired hmem => hallowed fired (.inr (.inr hmem))
  refine ⟨(hleft.trans hback).trans hnext, hmappedNext, ?_⟩
  rw [hscheduledNext, hscheduledBack, hscheduledLeft, Terminal.next_next_next]

end Steps

/-! ## A process and its child -/

/-- The running process has its own PCB and mapping, and the chains are in order. -/
structure Ready (k : Kernel) : Prop where
  chained : ∃ s, Chained k s
  process : k.head k.currScheduled ≠ 0
  processNum : (k.pcb k.scheduledPcb).processNum = k.head k.currScheduled
  mapped : Mapped k

theorem Chained.head_live {k : Kernel} {s : DisjointStacks Terminal Nat} {t : Terminal}
    (hchained : Chained k s) (hprocess : k.head t ≠ 0) : k.Live (k.head t) := by
  by_cases hnil : s.stack t = []
  · exact absurd (hchained.head_eq_zero hnil) hprocess
  · obtain ⟨-, -, rest, htop⟩ := hchained.head_pos hnil
    exact (hchained.owner _).mp ⟨t, by simp [htop]⟩

theorem Ready.live {k : Kernel} (hready : Ready k) : k.Live (k.head k.currScheduled) := by
  obtain ⟨s, hchained⟩ := hready.chained
  exact hchained.head_live hready.process

theorem Ready.undisturbed {t : Terminal} {k after : Kernel} (hready : Ready k)
    (hundisturbed : Undisturbed t k after) (hscheduled : after.currScheduled = k.currScheduled)
    (hmapped : Mapped after) : Ready after := by
  have hhead : after.head after.currScheduled = k.head k.currScheduled := by
    rw [Kernel.head, hundisturbed.heads, hscheduled]
  refine ⟨?_, by rw [hhead]; exact hready.process, ?_, hmapped⟩
  · obtain ⟨s, hchained⟩ := hready.chained
    exact ⟨s, hchained.congr hundisturbed.heads hundisturbed.pcbSlots hundisturbed.processCount
      fun n hn => (hundisturbed.links n ((hchained.owner n).mp hn)).parentTask⟩
  · rw [Kernel.scheduledPcb, hhead, (hundisturbed.links _ hready.live).processNum]
    exact hready.processNum

/-- A launch by a displayed process: the child is ready, and no other live process finds
its PCB changed. -/
theorem Ready.launch {k entered : Kernel} {img : Image} {command : Option (List UInt8)}
    {regs : Regs} {eip : Nat} (hready : Ready k) (hshown : k.currTerminal = k.currScheduled)
    (hfits : ∀ program, k.launching img command = some program → program.args.length ≤ argsRoom)
    (hexecute : k.execute img command regs = some (.entered eip, entered)) :
    ∃ i args, i < MAX_PROCESS_COUNT ∧ k.pcbSlots i = 0 ∧ Launched k i args regs entered ∧
      Ready entered ∧ ∀ n, k.Live n → entered.pcb (getPCB n) = k.pcb (getPCB n) := by
  obtain ⟨s, hchained⟩ := hready.chained
  obtain ⟨program, pcbs, hlaunching, hlaunched, hcopy, hpcb⟩ := Kernel.execute_pcb hexecute
  have hroom := hfits program hlaunching
  have hcount : k.processCount < MAX_PROCESS_COUNT := by
    unfold Kernel.launching at hlaunching
    split at hlaunching
    · cases hlaunching
    · omega
  obtain ⟨hlt, hfree⟩ := hchained.slotSearch_free hcount
  generalize slotSearch k.pcbSlots = i at hlaunched hcopy hpcb hlt hfree
  have hspill : program.args.length ≤ maxArgsSpill := Nat.le_trans hroom (by decide)
  have hchild : entered.head entered.currScheduled = i + 1 := by
    rw [Kernel.head, hlaunched.heads, hlaunched.currScheduled, hshown, update_self]
  have haddr : entered.scheduledPcb = getPCB (i + 1) := by rw [Kernel.scheduledPcb, hchild]
  refine ⟨i, program.args, hlt, hfree, hlaunched,
    ⟨⟨_, hchained.push hlt hfree hlaunched hspill⟩, ?_, ?_, ?_, ?_⟩, fun n hn => ?_⟩
  · rw [hchild]
    omega
  · rw [haddr, hchild]
    exact hlaunched.processNum
  · rw [hlaunched.userPageEntry, hchild]
  · rw [hlaunched.tssEsp0, haddr, hlaunched.esp0]
  · have hne : getPCB n ≠ getPCB (i + 1) := by
      rw [Ne, getPCB_inj hlt]
      rintro rfl
      exact hn.2.2 hfree
    rw [hpcb _ hne]
    refine storeKernelBytes_block (getPCB_mod (i + 1)) (Nat.le_add_right _ _) ?_ hcopy hne
    simp only [argsRoom, Pcb.argsOffset, _8KB] at hroom ⊢
    omega

theorem Launched.live {k after : Kernel} {i : Nat} {args : List UInt8} {regs : Regs}
    (hlaunched : Launched k i args regs after) (hlt : i < MAX_PROCESS_COUNT) :
    after.Live (i + 1) ∧ ∀ n, k.Live n → after.Live n := by
  refine ⟨⟨by omega, hlt, ?_⟩, fun n hn => ⟨hn.1, hn.2.1, ?_⟩⟩
  · rw [hlaunched.pcbSlots, Nat.add_sub_cancel, update_self]
    decide
  · rw [hlaunched.pcbSlots]
    by_cases heq : n - 1 = i
    · rw [heq, update_self]
      decide
    · rw [update_of_ne heq]
      exact hn.2.2

/-- A child that was left alone is still the head, and its PCB leads to its parent's. -/
theorem Ready.child_links {k entered last : Kernel} {i : Nat} {args : List UInt8} {regs : Regs}
    (hready : Ready k) (hshown : k.currTerminal = k.currScheduled) (hlt : i < MAX_PROCESS_COUNT)
    (hlaunched : Launched k i args regs entered)
    (hundisturbed : Undisturbed k.currScheduled entered last)
    (hscheduled : last.currScheduled = k.currScheduled) :
    last.head k.currScheduled = i + 1 ∧ last.scheduledPcb = getPCB (i + 1) ∧
      (last.pcb last.scheduledPcb).parentTask = getPCB (k.head k.currScheduled) ∧
      last.hasParent := by
  have hchild : last.head k.currScheduled = i + 1 := by
    rw [Kernel.head, hundisturbed.heads, hlaunched.heads, hshown, update_self]
  have haddr : last.scheduledPcb = getPCB (i + 1) := by
    rw [Kernel.scheduledPcb, hscheduled, hchild]
  have hlinks := hundisturbed.links _ (hlaunched.live hlt).1
  have hparentTask : (last.pcb last.scheduledPcb).parentTask = getPCB (k.head k.currScheduled) := by
    rw [haddr, hlinks.parentTask, hlaunched.parentTask, hshown, if_pos hready.process]
  refine ⟨hchild, haddr, hparentTask, ?_⟩
  rw [Kernel.hasParent, hparentTask]
  exact Nat.pos_iff_ne_zero.mp (getPCB_pos hready.live.2.1)

/-- The end of a process that left alone what `halt` reads: its parent is back, everywhere. -/
theorem Ready.take_back {k entered last after : Kernel} {img : Image} {regs haltRegs : Regs}
    {t : Terminal} {i : Nat} {args : List UInt8} {status : UInt8} {result : HaltReturn}
    (hready : Ready k) (ht : k.currScheduled = t) (hshown : k.currTerminal = k.currScheduled)
    (hlt : i < MAX_PROCESS_COUNT) (hfree : k.pcbSlots i = 0)
    (hlaunched : Launched k i args regs entered)
    (hpcb : ∀ n, k.Live n → entered.pcb (getPCB n) = k.pcb (getPCB n))
    (hundisturbed : Undisturbed t entered last) (hscheduled : last.currScheduled = t)
    (hallowed : KeepsTakenBack img t last (.halt status haltRegs))
    (hhalt : last.halt img status haltRegs = some (result, after)) :
    result = .toParent status regs.esp regs.ebp ∧ TakenBack k after ∧
      after.currScheduled = t ∧ after.totalTerminal = k.totalTerminal ∧
      ∀ n, k.Live n → Pcb.SameLinks (k.pcb (getPCB n)) (after.pcb (getPCB n)) := by
  subst ht
  have hmapped := hready.mapped
  have hparentLive := hready.live
  have hother : ∀ n, k.Live n → n ≠ i + 1 := by
    rintro n hn rfl
    exact hn.2.2 hfree
  obtain ⟨hchildLive, henteredLive⟩ := hlaunched.live hlt
  obtain ⟨hchild, haddr, hparentTask, hparent⟩ :=
    hready.child_links hshown hlt hlaunched hundisturbed hscheduled
  have hlinks := hundisturbed.links _ hchildLive
  have hown : last.displayedPcb = last.scheduledPcb ∨ ¬ last.HasFile last.scheduledPcb := by
    refine hallowed.imp_left fun hdisplayed => ?_
    rw [Kernel.displayedPcb, hdisplayed, Kernel.scheduledPcb, hscheduled]
  obtain ⟨released, hrelease, hreleased, hcases⟩ := Kernel.halt_release hhalt
  obtain ⟨-, -, rfl, rfl⟩ := hcases.resolve_right fun h => h.1 hparent
  rw [hparentTask]
  -- the PCBs of the processes that were there before are not the one that is released
  have hpcbs : ∀ n, k.Live n → Pcb.SameLinks (k.pcb (getPCB n)) (released.pcb (getPCB n)) ∧
      Pcb.SameTables (k.pcb (getPCB n)) (released.pcb (getPCB n)) := by
    intro n hn
    have hne : getPCB n ≠ last.scheduledPcb := by
      rw [haddr, Ne, getPCB_inj hlt]
      exact hother n hn
    have hhead : n ≠ entered.head k.currScheduled := by
      rw [Kernel.head, hlaunched.heads, hshown, update_self]
      exact hother n hn
    rw [Kernel.release_pcb hrelease hown _ hne, ← hpcb n hn]
    exact ⟨hundisturbed.links n (henteredLive n hn),
      hundisturbed.tables n (henteredLive n hn) hhead⟩
  have hback := (hpcbs _ hparentLive).1
  have hnumbered := hready.processNum
  rw [Kernel.scheduledPcb] at hnumbered
  -- each table of the kernel: the launch, the undisturbed run and the release cancel out
  have hcount : released.processCount = k.processCount := by
    rw [hreleased.processCount, hundisturbed.processCount, hlaunched.processCount]
    omega
  have hperTerminal : released.processPerTerminal = k.processPerTerminal := by
    rw [hreleased.processPerTerminal, hundisturbed.processPerTerminal, hlaunched.processPerTerminal,
      hscheduled, hshown, update_self, update_idem, Int.add_sub_cancel, update_eq_self]
  have hslots : released.pcbSlots = k.pcbSlots := by
    rw [hreleased.pcbSlots, hscheduled, hchild, Nat.add_sub_cancel, hundisturbed.pcbSlots,
      hlaunched.pcbSlots, update_idem, ← hfree, update_eq_self]
  have hheads : update released.highestTerminalProcesses released.currScheduled
      (released.pcb (getPCB (k.head k.currScheduled))).processNum = k.highestTerminalProcesses := by
    rw [hback.processNum, hnumbered, hreleased.heads, hreleased.currScheduled, hscheduled,
      hundisturbed.heads, hlaunched.heads, hshown, update_idem, update_eq_self]
  refine ⟨?_, ⟨hcount, hperTerminal, hslots, hheads, ?_, ?_, fun n hn => (hpcbs n hn).2⟩,
    hreleased.currScheduled.trans hscheduled, ?_, fun n hn => (hpcbs n hn).1⟩
  · rw [haddr, hlinks.esp, hlinks.ebp, hlaunched.esp, hlaunched.ebp]
  · change userPageOf (released.pcb (getPCB (k.head k.currScheduled))).processNum = _
    rw [hback.processNum, hnumbered, hmapped.userPage]
  · change (released.pcb (getPCB (k.head k.currScheduled))).esp0 = _
    rw [hback.esp0, hmapped.kernelStack, Kernel.scheduledPcb]
  · change released.totalTerminal = _
    rw [hreleased.totalTerminal, hundisturbed.totalTerminal, hlaunched.totalTerminal]

theorem TakenBack.undisturbed {t : Terminal} {k after : Kernel} (htaken : TakenBack k after)
    (htotal : after.totalTerminal = k.totalTerminal)
    (hlinks : ∀ n, k.Live n → Pcb.SameLinks (k.pcb (getPCB n)) (after.pcb (getPCB n))) :
    Undisturbed t k after :=
  ⟨htotal, htaken.processCount, htaken.processPerTerminal, htaken.pcbSlots, htaken.heads, hlinks,
    fun n hn _ => htaken.tables n hn⟩

/-- What a child does leaves alone what its end will read: by induction on the nesting, the
children of the child are taken back themselves. -/
theorem ChildRun.undisturbed {img : Image} {t : Terminal} {k last : Kernel}
    {history : List (Fired Kernel Event)} (hrun : ChildRun img k history last)
    (hallowed : ∀ fired ∈ history, KeepsTakenBack img t fired.pre fired.event) (hready : Ready k)
    (ht : k.currScheduled = t) :
    Undisturbed t k last ∧ Mapped last ∧ last.currScheduled = t := by
  refine Nested.kept
    (fun k last : Kernel => Ready k → k.currScheduled = t →
      Undisturbed t k last ∧ Mapped last ∧ last.currScheduled = t)
    (KeepsTakenBack img t) ?_ ?_ ?_ ?_ hrun hallowed hready ht
  · intro k hready ht
    exact ⟨.refl t k, hready.mapped, ht⟩
  · intro first second third hfirst hsecond hready ht
    obtain ⟨hundisturbed, hmapped, hscheduled⟩ := hfirst hready ht
    have hmiddle := hready.undisturbed hundisturbed (hscheduled.trans ht.symm) hmapped
    obtain ⟨hundisturbed', hlast⟩ := hsecond hmiddle hscheduled
    exact ⟨hundisturbed.trans hundisturbed', hlast⟩
  · -- an event of the process itself, or a whole rotation through the other terminals
    rintro k more next (⟨event, hquiet, hstep, rfl⟩ | hrotation) hallowed hready ht
    · have hkeeps : KeepsTakenBack img t k event := hallowed _ (List.mem_singleton_self _)
      have hsame := step_same hquiet hstep
      exact ⟨.quiet hquiet hkeeps hstep, hready.mapped.same hsame, hsame.currScheduled.trans ht⟩
    · obtain ⟨hundisturbed, hmapped, hscheduled⟩ :=
        Undisturbed.rotation hready.mapped hrotation hallowed
      exact ⟨hundisturbed, hmapped, hscheduled.trans ht⟩
  · -- a child of the child, taken back as a whole
    rintro k first entered last final next ⟨command, regs, eip, rfl, hexecute⟩ ⟨hshown, hfits⟩ hbody
      hfinal hlast hclose hready ht
    obtain ⟨i, args, hlt, hfree, hlaunched, hchild, hpcb⟩ :=
      hready.launch (hshown.trans ht.symm) hfits hexecute
    obtain ⟨hundisturbed, -, hscheduled⟩ := hbody hchild (hlaunched.currScheduled.trans ht)
    cases final with
    | halt status haltRegs =>
        obtain ⟨⟨result, after⟩, hhalt, rfl⟩ := Option.map_eq_some_iff.mp hclose
        obtain ⟨-, htaken, hback, htotal, hlinks⟩ := hready.take_back ht (hshown.trans ht.symm) hlt
          hfree hlaunched hpcb hundisturbed hscheduled hlast hhalt
        refine ⟨htaken.undisturbed htotal hlinks, ⟨?_, ?_⟩, hback⟩
        · change after.userPageEntry = userPageOf (after.head after.currScheduled)
          rw [htaken.userPageEntry, Kernel.head, htaken.heads, hback, ← ht]
          exact hready.mapped.userPage
        · change after.tssEsp0 = (after.pcb after.scheduledPcb).esp0
          have hlive := hready.live
          rw [ht] at hlive
          rw [htaken.tssEsp0, Kernel.scheduledPcb, Kernel.head, htaken.heads, hback,
            (hlinks _ hlive).esp0, hready.mapped.kernelStack, Kernel.scheduledPcb, ht]
    | _ => exact hfinal.elim

theorem RunsDisplayed.ready {k : Kernel} {t : Terminal} (hruns : RunsDisplayed k t)
    (hown : OwnPcb k t) : Ready k := by
  have hpcb : k.scheduledPcb = getPCB (k.head t) := by rw [Kernel.scheduledPcb, hruns.scheduled]
  refine ⟨hruns.chained, ?_, ?_, ?_, ?_⟩
  · rw [hruns.scheduled]
    exact hruns.process
  · rw [hpcb, hruns.scheduled]
    exact hown.processNum
  · rw [hruns.scheduled]
    exact hruns.userPage
  · rw [hpcb]
    exact hown.esp0.symm

/-- Whatever a child does in between, `halt` takes back what the `execute` that started it
has done, and returns on the stack that `execute` saved. -/
theorem halt_undoes_execute {img : Image} {t : Terminal} {k entered last after : Kernel}
    {command : Option (List UInt8)} {regs haltRegs : Regs} {eip : Nat} {status : UInt8}
    {result : HaltReturn} {history : List (Fired Kernel Event)} (hruns : RunsDisplayed k t)
    (hexecute : k.execute img command regs = some (.entered eip, entered))
    (hchild : ChildRun img entered history last)
    (hhalt : last.halt img status haltRegs = some (result, after))
    (hown : OwnPcb k t) (hfirst : KeepsTakenBack img t k (.execute command regs))
    (hhistory : ∀ fired ∈ history, KeepsTakenBack img t fired.pre fired.event)
    (hlast : KeepsTakenBack img t last (.halt status haltRegs)) :
    result = .toParent status regs.esp regs.ebp ∧ TakenBack k after := by
  have hready := hruns.ready hown
  have hshown := hruns.shown.trans hruns.scheduled.symm
  obtain ⟨i, args, hlt, hfree, hlaunched, hentered, hpcb⟩ := hready.launch hshown hfirst.2 hexecute
  obtain ⟨hundisturbed, -, hscheduled⟩ := hchild.undisturbed hhistory hentered
    (hlaunched.currScheduled.trans hruns.scheduled)
  obtain ⟨hresult, htaken, -⟩ := hready.take_back hruns.scheduled hshown hlt hfree hlaunched hpcb
    hundisturbed hscheduled hlast hhalt
  exact ⟨hresult, htaken⟩

/-! ## A child that ends at once -/

theorem Kernel.TerminalOnly.not_hasFile {k : Kernel} {addr : Nat} (honly : k.TerminalOnly addr) :
    ¬ k.HasFile addr := by
  rintro ⟨fd, hfd, hflags, htable⟩
  rcases honly fd hfd hflags with hterminal | hterminal <;> rw [htable] at hterminal <;>
    cases hterminal

/-- A child that has nothing open but the terminal can end. -/
theorem Ready.child_halts {k entered last : Kernel} {i : Nat} {args : List UInt8} {regs : Regs}
    (hready : Ready k) (hshown : k.currTerminal = k.currScheduled) (hlt : i < MAX_PROCESS_COUNT)
    (hlaunched : Launched k i args regs entered)
    (hundisturbed : Undisturbed k.currScheduled entered last)
    (hscheduled : last.currScheduled = k.currScheduled)
    (honly : last.TerminalOnly (getPCB (i + 1))) (img : Image) (status : UInt8) (haltRegs : Regs) :
    ∃ result after, last.halt img status haltRegs = some (result, after) := by
  obtain ⟨-, haddr, hparentTask, hparent⟩ :=
    hready.child_links hshown hlt hlaunched hundisturbed hscheduled
  refine Kernel.TerminalOnly.halt_completes ?_ ?_ hparent ?_ img status haltRegs
  · rwa [haddr]
  · rw [haddr]
    exact getPCB_lt (Nat.succ_pos i)
  · rw [hparentTask]
    exact getPCB_lt hready.live.1

/-- A running system meets what a displayed process relies on. -/
theorem Settled.runsDisplayed {img : Image} {k : Kernel} {s : DisjointStacks Terminal Nat}
    (hset : Settled img k s) (hshown : k.currTerminal = k.currScheduled) :
    RunsDisplayed k k.currScheduled ∧ OwnPcb k k.currScheduled := by
  obtain ⟨hpos, -, rest, htop⟩ := hset.head_pos (hset.live k.currScheduled)
  have hholds : s.Holds (k.head k.currScheduled) := ⟨k.currScheduled, by simp [htop]⟩
  refine ⟨⟨hshown, rfl, by omega, hset.running.userPage, s, hset.chained⟩,
    hset.numbered _ hholds, ?_⟩
  rw [hset.stackTop _ hholds, hset.running.kernelStack]

/-- The first shell starts a shell, which starts and ends another one and ends itself. -/
theorem halt_undoes_execute_shell :
    ∃ m k entered last after result history, Reachable (step shellImage) (boot m) k ∧
      RunsDisplayed k .T1 ∧
      k.execute shellImage (some shellCommand) ⟨1, 2⟩ = some (.entered 0, entered) ∧
      ChildRun shellImage entered history last ∧
      history.map Fired.event = [.execute (some shellCommand) ⟨3, 4⟩, .halt 0 ⟨0, 0⟩] ∧
      last.halt shellImage 0 ⟨0, 0⟩ = some (result, after) ∧
      result = .toParent 0 2 1 ∧ TakenBack k after := by
  obtain ⟨start, k, s, ⟨⟨m, before, hboot, -⟩, -⟩, htick, hset, hstacks, hscheduled, hshown, -⟩ :=
    shellImage_displayed
  have hdisplayed := hshown.trans hscheduled.symm
  obtain ⟨hruns, hown⟩ := hset.runsDisplayed hdisplayed
  have hready := hruns.ready hown
  have hlaunching := shellImage_launching hset.toProcessTable hstacks
  have hfits : ∀ k : Kernel, ∀ program, k.launching shellImage (some shellCommand) = some program →
      program.args.length ≤ argsRoom := by
    intro k program hprogram
    unfold Kernel.launching at hprogram
    split at hprogram
    · cases hprogram
    · obtain rfl := Option.some.inj (shellImage_shell.symm.trans hprogram)
      exact Nat.zero_le _
  obtain ⟨entered, hexecute⟩ := Kernel.execute_completes ⟨1, 2⟩ hlaunching rfl shellImage_loadable
  obtain ⟨i, args, hlt, hfree, hlaunched, hchild, -⟩ :=
    hready.launch hdisplayed (hfits k) hexecute
  have hcount : entered.processCount < MAX_PROCESS_COUNT := by
    rw [hlaunched.processCount, hset.processCount_shells hstacks]
    decide
  have hdisplayed' : entered.currTerminal = entered.currScheduled := by
    rw [hlaunched.currTerminal, hlaunched.currScheduled, hdisplayed]
  have hlaunching' : entered.launching shellImage (some shellCommand) = some ⟨0, 0, []⟩ :=
    (Kernel.launching_eq_some hcount).trans shellImage_shell
  obtain ⟨inner, hinner⟩ := Kernel.execute_completes ⟨3, 4⟩ hlaunching' rfl shellImage_loadable
  obtain ⟨j, args', hlt', hfree', hlaunched', hgrandchild, hpcb'⟩ :=
    hchild.launch hdisplayed' (hfits entered) hinner
  obtain ⟨result', last, hback⟩ := hchild.child_halts hdisplayed' hlt' hlaunched' (.refl _ inner)
    hlaunched'.currScheduled hlaunched'.terminalOnly shellImage 0 ⟨0, 0⟩
  have hentered : entered.currScheduled = .T1 := hlaunched.currScheduled.trans hscheduled
  have hshownInner : inner.currTerminal = .T1 :=
    hlaunched'.currTerminal.trans (hdisplayed'.trans hentered)
  -- the inner pair leaves the child with the descriptors it was launched with
  obtain ⟨-, htaken, hbackScheduled, htotal, hlinks⟩ := hchild.take_back hentered hdisplayed' hlt'
    hfree' hlaunched' hpcb' (.refl _ inner) (hlaunched'.currScheduled.trans hentered)
    (.inl hshownInner) hback
  have hundisturbed : Undisturbed k.currScheduled entered last :=
    htaken.undisturbed htotal hlinks
  have honly : last.TerminalOnly (getPCB (i + 1)) := by
    have hterminal := hlaunched.terminalOnly
    unfold Kernel.TerminalOnly at hterminal ⊢
    rwa [(htaken.tables _ (hlaunched.live hlt).1).fileArray]
  obtain ⟨result, after, hhalt⟩ := hready.child_halts hdisplayed hlt hlaunched hundisturbed
    (hbackScheduled.trans hscheduled.symm) honly shellImage 0 ⟨0, 0⟩
  have hopen : step shellImage entered (.execute (some shellCommand) ⟨3, 4⟩) = some inner := by
    simp only [step, hinner, Option.map_some]
  have hclose : step shellImage inner (.halt 0 ⟨0, 0⟩) = some last := by
    simp only [step, hback, Option.map_some]
  have hrun : ChildRun shellImage entered _ last :=
    .enclose (.start entered) ⟨_, _, _, rfl, hinner⟩ hopen (.start inner)
      (show Event.IsHalt (.halt 0 ⟨0, 0⟩) from trivial) hclose
  obtain ⟨-, haddr, -, -⟩ := hready.child_links hdisplayed hlt hlaunched hundisturbed
    (hbackScheduled.trans hscheduled.symm)
  obtain ⟨hresult, htakenBack⟩ := halt_undoes_execute (hscheduled ▸ hruns) hexecute hrun hhalt
    (hscheduled ▸ hown) ⟨hshown, hfits k⟩ (by
      intro fired hmem
      simp only [List.nil_append, List.mem_cons, List.not_mem_nil, or_false] at hmem
      rcases hmem with rfl | rfl
      · exact ⟨hdisplayed'.trans hentered, hfits entered⟩
      · exact .inl hshownInner) (.inr (haddr ▸ honly.not_hasFile))
  exact ⟨m, k, entered, last, after, result, _, ⟨_, hboot.extend htick⟩,
    hscheduled ▸ hruns, hexecute, hrun, rfl, hhalt, hresult, htakenBack⟩

/-! ## Arguments that leave their block -/

theorem Kernel.halt_pcb {k after : Kernel} {img : Image} {status : UInt8} {regs : Regs}
    {result : HaltReturn} (hhalt : k.halt img status regs = some (result, after))
    (hparent : k.hasParent) (hown : k.displayedPcb = k.scheduledPcb ∨ ¬ k.HasFile k.scheduledPcb) :
    ∀ other ≠ k.scheduledPcb, after.pcb other = k.pcb other := by
  obtain ⟨released, hrelease, -, hcases⟩ := Kernel.halt_release hhalt
  obtain ⟨-, -, -, hafter⟩ := hcases.resolve_right fun h => h.1 hparent
  intro other hother
  rw [hafter]
  exact Kernel.release_pcb hrelease hown other hother

/-- The second shell on the first terminal has the number 4, and the next process would
get the number 5. -/
theorem shellImage_second :
    ∃ m k, Reachable (step shellImage) (boot m) k ∧ k.currScheduled = .T1 ∧
      (∃ s, Settled shellImage k s) ∧ k.currTerminal = .T1 ∧ k.head .T1 = 4 ∧
      k.processCount = 4 ∧ slotSearch k.pcbSlots = 4 ∧
      ∃ old, (k.pcb (getPCB 4)).fileArray = initFileArray old := by
  obtain ⟨start, first, s, ⟨⟨m, before, hboot, -⟩, -⟩, htick, hset, hstacks, hscheduled,
      hshown, -⟩ :=
    shellImage_displayed
  have hlaunching := shellImage_launching hset.toProcessTable hstacks
  have hshells : ∀ t, s.stack t = if t.num ≤ 3 then [t.num] else [] := by
    intro t
    have hnum : t.num ≤ 3 := by cases t <;> decide
    rw [if_pos hnum, hstacks]
  obtain ⟨hslots, hcount, hsearch⟩ := hset.slots_of_shells hshells (by decide)
  obtain ⟨k, hexecute⟩ := Kernel.execute_completes ⟨1, 2⟩ hlaunching rfl shellImage_loadable
  have hstep : step shellImage first (.execute (some shellCommand) ⟨1, 2⟩) = some k := by
    simp only [step, hexecute, Option.map_some]
  obtain ⟨s', hset', -⟩ := hset.execute (fun program hprogram => by
    obtain rfl := Option.some.inj (hlaunching.symm.trans hprogram)
    exact ⟨hshown.trans hscheduled.symm, by decide⟩) hexecute
  obtain ⟨program, pcbs, -, hlaunched, -⟩ := Kernel.execute_pcb hexecute
  rw [hsearch] at hlaunched
  refine ⟨m, k, ⟨_, (hboot.extend htick).extend hstep⟩, hlaunched.currScheduled.trans hscheduled,
    ⟨s', hset'⟩, hlaunched.currTerminal.trans hshown, ?_, ?_, ?_, hlaunched.fileArray⟩
  · rw [Kernel.head, hlaunched.heads, hshown, update_self]
  · rw [hlaunched.processCount, hcount]
    rfl
  · have hfree : first.pcbSlots 4 = 0 :=
      (hset.slots 4 (by decide)).resolve_right fun hone =>
        absurd ((hslots 4 (by decide)).mp hone) (by decide)
    have hzero := (hslots 0 (by decide)).mpr (by decide)
    have hone := (hslots 1 (by decide)).mpr (by decide)
    have htwo := (hslots 2 (by decide)).mpr (by decide)
    rw [hlaunched.pcbSlots]
    simp [slotSearch, slotSearchFrom, MAX_PROCESS_COUNT, hfree, hzero, hone, htwo]

/-- The second shell executes a command with one argument byte too many, and the new process
ends at once: the operation table of the shell's first descriptor is not what it was. -/
theorem halt_leaves_descriptor :
    ∃ m k entered result after, Reachable (step shellImage) (boot m) k ∧
      RunsDisplayed k .T1 ∧ OwnPcb k .T1 ∧ k.processCount < MAX_PROCESS_COUNT ∧
      k.execute shellImage
        (some (shellCommand ++ SPACE_CHAR :: (List.replicate argsRoom 65 ++ [65]))) ⟨3, 4⟩ =
          some (.entered 0, entered) ∧
      ChildRun shellImage entered [] entered ∧
      entered.halt shellImage 0 ⟨0, 0⟩ = some (result, after) ∧ ¬ TakenBack k after := by
  obtain ⟨m, k, hreach, hscheduled, ⟨s, hset⟩, hshown, hhead, hcount, hsearch, old, hfds⟩ :=
    shellImage_second
  have hdisplayed := hshown.trans hscheduled.symm
  obtain ⟨hruns, hown⟩ := hset.runsDisplayed hdisplayed
  have hready := hruns.ready hown
  have hroom : k.processCount < MAX_PROCESS_COUNT := by
    rw [hcount]
    decide
  have hletters : ∀ c ∈ List.replicate argsRoom (65 : UInt8) ++ [65], c = 65 := by
    intro c hmem
    rcases List.mem_append.mp hmem with hmem | hmem
    · exact List.eq_of_mem_replicate hmem
    · exact List.mem_singleton.mp hmem
  have hlaunching : k.launching shellImage
      (some (shellCommand ++ SPACE_CHAR :: (List.replicate argsRoom 65 ++ [65]))) =
        some ⟨0, 0, List.replicate argsRoom 65 ++ [65]⟩ := by
    rw [Kernel.launching_eq_some hroom]
    exact findProgram_letters (by simp) hletters
  obtain ⟨middle, hstore⟩ := storeKernelBytes_letters k.pcb (by decide : 2 ≤ 5) (by decide)
    (by decide : 0 < _8KB)
  rw [Nat.add_zero] at hstore
  change storeKernelBytes k.pcb _ (List.replicate argsRoom 65 ++ [65]) = _ at hstore
  -- the command and its arguments are too long to be looked into again
  generalize shellCommand ++ SPACE_CHAR :: (List.replicate argsRoom 65 ++ [65]) = command
    at hlaunching ⊢
  generalize List.replicate argsRoom (65 : UInt8) ++ [65] = args at hlaunching hstore
  have hcopy : storeKernelBytes k.pcb (getPCB (slotSearch k.pcbSlots + 1) + Pcb.argsOffset) args =
      some (update middle (getPCB 4) ((middle (getPCB 4)).storeByte 0 65)) := by
    rw [hsearch]
    exact hstore
  obtain ⟨phys, hexecute⟩ := Kernel.execute_eq ⟨3, 4⟩ hlaunching hcopy shellImage_loadable
  generalize Kernel.enterProgram _ _ _ _ = entered at hexecute
  obtain ⟨program, pcbs, hlaunching', hlaunched, hcopy', hpcb⟩ := Kernel.execute_pcb hexecute
  obtain rfl := Option.some.inj (hlaunching.symm.trans hlaunching')
  obtain rfl := Option.some.inj (hcopy.symm.trans hcopy')
  rw [hsearch] at hlaunched hpcb
  obtain ⟨result, after, hhalt⟩ := hready.child_halts hdisplayed (by decide) hlaunched
    (.refl _ entered) hlaunched.currScheduled hlaunched.terminalOnly shellImage 0 ⟨0, 0⟩
  obtain ⟨-, haddr, -, hparent⟩ := hready.child_links hdisplayed (by decide) hlaunched
    (.refl _ entered) hlaunched.currScheduled
  have hkept : after.pcb (getPCB 4) = entered.pcb (getPCB 4) := by
    refine Kernel.halt_pcb hhalt hparent (.inr ?_) _ ?_
    · rw [haddr]
      exact hlaunched.terminalOnly.not_hasFile
    · rw [haddr]
      decide
  refine ⟨m, k, entered, result, after, hreach, hscheduled ▸ hruns, hscheduled ▸ hown, hroom,
    hexecute, .start entered, hhalt, fun htaken => ?_⟩
  have hlive := hready.live
  rw [hscheduled, hhead] at hlive
  have hfd := congrArg (fun fds => (fds 0).fopsTable % 256) (htaken.tables 4 hlive).fileArray
  rw [hkept, hpcb _ (by decide), hfds, update_self] at hfd
  change setWordByte _ 0 65 % 256 = _ at hfd
  simp only [setWordByte] at hfd
  have hbyte : (65 : UInt8).toNat = 65 := rfl
  rw [initFileArray_stdin] at hfd
  simp only [stdinFd, stdin_table] at hfd
  omega

end Ece391
