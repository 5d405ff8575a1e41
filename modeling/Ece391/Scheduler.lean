import Ece391.FileCalls
import Ece391.Lib.Transition

/-! # The PIT handler and the events of the machine

`pit_handler` has three paths: it creates one of the three shells, it ends the
start-up, or it rotates to the next terminal. All of them first carry out a
display switch the keyboard asked for and aim the video pages.
-/

namespace Ece391

open Function

namespace Kernel

variable (k : Kernel)

/-- A pending display switch takes effect. -/
def applySwitch : Kernel :=
  match k.switchFlag with
  | some t =>
      { k with display := k.display.switchTerminal k.currTerminal t, switchFlag := none }
  | none => k

/-- `video_mem` and the user's video page are aimed at the same page. -/
def aimVideo (page : VideoPage) : Kernel :=
  { k with
    vidTableEntry := vidEntryOf page
    display := { k.display with videoMem := page } }

/-- `switch_terminal` between two terminal numbers. -/
def switchNumbers (origin target : Nat) : Kernel :=
  match Terminal.ofNum origin, Terminal.ofNum target with
  | some origin, some target => { k with display := k.display.switchTerminal origin target }
  | _, _ => k

/-- The path that creates a shell. The first shell has no process to leave. -/
def startShell (img : Image) (ebp : Nat) (inner : Regs) (next : Terminal) : Option Kernel :=
  let k := { k with totalTerminal := k.totalTerminal + 1 }
  let k := k.switchNumbers (k.totalTerminal - 1) k.totalTerminal
  let k := { k with display := (k.display.updateCursor 0 0).setCursors 0 0 }
  let left :=
    if k.totalTerminal ≠ 1 then
      (k.derefPcb k.scheduledPcb).map fun pcb =>
        { k.setPcb k.scheduledPcb { pcb with esp0 := k.tssEsp0, ebpScheduler := ebp } with
          currScheduled := next }
    else some k
  left.bind fun k => (k.execute img (some shellCommand) inner).map Prod.snd

/-- The path that goes back to the first terminal. -/
def finishStartUp : Kernel :=
  { k.switchNumbers k.totalTerminal 1 with
    totalTerminal := k.totalTerminal + 1
    currScheduled := .T3
    initFlag := true }

/-- The path of normal rotation. -/
def rotate (ebp : Nat) (next : Terminal) : Option Kernel :=
  let addr := k.scheduledPcb
  let k := { k with userPageEntry := userPageOf (k.head next) }
  (k.derefPcb addr).bind fun pcb =>
    let k := k.setPcb addr { pcb with esp0 := k.tssEsp0 }
    (k.derefPcb (getPCB (k.head next))).map fun nextPcb =>
      let k := { k with tssEsp0 := nextPcb.esp0, currScheduled := next }
      k.setPcb addr { k.pcb addr with ebpScheduler := ebp }

/-- `pit_handler` with the EBP of its frame; `inner` is the frame of the `execute` it
calls during start-up. -/
def pitHandler (img : Image) (ebp : Nat) (inner : Regs) : Option Kernel :=
  let k := k.applySwitch
  let next := k.currScheduled.next
  let k := k.aimVideo (videoPageFor next k.currTerminal)
  if k.totalTerminal < 3 then k.startShell img ebp inner next
  else if k.totalTerminal = 3 then some k.finishStartUp
  else k.rotate ebp next

/-- What the handler loads into EBP when it resumes a terminal. -/
def resumeEbp (t : Terminal) : Nat := (k.pcb (getPCB (k.head t))).ebpScheduler

/-- `keyboard_interrupt`. -/
def keyboardInterrupt (c : UInt8) : Kernel :=
  let s := keyboardHandler k.keyState c
  { k with kb := s.kb, display := s.display, switchFlag := s.switchFlag }

end Kernel

/-! ## Events -/

/-- Interrupts, and system calls of the running process. -/
inductive Event where
  | tick (ebp : Nat) (inner : Regs)
  | key (c : UInt8)
  | rtc
  | execute (command : Option (List UInt8)) (regs : Regs)
  | halt (status : UInt8) (regs : Regs)
  | read (fd : Int) (buf : Bool) (nbytes : Int)
  | write (fd : Int) (buf : Option (Nat → UInt8)) (nbytes : Int)
  | open_ (filename : Option (List UInt8))
  | close (fd : Int)
  | getargs (buf : Bool) (nbytes : Int)
  | vidmap (screenStart : Nat)

/-- One event carried out as a whole. A page fault is the end: it has no successor. -/
def step (img : Image) (k : Kernel) : Event → Option Kernel
  | .tick ebp inner => k.pitHandler img ebp inner
  | .key c => some (k.keyboardInterrupt c)
  | .rtc => some { k with rtc := rtcHandler k.rtc }
  | .execute command regs => (k.execute img command regs).map Prod.snd
  | .halt status regs => (k.halt img status regs).map Prod.snd
  | .read fd buf nbytes => (k.read img fd buf nbytes).map Prod.snd
  | .write fd buf nbytes => (k.write fd buf nbytes).map Prod.snd
  | .open_ filename => (k.open_ img filename).map Prod.snd
  | .close fd => (k.close fd).map Prod.snd
  | .getargs buf nbytes => (k.getargs buf nbytes).map Prod.snd
  | .vidmap screenStart => (k.vidmap screenStart).map Prod.snd

/-! ## Boot -/

/-- What the kernel finds at boot and does not set: memory outside initialised
objects, and the cursor left behind by the boot messages. -/
structure BootMemory where
  pcb : PcbMemory
  phys : Nat → UInt8
  userPageEntry : Nat
  vidPageEntry : Nat
  video : Page
  videoBuf : Terminal → Page
  x : Nat
  y : Nat
  x_lt : x < NUM_COLS
  y_lt : y < NUM_ROWS

/-- The state in which `entry` spins, with interrupts enabled and no process. -/
def boot (m : BootMemory) : Kernel where
  display :=
    { currTerminal := .T1
      screenX := update (fun _ => 0) .T1 m.x
      screenY := update (fun _ => 0) .T1 m.y
      video := clearPage m.video
      videoBuf := fun t => clearPage (m.videoBuf t)
      videoMem := .screen
      vgaCursor := m.y * NUM_COLS + m.x }
  kb :=
    { shiftKey := false
      altKey := false
      capFlag := false
      ctrlKey := false
      enterFlag := false
      buffer := fun _ => NUL
      index := 0
      saved := fun _ _ => NUL
      savedPos := fun _ => 0 }
  rtc := ⟨fun _ => 1, fun _ => 1⟩
  currScheduled := .T1
  totalTerminal := 0
  initFlag := false
  switchFlag := none
  userVidMem := 0
  processCount := 0
  highestTerminalProcesses := fun _ => 0
  pcbSlots := fun _ => 0
  processPerTerminal := fun _ => 0
  dirIndex := 0
  pcb := m.pcb
  userPageEntry := m.userPageEntry
  vidPageEntry := m.vidPageEntry
  vidTableEntry := 0
  tssEsp0 := _8MB
  phys := m.phys

/-- Until the start-up has ended no process runs or ends a program. -/
def StartUpStep (k : Kernel) : Event → Prop
  | .execute _ _ | .halt _ _ => False
  | _ => k.totalTerminal ≠ 4

/-- The three shells have been created and the start-up has just ended. Between its
ticks keys may be pressed and the shells may use their descriptors. -/
def AfterStartUp (img : Image) (k : Kernel) : Prop :=
  (∃ m, Transition.ReachableVia (step img) StartUpStep (boot m) k) ∧ k.totalTerminal = 4

end Ece391
