import Ece391.Filesys
import Ece391.Pcb
import Ece391.Keyboard

/-! # The kernel state

One record holds the globals of every C file the model covers, the PCBs, and the
hardware the code writes: the page directory entries that change after boot, the
first entry of the user's video page table, the TSS stack pointer, and memory.
-/

namespace Ece391

open Function

/-- The rates and counters of `rtc.c`, one for each terminal. -/
structure Rtc where
  rates : Terminal → Int
  counter : Terminal → Int

structure Kernel where
  /-- `lib.c`. -/
  display : Display
  /-- `keyboard.c`. -/
  kb : Keyboard
  /-- `rtc.c`. -/
  rtc : Rtc
  /-- `scheduler.c`. -/
  currScheduled : Terminal
  totalTerminal : Nat
  initFlag : Bool
  switchFlag : Option Terminal
  /-- `sys_calls.c` and `filesys.h`. -/
  userVidMem : Nat
  processCount : Int
  highestTerminalProcesses : Terminal → Nat
  pcbSlots : Nat → Nat
  processPerTerminal : Terminal → Int
  dirIndex : Nat
  pcb : PcbMemory
  /-- `pageDirectory[32]` and `pageDirectory[33]`. -/
  userPageEntry : Nat
  vidPageEntry : Nat
  /-- `pgTbl_vidMem[0]`. -/
  vidTableEntry : Nat
  /-- `tss.esp0`. -/
  tssEsp0 : Nat
  /-- Physical memory behind the kernel pages: the user frames. -/
  phys : Nat → UInt8

/-- The stack registers in a frame of the kernel. -/
structure Regs where
  ebp : Nat
  esp : Nat

namespace Kernel

variable (k : Kernel)

/-- `curr_terminal` lives in `lib.c`. -/
abbrev currTerminal : Terminal := k.display.currTerminal

/-- What the keyboard interrupt works on. -/
abbrev keyState : KeyState := ⟨k.kb, k.display, k.switchFlag⟩

/-- The head of a terminal's process chain. -/
abbrev head (t : Terminal) : Nat := k.highestTerminalProcesses t

def setPcb (addr : Nat) (pcb : Pcb) : Kernel := { k with pcb := update k.pcb addr pcb }

/-- A PCB reached through a pointer; the page above 8 MB is not mapped. -/
def derefPcb (addr : Nat) : Option Pcb := if addr < _8MB then some (k.pcb addr) else none

/-- The PCB of the scheduled terminal's head, which is the running process. -/
def scheduledPcb : Nat := getPCB (k.head k.currScheduled)

/-- The PCB of the displayed terminal's head. -/
def displayedPcb : Nat := getPCB (k.head k.currTerminal)

end Kernel

/-! ## Paging -/

/-- The 4 MB entry that maps the user page to the frame of process `num`. -/
def userPageOf (num : Nat) : Nat := (_8MB + num * _4MB - _4MB) ||| MAP_MASK

/-- Where the linked kernel has the page table of the user's video page. -/
def pgTbl_vidMem : Nat := 0x408000

/-- The frame a 4 MB entry maps to. -/
def frameOf (entry : Nat) : Nat := entry / _4MB * _4MB

/-- The entry of a 4 KB user video page. -/
def vidEntryOf (page : VideoPage) : Nat := page.addr ||| VID_PAGE

/-- Where the page of a video entry is, when it is one the kernel installs. -/
def vidPageAt (entry : Nat) : Option VideoPage :=
  [.screen, .buffer .T1, .buffer .T2, .buffer .T3].find? fun page => vidEntryOf page = entry

/-- A physical byte that a user virtual address can name. -/
inductive UserByte where
  | frame (addr : Nat)
  | video (page : VideoPage) (offset : Nat)
  deriving DecidableEq

/-- The page walk of a user address: the 4 MB program page at 128 MB, and the one
video page at 132 MB once `vidmap` has installed it. -/
def Kernel.translate (k : Kernel) (vaddr : Nat) : Option UserByte :=
  if _128MB ≤ vaddr ∧ vaddr < USER_VID_ADDR then
    some (.frame (frameOf k.userPageEntry + (vaddr - _128MB)))
  else if USER_VID_ADDR ≤ vaddr ∧ vaddr < USER_VID_ADDR + PAGE_MEM_SIZE ∧
      k.vidPageEntry % 2 = 1 then
    (vidPageAt k.vidTableEntry).map fun page => .video page (vaddr - USER_VID_ADDR)
  else none

/-- A store through the current mapping; an unmapped address faults. -/
def Kernel.storeUser (k : Kernel) (vaddr : Nat) (byte : UInt8) : Option Kernel :=
  (k.translate vaddr).map fun
    | .frame addr => { k with phys := update k.phys addr byte }
    | .video page offset => { k with display := k.display.storeByte page offset byte }

/-- Bytes stored at successive user addresses. -/
def Kernel.storeUserBytes : Kernel → Nat → List UInt8 → Option Kernel
  | k, _, [] => some k
  | k, vaddr, byte :: rest =>
      (k.storeUser vaddr byte).bind fun k => k.storeUserBytes (vaddr + 1) rest

end Ece391
