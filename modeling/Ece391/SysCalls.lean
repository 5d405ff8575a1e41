import Ece391.Kernel

/-! # Process creation and exit

`execute` and `halt` are cut into the stages a preemption can fall between; the
whole functions are the compositions of their stages. A result `none` means that
the kernel page-faulted, which it never survives.
-/

namespace Ece391

open Function

/-- The codes of a text. -/
def ascii (text : List Char) : List UInt8 := text.map fun c => UInt8.ofNat c.toNat

def shellCommand : List UInt8 := ascii ['s', 'h', 'e', 'l', 'l']

def maxProcessesText : List UInt8 := ascii
  ['M', 'A', 'X', ' ', 'P', 'R', 'O', 'C', 'E', 'S', 'S', 'E', 'S', ' ',
    'R', 'E', 'A', 'C', 'H', 'E', 'D', '\n']

/-! ## Finding the program -/

/-- What `execute` keeps of a command that names an executable. -/
structure Program where
  inode : Nat
  eip : Nat
  args : List UInt8
  deriving DecidableEq

/-- The first word, cut at the 32 bytes of `filename`. -/
def commandWord (command : List UInt8) : List UInt8 :=
  (command.takeWhile fun c => c ≠ NUL ∧ c ≠ SPACE_CHAR).take 32

/-- What is left behind the word and the spaces after it. -/
def commandArgs (command : List UInt8) : List UInt8 :=
  (((command.drop (commandWord command).length).dropWhile fun c => c = SPACE_CHAR).takeWhile
    fun c => c ≠ NUL)

def executableMagic : List UInt8 := [0x7F, 0x45, 0x4C, 0x46]

/-- The part of `execute` that only reads the image: the lookup of the command's
word and the check of the four magic bytes. -/
def findProgram (img : Image) (command : List UInt8) : Option Program :=
  (readDentryByName img (commandWord command)).bind fun dentry =>
    let data := (readData img dentry.inodeNum 0 32).2
    if (List.range 4).map (fun i => data.getD i NUL) ≠ executableMagic then none
    else
      some
        { inode := dentry.inodeNum
          eip := (data.getD 24 0).toNat + 256 * (data.getD 25 0).toNat +
            256 ^ 2 * (data.getD 26 0).toNat + 256 ^ 3 * (data.getD 27 0).toNat
          args := commandArgs command }

/-! ## The slot table -/

/-- The slot search from index `i` on, with `remaining` entries to look at. -/
def slotSearchFrom (slots : Nat → Nat) : Nat → Nat → Nat
  | 0, i => i
  | remaining + 1, i => if slots i = 0 then i else slotSearchFrom slots remaining (i + 1)

/-- The index the search loop of `execute` ends with. -/
def slotSearch (slots : Nat → Nat) : Nat := slotSearchFrom slots MAX_PROCESS_COUNT 0

/-! ## Stages of `execute` -/

/-- How `execute` ends: it returns to its caller, or enters the program. -/
inductive ExecReturn where
  | returned (value : Int)
  | entered (eip : Nat)
  deriving DecidableEq

/-- How `halt` ends: in the parent's `execute`, with the registers saved in the
halted PCB, or in a restarted shell. -/
inductive HaltReturn where
  | toParent (status : UInt8) (esp ebp : Nat)
  | entered (eip : Nat)
  deriving DecidableEq

def stdinFd : FdStruct := ⟨stdin_table, toU32 (-1), 0, FD_FLAG_PRESENT⟩
def stdoutFd : FdStruct := ⟨stdout_table, toU32 (-1), 0, FD_FLAG_PRESENT⟩

/-- The descriptor table of a new process: two terminal descriptors, the flags of
the others cleared. -/
def initFileArray (old : Nat → FdStruct) : Nat → FdStruct :=
  (List.range' STDI_O (MAX_OPEN_FILES - STDI_O)).foldl
    (fun fds i => update fds i { fds i with flags := 0 })
    (update (update old 0 stdinFd) 1 stdoutFd)

/-- The top of the kernel stack of the process in slot `i`. -/
def stackTopOf (i : Nat) : Nat := _8MB - i * _8KB - ONE_STACK_ENTRY

namespace Kernel

variable (k : Kernel)

def countProcess : Kernel :=
  { k with
    processCount := k.processCount + 1
    processPerTerminal :=
      update k.processPerTerminal k.currTerminal (k.processPerTerminal k.currTerminal + 1) }

def takeSlot (i : Nat) : Kernel := { k with pcbSlots := update k.pcbSlots i 1 }

/-- The copy into `args`, which no test bounds. -/
def copyArgs (i : Nat) (args : List UInt8) : Option Kernel :=
  (storeKernelBytes k.pcb (getPCB (i + 1) + Pcb.argsOffset) args).map fun pcbs =>
    { k with pcb := pcbs }

def mapProgram (i : Nat) : Kernel := { k with userPageEntry := userPageOf (i + 1) }

def linkParent (i : Nat) : Kernel :=
  k.setPcb (getPCB (i + 1))
    { k.pcb (getPCB (i + 1)) with
      parentTask := if k.head k.currTerminal ≠ 0 then getPCB (k.head k.currTerminal) else NULL }

def pushHead (i : Nat) : Kernel :=
  { k with
    highestTerminalProcesses := update k.highestTerminalProcesses k.currTerminal (i + 1) }

def initPcb (i eip : Nat) (regs : Regs) : Kernel :=
  let pcb := k.pcb (getPCB (i + 1))
  let k := k.setPcb (getPCB (i + 1))
    { pcb with
      processNum := i + 1
      eip := eip
      ebp := regs.ebp
      esp := regs.esp
      fileArray := initFileArray pcb.fileArray
      fileArrSize := STDI_O
      esp0 := stackTopOf i }
  { k with tssEsp0 := stackTopOf i }

/-- The bytes of the program, copied to `PROG_LOAD_ADDR`. -/
def loadProgram (img : Image) (inode : Nat) : Option Kernel :=
  k.storeUserBytes PROG_LOAD_ADDR (readData img inode 0 (fileSize img inode)).2

/-- What follows the load: the new process is linked in front of the chain of the
displayed terminal and entered. -/
def enterProgram (i eip : Nat) (regs : Regs) : Kernel :=
  ((k.linkParent i).pushHead i).initPcb i eip regs

/-- `execute` from the counting of the new process on. -/
def launch (img : Image) (program : Program) (regs : Regs) : Option (ExecReturn × Kernel) :=
  let k := k.countProcess
  let i := slotSearch k.pcbSlots
  (((k.takeSlot i).copyArgs i program.args).bind fun k =>
    (k.mapProgram i).loadProgram img program.inode).map fun k =>
      if int32 (readData img program.inode 0 (fileSize img program.inode)).1 = -1 then
        (.returned (-1), k)
      else (.entered program.eip, k.enterProgram i program.eip regs)

/-- The `execute` system call; `none` is a NULL command. -/
def execute (img : Image) (command : Option (List UInt8)) (regs : Regs) :
    Option (ExecReturn × Kernel) :=
  match command with
  | none => some (.returned (-1), k)
  | some command =>
      if k.processCount ≥ MAX_PROCESS_COUNT then
        some (.returned 0, { k with display := k.display.printf k.currScheduled maxProcessesText })
      else
        match findProgram img command with
        | none => some (.returned (-1), k)
        | some program => k.launch img program regs

/-! ## Closing descriptors -/

/-- The `close` system call, on the PCB of the displayed terminal's head. -/
def close (fd : Int) : Option (Int × Kernel) :=
  if fd < STDI_O ∨ fd ≥ MAX_OPEN_FILES then some (-1, k)
  else
    (k.derefPcb k.displayedPcb).map fun pcb =>
      if (pcb.fileArray fd.toNat).flags = 0 then (-1, k)
      else
        (0, k.setPcb k.displayedPcb
          { pcb with
            fileArrSize := u32 (pcb.fileArrSize + (2 ^ 32 - 1))
            fileArray := update pcb.fileArray fd.toNat
              { pcb.fileArray fd.toNat with flags := 0 } })

/-- `fops_table->close(fd)`: `file_close` calls the system call again, and
`dir_close` rewinds the directory. -/
def fopsClose (fops : Fops) (fd : Int) : Option Kernel :=
  match fops with
  | .file => (k.close fd).map Prod.snd
  | .dir => some { k with dirIndex := 0 }
  | .rtc | .stdin | .stdout => some k

/-- One turn of `halt`'s loop over the descriptors of the PCB at `addr`. -/
def closeEntry (addr i : Nat) : Option Kernel :=
  let closed :=
    if ((k.pcb addr).fileArray i).flags ≠ 0 then
      (fopsAt ((k.pcb addr).fileArray i).fopsTable).bind fun fops => k.fopsClose fops i
    else some k
  closed.map fun k =>
    k.setPcb addr
      { k.pcb addr with
        fileArray := update (k.pcb addr).fileArray i { (k.pcb addr).fileArray i with flags := 0 } }

def closeEntries (addr : Nat) : Option Kernel :=
  (List.range MAX_OPEN_FILES).foldlM (fun k i => k.closeEntry addr i) k

/-! ## Stages of `halt` -/

def clearArgs (addr : Nat) : Kernel :=
  k.setPcb addr
    { k.pcb addr with
      args := (List.range MAX_ARGS).foldl (fun args j => update args j NUL) (k.pcb addr).args }

/-- `halt` up to the freed slot. -/
def release : Option Kernel :=
  let addr := k.scheduledPcb
  let k :=
    { k with
      processCount := k.processCount - 1
      processPerTerminal :=
        update k.processPerTerminal k.currScheduled (k.processPerTerminal k.currScheduled - 1) }
  (k.derefPcb addr).bind fun _ =>
    (k.closeEntries addr).map fun k =>
      let k := k.clearArgs addr
      { k with pcbSlots := update k.pcbSlots (k.head k.currScheduled - 1) 0 }

/-- The mapping, the head and the kernel stack of the parent come back. -/
def restoreParent (parent : Pcb) : Kernel :=
  { k with
    userPageEntry := userPageOf parent.processNum
    highestTerminalProcesses :=
      update k.highestTerminalProcesses k.currScheduled parent.processNum
    tssEsp0 := parent.esp0 }

/-- Before a root shell is started again: the chain of the displayed terminal is
emptied and its screen cleared. -/
def resetTerminal : Kernel :=
  { k with
    highestTerminalProcesses := update k.highestTerminalProcesses k.currTerminal 0
    display := k.display.clearScreen }

/-- The end of `halt`: the registers are read out of the halted PCB. -/
def leaveTo (addr : Nat) (status : UInt8) : HaltReturn × Kernel :=
  (.toParent status (k.pcb addr).esp (k.pcb addr).ebp, k)

/-- The `halt` system call of the running process. -/
def halt (img : Image) (status : UInt8) (regs : Regs) : Option (HaltReturn × Kernel) :=
  let addr := k.scheduledPcb
  k.release.bind fun k =>
    if (k.pcb addr).parentTask ≠ NULL then
      (k.derefPcb (k.pcb addr).parentTask).map fun parent =>
        (k.restoreParent parent).leaveTo addr status
    else
      (k.resetTerminal.execute img (some shellCommand) regs).map fun
        | (.entered eip, k) => (.entered eip, k)
        | (.returned _, k) => k.leaveTo addr status

end Kernel

end Ece391
