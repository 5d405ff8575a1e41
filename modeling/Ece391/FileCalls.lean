import Ece391.SysCalls

/-! # Descriptors and devices

The system calls on descriptors look up the PCB of the displayed terminal's head
and jump through its operation table. A call that has to wait in the kernel
returns `waiting`; a result `none` is a page fault.
-/

namespace Ece391

open Function

/-- The result of a call: the value in `eax` with the bytes stored in the user's
buffer, or a wait inside the kernel. -/
inductive SysReturn where
  | returned (value : Int) (out : List UInt8)
  | waiting
  deriving DecidableEq

def failed : SysReturn := .returned (-1) []

def F_1024 : Int := 1024
def F_2 : Int := 2

/-- `rtc_handler`: every counter goes down to zero at the least. -/
def rtcHandler (rtc : Rtc) : Rtc :=
  { rtc with counter := fun t => if rtc.counter t - 1 < 0 then 0 else rtc.counter t - 1 }

namespace Kernel

variable (k : Kernel)

/-! ## The terminal driver -/

/-- `terminal_read` behind its loop: the Enter is taken and the live line returned. -/
def takeLine (nbytes : Int) : SysReturn × Kernel :=
  let count := if nbytes < k.kb.index then nbytes.toNat else k.kb.index
  (.returned count ((List.range count).map k.kb.buffer),
    { k with
      kb := { k.kb.clearLine with enterFlag := false }
      display := k.display.putc2 NEWLINE })

/-- `terminal_read`: the loop ends when Enter was pressed while the displayed
terminal is the scheduled one. -/
def terminalRead (nbytes : Int) : SysReturn × Kernel :=
  if nbytes < 0 then (failed, k)
  else if k.kb.enterFlag ∧ k.currTerminal = k.currScheduled then k.takeLine nbytes
  else (.waiting, k)

/-- `terminal_write`: prints the bytes, then empties the scheduled terminal's saved
line. -/
def terminalWrite (buf : Option (Nat → UInt8)) (nbytes : Int) : SysReturn × Kernel :=
  match buf with
  | none => (failed, k)
  | some buf =>
      if nbytes < 0 then (failed, k)
      else if nbytes = 0 then (.returned 0 [], k)
      else
        (.returned (nbytes + 1) [],
          { k with
            display := k.display.putfile k.currScheduled
              ((List.range nbytes.toNat).map buf ++ [NUL])
            kb := k.kb.clearSaved k.currScheduled })

/-! ## The RTC driver -/

/-- `rtc_read` up to its loop, which waits for the counter to reach zero. -/
def rtcRead : SysReturn × Kernel :=
  (.waiting,
    { k with
      rtc :=
        { k.rtc with
          counter := update k.rtc.counter k.currScheduled
            (F_1024.tdiv (k.rtc.rates k.currScheduled)) } })

def rtcWrite (buf : Option (Nat → UInt8)) (nbytes : Int) : SysReturn × Kernel :=
  match buf with
  | none => (failed, k)
  | some buf =>
      if nbytes ≠ 4 then (failed, k)
      else
        let freq := int32 ((buf 0).toNat + 256 * (buf 1).toNat + 256 ^ 2 * (buf 2).toNat +
          256 ^ 3 * (buf 3).toNat)
        if freq > F_1024 ∨ freq < F_2 then (failed, k)
        else
          (.returned 0 [],
            { k with rtc := { k.rtc with rates := update k.rtc.rates k.currScheduled freq } })

/-! ## The file and directory drivers -/

/-- `file_read`, which finds the descriptor in the displayed terminal's PCB again. -/
def fileRead (img : Image) (fd : Int) (nbytes : Int) : Option (SysReturn × Kernel) :=
  if nbytes < 0 then some (failed, k)
  else if nbytes = 0 then some (.returned 0 [], k)
  else
    (k.derefPcb k.displayedPcb).map fun pcb =>
      let desc := pcb.fileArray fd.toNat
      let result := readData img desc.inode desc.fPos (toU32 nbytes)
      (.returned (int32 result.1) result.2,
        k.setPcb k.displayedPcb
          { pcb with
            fileArray := update pcb.fileArray fd.toNat
              { desc with fPos := u32 (desc.fPos + result.1) } })

/-- The index at which the name loop of `dir_read` stops. -/
def nameStop (dentry : Dentry) : Nat → Nat → Nat
  | 0, i => i
  | remaining + 1, i => if dentry.byte i = NUL then i else nameStop dentry remaining (i + 1)

/-- `dir_read`; `bytes_cpy` is a byte. -/
def dirRead (img : Image) (nbytes : Int) : SysReturn × Kernel :=
  if (k.dirIndex : Int) ≥ int32 img.amtDentrys then (.returned 0 [], k)
  else
    match readDentryByIndex img k.dirIndex with
    | none => (failed, k)
    | some dentry =>
        let bytesCpy := if nbytes > FILE_NAME_SIZE then FILE_NAME_SIZE else toU32 nbytes % 256
        let i := nameStop dentry bytesCpy 0
        (.returned i ((List.range (i + 1)).map dentry.byte), { k with dirIndex := k.dirIndex + 1 })

/-! ## Jumps through the operation tables -/

/-- `fops_table->read(fd, buf, nbytes)`. -/
def fopsRead (img : Image) (fops : Fops) (fd nbytes : Int) : Option (SysReturn × Kernel) :=
  match fops with
  | .file => k.fileRead img fd nbytes
  | .dir => some (k.dirRead img nbytes)
  | .rtc => some k.rtcRead
  | .stdin => some (k.terminalRead nbytes)
  | .stdout => some (.returned 0 [], k)

/-- `fops_table->write(fd, buf, nbytes)`. -/
def fopsWrite (fops : Fops) (buf : Option (Nat → UInt8)) (nbytes : Int) : SysReturn × Kernel :=
  match fops with
  | .file | .dir => (failed, k)
  | .rtc => k.rtcWrite buf nbytes
  | .stdin => (.returned 0 [], k)
  | .stdout => k.terminalWrite buf nbytes

/-- `fops_table->open(filename)`; the RTC driver is active since boot. -/
def fopsOpen (fops : Fops) : Kernel :=
  match fops with
  | .dir => { k with dirIndex := 0 }
  | .file | .rtc | .stdin | .stdout => k

/-! ## System calls -/

/-- The `read` system call; `buf` tells whether the buffer pointer is not NULL. -/
def read (img : Image) (fd : Int) (buf : Bool) (nbytes : Int) : Option (SysReturn × Kernel) :=
  if !buf ∨ fd ≥ MAX_OPEN_FILES ∨ fd < 0 ∨ fd = 1 then some (failed, k)
  else
    (k.derefPcb k.displayedPcb).bind fun pcb =>
      if (pcb.fileArray fd.toNat).flags = 0 then some (failed, k)
      else
        (fopsAt (pcb.fileArray fd.toNat).fopsTable).bind fun fops =>
          k.fopsRead img fops fd nbytes

/-- The `write` system call. -/
def write (fd : Int) (buf : Option (Nat → UInt8)) (nbytes : Int) : Option (SysReturn × Kernel) :=
  if buf.isNone ∨ fd ≥ MAX_OPEN_FILES ∨ fd < 0 ∨ fd = 0 then some (failed, k)
  else
    (k.derefPcb k.displayedPcb).bind fun pcb =>
      if (pcb.fileArray fd.toNat).flags = 0 then some (failed, k)
      else if (pcb.fileArray fd.toNat).flags &&& FD_FLAG_FILE ≠ 0 then some (failed, k)
      else
        (fopsAt (pcb.fileArray fd.toNat).fopsTable).map fun fops =>
          k.fopsWrite fops buf nbytes

/-- The loop of `open` over the descriptors from `fd` on; it ends at 8 when none is
free. -/
def freeEntry (fds : Nat → FdStruct) : Nat → Nat → Nat
  | 0, fd => fd
  | remaining + 1, fd =>
      if FD_FLAG_PRESENT &&& (fds fd).flags = 0 then fd else freeEntry fds remaining (fd + 1)

/-- The descriptor `open` fills in for an entry of the directory. Other file types
leave the table, the inode and the type flag as they were. -/
def openedFd (entry : Dentry) (old : FdStruct) : FdStruct :=
  let fd := { old with flags := FD_FLAG_PRESENT, fPos := 0 }
  match entry.fileType with
  | 0 => { fd with fopsTable := rtc_table, inode := 0, flags := fd.flags + FD_FLAG_RTC }
  | 1 => { fd with fopsTable := dir_table, inode := 0, flags := fd.flags + FD_FLAG_DIRECTORY }
  | 2 =>
      { fd with
        fopsTable := file_table
        inode := entry.inodeNum
        flags := fd.flags + FD_FLAG_FILE }
  | _ => fd

/-- The `open` system call. When no descriptor is free although the count is below
8, the store goes behind the table and the model stops. -/
def open_ (img : Image) (filename : Option (List UInt8)) : Option (SysReturn × Kernel) :=
  match filename.bind (readDentryByName img) with
  | none => some (failed, k)
  | some entry =>
      (k.derefPcb k.displayedPcb).bind fun pcb =>
        if int32 pcb.fileArrSize ≥ MAX_OPEN_FILES then some (failed, k)
        else
          let fd := freeEntry pcb.fileArray (MAX_OPEN_FILES - STDI_O) STDI_O
          if fd ≥ MAX_OPEN_FILES then none
          else
            let desc := openedFd entry (pcb.fileArray fd)
            let k := k.setPcb k.displayedPcb
              { pcb with
                fileArray := update pcb.fileArray fd desc
                fileArrSize := u32 (pcb.fileArrSize + 1) }
            (fopsAt desc.fopsTable).map fun fops => (.returned fd [], k.fopsOpen fops)

/-- The distance to the first NUL byte at or behind `addr`, when there is one in the
`remaining` bytes of the kernel page. -/
def scanNul (pcbs : PcbMemory) : Nat → Nat → Option Nat
  | 0, _ => none
  | remaining + 1, addr =>
      (loadKernelByte pcbs addr).bind fun byte =>
        if byte = NUL then some 0 else (scanNul pcbs remaining (addr + 1)).map (· + 1)

/-- `count` bytes copied out of the kernel page. -/
def loadKernelBytes (pcbs : PcbMemory) (addr count : Nat) : Option (List UInt8) :=
  if addr + count ≤ _8MB then
    some ((List.range count).map fun i =>
      (pcbs ((addr + i) / _8KB * _8KB)).loadByte ((addr + i) % _8KB))
  else none

/-- The `getargs` system call; the length and `nbytes - 1` are compared as unsigned
words, and a NULL buffer faults as soon as a byte is stored. -/
def getargs (buf : Bool) (nbytes : Int) : Option (SysReturn × Kernel) :=
  let addr := k.displayedPcb + Pcb.argsOffset
  (scanNul k.pcb (_8MB - addr) addr).bind fun character =>
    if character > toU32 (nbytes - 1) then some (failed, k)
    else if !buf ∧ toU32 nbytes ≠ 0 then none
    else
      (loadKernelBytes k.pcb addr (toU32 nbytes)).map fun out => (.returned 0 out, k)

/-- The page a terminal draws on while another one is or is not displayed. -/
def videoPageFor (scheduled displayed : Terminal) : VideoPage :=
  if scheduled = displayed then .screen else .buffer scheduled

/-- The `vidmap` system call with the address to store the pointer at. -/
def vidmap (screenStart : Nat) : Option (SysReturn × Kernel) :=
  if screenStart = NULL ∨ screenStart < _128MB ∨ screenStart ≥ USER_VID_ADDR then
    some (failed, k)
  else
    let page := videoPageFor k.currScheduled k.currTerminal
    let k :=
      { k with
        vidPageEntry := pgTbl_vidMem ||| VID_PAGE
        vidTableEntry := vidEntryOf page
        display := { k.display with videoMem := page }
        userVidMem := if k.userVidMem = 0 then USER_VID_ADDR else k.userVidMem }
    (k.storeUserBytes screenStart ((List.range 4).map (wordByte k.userVidMem))).map fun k =>
      (.returned 0 [], k)

end Kernel

end Ece391
