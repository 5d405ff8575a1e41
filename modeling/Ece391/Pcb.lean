import Ece391.Constants
import Mathlib.Logic.Function.Basic

/-! # Process control blocks

A PCB sits at the bottom of the 8 KB block that also holds the kernel stack of
its process; process `n` owns the block that starts `n` blocks below 8 MB. The
structure has every field of `pcb_t` in its order, so that a store by address,
which C does not check against a field, has a definite effect.
-/

namespace Ece391

open Function

structure FdStruct where
  fopsTable : Nat
  inode : Nat
  fPos : Nat
  flags : Nat
  deriving DecidableEq

structure Pcb where
  fileArray : Nat → FdStruct
  fileArrSize : Nat
  processNum : Nat
  kStack : Nat
  parentTask : Nat
  childTask : Nat
  eip : Nat
  /-- `esp` and `ebp` belong to the parent: `halt` restores them. -/
  esp : Nat
  ebp : Nat
  esp0 : Nat
  args : Nat → UInt8
  /-- The alignment byte between `args` and `ebp_scheduler`. -/
  pad : UInt8
  ebpScheduler : Nat
  /-- The rest of the block, up to the top of the kernel stack. -/
  behind : Nat → UInt8

/-! ## Operation tables -/

/-- The addresses of the static operation tables in the linked kernel. -/
def file_table : Nat := 0x406084
def dir_table : Nat := 0x406094
def rtc_table : Nat := 0x4060a4
def stdin_table : Nat := 0x4060b4
def stdout_table : Nat := 0x4060c4

/-- The five tables of `sys_calls.c`. -/
inductive Fops where
  | file
  | dir
  | rtc
  | stdin
  | stdout
  deriving DecidableEq

/-- The table an operation pointer points to; a call through any other pointer
leaves the kernel. -/
def fopsAt (addr : Nat) : Option Fops :=
  if addr = file_table then some .file
  else if addr = dir_table then some .dir
  else if addr = rtc_table then some .rtc
  else if addr = stdin_table then some .stdin
  else if addr = stdout_table then some .stdout
  else none

/-! ## Fields by offset -/

def FdStruct.loadByte (fd : FdStruct) (offset : Nat) : UInt8 :=
  if offset < 4 then wordByte fd.fopsTable offset
  else if offset < 8 then wordByte fd.inode (offset - 4)
  else if offset < 12 then wordByte fd.fPos (offset - 8)
  else wordByte fd.flags (offset - 12)

def FdStruct.storeByte (fd : FdStruct) (offset : Nat) (byte : UInt8) : FdStruct :=
  if offset < 4 then { fd with fopsTable := setWordByte fd.fopsTable offset byte }
  else if offset < 8 then { fd with inode := setWordByte fd.inode (offset - 4) byte }
  else if offset < 12 then { fd with fPos := setWordByte fd.fPos (offset - 8) byte }
  else { fd with flags := setWordByte fd.flags (offset - 12) byte }

namespace Pcb

/-- Where `process_num` starts: the first field behind the descriptor table. -/
def processNumOffset : Nat := 132

def argsOffset : Nat := 164

def loadByte (pcb : Pcb) (offset : Nat) : UInt8 :=
  if offset < 128 then (pcb.fileArray (offset / 16)).loadByte (offset % 16)
  else if offset < 132 then wordByte pcb.fileArrSize (offset - 128)
  else if offset < 136 then wordByte pcb.processNum (offset - 132)
  else if offset < 140 then wordByte pcb.kStack (offset - 136)
  else if offset < 144 then wordByte pcb.parentTask (offset - 140)
  else if offset < 148 then wordByte pcb.childTask (offset - 144)
  else if offset < 152 then wordByte pcb.eip (offset - 148)
  else if offset < 156 then wordByte pcb.esp (offset - 152)
  else if offset < 160 then wordByte pcb.ebp (offset - 156)
  else if offset < 164 then wordByte pcb.esp0 (offset - 160)
  else if offset < 291 then pcb.args (offset - 164)
  else if offset < 292 then pcb.pad
  else if offset < 296 then wordByte pcb.ebpScheduler (offset - 292)
  else pcb.behind (offset - 296)

def storeByte (pcb : Pcb) (offset : Nat) (byte : UInt8) : Pcb :=
  if offset < 128 then
    { pcb with
      fileArray := update pcb.fileArray (offset / 16)
        ((pcb.fileArray (offset / 16)).storeByte (offset % 16) byte) }
  else if offset < 132 then
    { pcb with fileArrSize := setWordByte pcb.fileArrSize (offset - 128) byte }
  else if offset < 136 then
    { pcb with processNum := setWordByte pcb.processNum (offset - 132) byte }
  else if offset < 140 then { pcb with kStack := setWordByte pcb.kStack (offset - 136) byte }
  else if offset < 144 then
    { pcb with parentTask := setWordByte pcb.parentTask (offset - 140) byte }
  else if offset < 148 then
    { pcb with childTask := setWordByte pcb.childTask (offset - 144) byte }
  else if offset < 152 then { pcb with eip := setWordByte pcb.eip (offset - 148) byte }
  else if offset < 156 then { pcb with esp := setWordByte pcb.esp (offset - 152) byte }
  else if offset < 160 then { pcb with ebp := setWordByte pcb.ebp (offset - 156) byte }
  else if offset < 164 then { pcb with esp0 := setWordByte pcb.esp0 (offset - 160) byte }
  else if offset < 291 then { pcb with args := update pcb.args (offset - 164) byte }
  else if offset < 292 then { pcb with pad := byte }
  else if offset < 296 then
    { pcb with ebpScheduler := setWordByte pcb.ebpScheduler (offset - 292) byte }
  else { pcb with behind := update pcb.behind (offset - 296) byte }

/-- Two PCBs agree on what a context switch or a halt restores from them. -/
structure SameContext (first second : Pcb) : Prop where
  processNum : second.processNum = first.processNum
  parentTask : second.parentTask = first.parentTask
  esp : second.esp = first.esp
  ebp : second.ebp = first.ebp
  esp0 : second.esp0 = first.esp0
  ebpScheduler : second.ebpScheduler = first.ebpScheduler

theorem SameContext.refl (pcb : Pcb) : SameContext pcb pcb := ⟨rfl, rfl, rfl, rfl, rfl, rfl⟩

theorem SameContext.trans {first second third : Pcb} (hfirst : SameContext first second)
    (hsecond : SameContext second third) : SameContext first third :=
  ⟨hsecond.1.trans hfirst.1, hsecond.2.trans hfirst.2, hsecond.3.trans hfirst.3,
    hsecond.4.trans hfirst.4, hsecond.5.trans hfirst.5, hsecond.6.trans hfirst.6⟩

/-- A byte stored in front of `process_num` only reaches the descriptor table. -/
theorem sameContext_storeByte (pcb : Pcb) {offset : Nat} (byte : UInt8)
    (hlt : offset < processNumOffset) : SameContext pcb (pcb.storeByte offset byte) := by
  simp only [processNumOffset] at hlt
  unfold storeByte
  by_cases hfds : offset < 128
  · rw [if_pos hfds]
    exact ⟨rfl, rfl, rfl, rfl, rfl, rfl⟩
  · rw [if_neg hfds, if_pos hlt]
    exact ⟨rfl, rfl, rfl, rfl, rfl, rfl⟩

end Pcb

/-! ## The kernel block of each process -/

/-- The address of the PCB of process `curr`. -/
def getPCB (curr : Nat) : Nat := _8MB - curr * _8KB

/-- PCBs by address. -/
abbrev PcbMemory := Nat → Pcb

/-- A byte read in the kernel page below 8 MB; the page above is not mapped. -/
def loadKernelByte (pcbs : PcbMemory) (addr : Nat) : Option UInt8 :=
  if addr < _8MB then some ((pcbs (addr / _8KB * _8KB)).loadByte (addr % _8KB)) else none

def storeKernelByte (pcbs : PcbMemory) (addr : Nat) (byte : UInt8) : Option PcbMemory :=
  if addr < _8MB then
    let base := addr / _8KB * _8KB
    some (update pcbs base ((pcbs base).storeByte (addr % _8KB) byte))
  else none

/-- Bytes stored at successive addresses, as a C copy loop does. -/
def storeKernelBytes : PcbMemory → Nat → List UInt8 → Option PcbMemory
  | pcbs, _, [] => some pcbs
  | pcbs, addr, byte :: rest =>
      (storeKernelByte pcbs addr byte).bind fun pcbs => storeKernelBytes pcbs (addr + 1) rest

theorem getPCB_lt {curr : Nat} (hpos : 0 < curr) : getPCB curr < _8MB := by
  simp only [getPCB, _8MB, _8KB]
  omega

theorem getPCB_pos {curr : Nat} (hle : curr ≤ MAX_PROCESS_COUNT) : 0 < getPCB curr := by
  simp only [getPCB, _8MB, _8KB, MAX_PROCESS_COUNT] at *
  omega

/-- Below 8 MB the blocks of different processes have different addresses. -/
theorem getPCB_inj {first second : Nat} (hsecond : second ≤ MAX_PROCESS_COUNT) :
    getPCB first = getPCB second ↔ first = second := by
  simp only [getPCB, _8MB, _8KB, MAX_PROCESS_COUNT] at *
  omega

/-- A copy below 8 MB never faults. -/
theorem storeKernelBytes_completes {bytes : List UInt8} {start : Nat} (pcbs : PcbMemory)
    (hfits : start + bytes.length ≤ _8MB) :
    ∃ after, storeKernelBytes pcbs start bytes = some after := by
  induction bytes generalizing pcbs start with
  | nil => exact ⟨pcbs, rfl⟩
  | cons byte rest ih =>
      simp only [List.length_cons] at hfits
      have hlt : start < _8MB := by omega
      have hrest : start + 1 + rest.length ≤ _8MB := by omega
      obtain ⟨after, hrest⟩ := ih (update pcbs (start / _8KB * _8KB)
        ((pcbs (start / _8KB * _8KB)).storeByte (start % _8KB) byte)) hrest
      refine ⟨after, ?_⟩
      rw [storeKernelBytes, storeKernelByte, if_pos hlt]
      exact hrest

theorem storeKernelBytes_append (pcbs : PcbMemory) (start : Nat) (first second : List UInt8) :
    storeKernelBytes pcbs start (first ++ second) =
      (storeKernelBytes pcbs start first).bind fun middle =>
        storeKernelBytes middle (start + first.length) second := by
  induction first generalizing pcbs start with
  | nil => rfl
  | cons byte rest ih =>
      simp only [List.cons_append, storeKernelBytes, List.length_cons, Option.bind_assoc, ih]
      congr 1
      funext middle
      rw [Nat.add_right_comm, Nat.add_assoc]

/-- The longest argument string whose copy stays below `process_num` of the PCB
above the new one. -/
def maxArgsSpill : Nat := _8KB - Pcb.argsOffset + Pcb.processNumOffset

/-- Bytes stored from inside one block up to the descriptor table of the next
block leave every other PCB's saved context alone. -/
theorem storeKernelBytes_sameContext {pcbs after : PcbMemory} {base start : Nat}
    {bytes : List UInt8} (hbase : base % _8KB = 0) (hstart : base ≤ start)
    (hlength : start + bytes.length ≤ base + _8KB + Pcb.processNumOffset)
    (hstore : storeKernelBytes pcbs start bytes = some after) {addr : Nat}
    (haddr : addr % _8KB = 0) (hne : addr ≠ base) :
    Pcb.SameContext (pcbs addr) (after addr) := by
  induction bytes generalizing pcbs start with
  | nil =>
      obtain rfl := Option.some.inj hstore
      exact .refl _
  | cons byte rest ih =>
      simp only [storeKernelBytes, Option.bind_eq_some_iff] at hstore
      obtain ⟨middle, hbyte, hrest⟩ := hstore
      simp only [List.length_cons] at hlength
      have htail : Pcb.SameContext (middle addr) (after addr) := ih (by omega) (by omega) hrest
      refine Pcb.SameContext.trans ?_ htail
      unfold storeKernelByte at hbyte
      split at hbyte
      · obtain rfl := Option.some.inj hbyte
        by_cases hsame : addr = start / _8KB * _8KB
        · subst hsame
          rw [update_self]
          apply Pcb.sameContext_storeByte
          simp only [_8KB, Pcb.processNumOffset] at *
          omega
        · rw [update_of_ne hsame]
          exact .refl _
      · simp at hbyte

theorem getPCB_mod (curr : Nat) : getPCB curr % _8KB = 0 := by
  simp only [getPCB, _8MB, _8KB]
  omega

end Ece391
