import Mathlib.Algebra.Group.Int.Defs
import Mathlib.Algebra.Group.Nat.Defs
import Mathlib.Data.Fintype.Defs
import Mathlib.Data.Finset.Insert

/-! # Constants, machine words and the three terminals

Machine words are natural numbers; a place of the source that can wrap or
reads a word as signed says so with `u32` and `int32`.
-/

namespace Ece391

/-- The value of a 32-bit unsigned computation. -/
def u32 (value : Nat) : Nat := value % 2 ^ 32

/-- A signed value passed where the code expects an unsigned word. -/
def toU32 (value : Int) : Nat := (value % 2 ^ 32).toNat

/-- A 32-bit word read as `int`. -/
def int32 (word : Nat) : Int := if word < 2 ^ 31 then word else (word : Int) - 2 ^ 32

/-- Byte `index` of a little-endian word. -/
def wordByte (word index : Nat) : UInt8 := UInt8.ofNat (word / 256 ^ index % 256)

/-- A little-endian word with byte `index` replaced. -/
def setWordByte (word index : Nat) (byte : UInt8) : Nat :=
  word / 256 ^ (index + 1) * 256 ^ (index + 1) + byte.toNat * 256 ^ index + word % 256 ^ index

/-! ## Constants of `constants.h`, `sys_calls.h`, `lib.h` and `filesys.h` -/

def _128MB : Nat := 0x8000000
def _8MB : Nat := 0x800000
def _4MB : Nat := 0x400000
def _8KB : Nat := 0x2000
def PROG_LOAD_ADDR : Nat := 0x08048000
def USER_VID_ADDR : Nat := 0x08400000
def PAGE_MEM_SIZE : Nat := 0x1000
def MEM_SIZE_4kB : Nat := 0x1000
def MAP_MASK : Nat := 0x87
def VID_PAGE : Nat := 7
def MAX_PROCESS_COUNT : Nat := 6
def MAX_OPEN_FILES : Nat := 8
def MAX_ARGS : Nat := 127
def STDI_O : Nat := 2
def ONE_STACK_ENTRY : Nat := 4
def FILE_NAME_SIZE : Nat := 32

def FD_FLAG_PRESENT : Nat := 1
def FD_FLAG_FILE : Nat := 2
def FD_FLAG_DIRECTORY : Nat := 4
def FD_FLAG_RTC : Nat := 8

def NUM_COLS : Nat := 80
def NUM_ROWS : Nat := 25
def ATTRIB : UInt8 := 0x0A

/-- `NULL` as an address. -/
def NULL : Nat := 0

/-! ## Characters the code compares with -/

def NUL : UInt8 := 0
def SPACE_CHAR : UInt8 := 32
def NEWLINE : UInt8 := 10
def RETURN : UInt8 := 13

/-! ## Terminals -/

/-- The terminal numbers held by `curr_terminal` and `curr_scheduled`. -/
inductive Terminal where
  | T1
  | T2
  | T3
  deriving DecidableEq

instance : Fintype Terminal where
  elems := {.T1, .T2, .T3}
  complete t := by cases t <;> simp

namespace Terminal

/-- The number the source uses. -/
def num : Terminal → Nat
  | T1 => 1
  | T2 => 2
  | T3 => 3

/-- The terminal with a number, when there is one. -/
def ofNum : Nat → Option Terminal
  | 1 => some T1
  | 2 => some T2
  | 3 => some T3
  | _ => none

/-- `curr_scheduled%3+1`. -/
def next : Terminal → Terminal
  | T1 => T2
  | T2 => T3
  | T3 => T1

theorem num_next (t : Terminal) : t.next.num = t.num % 3 + 1 := by
  cases t <;> rfl

@[simp] theorem ofNum_num (t : Terminal) : ofNum t.num = some t := by
  cases t <;> rfl

theorem next_ne (t : Terminal) : t.next ≠ t := by
  cases t <;> decide

/-- Three ticks of the rotation come back to the same terminal. -/
theorem next_next_next (t : Terminal) : t.next.next.next = t := by
  cases t <;> rfl

end Terminal

end Ece391
