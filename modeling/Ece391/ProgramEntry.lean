import Ece391.SystemCallGate

/-! # Into a program and back

`execute` leaves its frame on the kernel stack of the caller and enters the new program through
a frame that it builds for `iret`. `halt` takes the old frame up again: it jumps behind the end
of `execute`, so that the caller's system call returns the status.
-/

namespace Ece391

open WordMemory

def USER_CS : BitVec 16 := 0x0023
def USER_DS : BitVec 16 := 0x002B

namespace Cpu

/-- The first two instructions of a C function. -/
def enterFunction (s : Cpu) : Cpu :=
  let s := s.push s.ebp
  { s with ebp := s.esp }

/-- `context_switch` in front of its frame. -/
def loadSelectors (s : Cpu) : Cpu :=
  let s := { s with eflags := s.eflags &&& ~~~0x200 }
  let s := { s with ebx := s.eax }
  let s :=
    { s with eax := s.eax &&& 0xFFFF0000 ||| USER_DS.setWidth 32, ds := USER_DS, es := USER_DS }
  { s with eax := s.esp }

/-- `pushfl`, `popl %edx` and `orl $0x200, %edx`. -/
def flagsToEdx (s : Cpu) : Cpu :=
  let s := s.push s.eflags
  let s := { s.drop 4 with edx := s.word 0 }
  { s with edx := s.edx ||| 0x200 }

/-- `context_switch`, called with the entry point in `eax`. -/
def contextSwitch (s : Cpu) : Cpu :=
  let s := s.loadSelectors
  let s := ((s.push (USER_DS.setWidth 32)).push 0x83FFFFC).flagsToEdx
  (((s.push s.edx).push (USER_CS.setWidth 32)).push s.ebx).iret

/-- `leave` and `ret`. -/
def reverseSystemCall (s : Cpu) : Cpu :=
  let s := { s with esp := s.ebp }
  let s := { s.drop 4 with ebp := s.word 0 }
  { s.drop 4 with eip := s.word 0 }

/-- The end of `halt`, with the registers that `execute` has stored in the PCB. -/
def haltJump (status esp ebp : Word) (s : Cpu) : Cpu :=
  reverseSystemCall { s with eax := status, esp := esp, ebp := ebp }

/-! ## Into the program -/

/-- How a program starts: the kernel's registers but for the selectors, the stack pointer below
132 MB and interrupts on. -/
def atEntry (s : Cpu) (mem : Memory) : Cpu :=
  { s with
    mem := mem, eax := s.esp, ebx := s.eax, edx := s.eflags ||| 0x200, esp := 0x83FFFFC
    eip := s.eax, eflags := s.eflags ||| 0x200
    cs := USER_CS, ss := USER_DS, ds := USER_DS, es := USER_DS }

variable {s : Cpu}

theorem setFlag_clear (flags mask : Word) : flags &&& ~~~mask ||| mask = flags ||| mask := by
  ext i hi
  simp only [BitVec.getElem_or, BitVec.getElem_and, BitVec.getElem_not]
  cases mask[i] <;> simp

/-- The flags go through the word below the stack. -/
theorem flagsToEdx_eq (s : Cpu) :
    s.flagsToEdx = { s with mem := (s.push s.eflags).mem, edx := s.eflags ||| 0x200 } := by
  have hesp : s.esp - 4 + (4 : Nat) = s.esp := sub_add_cancel s.esp 4
  have htop : (s.push s.eflags).word 0 = s.eflags := by
    rw [word, Nat.cast_zero, add_zero]
    exact loadWord_storeWord s.mem (s.esp - 4) s.eflags
  calc s.flagsToEdx = { s with
        mem := (s.push s.eflags).mem, edx := (s.push s.eflags).word 0 ||| 0x200
        esp := s.esp - 4 + (4 : Nat) } := rfl
    _ = { s with mem := (s.push s.eflags).mem, edx := s.eflags ||| 0x200 } := by rw [hesp, htop]

/-- That word is the one that is pushed next. -/
theorem flagsToEdx_push (s : Cpu) (value : Word) :
    s.flagsToEdx.push value = { s.push value with edx := s.eflags ||| 0x200 } := by
  have hmem : storeWord (s.push s.eflags).mem (s.esp - 4) value =
      storeWord s.mem (s.esp - 4) value :=
    storeWord_storeWord s.mem (s.esp - 4) s.eflags value
  rw [flagsToEdx_eq, push, hmem]
  rfl

/-- The frame for `iret`. -/
def entryFrame (s : Cpu) : Cpu :=
  ((((s.push (USER_DS.setWidth 32)).push 0x83FFFFC).push (s.eflags ||| 0x200)).push
    (USER_CS.setWidth 32)).push s.eax

theorem entryFrame_pushed (s : Cpu) : s.Pushed s.entryFrame 20 :=
  have hstart : s.Pushed s 0 := ⟨by simp, fun _ _ => rfl⟩
  ((((hstart.push _).push _).push _).push _).push _

/-- `context_switch` from the kernel enters a program; memory changes in the 20 bytes below the
stack pointer. -/
theorem contextSwitch_enters (hkernel : s.cs = KERNEL_CS) :
    s.contextSwitch = s.atEntry s.entryFrame.mem ∧
      ∀ a, (∀ i < 20, a ≠ s.esp - (20 : Nat) + (i : Nat)) → s.entryFrame.mem a = s.mem a := by
  refine ⟨?_, s.entryFrame_pushed.mem⟩
  have hframe : s.entryFrame.Holds
      [s.eax, USER_CS.setWidth 32, s.eflags ||| 0x200, 0x83FFFFC, USER_DS.setWidth 32] :=
    (((((Holds.nil s).push _ (by simp)).push _ (by simp)).push _ (by simp)).push _ (by simp)).push _
      (by simp)
  -- `cli` is undone in the flags that `iret` takes: `orl $0x200, %edx` sets the same bit
  have hflags : s.loadSelectors.eflags ||| 0x200 = s.eflags ||| 0x200 :=
    setFlag_clear s.eflags 0x200
  have hpushes : s.contextSwitch = ({ s.entryFrame with
      eax := s.esp, ebx := s.eax, edx := s.eflags ||| 0x200, eflags := s.loadSelectors.eflags
      ds := USER_DS, es := USER_DS } : Cpu).iret := by
    have hedx := flagsToEdx_eq ((s.loadSelectors.push (USER_DS.setWidth 32)).push 0x83FFFFC)
    rw [contextSwitch, flagsToEdx_push, hedx]
    change Cpu.iret { ((((s.push (USER_DS.setWidth 32)).push 0x83FFFFC).push
      (s.loadSelectors.eflags ||| 0x200)).push (USER_CS.setWidth 32)).push s.eax with
        eax := s.esp, ebx := s.eax, edx := s.loadSelectors.eflags ||| 0x200
        eflags := s.loadSelectors.eflags, ds := USER_DS, es := USER_DS } = _
    rw [hflags]
    rfl
  -- the frame is one of user mode, with stack pointer and segment
  have houter : (s.atEntry s.entryFrame.mem).cs &&& 3 ≠ 0 := (by decide : USER_CS &&& 3 ≠ 0)
  have hframe' : ({ s.entryFrame with
      eax := s.esp, ebx := s.eax, edx := s.eflags ||| 0x200, eflags := s.loadSelectors.eflags
      ds := USER_DS, es := USER_DS } : Cpu).Holds (s.atEntry s.entryFrame.mem).frame := by
    rw [frame, if_neg houter]
    exact hframe
  rw [hpushes, iret_eq hframe' hkernel fun hinner => absurd hinner houter]
  rfl

/-! ## Back to the caller -/

/-- The frame of `execute` and what the gate has saved behind the arguments are as they were. -/
structure FrameKept (k : Cpu) (mem after : Memory) : Prop where
  frame : SameBytes mem after (k.esp - 4) 8
  saved : SameBytes mem after (k.esp + (16 : Nat)) 40

/-- `halt` returns in the place of the `execute` whose frame it takes up. -/
theorem haltJump_goesBack {k halted : Cpu} (status esp : Word) (hcs : halted.cs = k.cs)
    (hkept : k.FrameKept k.enterFunction.mem halted.mem) :
    k.GoesBack (halted.haltJump status esp k.enterFunction.ebp) where
  eip := by
    have hword := k.push_word k.ebp (by decide : 0 < 100)
    have hsame : SameBytes k.enterFunction.mem halted.mem (k.esp - 4 + (4 : Nat)) 4 :=
      hkept.frame.part (by decide)
    calc (halted.haltJump status esp k.enterFunction.ebp).eip
        = loadWord halted.mem (k.esp - 4 + (4 : Nat) + (0 : Nat)) := rfl
      _ = loadWord halted.mem (k.esp - 4 + (4 : Nat)) := by rw [Nat.cast_zero, add_zero]
      _ = loadWord k.enterFunction.mem (k.esp - 4 + (4 : Nat)) := hsame.loadWord_eq
      _ = k.word 0 := hword
  esp := by
    have hesp : k.esp - 4 + (4 : Nat) = k.esp := sub_add_cancel k.esp 4
    change k.esp - 4 + (4 : Nat) + (4 : Nat) = k.esp + 4
    rw [hesp]
    rfl
  cs := hcs
  stack := by
    -- `execute` pushes `ebp` below its return address
    have hpushed : SameBytes k.mem k.enterFunction.mem k.esp 56 :=
      storeWord_sameBytes k.mem k.esp k.ebp (by decide)
    exact (hpushed.part (by decide)).trans hkept.saved

/-- What is pushed lies below everything on the stack. -/
theorem Pushed.sameBytes {after : Cpu} {bytes offset count : Nat} (hpushed : s.Pushed after bytes)
    (hle : bytes + offset + count ≤ 2 ^ 32) :
    SameBytes s.mem after.mem (s.esp + (offset : Nat)) count := by
  intro i hi
  apply hpushed.mem
  -- a byte of both would lie at two distances from the last byte pushed
  intro j hj heq
  have hstart : s.esp - (bytes : Nat) + (bytes + (offset + i) : Nat) =
      s.esp - (bytes : Nat) + (j : Nat) := by
    rw [← heq, Nat.cast_add, ← add_assoc, sub_add_cancel, Nat.cast_add, add_assoc]
  have hsame := word_distinct (le_refl (2 ^ 32)) _ _ _ (by omega) (by omega) hstart
  omega

/-- `execute` up to `context_switch`: its frame is made, and its locals and the call lie in
`room` bytes below. -/
structure ExecuteBody (k prepared : Cpu) (entry : Word) (room : Nat) : Prop where
  eax : prepared.eax = entry
  cs : prepared.cs = KERNEL_CS
  esp : prepared.esp = k.esp - 4 - (room : Nat)
  room : room ≤ 0x2000
  kept : k.FrameKept k.enterFunction.mem prepared.mem

/-- The frame for `iret` lies below the frame of `execute`. -/
theorem ExecuteBody.entered {k prepared : Cpu} {entry : Word} {room : Nat}
    (hbody : ExecuteBody k prepared entry room) :
    k.FrameKept k.enterFunction.mem prepared.entryFrame.mem := by
  have hpushed := prepared.entryFrame_pushed
  have hroom := hbody.room
  have hframe : k.esp - 4 = prepared.esp + (room : Nat) := by
    rw [hbody.esp, sub_add_cancel]
  have hsaved : k.esp + (16 : Nat) = prepared.esp + (room + 20 : Nat) := by
    have htwenty : k.esp - 4 + (20 : Nat) = k.esp + (16 : Nat) := by
      rw [sub_add_eq_add_sub, add_sub_assoc]
      rfl
    rw [Nat.cast_add, ← add_assoc, ← hframe, htwenty]
  constructor
  · have hbeside : SameBytes prepared.mem prepared.entryFrame.mem (k.esp - 4) 8 := by
      rw [hframe]
      exact hpushed.sameBytes (by omega)
    exact hbody.kept.frame.trans hbeside
  · have hbeside : SameBytes prepared.mem prepared.entryFrame.mem (k.esp + (16 : Nat)) 40 := by
      rw [hsaved]
      exact hpushed.sameBytes (by omega)
    exact hbody.kept.saved.trans hbeside

end Cpu

section Execute

variable {kernel : SysCall → Cpu → Cpu} {here esp0 next entry status esp : Word}
  {s k prepared : Cpu} {room : Nat} {child : Cpu → Cpu}

/-- `execute` starts the program in user mode at its entry point, and whatever happens between
this and the `halt` of the program, which leaves the frame of `execute` alone, the wrapper of the
caller returns the status with all registers that a C function saves. -/
theorem execute_returns (huser : s.cs &&& 3 ≠ 0)
    (hk : (s.loadCall SysCall.execute.number next).inGate here esp0 = k)
    (hbody : Cpu.ExecuteBody k prepared entry room)
    (hexecute : kernel .execute k =
      (child prepared.contextSwitch).haltJump status esp k.enterFunction.ebp)
    (hcs : (child prepared.contextSwitch).cs = KERNEL_CS)
    (hframe : k.FrameKept prepared.contextSwitch.mem (child prepared.contextSwitch).mem)
    (hstack : SameBytes (s.loadCall SysCall.execute.number next).mem
      (child prepared.contextSwitch).mem (s.esp - 4) 8) :
    prepared.contextSwitch = prepared.atEntry prepared.entryFrame.mem ∧
      prepared.contextSwitch.eip = entry ∧
      doCall (int80 kernel here esp0) SysCall.execute.number next s = { s with
        mem := (child prepared.contextSwitch).mem
        eax := status
        ecx := (kernel .execute k).word 4
        edx := (kernel .execute k).word 8
        esp := s.esp + 4
        eip := s.word 0 } := by
  obtain ⟨henters, -⟩ := Cpu.contextSwitch_enters hbody.cs
  have hkernel : k.cs = KERNEL_CS := by
    rw [← hk]
    rfl
  -- from the frame of `execute` to its end: first the body, then the program
  have hkept : k.FrameKept k.enterFunction.mem (child prepared.contextSwitch).mem := by
    have hentered := hbody.entered
    rw [henters] at hframe ⊢
    exact ⟨hentered.frame.trans hframe.frame, hentered.saved.trans hframe.saved⟩
  have hback : k.GoesBack (kernel .execute k) := by
    rw [hexecute]
    exact Cpu.haltJump_goesBack status esp (hcs.trans hkernel.symm) hkept
  have hmem : (kernel .execute k).mem = (child prepared.contextSwitch).mem := by
    rw [hexecute]
    rfl
  have hstatus : (kernel .execute k).eax = status := by
    rw [hexecute]
    rfl
  obtain ⟨-, hcall⟩ := doCall_goesOn huser .execute hk hback (by rw [hmem]; exact hstack)
  refine ⟨henters, ?_, ?_⟩
  · rw [henters]
    exact hbody.eax
  · rw [hcall, hmem, hstatus]

/-- An `execute` with a frame of 200 bytes, and a program that halts at once. -/
def Cpu.prepareAt (entry : Word) (k : Cpu) : Cpu :=
  { k.enterFunction with eax := entry, esp := k.esp - 4 - (200 : Nat) }

def haltsAtOnce (status : Word) (k : Cpu) : Cpu :=
  ({ (k.prepareAt 0x8048094).contextSwitch with cs := KERNEL_CS } : Cpu).haltJump status 0
    k.enterFunction.ebp

theorem execute_returns_seven :
    (doCall (int80 (fun _ => haltsAtOnce 7) 0x400000 0x800000) SysCall.execute.number 0x8048100
      userCpu).eax = 7 := by
  -- with a variable for the processor in the gate, only memory is left to evaluate
  have hreturns : ∀ k : Cpu,
      (userCpu.loadCall SysCall.execute.number 0x8048100).inGate 0x400000 0x800000 = k →
      SameBytes (userCpu.loadCall SysCall.execute.number 0x8048100).mem
        (k.prepareAt 0x8048094).contextSwitch.mem (userCpu.esp - 4) 8 →
      (doCall (int80 (fun _ => haltsAtOnce 7) 0x400000 0x800000) SysCall.execute.number 0x8048100
        userCpu).eax = 7 := by
    intro k hk hstack
    have hcs : k.cs = KERNEL_CS := by
      rw [← hk]
      rfl
    have hbody : Cpu.ExecuteBody k (k.prepareAt 0x8048094) 0x8048094 200 :=
      ⟨rfl, hcs, rfl, by decide, ⟨fun _ _ => rfl, fun _ _ => rfl⟩⟩
    obtain ⟨-, -, hcall⟩ := @execute_returns (fun _ => haltsAtOnce 7) 0x400000 0x800000 0x8048100
      0x8048094 7 0 userCpu k (k.prepareAt 0x8048094) 200 (fun u => { u with cs := KERNEL_CS })
      (by decide) hk hbody rfl rfl ⟨fun _ _ => rfl, fun _ _ => rfl⟩ hstack
    rw [hcall]
  refine hreturns _ rfl ?_
  unfold SameBytes
  decide +kernel

end Execute

end Ece391
