import Ece391.Lib.WordMemory
import Mathlib.Tactic.Ring

/-! # The gate between programs and the kernel

A program calls the kernel through a wrapper that loads a number and three arguments and
executes `INT $0x80`; the kernel saves its registers, calls the function of the number, and
returns. Interrupts come through the same kind of frame. The functions of the kernel are C
functions, and of them only the convention of the compiler is used.
-/

namespace Ece391

open WordMemory

/-! ## The processor -/

/-- The registers, and memory. -/
@[ext]
structure Cpu where
  mem : Memory
  eax : Word
  ebx : Word
  ecx : Word
  edx : Word
  esi : Word
  edi : Word
  ebp : Word
  esp : Word
  eip : Word
  eflags : Word
  cs : BitVec 16
  ss : BitVec 16
  ds : BitVec 16
  es : BitVec 16

def KERNEL_CS : BitVec 16 := 0x0010
def KERNEL_DS : BitVec 16 := 0x0018

namespace Cpu

def push (s : Cpu) (value : Word) : Cpu :=
  { s with esp := s.esp - 4, mem := storeWord s.mem (s.esp - 4) value }

/-- The word at an offset from the top of the stack. -/
def word (s : Cpu) (offset : Nat) : Word := loadWord s.mem (s.esp + (offset : Nat))

def drop (s : Cpu) (bytes : Nat) : Cpu := { s with esp := s.esp + (bytes : Nat) }

/-- From a program the stack of the task segment is taken. -/
def enterKernel (esp0 : Word) (s : Cpu) : Cpu :=
  if s.cs &&& 3 = 0 then s
  else ({ s with esp := esp0, ss := KERNEL_DS }.push (s.ss.setWidth 32)).push s.esp

/-- What the processor does on an interrupt and on `INT`. `trap` is `reserved3` of the
descriptor. -/
def interrupt (esp0 : Word) (trap : Bool) (s : Cpu) : Cpu :=
  { (((s.enterKernel esp0).push s.eflags).push (s.cs.setWidth 32)).push s.eip with
    cs := KERNEL_CS
    eflags := if trap then s.eflags else s.eflags &&& ~~~0x200 }

def iret (s : Cpu) : Cpu :=
  let returned := { s.drop 12 with
    eip := s.word 0, cs := (s.word 4).setWidth 16, eflags := s.word 8 }
  if returned.cs &&& 3 = s.cs &&& 3 then returned
  else { returned with esp := s.word 12, ss := (s.word 16).setWidth 16 }

/-! ## `assembly_linkage.S` -/

def saveRegs (s : Cpu) : Cpu :=
  (((((((s.push (s.es.setWidth 32)).push (s.ds.setWidth 32)).push s.edi).push s.esi).push
    s.ebp).push s.edx).push s.ecx).push s.ebx

def restoreRegs (s : Cpu) : Cpu :=
  { s.drop 32 with
    ebx := s.word 0
    ecx := s.word 4
    edx := s.word 8
    ebp := s.word 12
    esi := s.word 16
    edi := s.word 20
    ds := (s.word 24).setWidth 16
    es := (s.word 28).setWidth 16 }

/-- `keyboard_assembly` and `rtc_assembly`, behind the call and in front of it. -/
def saveAllRegs (s : Cpu) : Cpu :=
  ((((((((s.push (s.es.setWidth 32)).push (s.ds.setWidth 32)).push s.edi).push s.esi).push
    s.eax).push s.ebx).push s.ecx).push s.edx).push s.ebp

def restoreAllRegs (s : Cpu) : Cpu :=
  { s.drop 36 with
    ebp := s.word 0
    edx := s.word 4
    ecx := s.word 8
    ebx := s.word 12
    eax := s.word 16
    esi := s.word 20
    edi := s.word 24
    ds := (s.word 28).setWidth 16
    es := (s.word 32).setWidth 16 }

end Cpu

/-- The system calls. -/
inductive SysCall where
  | halt
  | execute
  | read
  | write
  | open_
  | close
  | getargs
  | vidmap
  | setHandler
  | sigreturn
  deriving DecidableEq

/-- `sys_call_table`. -/
def sysCallTable : List (Option SysCall) :=
  [none, some .halt, some .execute, some .read, some .write, some .open_, some .close,
    some .getargs, some .vidmap, some .setHandler, some .sigreturn]

/-- `ece391sysnum.h`. -/
def SysCall.number : SysCall → Word
  | halt => 1
  | execute => 2
  | read => 3
  | write => 4
  | open_ => 5
  | close => 6
  | getargs => 7
  | vidmap => 8
  | setHandler => 9
  | sigreturn => 10

/-- `system_calls_assembly` up to `iret`. `kernel` gives the functions of the kernel, from
their first instruction to behind their return to `here`. -/
def systemCallsAssembly (kernel : SysCall → Cpu → Cpu) (here : Word) (s : Cpu) : Cpu :=
  let s := s.saveRegs
  let s :=
    if s.eax.toInt < 1 ∨ s.eax.toInt > 10 then { s with eax := -1 }
    else match sysCallTable[s.eax.toNat]?.join with
      | some call => kernel call (s.push here)
      | none => s
  s.restoreRegs

/-- `INT $0x80` in a program. -/
def int80 (kernel : SysCall → Cpu → Cpu) (here esp0 : Word) (s : Cpu) : Cpu :=
  (systemCallsAssembly kernel here (s.interrupt esp0 true)).iret

/-- The state in which a function of the kernel starts. -/
def Cpu.inGate (here esp0 : Word) (s : Cpu) : Cpu :=
  (s.interrupt esp0 true).saveRegs.push here

/-- `DO_CALL` up to `INT`, called as a C function; `next` is behind `INT`. -/
def Cpu.loadCall (number next : Word) (s : Cpu) : Cpu :=
  let s := s.push s.ebx
  { s with eax := number, ebx := s.word 8, ecx := s.word 12, edx := s.word 16, eip := next }

/-- `DO_CALL`. -/
def doCall (gate : Cpu → Cpu) (number next : Word) (s : Cpu) : Cpu :=
  let s := gate (s.loadCall number next)
  { s.drop 8 with ebx := s.word 0, eip := s.word 4 }

/-- `_start` behind `main` and up to `ece391_halt`. -/
def Cpu.exitMain (back : Word) (s : Cpu) : Cpu :=
  (((s.push 0).push 0).push s.eax).push back

/-- `keyboard_assembly` and `rtc_assembly` up to the handler. -/
def Cpu.inHandler (here esp0 : Word) (s : Cpu) : Cpu :=
  (s.interrupt esp0 false).saveAllRegs.push here

/-- `keyboard_assembly` and `rtc_assembly`. -/
def interruptAssembly (handler : Cpu → Cpu) (here esp0 : Word) (s : Cpu) : Cpu :=
  (handler (s.inHandler here esp0)).restoreAllRegs.iret

/-- `pit_assembly`, which closes interrupts itself and opens them before `iret`. -/
def pitAssembly (handler : Cpu → Cpu) (here esp0 : Word) (s : Cpu) : Cpu :=
  let s := handler (s.inHandler here esp0)
  let s := s.restoreAllRegs
  Cpu.iret { s with eflags := s.eflags ||| 0x200 }

/-! ## C functions -/

/-- A C function with so many arguments has returned: the registers that it saves are as they
were, and so are `room` bytes of the stack above its arguments. -/
structure Returns (args room : Nat) (s after : Cpu) : Prop where
  eip : after.eip = s.word 0
  esp : after.esp = s.esp + 4
  ebx : after.ebx = s.ebx
  esi : after.esi = s.esi
  edi : after.edi = s.edi
  ebp : after.ebp = s.ebp
  cs : after.cs = s.cs
  ss : after.ss = s.ss
  ds : after.ds = s.ds
  es : after.es = s.es
  stack : SameBytes s.mem after.mem (s.esp + (4 + 4 * args : Nat)) room

/-- A function that returns a value and does nothing else. -/
def Cpu.ret (s : Cpu) (value : Word) : Cpu :=
  { s with eax := value, eip := s.word 0, esp := s.esp + 4 }

theorem Cpu.ret_returns (args room : Nat) (s : Cpu) (value : Word) :
    Returns args room s (s.ret value) :=
  ⟨rfl, rfl, rfl, rfl, rfl, rfl, rfl, rfl, rfl, rfl, fun _ _ => rfl⟩

/-- A function that goes over to another stack and returns there. -/
theorem Cpu.ret_switched {args room : Nat} {s : Cpu} {mem : Word → UInt8}
    (hword : SameBytes s.mem mem s.esp 4)
    (hstack : SameBytes s.mem mem (s.esp + (4 + 4 * args : Nat)) room) :
    Returns args room s (({ s with mem := mem } : Cpu).ret 0) := by
  refine ⟨?_, rfl, rfl, rfl, rfl, rfl, rfl, rfl, rfl, rfl, hstack⟩
  rw [Cpu.ret, Cpu.word, Cpu.word, Nat.cast_zero, add_zero]
  exact hword.loadWord_eq

/-- What the gate needs of a function of the kernel: it returns into the gate, and what the gate
has saved behind the arguments is as it was. -/
structure Cpu.GoesBack (k after : Cpu) : Prop where
  eip : after.eip = k.word 0
  esp : after.esp = k.esp + 4
  cs : after.cs = k.cs
  stack : SameBytes k.mem after.mem (k.esp + (16 : Nat)) 40

theorem Returns.goesBack {k after : Cpu} (hreturns : Returns 3 40 k after) : k.GoesBack after :=
  ⟨hreturns.eip, hreturns.esp, hreturns.cs, hreturns.stack⟩

/-- A program on its stack, in empty memory. -/
def userCpu : Cpu where
  mem _ := 0
  eax := 11
  ebx := 1
  ecx := 2
  edx := 3
  esi := 4
  edi := 5
  ebp := 0x83FFFF0
  esp := 0x83FFFE0
  eip := 0x8048094
  eflags := 0x202
  cs := 0x23
  ss := 0x2B
  ds := 0x2B
  es := 0x2B

/-! ## Frames -/

section Frames

variable {s after u : Cpu} {words : List Word} {esp0 here : Word} {trap : Bool}

/-- The words stand on the stack. -/
def Cpu.Holds (s : Cpu) (words : List Word) : Prop := Stacked s.mem s.esp words

theorem Cpu.Holds.push (hs : s.Holds words) (value : Word) (hlen : words.length < 100) :
    (s.push value).Holds (value :: words) := Stacked.push hs value (by omega)

theorem Cpu.Holds.congr (hs : s.Holds words) (hmem : after.mem = s.mem) (hesp : after.esp = s.esp) :
    after.Holds words := by
  rw [Holds, hmem, hesp]
  exact hs

theorem Cpu.Holds.nil (s : Cpu) : s.Holds [] := fun _ hi => absurd hi (Nat.not_lt_zero _)

/-- The frame of an interrupt. -/
def Cpu.frame (u : Cpu) : List Word :=
  [u.eip, u.cs.setWidth 32, u.eflags] ++
    if u.cs &&& 3 = 0 then [] else [u.esp, u.ss.setWidth 32]

/-- The registers that `saveRegs` leaves above the arguments. -/
def Cpu.kept (u : Cpu) : List Word :=
  [u.ebp, u.esi, u.edi, u.ds.setWidth 32, u.es.setWidth 32]

theorem Cpu.enterKernel_holds (u : Cpu) (esp0 : Word) :
    (u.enterKernel esp0).Holds (if u.cs &&& 3 = 0 then [] else [u.esp, u.ss.setWidth 32]) := by
  unfold enterKernel
  split
  · exact Holds.nil u
  · exact ((Holds.nil _).push _ (by simp)).push _ (by simp)

theorem Cpu.interrupt_holds (u : Cpu) (esp0 : Word) (trap : Bool) :
    (u.interrupt esp0 trap).Holds u.frame := by
  have hinner := u.enterKernel_holds esp0
  have hshort : (if u.cs &&& 3 = 0 then [] else [u.esp, u.ss.setWidth 32]).length ≤ 2 := by
    split <;> simp
  unfold frame
  generalize (if u.cs &&& 3 = 0 then [] else [u.esp, u.ss.setWidth 32]) = words at *
  have hflags := hinner.push u.eflags (by omega)
  have hcs := hflags.push (u.cs.setWidth 32) (by rw [List.length_cons]; omega)
  have heip := hcs.push u.eip (by simp only [List.length_cons]; omega)
  exact heip.congr rfl rfl

theorem Cpu.saveRegs_eq (s : Cpu) :
    s.saveRegs = { s with mem := s.saveRegs.mem, esp := s.esp - 32 } := by
  have hesp : s.saveRegs.esp = s.esp - 32 := by
    simp only [saveRegs, push, sub_sub]
    rfl
  calc s.saveRegs = { s with mem := s.saveRegs.mem, esp := s.saveRegs.esp } := rfl
    _ = { s with mem := s.saveRegs.mem, esp := s.esp - 32 } := by rw [hesp]

theorem Cpu.Holds.saveRegs (hs : s.Holds words) (hlen : words.length < 50) :
    s.saveRegs.Holds (s.ebx :: s.ecx :: s.edx :: (s.kept ++ words)) := by
  have hes := hs.push (s.es.setWidth 32) (by omega)
  have hds := hes.push (s.ds.setWidth 32) (by simp only [List.length_cons]; omega)
  have hedi := hds.push s.edi (by simp only [List.length_cons]; omega)
  have hesi := hedi.push s.esi (by simp only [List.length_cons]; omega)
  have hebp := hesi.push s.ebp (by simp only [List.length_cons]; omega)
  have hedx := hebp.push s.edx (by simp only [List.length_cons]; omega)
  have hecx := hedx.push s.ecx (by simp only [List.length_cons]; omega)
  exact hecx.push s.ebx (by simp only [List.length_cons]; omega)

theorem Cpu.word_of_stacked {offset : Nat}
    (hs : Stacked s.mem (s.esp + (offset : Nat)) words) (i : Nat)
    (hi : i < words.length) : s.word (offset + 4 * i) = words[i] := by
  rw [word, Nat.cast_add, ← add_assoc]
  exact hs i hi

theorem setWidth_selector (selector : BitVec 16) :
    (selector.setWidth 32).setWidth 16 = selector := by
  rw [BitVec.setWidth_setWidth_of_le _ (by decide), BitVec.setWidth_eq]

/-- What `restoreRegs` finds above the arguments. -/
theorem Cpu.restoreRegs_eq (hs : Stacked s.mem (s.esp + (12 : Nat)) u.kept) :
    s.restoreRegs = { s with
      ebx := s.word 0, ecx := s.word 4, edx := s.word 8, ebp := u.ebp, esi := u.esi, edi := u.edi,
      ds := u.ds, es := u.es, esp := s.esp + 32 } := by
  have hebp : s.word 12 = u.ebp := word_of_stacked hs 0 (by simp [kept])
  have hesi : s.word 16 = u.esi := word_of_stacked hs 1 (by simp [kept])
  have hedi : s.word 20 = u.edi := word_of_stacked hs 2 (by simp [kept])
  have hds : s.word 24 = u.ds.setWidth 32 := word_of_stacked hs 3 (by simp [kept])
  have hes : s.word 28 = u.es.setWidth 32 := word_of_stacked hs 4 (by simp [kept])
  rw [restoreRegs, hebp, hesi, hedi, hds, hes, setWidth_selector, setWidth_selector]
  rfl

/-- `iret` returns to where the frame comes from. -/
theorem Cpu.iret_eq (hs : s.Holds u.frame) (hcs : s.cs = KERNEL_CS)
    (hinner : u.cs &&& 3 = 0 → s.esp + 12 = u.esp ∧ s.ss = u.ss) :
    s.iret = { s with
      eip := u.eip, cs := u.cs, eflags := u.eflags, esp := u.esp, ss := u.ss } := by
  have hstack : Stacked s.mem (s.esp + (0 : Nat)) u.frame := by
    rw [Nat.cast_zero, add_zero]
    exact hs
  have heip : s.word 0 = u.eip := word_of_stacked hstack 0 (by simp [frame])
  have hword : s.word 4 = u.cs.setWidth 32 := word_of_stacked hstack 1 (by simp [frame])
  have hflags : s.word 8 = u.eflags := word_of_stacked hstack 2 (by simp [frame])
  have hkernel : s.cs &&& 3 = 0 := by
    rw [hcs]
    decide
  unfold iret
  dsimp only
  rw [heip, hword, hflags, setWidth_selector, hkernel]
  split
  · next hcpl =>
    obtain ⟨hesp, hss⟩ := hinner hcpl
    rw [← hesp, ← hss]
    rfl
  · next hcpl =>
    have hframe : u.frame = [u.eip, u.cs.setWidth 32, u.eflags, u.esp, u.ss.setWidth 32] := by
      rw [frame, if_neg hcpl]
      rfl
    rw [hframe] at hstack
    have hesp : s.word 12 = u.esp := word_of_stacked hstack 3 (by simp)
    have hss : s.word 16 = u.ss.setWidth 32 := word_of_stacked hstack 4 (by simp)
    rw [hesp, hss, setWidth_selector]
    rfl

/-- Words were pushed, and memory is the same beside them. -/
structure Cpu.Pushed (s after : Cpu) (bytes : Nat) : Prop where
  esp : after.esp = s.esp - (bytes : Nat)
  mem : ∀ a, (∀ i < bytes, a ≠ s.esp - (bytes : Nat) + (i : Nat)) → after.mem a = s.mem a

theorem Cpu.Pushed.push {bytes : Nat} (hpushed : s.Pushed after bytes) (value : Word) :
    s.Pushed (after.push value) (bytes + 4) where
  esp := by
    rw [Cpu.push, hpushed.esp, Nat.cast_add, sub_sub]
    rfl
  mem a hout := by
    have hstart : after.esp - 4 = s.esp - (bytes + 4 : Nat) := by
      rw [hpushed.esp, Nat.cast_add, sub_sub]
      rfl
    have hbeside : ∀ i < 4, a ≠ after.esp - 4 + (i : Nat) := by
      rw [hstart]
      exact fun i hi => hout i (by omega)
    refine (Overwrite.overwrite_outside hbeside).trans ?_
    refine hpushed.mem a fun i hi heq => hout (4 + i) (by omega) ?_
    rw [heq, Nat.cast_add, Nat.cast_add, add_comm (bytes : Word), ← sub_sub, Nat.cast_ofNat,
      ← add_assoc, sub_right_comm, sub_add_cancel]

theorem Cpu.saveRegs_pushed {bytes : Nat} (hpushed : s.Pushed after bytes) :
    s.Pushed after.saveRegs (bytes + 32) :=
  (((((((hpushed.push _).push _).push _).push _).push _).push _).push _).push _

/-- From the saved registers and the frame above them a program goes on. -/
theorem Cpu.leave (huser : u.cs &&& 3 ≠ 0) (hcs : s.cs = KERNEL_CS)
    (hs : Stacked s.mem (s.esp + (12 : Nat)) (u.kept ++ u.frame)) :
    s.restoreRegs.iret = { u with
      mem := s.mem, eax := s.eax, ebx := s.word 0, ecx := s.word 4, edx := s.word 8 } := by
  have hkept : Stacked s.mem (s.esp + (12 : Nat)) u.kept := by
    intro i hi
    rw [hs i (by rw [List.length_append]; omega), List.getElem_append_left hi]
  have hframe : s.restoreRegs.Holds u.frame := by
    have hbehind := hs.behind
    rw [add_assoc] at hbehind
    exact hbehind
  rw [iret_eq hframe hcs fun hcpl => absurd hcpl huser, restoreRegs_eq hkept]

theorem Cpu.interrupt_eq (u : Cpu) (esp0 : Word) (trap : Bool) :
    u.interrupt esp0 trap = { u with
      mem := (u.interrupt esp0 trap).mem, esp := (u.interrupt esp0 trap).esp,
      eflags := (u.interrupt esp0 trap).eflags, cs := KERNEL_CS,
      ss := (u.interrupt esp0 trap).ss } := by
  have hinner : u.enterKernel esp0 = { u with
      mem := (u.enterKernel esp0).mem, esp := (u.enterKernel esp0).esp,
      ss := (u.enterKernel esp0).ss } := by
    unfold enterKernel
    split <;> rfl
  rw [interrupt, hinner]
  rfl

end Frames

/-! ## System calls -/

section Calls

variable {kernel : SysCall → Cpu → Cpu} {here esp0 next : Word} {u : Cpu}

theorem Cpu.frame_length (u : Cpu) : u.frame.length < 6 := by
  unfold frame
  split <;> simp

/-- What stands on the stack of the kernel when the registers are saved. -/
theorem Cpu.saved_holds (u : Cpu) (esp0 : Word) :
    (u.interrupt esp0 true).saveRegs.Holds (u.ebx :: u.ecx :: u.edx :: (u.kept ++ u.frame)) := by
  have hsaved := (u.interrupt_holds esp0 true).saveRegs (u.frame_length.trans (by decide))
  rw [u.interrupt_eq esp0 true] at hsaved ⊢
  exact hsaved

theorem Cpu.inGate_holds (u : Cpu) (here esp0 : Word) :
    (u.inGate here esp0).Holds (here :: u.ebx :: u.ecx :: u.edx :: (u.kept ++ u.frame)) := by
  refine (u.saved_holds esp0).push here ?_
  have hframe := u.frame_length
  simp only [List.length_cons, List.length_append, kept, List.length_nil]
  omega

/-- The arguments of the function are the three registers. -/
theorem Cpu.inGate_args (u : Cpu) (here esp0 : Word) :
    (u.inGate here esp0).word 4 = u.ebx ∧ (u.inGate here esp0).word 8 = u.ecx ∧
      (u.inGate here esp0).word 12 = u.edx := by
  have hstack : Stacked (u.inGate here esp0).mem ((u.inGate here esp0).esp + (0 : Nat))
      (here :: u.ebx :: u.ecx :: u.edx :: (u.kept ++ u.frame)) := by
    rw [Nat.cast_zero, add_zero]
    exact u.inGate_holds here esp0
  exact ⟨word_of_stacked hstack 1 (by simp), word_of_stacked hstack 2 (by simp),
    word_of_stacked hstack 3 (by simp)⟩

theorem SysCall.number_spec (call : SysCall) :
    ¬ (call.number.toInt < 1 ∨ call.number.toInt > 10) ∧
      sysCallTable[call.number.toNat]?.join = some call := by
  cases call <;> decide

theorem Cpu.saved_mem (huser : u.cs &&& 3 ≠ 0) {a : Word}
    (hout : ∀ i < 52, a ≠ esp0 - (52 : Nat) + (i : Nat)) :
    (u.interrupt esp0 true).saveRegs.mem a = u.mem a := by
  have hstart : Pushed { u with esp := esp0, ss := KERNEL_DS }
      { u with esp := esp0, ss := KERNEL_DS } 0 := ⟨by simp, fun _ _ => rfl⟩
  have hinner := (hstart.push (u.ss.setWidth 32)).push u.esp
  have hframe := ((hinner.push u.eflags).push (u.cs.setWidth 32)).push u.eip
  have henter : u.enterKernel esp0 =
      ({ u with esp := esp0, ss := KERNEL_DS }.push (u.ss.setWidth 32)).push u.esp := if_neg huser
  rw [← henter] at hframe
  have hentered : Pushed { u with esp := esp0, ss := KERNEL_DS } (u.interrupt esp0 true) 20 :=
    ⟨hframe.esp, hframe.mem⟩
  exact (saveRegs_pushed hentered).mem a hout

theorem Cpu.iret_eax (s : Cpu) : s.iret.eax = s.eax := by
  unfold Cpu.iret
  dsimp only
  split <;> rfl

theorem int80_eax (hnumber : u.eax.toInt < 1 ∨ u.eax.toInt > 10) :
    (int80 kernel here esp0 u).eax = -1 := by
  have heax : (u.interrupt esp0 true).saveRegs.eax = u.eax := by
    rw [Cpu.saveRegs_eq, u.interrupt_eq esp0 true]
  rw [int80, systemCallsAssembly, heax, if_pos hnumber, Cpu.iret_eax]
  rfl

/-- With a number that is none `INT $0x80` returns -1, and changes nothing else but what lies
below the top of the stack of the kernel. -/
theorem int80_invalid (huser : u.cs &&& 3 ≠ 0) (hnumber : u.eax.toInt < 1 ∨ u.eax.toInt > 10) :
    ∃ mem, int80 kernel here esp0 u = { u with mem := mem, eax := -1 } ∧
      ∀ a, (∀ i < 52, a ≠ esp0 - (52 : Nat) + (i : Nat)) → mem a = u.mem a := by
  refine ⟨(u.interrupt esp0 true).saveRegs.mem, ?_, fun a hout => Cpu.saved_mem huser hout⟩
  have hsaved := u.saved_holds esp0
  have heax : (u.interrupt esp0 true).saveRegs.eax = u.eax := by
    rw [Cpu.saveRegs_eq, u.interrupt_eq esp0 true]
  have hcs : (u.interrupt esp0 true).saveRegs.cs = KERNEL_CS := rfl
  rw [int80, systemCallsAssembly, heax, if_pos hnumber]
  generalize (u.interrupt esp0 true).saveRegs = s at *
  have hstack : Stacked s.mem (s.esp + (0 : Nat))
      (u.ebx :: u.ecx :: u.edx :: (u.kept ++ u.frame)) := by
    rw [Nat.cast_zero, add_zero]
    exact hsaved
  have hebx : s.word 0 = u.ebx := Cpu.word_of_stacked hstack 0 (by simp)
  have hecx : s.word 4 = u.ecx := Cpu.word_of_stacked hstack 1 (by simp)
  have hedx : s.word 8 = u.edx := Cpu.word_of_stacked hstack 2 (by simp)
  have hlist : Stacked s.mem s.esp ([u.ebx, u.ecx, u.edx] ++ (u.kept ++ u.frame)) := hsaved
  have hleave := Cpu.leave (s := { s with eax := -1 }) huser hcs hlist.behind
  rw [hleave]
  change ({ u with
    mem := s.mem, eax := -1, ebx := s.word 0, ecx := s.word 4, edx := s.word 8 } : Cpu) = _
  rw [hebx, hecx, hedx]

/-- 11 is no number. -/
theorem int80_invalid_eleven : ∃ mem, int80 (fun _ k => k.ret 0) 0x400000 0x800000 userCpu =
      { userCpu with mem := mem, eax := -1 } ∧
    ∀ a : Word, (∀ i < 52, a ≠ 0x800000 - (52 : Nat) + (i : Nat)) → mem a = userCpu.mem a :=
  int80_invalid (by decide : userCpu.cs &&& 3 ≠ 0)
    (by decide : userCpu.eax.toInt < 1 ∨ userCpu.eax.toInt > 10)

/-- With the number of a call its function gets the three registers as arguments, and the
program goes on with what the function returns. -/
theorem int80_call (huser : u.cs &&& 3 ≠ 0) {call : SysCall} (hnumber : u.eax = call.number)
    (hback : (u.inGate here esp0).GoesBack (kernel call (u.inGate here esp0))) :
    int80 kernel here esp0 u = { u with
      mem := (kernel call (u.inGate here esp0)).mem
      eax := (kernel call (u.inGate here esp0)).eax
      ebx := (kernel call (u.inGate here esp0)).word 0
      ecx := (kernel call (u.inGate here esp0)).word 4
      edx := (kernel call (u.inGate here esp0)).word 8 } := by
  have hentry := u.inGate_holds here esp0
  have heax : (u.interrupt esp0 true).saveRegs.eax = call.number := by
    rw [Cpu.saveRegs_eq, u.interrupt_eq esp0 true]
    exact hnumber
  have hcs : (u.inGate here esp0).cs = KERNEL_CS := rfl
  obtain ⟨hvalid, htable⟩ := call.number_spec
  rw [int80, systemCallsAssembly, heax, if_neg hvalid, htable]
  dsimp only
  rw [← Cpu.inGate]
  generalize u.inGate here esp0 = k at *
  generalize kernel call k = r at *
  have hlist : Stacked k.mem k.esp ([here, u.ebx, u.ecx, u.edx] ++ (u.kept ++ u.frame)) := hentry
  have hlength : (u.kept ++ u.frame).length = 10 := by
    rw [List.length_append, Cpu.frame, if_neg huser]
    rfl
  have hkept : Stacked r.mem (k.esp + (16 : Nat)) (u.kept ++ u.frame) :=
    hlist.behind.sameBytes (by rw [hlength]; exact hback.stack)
  have hbehind : Stacked r.mem (r.esp + (12 : Nat)) (u.kept ++ u.frame) := by
    rw [hback.esp, add_assoc]
    exact hkept
  exact Cpu.leave huser (hback.cs.trans hcs) hbehind

/-- The words of the stack, behind one that was pushed. -/
theorem Cpu.push_word (s : Cpu) (value : Word) {offset : Nat} (hlt : offset < 100) :
    (s.push value).word (4 + offset) = s.word offset := by
  have hsame : SameBytes s.mem (s.push value).mem s.esp 104 :=
    storeWord_sameBytes s.mem s.esp value (by decide)
  have haddr : (s.push value).esp + (4 + offset : Nat) = s.esp + (offset : Nat) := by
    rw [Nat.cast_add, ← add_assoc]
    exact congrArg (· + (offset : Word)) (sub_add_cancel s.esp 4)
  rw [word, haddr, (hsame.part (by omega)).loadWord_eq]
  rfl

/-- The state in which a wrapper executes `INT`. -/
theorem Cpu.loadCall_eq (s : Cpu) (number next : Word) :
    s.loadCall number next = { s with
      mem := (s.push s.ebx).mem, eax := number, ebx := s.word 4, ecx := s.word 8, edx := s.word 12,
      esp := s.esp - 4, eip := next } := by
  have hebx := s.push_word s.ebx (by decide : 4 < 100)
  have hecx := s.push_word s.ebx (by decide : 8 < 100)
  have hedx := s.push_word s.ebx (by decide : 12 < 100)
  rw [loadCall, hebx, hecx, hedx]
  rfl

/-- A wrapper whose function goes back to the gate. -/
theorem doCall_goesOn {s k : Cpu} (huser : s.cs &&& 3 ≠ 0) (call : SysCall)
    (hk : (s.loadCall call.number next).inGate here esp0 = k)
    (hback : k.GoesBack (kernel call k))
    (hkeeps : SameBytes (s.loadCall call.number next).mem (kernel call k).mem (s.esp - 4) 8) :
    (k.word 4 = s.word 4 ∧ k.word 8 = s.word 8 ∧ k.word 12 = s.word 12) ∧
      doCall (int80 kernel here esp0) call.number next s = { s with
        mem := (kernel call k).mem
        eax := (kernel call k).eax
        ecx := (kernel call k).word 4
        edx := (kernel call k).word 8
        esp := s.esp + 4
        eip := s.word 0 } := by
  have hentry := s.loadCall_eq call.number next
  have hargs := (s.loadCall call.number next).inGate_args here esp0
  have hcall : int80 kernel here esp0 (s.loadCall call.number next) = _ :=
    int80_call (by rw [hentry]; exact huser) (by rw [hentry]) (by rw [hk]; exact hback)
  rw [hk] at hargs hcall
  rw [hentry] at hargs hcall hkeeps
  refine ⟨hargs, ?_⟩
  -- the two words that the wrapper finds on the stack of the program
  have hfirst : SameBytes (s.push s.ebx).mem (kernel call k).mem (s.esp - 4 + (0 : Nat)) 4 :=
    hkeeps.part (by decide)
  rw [Nat.cast_zero, add_zero] at hfirst
  have hebx : loadWord (kernel call k).mem (s.esp - 4 + (0 : Nat)) = s.ebx := by
    rw [Nat.cast_zero, add_zero, hfirst.loadWord_eq]
    exact loadWord_storeWord s.mem (s.esp - 4) s.ebx
  have hsecond : SameBytes (s.push s.ebx).mem (kernel call k).mem (s.esp - 4 + (4 : Nat)) 4 :=
    hkeeps.part (by decide)
  have heip : loadWord (kernel call k).mem (s.esp - 4 + (4 : Nat)) = s.word 0 := by
    have hword := s.push_word s.ebx (by decide : 0 < 100)
    rw [Nat.add_zero] at hword
    rw [hsecond.loadWord_eq, ← hword]
    rfl
  have hesp : s.esp - 4 + (8 : Nat) = s.esp + 4 := by
    rw [sub_add_eq_add_sub, add_sub_assoc]
    rfl
  rw [doCall, hentry, hcall]
  simp only [Cpu.drop, Cpu.word] at hebx heip ⊢
  rw [hebx, heip, hesp]

/-- A wrapper is a C function: the function of its number gets its arguments, and it returns
what that one returns, with all registers of the caller but the three that a C function need
not save. -/
theorem doCall_returns {s k : Cpu} (huser : s.cs &&& 3 ≠ 0) (call : SysCall)
    (hk : (s.loadCall call.number next).inGate here esp0 = k)
    (hreturns : Returns 3 40 k (kernel call k))
    (hkeeps : SameBytes (s.loadCall call.number next).mem (kernel call k).mem (s.esp - 4) 8) :
    (k.word 4 = s.word 4 ∧ k.word 8 = s.word 8 ∧ k.word 12 = s.word 12) ∧
      doCall (int80 kernel here esp0) call.number next s = { s with
        mem := (kernel call k).mem
        eax := (kernel call k).eax
        ecx := (kernel call k).word 4
        edx := (kernel call k).word 8
        esp := s.esp + 4
        eip := s.word 0 } :=
  doCall_goesOn huser call hk hreturns.goesBack hkeeps

/-- A read that returns 42. -/
theorem doCall_returns_read :
    (doCall (int80 (fun _ k => k.ret 42) 0x400000 0x800000) SysCall.read.number 0x8048100
      userCpu).eax = 42 := by
  have hkeeps : SameBytes (userCpu.loadCall SysCall.read.number 0x8048100).mem
      (((userCpu.loadCall SysCall.read.number 0x8048100).inGate 0x400000 0x800000).ret 42).mem
      (userCpu.esp - 4) 8 := by
    unfold SameBytes
    decide +kernel
  have hcall : _ ∧ doCall (int80 (fun _ k => k.ret 42) 0x400000 0x800000) SysCall.read.number
      0x8048100 userCpu = _ :=
    doCall_returns (by decide : userCpu.cs &&& 3 ≠ 0) SysCall.read rfl (Cpu.ret_returns 3 40 _ 42)
      hkeeps
  rw [hcall.2]
  rfl

/-- The value of `main` is the argument of `halt` when `_start` calls it. -/
theorem start_halts (m : Cpu) (back next here esp0 : Word) :
    (((m.exitMain back).loadCall SysCall.halt.number next).inGate here esp0).word 4 = m.eax := by
  obtain ⟨hvalue, -, -⟩ :=
    ((m.exitMain back).loadCall SysCall.halt.number next).inGate_args here esp0
  have hfirst := (((m.push 0).push 0).push m.eax).push_word back (by decide : 0 < 100)
  rw [Nat.add_zero] at hfirst
  rw [hvalue, Cpu.loadCall_eq]
  refine hfirst.trans ?_
  rw [Cpu.word, Nat.cast_zero, add_zero]
  exact loadWord_storeWord _ _ m.eax

end Calls

/-! ## Interrupts -/

section Interrupts

variable {s after u v : Cpu} {words : List Word} {here esp0 other : Word} {handler : Cpu → Cpu}

/-- All registers of the interrupted code. -/
def Cpu.keptAll (u : Cpu) : List Word :=
  [u.ebp, u.edx, u.ecx, u.ebx, u.eax, u.esi, u.edi, u.ds.setWidth 32, u.es.setWidth 32]

theorem Cpu.Holds.saveAllRegs (hs : s.Holds words) (hlen : words.length < 50) :
    s.saveAllRegs.Holds (s.keptAll ++ words) := by
  have hes := hs.push (s.es.setWidth 32) (by omega)
  have hds := hes.push (s.ds.setWidth 32) (by simp only [List.length_cons]; omega)
  have hedi := hds.push s.edi (by simp only [List.length_cons]; omega)
  have hesi := hedi.push s.esi (by simp only [List.length_cons]; omega)
  have heax := hesi.push s.eax (by simp only [List.length_cons]; omega)
  have hebx := heax.push s.ebx (by simp only [List.length_cons]; omega)
  have hecx := hebx.push s.ecx (by simp only [List.length_cons]; omega)
  have hedx := hecx.push s.edx (by simp only [List.length_cons]; omega)
  exact hedx.push s.ebp (by simp only [List.length_cons]; omega)

theorem Cpu.inHandler_holds (u : Cpu) (here esp0 : Word) :
    (u.inHandler here esp0).Holds (here :: (u.keptAll ++ u.frame)) := by
  have hframe := u.frame_length
  have hsaved := (u.interrupt_holds esp0 false).saveAllRegs (hframe.trans (by decide))
  have hkept : (u.interrupt esp0 false).keptAll = u.keptAll := by
    rw [u.interrupt_eq esp0 false]
    rfl
  rw [hkept] at hsaved
  refine hsaved.push here ?_
  simp only [List.length_append, keptAll, List.length_cons, List.length_nil]
  omega

theorem Cpu.restoreAllRegs_eq (hs : s.Holds (u.keptAll ++ words)) :
    s.restoreAllRegs = { u with
      mem := s.mem, esp := s.esp + 36, eip := s.eip
      eflags := s.eflags, cs := s.cs, ss := s.ss } := by
  have hstack : Stacked s.mem (s.esp + (0 : Nat)) (u.keptAll ++ words) := by
    rw [Nat.cast_zero, add_zero]
    exact hs
  have hebp : s.word 0 = u.ebp := word_of_stacked hstack 0 (by simp [keptAll])
  have hedx : s.word 4 = u.edx := word_of_stacked hstack 1 (by simp [keptAll])
  have hecx : s.word 8 = u.ecx := word_of_stacked hstack 2 (by simp [keptAll])
  have hebx : s.word 12 = u.ebx := word_of_stacked hstack 3 (by simp [keptAll])
  have heax : s.word 16 = u.eax := word_of_stacked hstack 4 (by simp [keptAll])
  have hesi : s.word 20 = u.esi := word_of_stacked hstack 5 (by simp [keptAll])
  have hedi : s.word 24 = u.edi := word_of_stacked hstack 6 (by simp [keptAll])
  have hds : s.word 28 = u.ds.setWidth 32 := word_of_stacked hstack 7 (by simp [keptAll])
  have hes : s.word 32 = u.es.setWidth 32 := word_of_stacked hstack 8 (by simp [keptAll])
  rw [restoreAllRegs, hebp, hedx, hecx, hebx, heax, hesi, hedi, hds, hes, setWidth_selector,
    setWidth_selector]
  rfl

theorem Cpu.saveAllRegs_pushed {bytes : Nat} (hpushed : s.Pushed after bytes) :
    s.Pushed after.saveAllRegs (bytes + 36) :=
  ((((((((hpushed.push _).push _).push _).push _).push _).push _).push _).push _).push _

/-- Interrupted code of the kernel finds its stack where it was. -/
theorem Cpu.inHandler_esp (hinner : u.cs &&& 3 = 0) :
    (u.inHandler here esp0).esp = u.esp - (52 : Nat) ∧ (u.inHandler here esp0).ss = u.ss := by
  have hsame : u.enterKernel esp0 = u := if_pos hinner
  have hstart : u.Pushed u 0 := ⟨by simp, fun _ _ => rfl⟩
  have hframe := ((hstart.push u.eflags).push (u.cs.setWidth 32)).push u.eip
  have hentered : u.Pushed (u.interrupt esp0 false) 12 := by
    rw [interrupt, hsame]
    exact ⟨hframe.esp, hframe.mem⟩
  refine ⟨((saveAllRegs_pushed hentered).push here).esp, ?_⟩
  change (u.enterKernel esp0).ss = u.ss
  rw [hsame]

/-- A handler that returns out of the interrupt of some code lets that code go on with its
registers, its `esp` and `ss` among them, as they were, in whichever interrupt the handler was
called. -/
theorem interrupts_resume
    (hreturns : Returns 0 (4 * (u.keptAll ++ u.frame).length) (u.inHandler here esp0)
      (handler (v.inHandler here other))) :
    interruptAssembly handler here other v =
        { u with mem := (handler (v.inHandler here other)).mem } ∧
      pitAssembly handler here other v =
        { u with mem := (handler (v.inHandler here other)).mem } := by
  have hentry := u.inHandler_holds here esp0
  have hcs : (u.inHandler here esp0).cs = KERNEL_CS := rfl
  have hesp : u.cs &&& 3 = 0 → (u.inHandler here esp0).esp = u.esp - (52 : Nat) ∧
      (u.inHandler here esp0).ss = u.ss := fun hinner => Cpu.inHandler_esp hinner
  unfold interruptAssembly pitAssembly
  generalize u.inHandler here esp0 = k at *
  generalize handler (v.inHandler here other) = r at *
  have hlist : Stacked k.mem k.esp ([here] ++ (u.keptAll ++ u.frame)) := hentry
  have hbehind : r.Holds (u.keptAll ++ u.frame) := by
    rw [Cpu.Holds, hreturns.esp]
    exact hlist.behind.sameBytes hreturns.stack
  have hframe := Stacked.behind hbehind
  have hlength : ((4 * u.keptAll.length : Nat) : Word) = 36 := rfl
  rw [hlength] at hframe
  have hresume : ∀ eflags, ({ r.restoreAllRegs with eflags := eflags } : Cpu).iret =
      { u with mem := r.mem } := by
    intro eflags
    rw [Cpu.restoreAllRegs_eq hbehind, Cpu.iret_eq (u := u)]
    · exact hframe
    · exact hreturns.cs.trans hcs
    · -- within the kernel the stack and its segment are those of the handler
      intro hinner
      obtain ⟨hstart, hss⟩ := hesp hinner
      have hback : r.esp + 36 + 12 = u.esp := by
        rw [hreturns.esp, hstart, add_assoc, add_assoc, sub_add]
        exact sub_zero u.esp
      exact ⟨hback, hreturns.ss.trans hss⟩
  exact ⟨hresume r.restoreAllRegs.eflags, hresume _⟩

/-- Another program, running while `userCpu` stands in an interrupt. -/
def otherCpu : Cpu where
  mem := (userCpu.inHandler 0x400000 0x800000).mem
  eax := 20
  ebx := 21
  ecx := 22
  edx := 23
  esi := 24
  edi := 25
  ebp := 0x83FFEF0
  esp := 0x83FFEE0
  eip := 0x8048200
  eflags := 0x246
  cs := 0x23
  ss := 0x2B
  ds := 0x2B
  es := 0x2B

/-- Called in the interrupt of one program, the PIT handler goes over to the stack of the other
and returns there. -/
theorem interrupts_resume_switch :
    pitAssembly (fun s => ({ userCpu.inHandler 0x400000 0x800000 with mem := s.mem } : Cpu).ret 0)
        0x400000 0x7FE000 otherCpu =
      { userCpu with mem := (otherCpu.inHandler 0x400000 0x7FE000).mem } := by
  have hword : SameBytes (userCpu.inHandler 0x400000 0x800000).mem
      (otherCpu.inHandler 0x400000 0x7FE000).mem (userCpu.inHandler 0x400000 0x800000).esp 4 := by
    unfold SameBytes
    decide +kernel
  have hstack : SameBytes (userCpu.inHandler 0x400000 0x800000).mem
      (otherCpu.inHandler 0x400000 0x7FE000).mem
      ((userCpu.inHandler 0x400000 0x800000).esp + (4 + 4 * 0 : Nat))
      (4 * (userCpu.keptAll ++ userCpu.frame).length) := by
    unfold SameBytes
    decide +kernel
  exact (interrupts_resume (Cpu.ret_switched hword hstack)).2

end Interrupts

end Ece391
