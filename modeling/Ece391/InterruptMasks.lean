import Mathlib.Data.List.Induction
import Mathlib.Logic.Function.Basic

/-! # Interrupt masks

`enable_irq` and `disable_irq` change one bit of a mask and send the mask to its
controller. Both start from the port number instead of the byte read at that port, so
every call forgets what earlier calls have done to the other lines.
-/

namespace Ece391

open Function

/-- The two interrupt controllers, with eight lines each. -/
inductive Controller where
  | master
  | slave
  deriving DecidableEq

def MASTER_8259_PORT : Nat := 0x20
def SLAVE_8259_PORT : Nat := 0xA0
def BIT_ONE : BitVec 8 := 0x01

def Controller.port : Controller → Nat
  | .master => MASTER_8259_PORT
  | .slave => SLAVE_8259_PORT

/-- `master_mask` and `slave_mask`, and the masks last sent to the controllers. -/
structure Pic where
  mask : Controller → BitVec 8
  sent : Controller → BitVec 8

namespace Pic

/-- The masks at boot, before anything is sent. -/
def boot (sent : Controller → BitVec 8) : Pic := ⟨fun _ => 0xFF, sent⟩

/-- `outb(mask, port + 1)` for the mask of one controller. -/
def sendMask (p : Pic) (c : Controller) : Pic := { p with sent := update p.sent c (p.mask c) }

/-- `i8259_init`. The control words between the two pairs of masks change none. -/
def i8259Init (p : Pic) : Pic :=
  (((p.sendMask .master).sendMask .slave).sendMask .master).sendMask .slave

/-- The mask variable is overwritten with the port number, changed, and sent. -/
def changeMask (p : Pic) (c : Controller) (change : BitVec 8 → BitVec 8) : Pic :=
  sendMask { p with mask := update p.mask c (change (BitVec.ofNat 8 (c.port + 1))) } c

def enableIrq (p : Pic) (irqNum : Nat) : Pic :=
  if irqNum < 8 then p.changeMask .master fun mask => mask &&& ~~~(BIT_ONE <<< irqNum)
  else p.changeMask .slave fun mask => mask &&& ~~~(BIT_ONE <<< (irqNum - 8))

def disableIrq (p : Pic) (irqNum : Nat) : Pic :=
  if irqNum < 8 then p.changeMask .master fun mask => mask ||| BIT_ONE <<< irqNum
  else p.changeMask .slave fun mask => mask ||| BIT_ONE <<< (irqNum - 8)

end Pic

/-! ## Calls -/

/-- A call of `enable_irq` or `disable_irq`. -/
structure IrqCall where
  irq : Fin 16
  enable : Bool

/-- The controller of an interrupt line, and its bit there. -/
def controllerOf (irq : Fin 16) : Controller := if irq.val < 8 then .master else .slave

def lineOf (irq : Fin 16) : Nat := if irq.val < 8 then irq.val else irq.val - 8

def Pic.call (p : Pic) (call : IrqCall) : Pic :=
  if call.enable then p.enableIrq call.irq else p.disableIrq call.irq

/-- The controllers after `i8259_init` and some calls. -/
def Pic.after (start : Controller → BitVec 8) (calls : List IrqCall) : Pic :=
  calls.foldl Pic.call (Pic.boot start).i8259Init

/-- The bit of a line in the mask its controller has. -/
def Pic.masked (p : Pic) (irq : Fin 16) : Bool := (p.sent (controllerOf irq)).getLsbD (lineOf irq)

/-- Whether the last call that names a line enabled it. -/
def lastEnabled (calls : List IrqCall) (irq : Fin 16) : Bool :=
  calls.foldl (fun enabled call => if call.irq = irq then call.enable else enabled) false

/-- The masks follow the calls. -/
def MasksTrack (start : Controller → BitVec 8) (calls : List IrqCall) : Prop :=
  ∀ irq, (Pic.after start calls).masked irq = !lastEnabled calls irq

/-- The lines that are masked in the port number: 0 and 5 of the master, 8, 13 and 15
of the slave. -/
def portMasked (irq : Fin 16) : Bool := irq ∈ [0, 5, 8, 13, 15]

/-- The last call to a controller. -/
def lastCall (calls : List IrqCall) (c : Controller) : Option IrqCall :=
  (calls.filter fun call => controllerOf call.irq = c).getLast?

/-- At the last call to a controller every other line of it is enabled, or disabled,
just as the port number has it. -/
def CallsFitPort (calls : List IrqCall) : Prop :=
  ∀ c last, lastCall calls c = some last → ∀ irq, controllerOf irq = c → irq ≠ last.irq →
    lastEnabled calls irq = !portMasked irq

/-! ## What the last call leaves -/

/-- The mask a call sends to its controller. -/
def IrqCall.result (call : IrqCall) : BitVec 8 :=
  let port := BitVec.ofNat 8 ((controllerOf call.irq).port + 1)
  if call.enable then port &&& ~~~(BIT_ONE <<< lineOf call.irq)
  else port ||| BIT_ONE <<< lineOf call.irq

theorem Pic.call_sent (p : Pic) (call : IrqCall) :
    (p.call call).sent = update p.sent (controllerOf call.irq) call.result := by
  unfold Pic.call IrqCall.result controllerOf lineOf
  by_cases henable : call.enable = true
  · by_cases hmaster : call.irq.val < 8 <;>
      simp [henable, hmaster, Pic.enableIrq, Pic.changeMask, Pic.sendMask]
  · by_cases hmaster : call.irq.val < 8 <;>
      simp [henable, hmaster, Pic.disableIrq, Pic.changeMask, Pic.sendMask]

/-- A call sets the bit of its own line, and the others as the port number has them. -/
theorem IrqCall.result_line (call : IrqCall) (irq : Fin 16)
    (hsame : controllerOf irq = controllerOf call.irq) :
    call.result.getLsbD (lineOf irq) =
      if irq = call.irq then !call.enable else portMasked irq := by
  obtain ⟨line, enable⟩ := call
  revert irq line enable
  decide

theorem lastEnabled_snoc (calls : List IrqCall) (call : IrqCall) (irq : Fin 16) :
    lastEnabled (calls ++ [call]) irq =
      if call.irq = irq then call.enable else lastEnabled calls irq := by
  rw [lastEnabled, List.foldl_append]
  rfl

theorem lastCall_snoc (calls : List IrqCall) (call : IrqCall) (c : Controller) :
    lastCall (calls ++ [call]) c =
      if controllerOf call.irq = c then some call else lastCall calls c := by
  unfold lastCall
  rw [List.filter_append]
  by_cases hc : controllerOf call.irq = c <;> simp [hc]

/-- The controller has the mask of the last call to it, or all lines masked. -/
theorem Pic.after_sent (start : Controller → BitVec 8) (calls : List IrqCall) (c : Controller) :
    (Pic.after start calls).sent c = ((lastCall calls c).map IrqCall.result).getD 0xFF := by
  induction calls using List.reverseRecOn with
  | nil => cases c <;> rfl
  | append_singleton calls call ih =>
      rw [Pic.after, List.foldl_append]
      change ((Pic.after start calls).call call).sent c = _
      rw [Pic.call_sent, lastCall_snoc]
      by_cases hc : controllerOf call.irq = c
      · subst hc
        rw [update_self, if_pos rfl]
        rfl
      · rw [update_of_ne (Ne.symm hc), if_neg hc, ih]

/-- No call to a controller means that none of its lines was ever enabled. -/
theorem lastEnabled_of_none {calls : List IrqCall} {irq : Fin 16}
    (hnone : lastCall calls (controllerOf irq) = none) : lastEnabled calls irq = false := by
  induction calls using List.reverseRecOn with
  | nil => rfl
  | append_singleton calls call ih =>
      rw [lastCall_snoc] at hnone
      by_cases hc : controllerOf call.irq = controllerOf irq
      · simp [hc] at hnone
      · rw [if_neg hc] at hnone
        have hne : call.irq ≠ irq := fun heq => hc (congrArg controllerOf heq)
        rw [lastEnabled_snoc, if_neg hne, ih hnone]

theorem lastEnabled_of_last {calls : List IrqCall} {c : Controller} {last : IrqCall}
    (hlast : lastCall calls c = some last) :
    lastEnabled calls last.irq = last.enable ∧ controllerOf last.irq = c := by
  induction calls using List.reverseRecOn with
  | nil => simp [lastCall] at hlast
  | append_singleton calls call ih =>
      rw [lastCall_snoc] at hlast
      by_cases hc : controllerOf call.irq = c
      · rw [if_pos hc] at hlast
        obtain rfl := Option.some.inj hlast
        exact ⟨by rw [lastEnabled_snoc, if_pos rfl], hc⟩
      · rw [if_neg hc] at hlast
        obtain ⟨henabled, hcontroller⟩ := ih hlast
        have hne : call.irq ≠ last.irq := by
          intro heq
          exact hc (heq ▸ hcontroller)
        exact ⟨by rw [lastEnabled_snoc, if_neg hne, henabled], hcontroller⟩

/-- The bit of every line after some calls. -/
theorem Pic.after_masked (start : Controller → BitVec 8) (calls : List IrqCall) (irq : Fin 16) :
    (Pic.after start calls).masked irq =
      match lastCall calls (controllerOf irq) with
      | none => true
      | some last => if irq = last.irq then !last.enable else portMasked irq := by
  rw [Pic.masked, Pic.after_sent]
  cases hlast : lastCall calls (controllerOf irq) with
  | none =>
      change (0xFF : BitVec 8).getLsbD (lineOf irq) = true
      clear hlast
      revert irq
      decide
  | some last => exact last.result_line irq (lastEnabled_of_last hlast).2.symm

/-- The masks follow the calls exactly when, for each controller that was called, the
lines not named by the last call are as they are in the port number. -/
theorem masks_track_iff (start : Controller → BitVec 8) (calls : List IrqCall) :
    MasksTrack start calls ↔ CallsFitPort calls := by
  constructor
  · intro htrack c last hlast irq hirq hne
    have hbit := htrack irq
    rw [Pic.after_masked, hirq, hlast] at hbit
    change (if irq = last.irq then !last.enable else portMasked irq) = _ at hbit
    rw [if_neg hne] at hbit
    rw [hbit, Bool.not_not]
  · intro hfit irq
    rw [Pic.after_masked]
    cases hlast : lastCall calls (controllerOf irq) with
    | none => rw [lastEnabled_of_none hlast]; rfl
    | some last =>
        change (if irq = last.irq then !last.enable else portMasked irq) = _
        by_cases hown : irq = last.irq
        · rw [if_pos hown, hown, (lastEnabled_of_last hlast).1]
        · rw [if_neg hown, hfit _ last hlast irq rfl hown, Bool.not_not]

/-- Enabling the keyboard's line unmasks line 3 as well. -/
theorem masks_not_tracked : ¬ MasksTrack (fun _ => 0) [⟨1, true⟩] := by
  intro htrack
  exact absurd (htrack 3) (by decide)

end Ece391
