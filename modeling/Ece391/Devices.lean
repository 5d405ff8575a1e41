import Ece391.Handlers

/-! # The RTC, the directory position and the video page directory entry

Creating, ending and switching processes leaves the virtual RTC alone, and moves
`dir_index` only when `halt` closes a directory. Only calls on descriptors and `vidmap`
do more.
-/

namespace Ece391

open Function

/-- What the drivers keep outside the PCBs, and the directory entry `vidmap` installs. -/
def Kernel.devices (k : Kernel) : Rtc × Nat × Nat := (k.rtc, k.dirIndex, k.vidPageEntry)

theorem Kernel.storeUser_devices {k after : Kernel} {vaddr : Nat} {byte : UInt8}
    (hstore : k.storeUser vaddr byte = some after) : after.devices = k.devices := by
  unfold Kernel.storeUser at hstore
  obtain ⟨target, -, rfl⟩ := Option.map_eq_some_iff.mp hstore
  cases target <;> rfl

theorem Kernel.storeUserBytes_devices {bytes : List UInt8} {k after : Kernel} {vaddr : Nat}
    (hstore : k.storeUserBytes vaddr bytes = some after) : after.devices = k.devices := by
  induction bytes generalizing k vaddr with
  | nil =>
      obtain rfl := Option.some.inj hstore
      rfl
  | cons byte rest ih =>
      simp only [Kernel.storeUserBytes, Option.bind_eq_some_iff] at hstore
      obtain ⟨middle, hbyte, hrest⟩ := hstore
      exact (ih hrest).trans (Kernel.storeUser_devices hbyte)

/-- What entering a program stores to. -/
theorem Kernel.enterProgram_eq (k : Kernel) (i eip : Nat) (regs : Regs) :
    ∃ pcb heads, k.enterProgram i eip regs =
      { k with pcb := pcb, highestTerminalProcesses := heads, tssEsp0 := stackTopOf i } := by
  simp only [enterProgram, initPcb, pushHead, linkParent, setPcb]
  exact ⟨_, _, rfl⟩

theorem Kernel.enterProgram_devices (k : Kernel) (i eip : Nat) (regs : Regs) :
    (k.enterProgram i eip regs).devices = k.devices := by
  obtain ⟨pcb, heads, heq⟩ := k.enterProgram_eq i eip regs
  rw [heq]
  rfl

theorem Kernel.execute_devices {k after : Kernel} {img : Image} {command : Option (List UInt8)}
    {regs : Regs} {result : ExecReturn}
    (hexecute : k.execute img command regs = some (result, after)) :
    after.devices = k.devices := by
  unfold Kernel.execute at hexecute
  split at hexecute
  · obtain ⟨-, rfl⟩ := Prod.mk.inj (Option.some.inj hexecute)
    rfl
  · split at hexecute
    · obtain ⟨-, rfl⟩ := Prod.mk.inj (Option.some.inj hexecute)
      rfl
    · split at hexecute
      · obtain ⟨-, rfl⟩ := Prod.mk.inj (Option.some.inj hexecute)
        rfl
      · unfold Kernel.launch at hexecute
        obtain ⟨loaded, hloaded, heq⟩ := Option.map_eq_some_iff.mp hexecute
        obtain ⟨copied, hcopied, hload⟩ := Option.bind_eq_some_iff.mp hloaded
        obtain ⟨pcbs, -, rfl⟩ := Option.map_eq_some_iff.mp hcopied
        have hdevices := Kernel.storeUserBytes_devices hload
        -- whether the program is entered or not, the rest only writes the new PCB
        split at heq
        · obtain ⟨-, rfl⟩ := Prod.mk.inj heq
          exact hdevices
        · obtain ⟨-, rfl⟩ := Prod.mk.inj heq
          exact (loaded.enterProgram_devices _ _ _).trans hdevices

theorem Kernel.applySwitch_devices (k : Kernel) : k.applySwitch.devices = k.devices := by
  obtain ⟨d, -, -, heq⟩ := k.applySwitch_eq
  rw [heq]
  rfl

theorem Kernel.startShell_devices {k after : Kernel} {img : Image} {ebp : Nat} {inner : Regs}
    {next : Terminal} (hstart : k.startShell img ebp inner next = some after) :
    after.devices = k.devices := by
  unfold Kernel.startShell at hstart
  dsimp only at hstart
  obtain ⟨d, -, -, hnumbers⟩ := Kernel.switchNumbers_eq
    { k with totalTerminal := k.totalTerminal + 1 } (k.totalTerminal + 1 - 1) (k.totalTerminal + 1)
  rw [hnumbers] at hstart
  obtain ⟨left, hleft, hexecuted⟩ := Option.bind_eq_some_iff.mp hstart
  obtain ⟨⟨result, last⟩, hexecute, rfl⟩ := Option.map_eq_some_iff.mp hexecuted
  refine (Kernel.execute_devices hexecute).trans ?_
  split at hleft
  · obtain ⟨pcb, -, rfl⟩ := Option.map_eq_some_iff.mp hleft
    rfl
  · obtain rfl := Option.some.inj hleft
    rfl

theorem Kernel.pitHandler_devices {k after : Kernel} {img : Image} {ebp : Nat} {inner : Regs}
    (htick : k.pitHandler img ebp inner = some after) : after.devices = k.devices := by
  rw [k.pitHandler_eq] at htick
  have hprepared : k.prepareTick.devices = k.devices := k.applySwitch_devices
  refine Eq.trans ?_ hprepared
  split at htick
  · exact Kernel.startShell_devices htick
  · split at htick
    · obtain rfl := Option.some.inj htick
      obtain ⟨d, -, -, hnumbers⟩ := k.prepareTick.switchNumbers_eq k.prepareTick.totalTerminal 1
      rw [Kernel.finishStartUp, hnumbers]
      rfl
    · rw [Kernel.rotate_eq] at htick
      obtain ⟨-, htick⟩ := Option.ite_none_right_eq_some.mp htick
      obtain rfl := Option.some.inj htick
      rfl

/-! ## Closing descriptors -/

theorem Kernel.close_devices {k after : Kernel} {fd value : Int}
    (hclose : k.close fd = some (value, after)) : after.devices = k.devices := by
  rcases Kernel.close_cases hclose with ⟨-, rfl⟩ | ⟨-, -, -, rfl⟩ <;> rfl

/-- The RTC stays as it is when a process ends. -/
theorem Kernel.release_rtc {k after : Kernel} (hrelease : k.release = some after) :
    after.rtc = k.rtc := by
  unfold Kernel.release at hrelease
  obtain ⟨pcb, -, hrelease⟩ := Option.bind_eq_some_iff.mp hrelease
  obtain ⟨closed, hclosed, rfl⟩ := Option.map_eq_some_iff.mp hrelease
  obtain ⟨pcbs, dirIndex, rfl⟩ := Kernel.closeEntries_store hclosed
  rfl

theorem Kernel.halt_rtc {k after : Kernel} {img : Image} {status : UInt8} {regs : Regs}
    {result : HaltReturn} (hhalt : k.halt img status regs = some (result, after)) :
    after.rtc = k.rtc := by
  unfold Kernel.halt at hhalt
  obtain ⟨released, hrelease, hhalt⟩ := Option.bind_eq_some_iff.mp hhalt
  have hreleased := Kernel.release_rtc hrelease
  split at hhalt
  · obtain ⟨parent, -, heq⟩ := Option.map_eq_some_iff.mp hhalt
    obtain ⟨-, rfl⟩ := Prod.mk.inj heq
    exact hreleased
  · obtain ⟨⟨last, final⟩, hexecuted, heq⟩ := Option.map_eq_some_iff.mp hhalt
    obtain ⟨d, -, hreset⟩ := released.resetTerminal_eq
    rw [hreset] at hexecuted
    have hexecute : final.rtc = released.rtc :=
      congrArg Prod.fst (Kernel.execute_devices hexecuted)
    cases last <;> obtain ⟨-, rfl⟩ := Prod.mk.inj heq <;> exact hexecute.trans hreleased

end Ece391
