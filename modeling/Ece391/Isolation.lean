import Ece391.ShellRestart
import Ece391.TerminalOutput

/-! # What a process can change

The user page is the frame of the running process and, once `vidmap` has been called, the
user's video page the screen of its terminal. So whatever programs store, and whatever calls
store to buffers in these pages, a frame changes only while its process runs or is loaded, and
a screen only for the process on its terminal or by the keys it echoes.
-/

namespace Ece391

open Function Transition
open Kernel (videoPageFor)

/-! ## Events and user stores -/

/-- The calls that store to a buffer of their caller. -/
inductive BufferCall where
  | read (fd nbytes : Int)
  | getargs (nbytes : Int)

def Kernel.bufferCall (img : Image) (k : Kernel) (buf : Nat) :
    BufferCall → Option (SysReturn × Kernel)
  | .read fd nbytes => k.read img fd (buf ≠ NULL) nbytes
  | .getargs nbytes => k.getargs (buf ≠ NULL) nbytes

/-- The event that the call is without its stores. -/
def BufferCall.event (buf : Nat) : BufferCall → Event
  | .read fd nbytes => .read fd (buf ≠ NULL) nbytes
  | .getargs nbytes => .getargs (buf ≠ NULL) nbytes

/-- The bytes that a call stores to its buffer. -/
def SysReturn.stored : SysReturn → List UInt8
  | .returned _ out => out
  | .waiting => []

/-- An event of the kernel, a byte stored by the running process through the current mapping,
or a call with the address of its buffer. Among the events of the kernel a `read` or `getargs`
leaves its bytes to the stores that follow. -/
inductive MachineEvent where
  | kernel (event : Event)
  | store (vaddr : Nat) (byte : UInt8)
  | fill (buf : Nat) (call : BufferCall)

/-- A store that is not mapped ends in the handler of the page fault, which never returns. The
kernel checks no buffer either; one outside of the mapping, where it stores to its own memory or
faults, has no step. -/
def machineStep (img : Image) (k : Kernel) : MachineEvent → Option Kernel
  | .kernel event => step img k event
  | .store vaddr byte => k.storeUser vaddr byte
  | .fill buf call =>
      (k.bufferCall img buf call).bind fun (result, k) => k.storeUserBytes buf result.stored

def MachineEvent.Disciplined (img : Image) (k : Kernel) : MachineEvent → Prop
  | .kernel event => Ece391.Disciplined img k event
  | .store _ _ | .fill _ _ => True

/-- The terminal whose screen an event may draw on. -/
def drawsFor (k : Kernel) : MachineEvent → Option Terminal
  | .kernel (.tick _ _) | .kernel .rtc | .kernel (.open_ _) | .kernel (.close _)
  | .kernel (.getargs _ _) => none
  | .kernel (.key _) => some k.currTerminal
  | .store _ _ | .fill _ _ | .kernel _ => some k.currScheduled

/-- The frame of a slot. -/
def InFrame (i addr : Nat) : Prop := _8MB + i * _4MB ≤ addr ∧ addr < _8MB + (i + 1) * _4MB

theorem InFrame.unique {i j addr : Nat} (hi : InFrame i addr) (hj : InFrame j addr) : i = j := by
  unfold InFrame at hi hj
  simp only [_8MB, _4MB] at hi hj
  omega

/-- A call with a buffer is the event of the call, and then its stores. -/
theorem machineStep_fill {img : Image} {k after : Kernel} {buf : Nat} {call : BufferCall}
    (hstep : machineStep img k (.fill buf call) = some after) :
    ∃ next bytes, step img k (call.event buf) = some next ∧
      next.storeUserBytes buf bytes = some after := by
  obtain ⟨⟨result, next⟩, hcall, hstore⟩ := Option.bind_eq_some_iff.mp hstep
  refine ⟨next, result.stored, ?_, hstore⟩
  cases call with
  | read fd nbytes => exact congrArg (Option.map Prod.snd) hcall
  | getargs nbytes =>
      rw [Kernel.bufferCall] at hcall
      rw [BufferCall.event, step, hcall, Option.map_some]

theorem BufferCall.quiet (call : BufferCall) (buf : Nat) : (call.event buf).Quiet := by
  cases call <;> trivial

/-- A running system stays one. -/
theorem Settled.machineStep {img : Image} {k after : Kernel} {s : DisjointStacks Terminal Nat}
    {event : MachineEvent} (hset : Settled img k s) (hdisc : event.Disciplined img k)
    (hstep : Ece391.machineStep img k event = some after) : ∃ s', Settled img after s' := by
  cases event with
  | kernel event =>
      obtain ⟨s', hset', -⟩ := hset.step hdisc hstep
      exact ⟨s', hset'⟩
  | store vaddr byte => exact ⟨s, hset.same (Kernel.storeUser_same hstep).1⟩
  | fill buf call =>
      obtain ⟨next, bytes, hcall, hstore⟩ := machineStep_fill hstep
      have hsame := (step_same (call.quiet buf) hcall).trans (Kernel.storeUserBytes_same hstore).1
      exact ⟨s, hset.same hsame⟩

/-! ## Frames -/

/-- What a call prints that starts nothing is all it does. -/
theorem Kernel.execute_refused {k after : Kernel} {img : Image} {command : Option (List UInt8)}
    {regs : Regs} {result : ExecReturn} (hrefused : k.launching img command = none)
    (hexecute : k.execute img command regs = some (result, after)) :
    after = k ∨
      after = { k with display := k.display.printf k.currScheduled maxProcessesText } := by
  cases command with
  | none =>
      obtain ⟨-, rfl⟩ := Prod.mk.inj (Option.some.inj hexecute)
      exact .inl rfl
  | some text =>
      unfold Kernel.execute at hexecute
      dsimp only at hexecute
      unfold Kernel.launching at hrefused
      split at hexecute
      · obtain ⟨-, rfl⟩ := Prod.mk.inj (Option.some.inj hexecute)
        exact .inr rfl
      · next hroom =>
        rw [if_neg hroom, Option.bind_some] at hrefused
        rw [hrefused] at hexecute
        obtain ⟨-, rfl⟩ := Prod.mk.inj (Option.some.inj hexecute)
        exact .inl rfl

/-- At the most the screen of one terminal differs. -/
def DrawsOn (k after : Kernel) : Option Terminal → Prop
  | some t => Display.Beside k.display after.display (k.display.own t) t
  | none => after.display = k.display

theorem DrawsOn.shows_iff {k after : Kernel} {owner : Option Terminal}
    (hdraws : DrawsOn k after owner) {t : Terminal} (howner : owner ≠ some t) (s : Screen) :
    after.display.Shows t s ↔ k.display.Shows t s := by
  cases owner with
  | none => rw [show after.display = k.display from hdraws]
  | some u =>
      have hu : t ≠ u := fun heq => howner (congrArg some heq.symm)
      exact Display.Beside.shows_iff hdraws hu

theorem DrawsOn.aim {k after : Kernel} {owner : Option Terminal} (hdraws : DrawsOn k after owner) :
    after.display.aim = k.display.aim := by
  cases owner with
  | none => exact congrArg Display.aim hdraws
  | some u => exact Display.Beside.aim hdraws

/-- User stores that lead to one page draw on the screen of its terminal. -/
theorem OnlyUserBytes.beside {k after : Kernel} (honly : OnlyUserBytes k after) {t : Terminal}
    (hbytes : ∀ page offset, page ≠ k.display.own t →
      after.userByte (.video page offset) = k.userByte (.video page offset)) :
    Display.Beside k.display after.display (k.display.own t) t where
  aim := by rw [honly.display]; rfl
  page other hother := by
    funext i
    have heven := hbytes other (2 * i) hother
    have hodd := hbytes other (2 * i + 1) hother
    simp only [Kernel.userByte, Display.loadByte] at heven hodd
    rw [if_pos (by omega), if_pos (by omega), Nat.mul_div_cancel_left i (by decide)] at heven
    rw [if_neg (by omega), if_neg (by omega), show (2 * i + 1) / 2 = i by omega] at hodd
    calc after.display.page other i
        = ⟨(after.display.page other i).ch, (after.display.page other i).attrib⟩ := rfl
      _ = ⟨(k.display.page other i).ch, (k.display.page other i).attrib⟩ := by rw [heven, hodd]
  screenX u _ := by rw [honly.display]
  screenY u _ := by rw [honly.display]

theorem Kernel.storeUserBytes_beside {k after : Kernel} {vaddr : Nat} {bytes : List UInt8}
    (hstore : k.storeUserBytes vaddr bytes = some after) {t : Terminal}
    (hleads : ∀ addr page offset, k.translate addr = some (.video page offset) →
      page = k.display.own t) :
    Display.Beside k.display after.display (k.display.own t) t := by
  obtain ⟨honly, -, hothers⟩ := Kernel.storeUserBytes_spec hstore
  refine honly.beside fun page offset hpage => hothers _ fun pos _ hat => hpage ?_
  exact hleads _ _ _ hat

/-- The message of a full process table. -/
theorem Display.Beside.printf {d : Display} {t : Terminal} (hrouted : d.videoMem = d.own t)
    (text : List UInt8) : Display.Beside d (d.printf t text) (d.own t) t := by
  induction text generalizing d with
  | nil => exact .refl d _ t
  | cons c rest ih =>
      have hfirst := (Display.ActsOn.putc hrouted c).beside
      have hrest := ih (d := d.putc t c) (by
        rw [hfirst.own_eq, ← hrouted]
        exact congrArg Prod.snd hfirst.aim)
      rw [hfirst.own_eq] at hrest
      exact hfirst.trans hrest

theorem Routed.videoMem {k : Kernel} (hrouted : Routed k) :
    k.display.videoMem = k.display.own k.currScheduled := congrArg Prod.fst hrouted

theorem Kernel.execute_beside {k after : Kernel} {img : Image} {command : Option (List UInt8)}
    {regs : Regs} {result : ExecReturn} (hrouted : Routed k)
    (hexecute : k.execute img command regs = some (result, after)) :
    Display.Beside k.display after.display (k.display.own k.currScheduled) k.currScheduled := by
  rcases Kernel.execute_cases hexecute with ⟨hrefused, -⟩ | ⟨program, -, -, rfl, -⟩
  · rcases Kernel.execute_refused hrefused hexecute with rfl | rfl
    · exact .refl _ _ _
    · exact .printf hrouted.videoMem maxProcessesText
  · obtain ⟨text, program', copied, loaded, -, -, -, -, hcopied, hload, rfl⟩ :=
      Kernel.execute_stages hexecute
    generalize slotSearch k.pcbSlots = slot at hcopied hload ⊢
    have hcopy : copied.display = k.display ∧ copied.translate = k.translate := by
      obtain ⟨pcbs, -, rfl⟩ := Option.map_eq_some_iff.mp hcopied
      exact ⟨rfl, rfl⟩
    have hmapped : (copied.mapProgram slot).display = k.display :=
      (copied.display_of_map (userPageOf (slot + 1))).trans hcopy.1
    have hbeside := Kernel.storeUserBytes_beside (t := k.currScheduled) hload ?_
    · rw [Kernel.enterProgram_display]
      rwa [hmapped] at hbeside
    · intro addr page offset hat
      rw [Kernel.mapProgram, Kernel.translate_video_of_map, hcopy.2] at hat
      rw [hmapped]
      exact hrouted.entry.page_eq hat

/-- Only the drivers of the terminal draw. -/
theorem Kernel.fileRead_display {k after : Kernel} {img : Image} {fd nbytes : Int}
    {result : SysReturn} (hread : k.fileRead img fd nbytes = some (result, after)) :
    after.display = k.display := by
  unfold Kernel.fileRead at hread
  split at hread
  · obtain ⟨-, rfl⟩ := Prod.mk.inj (Option.some.inj hread)
    rfl
  · split at hread
    · obtain ⟨-, rfl⟩ := Prod.mk.inj (Option.some.inj hread)
      rfl
    · obtain ⟨pcb, -, heq⟩ := Option.map_eq_some_iff.mp hread
      obtain ⟨-, rfl⟩ := Prod.mk.inj heq
      rfl

theorem Kernel.dirRead_display (k : Kernel) (img : Image) (nbytes : Int) :
    (k.dirRead img nbytes).2.display = k.display := by
  unfold Kernel.dirRead
  split
  · rfl
  · split <;> rfl

theorem Kernel.rtcWrite_display (k : Kernel) (buf : Option (Nat → UInt8)) (nbytes : Int) :
    (k.rtcWrite buf nbytes).2.display = k.display := by
  cases buf with
  | none => rfl
  | some buf =>
      unfold Kernel.rtcWrite
      dsimp only
      split
      · rfl
      · split <;> rfl

theorem Kernel.read_beside {k after : Kernel} {img : Image} {fd nbytes : Int} {buf : Bool}
    {result : SysReturn} (hread : k.read img fd buf nbytes = some (result, after)) :
    Display.Beside k.display after.display (k.display.own k.currScheduled) k.currScheduled := by
  rcases Kernel.read_cases hread with ⟨-, rfl⟩ | ⟨fops, -, hread⟩
  · exact .refl _ _ _
  · cases fops with
    | file =>
        rw [Kernel.fileRead_display hread]
        exact .refl _ _ _
    | dir =>
        obtain rfl := congrArg Prod.snd (Option.some.inj hread)
        rw [k.dirRead_display img nbytes]
        exact .refl _ _ _
    | rtc =>
        obtain rfl := congrArg Prod.snd (Option.some.inj hread)
        exact .refl _ _ _
    | stdin =>
        obtain rfl := congrArg Prod.snd (Option.some.inj hread)
        unfold Kernel.terminalRead
        split
        · exact .refl _ _ _
        · split
          · next hready => exact (Display.ActsOn.putc2 NEWLINE hready.2).beside
          · exact .refl _ _ _
    | stdout =>
        obtain ⟨-, rfl⟩ := Prod.mk.inj (Option.some.inj hread)
        exact .refl _ _ _

theorem Kernel.write_beside {k after : Kernel} {fd nbytes : Int} {buf : Option (Nat → UInt8)}
    {result : SysReturn} (hrouted : Routed k)
    (hwrite : k.write fd buf nbytes = some (result, after)) :
    Display.Beside k.display after.display (k.display.own k.currScheduled) k.currScheduled := by
  rcases Kernel.write_cases hwrite with ⟨-, rfl⟩ | ⟨fops, -, heq⟩
  · exact .refl _ _ _
  obtain rfl := congrArg Prod.snd heq
  cases fops with
  | file | dir | stdin => exact .refl _ _ _
  | rtc =>
      rw [Kernel.fopsWrite, k.rtcWrite_display buf nbytes]
      exact .refl _ _ _
  | stdout =>
      cases buf with
      | none => exact .refl _ _ _
      | some buf =>
          rcases lt_trichotomy nbytes 0 with hneg | rfl | hpos
          · simp only [Kernel.fopsWrite, Kernel.terminalWrite, if_pos hneg]
            exact .refl _ _ _
          · exact .refl _ _ _
          · simp only [Kernel.fopsWrite, k.terminalWrite_bytes buf hpos]
            exact (Display.ActsOn.putfile hrouted.videoMem _).beside

/-- `vidmap` aims the pages where they are aimed, and its store may reach the video page. -/
theorem Kernel.vidmap_beside {k after : Kernel} {screenStart : Nat} {result : SysReturn}
    (hrouted : Routed k) (hvidmap : k.vidmap screenStart = some (result, after)) :
    Display.Beside k.display after.display (k.display.own k.currScheduled) k.currScheduled := by
  unfold Kernel.vidmap at hvidmap
  split at hvidmap
  · obtain ⟨-, rfl⟩ := Prod.mk.inj (Option.some.inj hvidmap)
    exact .refl _ _ _
  · obtain ⟨last, hlast, heq⟩ := Option.map_eq_some_iff.mp hvidmap
    obtain ⟨-, rfl⟩ := Prod.mk.inj heq
    have hdisplay : { k.display with videoMem := videoPageFor k.currScheduled k.currTerminal } =
        k.display := by
      rw [show videoPageFor k.currScheduled k.currTerminal = k.display.videoMem from
        hrouted.videoMem.symm]
    rw [hdisplay] at hlast
    refine Kernel.storeUserBytes_beside hlast fun addr page offset hat => ?_
    refine EntryRouted.page_eq ?_ hat
    unfold EntryRouted
    rfl

/-- Before a root shell is started again the displayed screen is cleared, which is that of
its own terminal. -/
theorem Kernel.halt_beside {k after : Kernel} {img : Image} {status : UInt8} {regs : Regs}
    {result : HaltReturn} (hrouted : Routed k)
    (hshown : ¬ k.hasParent → k.currTerminal = k.currScheduled)
    (hhalt : k.halt img status regs = some (result, after)) :
    Display.Beside k.display after.display (k.display.own k.currScheduled) k.currScheduled := by
  obtain ⟨released, hrelease, hreleased, hcases⟩ := Kernel.halt_release hhalt
  have hdisplay := Kernel.release_display hrelease
  rcases hcases with ⟨-, -, -, rfl⟩ | ⟨hroot, ⟨result', last⟩, hexecute, hlast⟩
  · rw [show (released.restoreParent _).display = k.display from hdisplay]
    exact .refl _ _ _
  · obtain rfl : last = after := hlast
    obtain ⟨d, hbeside, hreset⟩ := released.resetTerminal_beside
    rw [hreset] at hexecute
    rw [hdisplay, hreleased.currTerminal, hshown hroot] at hbeside
    have hentry : released.vidTableEntry = k.vidTableEntry :=
      congrArg MapEntries.video (Kernel.release_mapEntries hrelease)
    have hterminals : d.currTerminal = k.currTerminal := congrArg Prod.fst hbeside.aim
    have hpage : d.videoMem = k.display.videoMem := congrArg Prod.snd hbeside.aim
    have hrouted' : Routed
        { released with
          highestTerminalProcesses := update released.highestTerminalProcesses
            released.currTerminal 0
          display := d } := by
      unfold Routed Kernel.video Kernel.ownVideo Kernel.currTerminal at hrouted ⊢
      dsimp only
      rw [hpage, hentry, hterminals, hreleased.currScheduled]
      exact hrouted
    have hloaded := Kernel.execute_beside hrouted' hexecute
    dsimp only at hloaded
    rw [hreleased.currScheduled, hbeside.own_eq] at hloaded
    exact hbeside.trans hloaded

theorem Routed.same {k after : Kernel} (hrouted : Routed k) (hvideo : after.video = k.video)
    (hscheduled : after.currScheduled = k.currScheduled)
    (hshown : after.currTerminal = k.currTerminal) : Routed after := by
  unfold Routed Kernel.ownVideo at hrouted ⊢
  rw [hvideo, hscheduled, hshown]
  exact hrouted

/-- A call without its stores draws on its own screen at most. -/
theorem BufferCall.beside {img : Image} {k next : Kernel} {buf : Nat} {call : BufferCall}
    (hcall : step img k (call.event buf) = some next) :
    Display.Beside k.display next.display (k.display.own k.currScheduled) k.currScheduled := by
  cases call with
  | read fd nbytes =>
      obtain ⟨⟨result, last⟩, hread, rfl⟩ := Option.map_eq_some_iff.mp hcall
      exact Kernel.read_beside hread
  | getargs nbytes =>
      simp only [BufferCall.event, step, Option.map_eq_some_iff] at hcall
      obtain ⟨⟨result, last⟩, hargs, rfl⟩ := hcall
      obtain rfl := Kernel.getargs_same hargs
      exact .refl _ _ _

theorem Routed.called {img : Image} {k next : Kernel} {buf : Nat} {call : BufferCall}
    (hrouted : Routed k) (hcall : step img k (call.event buf) = some next) : Routed next := by
  have hsame := step_same (call.quiet buf) hcall
  have hentry : next.vidTableEntry = k.vidTableEntry := by
    cases call <;>
      exact step_vidTableEntry (by simp [BufferCall.event]) (by simp [BufferCall.event]) hcall
  have haim := congrArg Prod.snd (BufferCall.beside hcall).aim
  exact hrouted.same (Prod.ext haim hentry) hsame.currScheduled hsame.currTerminal

/-- What each event that is no tick does to the screens. -/
theorem Settled.drawsOn {img : Image} {k after : Kernel} {s : DisjointStacks Terminal Nat}
    {event : MachineEvent} (hset : Settled img k s) (hrouted : Routed k)
    (hdisc : event.Disciplined img k) (hnotTick : ∀ ebp inner, event ≠ .kernel (.tick ebp inner))
    (hstep : Ece391.machineStep img k event = some after) :
    DrawsOn k after (drawsFor k event) := by
  have hleads : ∀ addr page offset, k.translate addr = some (.video page offset) →
      page = k.display.own k.currScheduled := fun addr page offset hat => hrouted.entry.page_eq hat
  cases event with
  | store vaddr byte =>
      have hstore : k.storeUserBytes vaddr [byte] = some after := by
        rw [Kernel.storeUserBytes, show k.storeUser vaddr byte = some after from hstep]
        rfl
      exact Kernel.storeUserBytes_beside hstore hleads
  | fill buf call =>
      -- the call draws on the own screen, and what its stores reach is that screen too
      obtain ⟨next, bytes, hcall, hstore⟩ := machineStep_fill hstep
      have hbeside := BufferCall.beside hcall
      have hstored := Kernel.storeUserBytes_beside hstore fun addr page offset hat =>
        (hrouted.called hcall).entry.page_eq hat
      rw [(step_same (call.quiet buf) hcall).currScheduled, hbeside.own_eq] at hstored
      exact hbeside.trans hstored
  | kernel event =>
    cases event with
    | tick ebp inner => exact absurd rfl (hnotTick ebp inner)
    | key c =>
        obtain rfl := Option.some.inj hstep
        exact (Display.ActsOn.key k.keyState c).beside
    | rtc =>
        obtain rfl := Option.some.inj hstep
        rfl
    | execute command regs =>
        obtain ⟨⟨result, last⟩, hexecute, rfl⟩ := Option.map_eq_some_iff.mp hstep
        exact Kernel.execute_beside hrouted hexecute
    | halt status regs =>
        obtain ⟨⟨result, last⟩, hhalt, rfl⟩ := Option.map_eq_some_iff.mp hstep
        exact Kernel.halt_beside hrouted hdisc hhalt
    | read fd buf nbytes =>
        obtain ⟨⟨result, last⟩, hread, rfl⟩ := Option.map_eq_some_iff.mp hstep
        exact Kernel.read_beside hread
    | write fd buf nbytes =>
        obtain ⟨⟨result, last⟩, hwrite, rfl⟩ := Option.map_eq_some_iff.mp hstep
        exact Kernel.write_beside hrouted hwrite
    | open_ filename =>
        obtain ⟨⟨result, last⟩, hopen, rfl⟩ := Option.map_eq_some_iff.mp hstep
        rcases Kernel.open_cases hopen with ⟨-, rfl, -⟩ | ⟨entry, fd, fops, -, -, rfl⟩
        · rfl
        · cases fops <;> rfl
    | close fd =>
        obtain ⟨⟨value, last⟩, hclose, rfl⟩ := Option.map_eq_some_iff.mp hstep
        rcases Kernel.close_cases hclose with ⟨-, rfl⟩ | ⟨-, -, -, rfl⟩ <;> rfl
    | getargs buf nbytes =>
        have hcall : Ece391.step img k (.getargs buf nbytes) = some after := hstep
        simp only [Ece391.step, Option.map_eq_some_iff] at hcall
        obtain ⟨⟨result, last⟩, hargs, rfl⟩ := hcall
        obtain rfl := Kernel.getargs_same hargs
        rfl
    | vidmap screenStart =>
        obtain ⟨⟨result, last⟩, hvidmap, rfl⟩ := Option.map_eq_some_iff.mp hstep
        exact Kernel.vidmap_beside hrouted hvidmap

/-- A running system whose video pages are those of the scheduled terminal. -/
structure RoutedSystem (img : Image) (k : Kernel) : Prop where
  settled : ∃ s, Settled img k s
  routed : Routed k
  sound : k.keyState.Sound

namespace RoutedSystem

variable {img : Image} {k after : Kernel} {event : MachineEvent}

/-- Ticks and `vidmap` route the pages again, and nothing else moves them. -/
theorem step (hk : RoutedSystem img k) (hdisc : event.Disciplined img k)
    (hstep : machineStep img k event = some after) : RoutedSystem img after := by
  obtain ⟨s, hset⟩ := hk.settled
  refine ⟨hset.machineStep hdisc hstep, ?_, ?_⟩
  · by_cases htick : ∃ ebp inner, event = .kernel (.tick ebp inner)
    · obtain ⟨ebp, inner, rfl⟩ := htick
      exact Kernel.tick_routed (by rw [hset.totalTerminal]; decide) hstep
    push Not at htick
    have haim := (hset.drawsOn hk.routed hdisc htick hstep).aim
    cases event with
    | store vaddr byte =>
        obtain ⟨hsame, -, hvideo, -⟩ := Kernel.storeUser_same hstep
        exact hk.routed.same hvideo hsame.currScheduled hsame.currTerminal
    | fill buf call =>
        obtain ⟨next, bytes, hcall, hstore⟩ := machineStep_fill hstep
        obtain ⟨hsame, -, hvideo, -⟩ := Kernel.storeUserBytes_same hstore
        exact (hk.routed.called hcall).same hvideo hsame.currScheduled hsame.currTerminal
    | kernel event =>
        -- between two ticks the pages stay, and only `vidmap` writes its entry again
        have hnotTick : ∀ ebp inner, event ≠ .tick ebp inner :=
          fun ebp inner heq => htick ebp inner (congrArg _ heq)
        have hscheduled := step_scheduled hnotTick hstep
        have hshown := (step_terminals hnotTick hstep).2
        by_cases hvidmap : ∃ screenStart, event = .vidmap screenStart
        · obtain ⟨screenStart, rfl⟩ := hvidmap
          obtain ⟨⟨result, last⟩, hcall, rfl⟩ := Option.map_eq_some_iff.mp hstep
          by_cases hrefused : screenStart = NULL ∨ screenStart < _128MB ∨
            screenStart ≥ USER_VID_ADDR
          · rw [Kernel.vidmap, if_pos hrefused] at hcall
            obtain ⟨-, rfl⟩ := Prod.mk.inj (Option.some.inj hcall)
            exact hk.routed
          · have hsome := hcall
            rw [Kernel.vidmap, if_neg hrefused] at hsome
            obtain ⟨stored, -, heq⟩ := Option.map_eq_some_iff.mp hsome
            obtain ⟨rfl, -⟩ := Prod.mk.inj heq
            exact Kernel.vidmap_routed hcall
        · have hentry := step_vidTableEntry hnotTick (not_exists.mp hvidmap) hstep
          exact hk.routed.same (Prod.ext (congrArg Prod.snd haim) hentry) hscheduled hshown
  · cases event with
    | store vaddr byte => exact (Kernel.storeUser_same hstep).1.sound hk.sound
    | fill buf call =>
        obtain ⟨next, bytes, hcall, hstore⟩ := machineStep_fill hstep
        exact (Kernel.storeUserBytes_same hstore).1.sound (step_sound hcall hk.sound)
    | kernel event => exact step_sound hstep hk.sound

/-- An event leaves the screens of the terminals it does not draw for. -/
theorem shows (hk : RoutedSystem img k) (hdisc : event.Disciplined img k)
    (hstep : machineStep img k event = some after) {t : Terminal}
    (hother : drawsFor k event ≠ some t) {screen : Screen} (hs : k.display.Shows t screen) :
    after.display.Shows t screen := by
  obtain ⟨s, hset⟩ := hk.settled
  by_cases htick : ∃ ebp inner, event = .kernel (.tick ebp inner)
  · obtain ⟨ebp, inner, rfl⟩ := htick
    choose screens hscreens using fun t =>
      exists_shown (k.display.page (k.display.own t)) (hk.sound.inRange t).1 (hk.sound.inRange t).2
    have hshows : ShowsScreens k screens := ⟨hset.totalTerminal, hk.routed.videoMem, hscreens⟩
    rw [hs.unique (hscreens t)]
    exact (hshows.tick hstep).shows t
  · push Not at htick
    have hdraws := hset.drawsOn hk.routed hdisc htick hstep
    exact (hdraws.shows_iff hother screen).mpr hs

end RoutedSystem

theorem AfterStartUp.routedSystem {img : Image} {start k : Kernel} {ebp : Nat} {inner : Regs}
    (hstart : AfterStartUp img start) (htick : step img start (.tick ebp inner) = some k) :
    RoutedSystem img k := by
  obtain ⟨s, hset, -⟩ := hstart.settled
  obtain ⟨⟨m, history, hrun, -⟩, htotal⟩ := hstart
  have hsettled : ∃ s', Settled img k s' := by
    have hdisc : Disciplined img start (.tick ebp inner) := trivial
    obtain ⟨s', hset', -⟩ := hset.step hdisc htick
    exact ⟨s', hset'⟩
  exact ⟨hsettled, Kernel.tick_routed (by rw [htotal]; decide) htick,
    Reachable.sound ⟨_, hrun.extend htick⟩⟩

end Ece391
