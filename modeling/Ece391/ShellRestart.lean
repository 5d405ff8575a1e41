import Ece391.ExecuteHalt
import Ece391.MapUpdates
import Ece391.ProgramLoad
import Ece391.ThreeScreens

/-! # The restart of a root shell

`halt` takes the process of the scheduled terminal out of the table. When it has no parent,
the chain of the displayed terminal is emptied, its screen cleared, and a shell executed,
which goes on that chain: for the scheduled terminal to be the only one touched it has to be
the displayed one.
-/

namespace Ece391

open Function Transition PointerChain
open Kernel (videoPageFor)

/-! ## What a load shows -/

/-- Equal bytes on its page leave a terminal's screen. -/
theorem OnlyUserBytes.shows_iff {k after : Kernel} (honly : OnlyUserBytes k after) {u : Terminal}
    {s : Screen} (hbytes : ∀ offset, after.userByte (.video (k.display.own u) offset) =
      k.userByte (.video (k.display.own u) offset)) :
    after.display.Shows u s ↔ k.display.Shows u s := by
  have hown : after.display.own u = k.display.own u := by rw [honly.display]; rfl
  have hx : after.display.screenX u = k.display.screenX u := by rw [honly.display]
  have hy : after.display.screenY u = k.display.screenY u := by rw [honly.display]
  have hcell : ∀ i, (after.display.page (k.display.own u) i).ch =
      (k.display.page (k.display.own u) i).ch := by
    intro i
    have heven := hbytes (2 * i)
    simp only [Kernel.userByte, Display.loadByte] at heven
    rwa [if_pos (by omega), if_pos (by omega), Nat.mul_div_cancel_left i (by decide)] at heven
  unfold Display.Shows Display.ShownOn
  rw [hown, hx, hy]
  constructor
  · exact fun hs => hs.congr fun i _ => (hcell i).symm
  · exact fun hs => hs.congr fun i _ => hcell i

/-- The video part of the walk does not look at the frame of the program page. -/
theorem Kernel.translate_video_of_map (k : Kernel) (entry vaddr : Nat) {page : VideoPage}
    {offset : Nat} :
    ({ k with userPageEntry := entry } : Kernel).translate vaddr = some (.video page offset) ↔
      k.translate vaddr = some (.video page offset) := by
  unfold Kernel.translate
  by_cases hprogram : _128MB ≤ vaddr ∧ vaddr < USER_VID_ADDR
  · rw [if_pos hprogram, if_pos hprogram]
    simp
  · rw [if_neg hprogram, if_neg hprogram]

theorem Kernel.display_of_map (k : Kernel) (entry : Nat) :
    ({ k with userPageEntry := entry } : Kernel).display = k.display := rfl

theorem Kernel.enterProgram_display (k : Kernel) (i eip : Nat) (regs : Regs) :
    (k.enterProgram i eip regs).display = k.display := by
  obtain ⟨pcb, heads, heq⟩ := k.enterProgram_eq i eip regs
  rw [heq]

/-- The user's video page is the page of the scheduled terminal. -/
def EntryRouted (k : Kernel) : Prop :=
  k.vidTableEntry = vidEntryOf (videoPageFor k.currScheduled k.currTerminal)

/-- It is, unless no tick has come since the start-up ended. -/
def Aimed (k : Kernel) : Prop :=
  EntryRouted k ∨ k.currTerminal = .T1 ∧ k.currScheduled = .T3

/-- The video page leads to the page of the scheduled terminal. -/
theorem EntryRouted.page_eq {k : Kernel} (hrouted : EntryRouted k) {vaddr offset : Nat}
    {page : VideoPage} (hleads : k.translate vaddr = some (.video page offset)) :
    page = k.display.own k.currScheduled := by
  have hpage : vidPageAt k.vidTableEntry = some page := by
    unfold Kernel.translate at hleads
    split at hleads
    · cases hleads
    · split at hleads
      · obtain ⟨page', hpage, heq⟩ := Option.map_eq_some_iff.mp hleads
        obtain rfl := (UserByte.video.inj heq).1
        exact hpage
      · cases hleads
  rw [hrouted, vidPageAt_vidEntryOf] at hpage
  exact (Option.some.inj hpage).symm

theorem Routed.entry {k : Kernel} (hrouted : Routed k) : EntryRouted k := congrArg Prod.snd hrouted

/-- Neither calls nor interrupts other than ticks and `vidmap` aim the page. -/
theorem step_vidTableEntry {img : Image} {k after : Kernel} {event : Event}
    (hnotTick : ∀ ebp inner, event ≠ .tick ebp inner)
    (hnotVidmap : ∀ screenStart, event ≠ .vidmap screenStart)
    (hstep : step img k event = some after) : after.vidTableEntry = k.vidTableEntry := by
  by_cases hquiet : event.Quiet
  · exact congrArg MapEntries.video (step_mapEntries hquiet hnotVidmap hstep)
  have hexecute : ∀ {k after : Kernel} {command : Option (List UInt8)} {regs : Regs}
      {result : ExecReturn}, k.execute img command regs = some (result, after) →
      after.vidTableEntry = k.vidTableEntry := by
    intro k after command regs result hexecute
    rcases Kernel.execute_cases hexecute with ⟨-, -, -, -, hvideo, -⟩ |
        ⟨program, -, -, -, hlaunched⟩
    · exact congrArg Prod.snd hvideo
    · exact congrArg Prod.snd hlaunched.video
  cases event with
  | tick ebp inner => exact absurd rfl (hnotTick ebp inner)
  | execute command regs =>
      obtain ⟨⟨result, last⟩, hexecuted, rfl⟩ := Option.map_eq_some_iff.mp hstep
      exact hexecute hexecuted
  | halt status regs =>
      obtain ⟨⟨result, last⟩, hhalt, rfl⟩ := Option.map_eq_some_iff.mp hstep
      obtain ⟨released, hrelease, -, hcases⟩ := Kernel.halt_release hhalt
      have hreleased := congrArg MapEntries.video (Kernel.release_mapEntries hrelease)
      rcases hcases with ⟨-, -, -, hlast⟩ | ⟨-, ⟨result', last'⟩, hexecuted, hlast⟩
      · obtain rfl := hlast
        exact hreleased
      · obtain rfl : last' = last := hlast
        exact (hexecute hexecuted).trans hreleased
  | key | rtc | read | write | open_ | close | getargs | vidmap => exact (hquiet trivial).elim

/-- `vidmap` aims the page at the scheduled terminal's or leaves it. -/
theorem Kernel.vidmap_aimed {k after : Kernel} {screenStart : Nat} {result : SysReturn}
    (hvidmap : k.vidmap screenStart = some (result, after)) (haimed : Aimed k) : Aimed after := by
  by_cases hrefused : screenStart = NULL ∨ screenStart < _128MB ∨ screenStart ≥ USER_VID_ADDR
  · rw [Kernel.vidmap, if_pos hrefused] at hvidmap
    obtain ⟨-, rfl⟩ := Prod.mk.inj (Option.some.inj hvidmap)
    exact haimed
  · have hsome := hvidmap
    rw [Kernel.vidmap, if_neg hrefused] at hsome
    obtain ⟨last, -, heq⟩ := Option.map_eq_some_iff.mp hsome
    obtain ⟨rfl, -⟩ := Prod.mk.inj heq
    exact .inl (Kernel.vidmap_routed hvidmap).entry

theorem Aimed.step {img : Image} {k after : Kernel} {event : Event} (haimed : Aimed k)
    (htotal : k.totalTerminal = 4) (hstep : Ece391.step img k event = some after) :
    Aimed after := by
  by_cases htick : ∃ ebp inner, event = .tick ebp inner
  · obtain ⟨ebp, inner, rfl⟩ := htick
    exact .inl (Kernel.tick_routed (by rw [htotal]; decide) hstep).entry
  push Not at htick
  by_cases hvidmap : ∃ screenStart, event = .vidmap screenStart
  · obtain ⟨screenStart, rfl⟩ := hvidmap
    obtain ⟨⟨result, last⟩, hvidmap, rfl⟩ := Option.map_eq_some_iff.mp hstep
    exact Kernel.vidmap_aimed hvidmap haimed
  push Not at hvidmap
  have hscheduled := step_scheduled htick hstep
  have hshown := (step_terminals htick hstep).2
  have hentry := step_vidTableEntry htick hvidmap hstep
  unfold Aimed EntryRouted at haimed ⊢
  rwa [hentry, hscheduled, hshown]

/-- The start-up ends with the first terminal displayed. -/
theorem AfterStartUp.shown {img : Image} {start : Kernel} (hstart : AfterStartUp img start) :
    start.currTerminal = .T1 := by
  obtain ⟨⟨m, hreach⟩, htotal⟩ := hstart
  refine hreach.invariant (fun k => k.totalTerminal = 4 → k.currTerminal = .T1) ?_ ?_ htotal
  · intro k event next _ hallowed hstep hnext
    by_cases htick : ∃ ebp inner, event = .tick ebp inner
    · obtain ⟨ebp, inner, rfl⟩ := htick
      rcases Nat.lt_trichotomy k.totalTerminal 3 with hmissing | hlast | hrunning
      · have hnumbers := (Kernel.pitHandler_shell_numbers hmissing hstep).1
        omega
      · exact (Kernel.pitHandler_finish hlast hstep).1.currTerminal
      · have hkept := (Kernel.pitHandler_rotated hrunning hstep).totalTerminal
        exact absurd (hkept.symm.trans hnext) hallowed
    · push Not at htick
      have hkept := (step_terminals htick hstep).1
      have hended : k.totalTerminal = 4 := hkept.symm.trans hnext
      cases event with
      | execute | halt => exact hallowed.elim
      | tick | key | rtc | read | write | open_ | close | getargs | vidmap =>
          exact absurd hended hallowed
  · intro hzero
    cases hzero

theorem Kernel.release_display {k released : Kernel} (hrelease : k.release = some released) :
    released.display = k.display := by
  unfold Kernel.release at hrelease
  obtain ⟨pcb, -, hrelease⟩ := Option.bind_eq_some_iff.mp hrelease
  obtain ⟨closed, hclosed, rfl⟩ := Option.map_eq_some_iff.mp hrelease
  obtain ⟨pcbs, dirIndex, rfl⟩ := Kernel.closeEntries_store hclosed
  rfl

/-- Before the restart the screen of the displayed terminal is cleared, and no other. -/
theorem Kernel.resetTerminal_beside (k : Kernel) :
    ∃ d, Display.Beside k.display d (k.display.own k.currTerminal) k.currTerminal ∧
      k.resetTerminal =
        { k with
          highestTerminalProcesses := update k.highestTerminalProcesses k.currTerminal 0
          display := d } :=
  ⟨_, (Display.ActsOn.clearScreen rfl).beside, rfl⟩

section Root

variable {img : Image} {k after : Kernel} {s : DisjointStacks Terminal Nat} {status : UInt8}
  {regs : Regs} {result : HaltReturn}

end Root

/-! ## Shells that were started by ticks -/

/-- No process has opened anything. -/
def NothingOpen (k : Kernel) : Prop := ∀ n, k.Live n → k.TerminalOnly (getPCB n)

theorem NothingOpen.of_tables {k after : Kernel} (hnothing : NothingOpen k)
    (hslots : after.pcbSlots = k.pcbSlots)
    (hfds : ∀ addr, (after.pcb addr).fileArray = (k.pcb addr).fileArray) : NothingOpen after := by
  intro n hlive
  unfold Kernel.TerminalOnly
  rw [hfds]
  refine hnothing n ?_
  unfold Kernel.Live at hlive ⊢
  rwa [hslots] at hlive

theorem NothingOpen.execute_shell {k after : Kernel} {img : Image} {regs : Regs}
    {result : ExecReturn} (hnothing : NothingOpen k)
    (hexecute : k.execute img (some shellCommand) regs = some (result, after)) :
    NothingOpen after := by
  rcases Kernel.execute_cases hexecute with
    ⟨-, -, hsame, hpcb, -⟩ | ⟨program, hlaunching, -, hresult, -⟩
  · exact hnothing.of_tables hsame.pcbSlots fun addr => by rw [hpcb]
  · rw [hresult] at hexecute
    obtain ⟨program', pcbs, hlaunching', hlaunched, hstore, hothers⟩ := Kernel.execute_pcb hexecute
    rw [findProgram_args (launching_some_iff.mp hlaunching').2] at hstore
    obtain rfl := Option.some.inj hstore
    have hslots := hlaunched.pcbSlots
    have hnew := hlaunched.terminalOnly
    generalize slotSearch k.pcbSlots = i at hothers hslots hnew
    intro n hlive
    by_cases hn : n = i + 1
    · rw [hn]
      exact hnew
    · have hne : getPCB n ≠ getPCB (i + 1) := by
        intro heq
        exact hn ((getPCB_inj hlive.2.1).mp heq.symm).symm
      unfold Kernel.TerminalOnly
      rw [hothers _ hne]
      refine hnothing n ⟨hlive.1, hlive.2.1, ?_⟩
      have hused := hlive.2.2
      have hpos := hlive.1
      rwa [hslots, update_of_ne (by omega)] at hused

theorem NothingOpen.tick {k after : Kernel} {img : Image} {ebp : Nat} {inner : Regs}
    (hnothing : NothingOpen k) (htick : k.pitHandler img ebp inner = some after) :
    NothingOpen after := by
  -- a process that is left keeps its descriptors
  have hleft : ∀ addr esp0, (update k.pcb k.scheduledPcb
      { k.pcb k.scheduledPcb with esp0 := esp0, ebpScheduler := ebp } addr).fileArray =
        (k.pcb addr).fileArray := by
    intro addr esp0
    by_cases haddr : addr = k.scheduledPcb
    · rw [haddr, update_self]
    · rw [update_of_ne haddr]
  rcases Nat.lt_trichotomy k.totalTerminal 3 with hmissing | hlast | hrunning
  · obtain ⟨left, result, hshell, hexecute⟩ := Kernel.pitHandler_shell hmissing htick
    refine NothingOpen.execute_shell ?_ hexecute
    refine hnothing.of_tables hshell.pcbSlots fun addr => ?_
    rw [hshell.pcb]
    split
    · rfl
    · exact hleft addr _
  · obtain ⟨hsame, hpcb, -⟩ := Kernel.pitHandler_finish hlast htick
    exact hnothing.of_tables hsame.pcbSlots fun addr => by rw [hpcb]
  · have hrotated := Kernel.pitHandler_rotated hrunning htick
    refine hnothing.of_tables hrotated.pcbSlots fun addr => ?_
    rw [hrotated.pcb]
    exact hleft addr _

end Ece391
