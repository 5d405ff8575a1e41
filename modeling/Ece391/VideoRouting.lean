import Ece391.StartUp

/-! # Where the running process draws

`video_mem` and the first entry of the user's video page table shall name the page
of the scheduled terminal: the screen while that terminal is displayed, its buffer
otherwise. `vidmap` computes the page from the terminals as they are. The PIT handler
computes it from the terminals as they will be after a normal rotation, and its
start-up paths move them once more afterwards.
-/

namespace Ece391

open Function Transition
open Kernel (videoPageFor)

/-- The page that belongs to the scheduled terminal, and its entry. -/
def Kernel.ownVideo (k : Kernel) : VideoPage × Nat :=
  (videoPageFor k.currScheduled k.currTerminal,
    vidEntryOf (videoPageFor k.currScheduled k.currTerminal))

/-- Both routes lead to the page of the scheduled terminal. -/
def Routed (k : Kernel) : Prop := k.video = k.ownVideo

theorem routed_iff_page {k : Kernel} {page : VideoPage}
    (hvideo : k.video = (page, vidEntryOf page)) :
    Routed k ↔ page = videoPageFor k.currScheduled k.currTerminal := by
  unfold Routed Kernel.ownVideo
  rw [hvideo, Prod.mk.injEq]
  exact ⟨And.left, fun hpage => ⟨hpage, congrArg vidEntryOf hpage⟩⟩

/-! ## The numbers of the start-up -/

/-- While shells are missing the scheduled terminal is the last one that got a shell. -/
structure StartUpNumbers (k : Kernel) : Prop where
  le : k.totalTerminal ≤ 4
  scheduled : k.totalTerminal < 4 → k.currScheduled.num = max 1 k.totalTerminal

theorem StartUpNumbers.boot (m : BootMemory) : StartUpNumbers (boot m) :=
  ⟨Nat.zero_le 4, fun _ => rfl⟩

/-- Only ticks move the display and the number of terminals. -/
theorem step_terminals {img : Image} {k after : Kernel} {event : Event}
    (hnotTick : ∀ ebp inner, event ≠ .tick ebp inner) (hstep : step img k event = some after) :
    after.totalTerminal = k.totalTerminal ∧ after.currTerminal = k.currTerminal := by
  by_cases hquiet : event.Quiet
  · have hsame := step_same hquiet hstep
    exact ⟨hsame.totalTerminal, hsame.currTerminal⟩
  have hexecute : ∀ {k after : Kernel} {command : Option (List UInt8)} {regs : Regs}
      {result : ExecReturn}, k.execute img command regs = some (result, after) →
      after.totalTerminal = k.totalTerminal ∧ after.currTerminal = k.currTerminal := by
    intro k after command regs result hexecute
    rcases Kernel.execute_cases hexecute with ⟨-, -, hsame, -⟩ | ⟨program, -, -, -, hlaunched⟩
    · exact ⟨hsame.totalTerminal, hsame.currTerminal⟩
    · exact ⟨hlaunched.totalTerminal, hlaunched.currTerminal⟩
  cases event with
  | tick ebp inner => exact absurd rfl (hnotTick ebp inner)
  | execute command regs =>
      obtain ⟨⟨result, last⟩, hexecuted, rfl⟩ := Option.map_eq_some_iff.mp hstep
      exact hexecute hexecuted
  | halt status regs =>
      obtain ⟨⟨result, last⟩, hhalt, rfl⟩ := Option.map_eq_some_iff.mp hstep
      obtain ⟨released, hreleased, hcases⟩ := Kernel.halt_cases hhalt
      rcases hcases with ⟨-, -, -, hlast⟩ | ⟨-, ⟨result', last'⟩, hexecuted, hlast⟩
      · obtain rfl := hlast
        exact ⟨hreleased.totalTerminal, hreleased.currTerminal⟩
      · obtain rfl : last' = last := hlast
        obtain ⟨d, hkept, hreset⟩ := released.resetTerminal_eq
        obtain ⟨htotal, hshown⟩ := hexecute hexecuted
        rw [hreset] at htotal hshown
        exact ⟨htotal.trans hreleased.totalTerminal,
          hshown.trans ((congrArg Prod.fst hkept.aim).trans hreleased.currTerminal)⟩
  | key | rtc | read | write | open_ | close | getargs | vidmap => exact (hquiet trivial).elim

/-- Ticks go on with the numbers and every other event leaves them. -/
theorem StartUpNumbers.step {img : Image} {k after : Kernel} {event : Event}
    (hnumbers : StartUpNumbers k) (hstep : step img k event = some after) :
    StartUpNumbers after := by
  by_cases htick : ∃ ebp inner, event = .tick ebp inner
  · obtain ⟨ebp, inner, rfl⟩ := htick
    have hle := hnumbers.le
    have hscheduled := hnumbers.scheduled
    rcases Nat.lt_trichotomy k.totalTerminal 3 with hmissing | hlast | hrunning
    · obtain ⟨htotal, hnext⟩ := Kernel.pitHandler_shell_numbers hmissing hstep
      refine ⟨by omega, fun _ => ?_⟩
      have hnum := hscheduled (by omega)
      rw [hnext, htotal]
      split
      · omega
      · rw [Terminal.num_next]
        omega
    · obtain ⟨hsame, -⟩ := Kernel.pitHandler_finish hlast hstep
      have htotal : after.totalTerminal = 4 := hsame.totalTerminal
      exact ⟨by omega, fun hlt => by omega⟩
    · have htotal := (Kernel.pitHandler_rotated hrunning hstep).totalTerminal
      exact ⟨by omega, fun hlt => by omega⟩
  · push Not at htick
    have htotal := (step_terminals htick hstep).1
    refine ⟨htotal ▸ hnumbers.le, fun hlt => ?_⟩
    rw [step_scheduled htick hstep, htotal]
    exact hnumbers.scheduled (htotal ▸ hlt)

/-! ## Ticks and vidmap -/

/-- The ticks whose routing is right: those of normal rotation, and those that put the
second or the third shell on a terminal that is displayed already. -/
def RoutesTick (k : Kernel) : Prop :=
  k.totalTerminal = 4 ∨
    (k.totalTerminal = 1 ∨ k.totalTerminal = 2) ∧ k.displayedNext = k.currScheduled.next

theorem videoPageFor_eq_screen {scheduled displayed : Terminal} :
    videoPageFor scheduled displayed = .screen ↔ displayed = scheduled := by
  unfold videoPageFor
  split <;> simp_all [eq_comm]

/-- Off its own terminals a routed page names neither the buffer of the one nor the
other. -/
theorem videoPageFor_ne {first second displayed : Terminal} (hne : first ≠ second) :
    videoPageFor first displayed ≠ videoPageFor second displayed := by
  unfold videoPageFor
  split <;> split <;> simp_all

/-- What a tick aims and moves before it executes a shell stays as it is. -/
theorem Kernel.tick_shell_left {k after : Kernel} {img : Image} {ebp : Nat} {inner : Regs}
    (hmissing : k.totalTerminal < 3) (htick : k.pitHandler img ebp inner = some after) :
    ∃ left, LeftForShell k ebp left ∧ after.video = left.video ∧
      after.currScheduled = left.currScheduled ∧ after.currTerminal = left.currTerminal := by
  obtain ⟨left, result, hleft, hexecute⟩ := Kernel.pitHandler_shell hmissing htick
  refine ⟨left, hleft, ?_⟩
  rcases Kernel.execute_cases hexecute with ⟨-, -, hsame, -, hvideo, -⟩ |
      ⟨program, -, -, -, hlaunched⟩
  · exact ⟨hvideo, hsame.currScheduled, hsame.currTerminal⟩
  · exact ⟨hlaunched.video, hlaunched.currScheduled, hlaunched.currTerminal⟩

/-- A tick that starts a shell has routed the video for the terminals before that. -/
theorem Kernel.tick_shell_routed {k after : Kernel} {img : Image} {ebp : Nat} {inner : Regs}
    (hnumbers : StartUpNumbers k) (hmissing : k.totalTerminal < 3)
    (htick : k.pitHandler img ebp inner = some after) : Routed after ↔ RoutesTick k := by
  obtain ⟨left, hleft, hvideo, hscheduled, hshown⟩ := Kernel.tick_shell_left hmissing htick
  rw [routed_iff_page (hvideo.trans hleft.video), hscheduled, hshown, hleft.currScheduled,
    hleft.currTerminal]
  have hnum := hnumbers.scheduled (by omega)
  unfold RoutesTick
  by_cases hfirst : k.totalTerminal = 0
  · have hone : k.currScheduled = .T1 := Terminal.num_inj (by rw [hnum, hfirst]; rfl)
    have hnext : k.currScheduled.next ≠ k.currScheduled := by rw [hone]; decide
    rw [if_pos hfirst, if_pos hfirst]
    have hwrong : videoPageFor k.currScheduled.next k.displayedNext ≠
        videoPageFor k.currScheduled k.displayedNext := videoPageFor_ne hnext
    exact ⟨fun hpage => absurd hpage hwrong, by omega⟩
  · rw [if_neg hfirst, if_neg hfirst]
    have hown : (if k.totalTerminal = 1 then Terminal.T2 else .T3) = k.currScheduled.next := by
      apply Terminal.num_inj
      rw [Terminal.num_next, hnum]
      split
      · simp [Terminal.num, *]
      · have htwo : k.totalTerminal = 2 := by omega
        simp [Terminal.num, htwo]
    rw [hown, show videoPageFor k.currScheduled.next k.currScheduled.next = .screen from if_pos rfl,
      videoPageFor_eq_screen]
    constructor
    · exact fun hshown => .inr ⟨by omega, hshown⟩
    · rintro (hrunning | ⟨-, hshown⟩)
      · omega
      · exact hshown

/-- The tick that ends the start-up has routed the video for the first terminal, and
leaves the third one scheduled. -/
theorem Kernel.tick_finish_not_routed {k after : Kernel} {img : Image} {ebp : Nat} {inner : Regs}
    (hnumbers : StartUpNumbers k) (hlast : k.totalTerminal = 3)
    (htick : k.pitHandler img ebp inner = some after) : ¬ Routed after := by
  obtain ⟨hsame, -, -, -, hvideo⟩ := Kernel.pitHandler_finish hlast htick
  have hthird : k.currScheduled = .T3 :=
    Terminal.num_inj (by rw [hnumbers.scheduled (by omega), hlast]; rfl)
  rw [routed_iff_page hvideo, show after.currScheduled = .T3 from hsame.currScheduled,
    show after.currTerminal = .T1 from hsame.currTerminal, hthird]
  unfold videoPageFor
  split <;> decide

/-- A tick of normal rotation routes the video for the terminal it schedules. -/
theorem Kernel.tick_routed {k after : Kernel} {img : Image} {ebp : Nat} {inner : Regs}
    (hrunning : 3 < k.totalTerminal) (htick : k.pitHandler img ebp inner = some after) :
    Routed after := by
  have hrotated := Kernel.pitHandler_rotated hrunning htick
  rw [routed_iff_page hrotated.video, hrotated.currScheduled, hrotated.currTerminal]

/-- A `vidmap` that succeeds routes the video for the scheduled terminal. -/
theorem Kernel.vidmap_routed {k after : Kernel} {screenStart : Nat} {out : List UInt8}
    (hvidmap : k.vidmap screenStart = some (.returned 0 out, after)) : Routed after := by
  unfold Kernel.vidmap at hvidmap
  split at hvidmap
  · simp [failed] at hvidmap
  · obtain ⟨last, hlast, heq⟩ := Option.map_eq_some_iff.mp hvidmap
    obtain ⟨-, rfl⟩ := Prod.mk.inj heq
    obtain ⟨hsame, -, hvideo, -⟩ := Kernel.storeUserBytes_same hlast
    rw [routed_iff_page hvideo, hsame.currScheduled, hsame.currTerminal]

/-! ## Every run from boot -/

/-- A finished tick, or a successful `vidmap`. -/
def RoutesVideo (fired : Fired Kernel Event) : Prop :=
  match fired.event with
  | .tick _ _ => True
  | .vidmap screenStart => ∃ out, fired.pre.vidmap screenStart = some (.returned 0 out, fired.post)
  | _ => False

/-- The condition on the state before: it says nothing of `vidmap`. -/
def RoutesRight (k : Kernel) : Event → Prop
  | .tick _ _ => RoutesTick k
  | _ => True

/-- In every run from boot a tick or a `vidmap` leaves the video routed exactly when it
is a `vidmap`, a tick of normal rotation, or the start of a shell on the terminal that
is displayed. -/
theorem video_routed {m : BootMemory} {img : Image} {history : List (Fired Kernel Event)}
    {last : Kernel} (hrun : Run (step img) (boot m) history last) {fired : Fired Kernel Event}
    (hfired : fired ∈ history) (hvideo : RoutesVideo fired) :
    Routed fired.post ↔ RoutesRight fired.pre fired.event := by
  obtain ⟨index, hindex⟩ := List.getElem?_of_mem hfired
  obtain ⟨hprior, hstep⟩ := hrun.before hindex
  have hnumbers : StartUpNumbers fired.pre :=
    hprior.invariant StartUpNumbers (fun _ _ _ hnumbers => hnumbers.step) (.boot m)
  obtain ⟨k, event, after⟩ := fired
  cases event with
  | tick ebp inner =>
      show Routed after ↔ RoutesTick k
      rcases Nat.lt_trichotomy k.totalTerminal 3 with hmissing | hlast | hrunning
      · exact Kernel.tick_shell_routed hnumbers hmissing hstep
      · have hwrong := Kernel.tick_finish_not_routed hnumbers hlast hstep
        unfold RoutesTick
        exact ⟨fun hrouted => absurd hrouted hwrong, by omega⟩
      · have hle : k.totalTerminal ≤ 4 := hnumbers.le
        have hrotation : RoutesTick k := .inl (by omega)
        exact ⟨fun _ => hrotation, fun _ => Kernel.tick_routed hrunning hstep⟩
  | vidmap screenStart =>
      obtain ⟨out, hvidmap⟩ := hvideo
      exact ⟨fun _ => trivial, fun _ => Kernel.vidmap_routed hvidmap⟩
  | execute | halt | key | rtc | read | write | open_ | close | getargs => exact hvideo.elim

/-- The first tick after the start-up is one of normal rotation. -/
theorem video_routed_rotation :
    ∃ m history last, Run (step shellImage) (boot m) history last ∧ last.currScheduled = .T1 ∧
      last.currTerminal = .T1 ∧ Routed last := by
  obtain ⟨start, k, s, ⟨⟨m, history, hrun, -⟩, htotal⟩, htick, hset, -, hscheduled, hshown, -⟩ :=
    shellImage_displayed
  refine ⟨m, _, k, hrun.extend htick, hscheduled, hshown, ?_⟩
  exact (video_routed (hrun.extend htick) List.mem_concat_self trivial).mpr (.inl htotal)

/-- The tick that creates the first shell aims at the buffer of the second terminal,
while the first one is scheduled and displayed. -/
theorem video_routed_first_tick :
    ∃ after, step shellImage (boot zeroMemory) (.tick 0 ⟨0, 0⟩) = some after ∧
      after.currScheduled = .T1 ∧ after.currTerminal = .T1 ∧
      after.display.videoMem = .buffer .T2 ∧ ¬ Routed after := by
  obtain ⟨after, htick, -⟩ :=
    boot_tick_completes zeroMemory 0 ⟨0, 0⟩ shellImage_shell shellImage_loadable
  have hmissing : (boot zeroMemory).totalTerminal < 3 := by decide
  obtain ⟨left, hleft, hvideo, hscheduled, hshown⟩ := Kernel.tick_shell_left hmissing htick
  have hpage : after.display.videoMem = .buffer .T2 :=
    congrArg Prod.fst (hvideo.trans hleft.video)
  have hfirst : after.currScheduled = .T1 := hscheduled.trans hleft.currScheduled
  have hone : after.currTerminal = .T1 := hshown.trans hleft.currTerminal
  refine ⟨after, htick, hfirst, hone, hpage, fun hrouted => ?_⟩
  have hown := congrArg Prod.fst hrouted
  rw [Kernel.ownVideo, hfirst, hone] at hown
  exact absurd (hpage.symm.trans hown) (by decide)

end Ece391
