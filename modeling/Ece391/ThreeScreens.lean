import Ece391.InputLines
import Ece391.VideoRouting

/-! # Three independent screens

One page of video memory and three buffers that are swapped with it behave as three
screens, one for each terminal. Process output goes to the screen of the scheduled
terminal, the keyboard to that of the displayed one, and a tick changes none.
-/

namespace Ece391

open Function Transition
open Kernel (videoPageFor)

/-! ## What may happen to a screen -/

/-- The Backspace branch with the test in front of it. -/
def Display.backspace (d : Display) : Display :=
  if d.screenX d.currTerminal = 0 ∧ d.screenY d.currTerminal = 0 then d else d.eraseChar

namespace Display.ActsOn

variable {d : Display} {t : Terminal}

theorem nothing (d : Display) (t : Terminal) : ActsOn d d t (ScreenAction.apply (.print [])) :=
  refl d t

theorem echo (d : Display) (c : UInt8) :
    ActsOn d (d.putc2 c) d.currTerminal (ScreenAction.apply (.print [c])) := putc2 c rfl

theorem backspace (d : Display) :
    ActsOn d d.backspace d.currTerminal (ScreenAction.apply .erase) := by
  unfold Display.backspace
  split
  · next hhome =>
    refine ⟨.refl _ _ _, fun s hs => ?_⟩
    have hs' : s.AtHome := ⟨hs.row.symm.trans hhome.2, hs.col.symm.trans hhome.1⟩
    rw [ScreenAction.apply, TextScreen.erase, if_pos hs']
    exact hs
  · next hhome => exact eraseChar rfl hhome

theorem key (s : KeyState) (c : UInt8) :
    ActsOn s.display (keyboardHandler s c).display s.display.currTerminal (s.action c).apply := by
  have heffect := keyboardHandler_effect s c
  generalize keyboardHandler s c = after at heffect
  generalize haction : s.action c = action at heffect
  cases heffect with
  | idle | exchange | enter => exact nothing _ _
  | blocked _ _ hcursor =>
      have hback := backspace s.display
      rwa [Display.backspace, if_pos hcursor] at hback
  | clear => exact clearScreen rfl
  | type char => exact echo _ char
  | erase _ _ _ hcursor => exact eraseChar rfl hcursor

end Display.ActsOn

/-! ## Output, keyboard and ticks in any order -/

inductive ScreenEvent where
  | output (chars : List UInt8)
  | echo (c : UInt8)
  | backspace
  | clear
  | key (c : UInt8)
  | tick (ebp : Nat) (inner : Regs)

def screenStep (img : Image) (k : Kernel) : ScreenEvent → Option Kernel
  | .output chars => some { k with display := k.display.putfile k.currScheduled chars }
  | .echo c => some { k with display := k.display.putc2 c }
  | .backspace => some { k with display := k.display.backspace }
  | .clear => some { k with display := k.display.clearScreen }
  | .key c => some (k.keyboardInterrupt c)
  | .tick ebp inner => k.pitHandler img ebp inner

/-- The one terminal an event is for, and what it does to its screen. -/
def screenEffect (k : Kernel) : ScreenEvent → Option (Terminal × ScreenAction)
  | .output chars => some (k.currScheduled, .print (chars.filter (· ≠ NUL)))
  | .echo c => some (k.currTerminal, .print [c])
  | .backspace => some (k.currTerminal, .erase)
  | .clear => some (k.currTerminal, .clear)
  | .key c => some (k.currTerminal, k.keyState.action c)
  | .tick _ _ => none

/-- What a run does to the screen of one terminal. -/
def actionsOn (t : Terminal) (history : List (Fired Kernel ScreenEvent)) : List ScreenAction :=
  history.filterMap fun fired =>
    (screenEffect fired.pre fired.event).bind fun (owner, action) =>
      if owner = t then some action else none

/-- The three screens that the pages show while `video_mem` is routed. -/
structure ShowsScreens (k : Kernel) (screens : Terminal → Screen) : Prop where
  totalTerminal : k.totalTerminal = 4
  routed : k.display.videoMem = k.display.own k.currScheduled
  shows : ∀ t, k.display.Shows t (screens t)

/-- An event that acts on one screen and leaves the terminals as they are. -/
theorem ShowsScreens.act {k after : Kernel} {screens : Terminal → Screen} {t : Terminal}
    {action : ScreenAction} (hk : ShowsScreens k screens)
    (htotal : after.totalTerminal = k.totalTerminal)
    (hscheduled : after.currScheduled = k.currScheduled)
    (hacts : Display.ActsOn k.display after.display t action.apply) :
    ShowsScreens after (update screens t (action.apply (screens t))) where
  totalTerminal := htotal.trans hk.totalTerminal
  routed := by
    rw [hscheduled, hacts.beside.own_eq, ← hk.routed]
    exact congrArg Prod.snd hacts.beside.aim
  shows := hacts.screens hk.shows

theorem Kernel.pitHandler_display {k after : Kernel} {img : Image} {ebp : Nat} {inner : Regs}
    (hrunning : 3 < k.totalTerminal) (htick : k.pitHandler img ebp inner = some after) :
    after.display = k.prepareTick.display := by
  rw [k.pitHandler_eq, if_neg (by omega), if_neg (by omega), Kernel.rotate_eq] at htick
  split at htick
  · obtain rfl := Option.some.inj htick
    rfl
  · simp at htick

theorem Kernel.applySwitch_shows {k : Kernel} {t : Terminal} {s : Screen}
    (hs : k.display.Shows t s) : k.applySwitch.display.Shows t s := by
  cases hflag : k.switchFlag with
  | none =>
      have happly : k.applySwitch.display = k.display := by simp only [Kernel.applySwitch, hflag]
      rwa [happly]
  | some target =>
      have happly : k.applySwitch.display =
          k.display.switchTerminal k.display.currTerminal target := by
        simp only [Kernel.applySwitch, hflag]
      rw [happly]
      exact Display.switchTerminal_shows target hs

/-- A tick changes no screen. -/
theorem ShowsScreens.tick {k after : Kernel} {img : Image} {screens : Terminal → Screen} {ebp : Nat}
    {inner : Regs} (hk : ShowsScreens k screens)
    (htick : k.pitHandler img ebp inner = some after) : ShowsScreens after screens := by
  have hrunning : 3 < k.totalTerminal := by
    rw [hk.totalTerminal]
    decide
  have hrotated := Kernel.pitHandler_rotated hrunning htick
  have hdisplay := Kernel.pitHandler_display hrunning htick
  refine ⟨hrotated.totalTerminal.trans hk.totalTerminal, ?_, fun t => ?_⟩
  · have hpage := congrArg Prod.fst hrotated.video
    refine hpage.trans ?_
    have hshown : after.display.currTerminal = k.displayedNext := hrotated.currTerminal
    rw [hrotated.currScheduled]
    unfold Display.own
    rw [hshown]
    rfl
  · have hswitched := Kernel.applySwitch_shows (hk.shows t)
    rw [hdisplay]
    have hpage : k.prepareTick.display.page = k.applySwitch.display.page := by
      funext target
      cases target <;> rfl
    unfold Display.Shows Display.ShownOn
    rw [hpage]
    exact hswitched

/-- One event: the screen of its terminal changes as it would alone, and no other. -/
theorem ShowsScreens.step {k after : Kernel} {img : Image} {screens : Terminal → Screen}
    {event : ScreenEvent} (hk : ShowsScreens k screens)
    (hstep : screenStep img k event = some after) :
    ShowsScreens after fun t =>
      (actionsOn t [⟨k, event, after⟩]).foldl (fun s action => action.apply s) (screens t) := by
  have hone : ∀ {owner : Terminal} {action : ScreenAction},
      screenEffect k event = some (owner, action) →
      (fun t => (actionsOn t [⟨k, event, after⟩]).foldl (fun s action => action.apply s)
        (screens t)) = update screens owner (action.apply (screens owner)) := by
    intro owner action heffect
    funext t
    simp only [actionsOn, List.filterMap_cons, heffect, Option.bind_some, List.filterMap_nil]
    by_cases howner : owner = t
    · subst howner
      simp
    · rw [if_neg howner, update_of_ne (Ne.symm howner)]
      rfl
  cases event with
  | output chars =>
      obtain rfl := Option.some.inj hstep
      rw [hone rfl]
      exact hk.act rfl rfl (.putfile hk.routed chars)
  | echo c =>
      obtain rfl := Option.some.inj hstep
      rw [hone rfl]
      exact hk.act rfl rfl (.echo _ c)
  | backspace =>
      obtain rfl := Option.some.inj hstep
      rw [hone rfl]
      exact hk.act rfl rfl (.backspace _)
  | clear =>
      obtain rfl := Option.some.inj hstep
      rw [hone rfl]
      exact hk.act rfl rfl (.clearScreen rfl)
  | key c =>
      obtain rfl := Option.some.inj hstep
      rw [hone rfl]
      exact hk.act rfl rfl (.key k.keyState c)
  | tick ebp inner => exact hk.tick hstep

theorem actionsOn_append (t : Terminal) (first second : List (Fired Kernel ScreenEvent)) :
    actionsOn t (first ++ second) = actionsOn t first ++ actionsOn t second :=
  List.filterMap_append

/-- A run: every screen has been through the actions on it and nothing else. -/
theorem ShowsScreens.run {k last : Kernel} {img : Image} {screens : Terminal → Screen}
    {history : List (Fired Kernel ScreenEvent)} (hk : ShowsScreens k screens)
    (hrun : Run (screenStep img) k history last) :
    ShowsScreens last fun t =>
      (actionsOn t history).foldl (fun s action => action.apply s) (screens t) := by
  induction hrun with
  | start => exact hk
  | extend prior hstep ih =>
      have hlast := ih.step hstep
      simpa only [actionsOn_append, List.foldl_append] using hlast

/-- From any state after the start-up whose `video_mem` is routed, runs of output,
keyboard events and ticks act on three independent screens. A terminal's screen at the
end depends on the actions on it alone, so output may come before or after a switch. -/
theorem three_screens {m : BootMemory} {img : Image} {k last : Kernel}
    {history : List (Fired Kernel ScreenEvent)} (hreach : Reachable (step img) (boot m) k)
    (htotal : k.totalTerminal = 4)
    (hrouted : k.display.videoMem = videoPageFor k.currScheduled k.currTerminal)
    (hrun : Run (screenStep img) k history last) :
    (∃ screens : Terminal → Screen, (∀ t, k.display.Shows t (screens t)) ∧
      ∀ t, last.display.Shows t
        ((actionsOn t history).foldl (fun s action => action.apply s) (screens t))) ∧
    ∀ {history' : List (Fired Kernel ScreenEvent)} {last' : Kernel},
      Run (screenStep img) k history' last' → ∀ t, actionsOn t history' = actionsOn t history →
        ∀ s, last'.display.Shows t s ↔ last.display.Shows t s := by
  have hrange := (Reachable.sound hreach).inRange
  choose screens hshows using fun t =>
    exists_shown (k.display.page (k.display.own t)) (hrange t).1 (hrange t).2
  have hk : ShowsScreens k screens := ⟨htotal, hrouted, hshows⟩
  have hlast := hk.run hrun
  refine ⟨⟨screens, hshows, hlast.shows⟩, fun hrun' t hactions s => ?_⟩
  have hlast' := (hk.run hrun').shows t
  rw [hactions] at hlast'
  constructor
  · intro hs
    rw [hs.unique hlast']
    exact hlast.shows t
  · intro hs
    rw [hs.unique (hlast.shows t)]
    exact hlast'

/-- Output leaves the processes and the keyboard alone. -/
theorem Settled.output {img : Image} {k : Kernel} {s : DisjointStacks Terminal Nat}
    {kb : Keyboard} {flag : Option Terminal} {t : Terminal} (hset : Settled img k s)
    (hk : k.KeyedAt kb flag t) (chars : List UInt8) :
    ∃ after, screenStep img k (.output chars) = some after ∧ Settled img after s ∧
      after.KeyedAt kb flag t ∧ after.currScheduled = k.currScheduled := by
  have hsame : SameProcesses k { k with display := k.display.putfile k.currScheduled chars } :=
    .of_io (.putfile k.display _ _) id k.rtc k.dirIndex
  exact ⟨_, rfl, hset.same hsame, ⟨hk.kb, hk.flag, hsame.currTerminal.trans hk.shown⟩, rfl⟩

/-- The first shell prints on both sides of the keys that ask for the second terminal. Two
ticks later the third shell prints in the background, and Q is typed on the second. -/
theorem three_screens_background :
    ∃ k last history, Run (screenStep shellImage) k history last ∧
      history.map Fired.event = [.output [72, 105], .key KEY_A, .key ALT_PRESSED, .key KEY_F2,
        .output [33], .tick 0 ⟨0, 0⟩, .tick 0 ⟨0, 0⟩, .output [66], .key ALT_RELEASED,
        .key KEY_Q] ∧
      ∃ screens : Terminal → Screen, (∀ t, k.display.Shows t (screens t)) ∧
        last.display.Shows .T1 ((ScreenAction.print [72, 105, 97, 33]).apply (screens .T1)) ∧
        last.display.Shows .T2 ((ScreenAction.print [113]).apply (screens .T2)) ∧
        last.display.Shows .T3 ((ScreenAction.print [66]).apply (screens .T3)) := by
  obtain ⟨start, k, s, ⟨⟨m, boots, hboot, -⟩, htotal⟩, htick, hset, -, hscheduled, hshown, hflag,
    hkb⟩ := shellImage_displayed
  have hreach : Reachable (step shellImage) (boot m) k := ⟨_, hboot.extend htick⟩
  have hrouted := Kernel.tick_routed (by rw [htotal]; decide) htick
  have hkey : ∀ {k after : Kernel} {c : UInt8}, step shellImage k (.key c) = some after →
      after.currScheduled = k.currScheduled :=
    fun hstep => (step_same (show (Event.key _).Quiet from trivial) hstep).currScheduled
  have hk : k.KeyedAt (boot zeroMemory).kb none .T1 := ⟨hkb, hflag, hshown⟩
  obtain ⟨k₁, hstep₁, hset₁, hk₁, hsame₁⟩ := hset.output hk [72, 105]
  obtain ⟨k₂, hstep₂, hset₂, hk₂⟩ :=
    hk₁.press hset₁ KEY_A ((boot zeroMemory).kb.append 97) none fun _ _ => ⟨rfl, rfl⟩
  obtain ⟨k₃, hstep₃, hset₃, hk₃⟩ :=
    hk₂.press hset₂ ALT_PRESSED typedKeyboard none fun _ _ => ⟨rfl, rfl⟩
  obtain ⟨k₄, hstep₄, hset₄, hk₄⟩ :=
    hk₃.press hset₃ KEY_F2 exchangedKeyboard (some .T2) fun _ => exchanges_second
  obtain ⟨k₅, hstep₅, hset₅, hk₅, hsame₅⟩ := hset₄.output hk₄ [33]
  -- the first tick carries out the switch
  obtain ⟨k₆, htick₆, hrotated₆⟩ := hset₅.tick_completes 0 ⟨0, 0⟩
  have hset₆ := hset₅.tick hrotated₆
  have hk₆ := hk₅.tick hrotated₆
  obtain ⟨k₇, htick₇, hrotated₇⟩ := hset₆.tick_completes 0 ⟨0, 0⟩
  have hset₇ := hset₆.tick hrotated₇
  have hk₇ := hk₆.tick hrotated₇
  obtain ⟨k₈, hstep₈, hset₈, hk₈, -⟩ := hset₇.output hk₇ [66]
  obtain ⟨k₉, hstep₉, -, hk₉⟩ := hk₈.press hset₈ ALT_RELEASED
    (exchangedKeyboard.modifiers ALT_RELEASED) none fun _ _ => ⟨rfl, rfl⟩
  obtain ⟨last, hstep₁₀⟩ : ∃ last, step shellImage k₉ (.key KEY_Q) = some last := ⟨_, rfl⟩
  have hpress : ∀ {k after : Kernel} {c : UInt8}, step shellImage k (.key c) = some after →
      screenStep shellImage k (.key c) = some after := id
  have hticks : ∀ {k after : Kernel}, k.pitHandler shellImage 0 ⟨0, 0⟩ = some after →
      screenStep shellImage k (.tick 0 ⟨0, 0⟩) = some after := id
  have hfirst := ((((Run.single hstep₁).extend (hpress hstep₂)).extend (hpress hstep₃)).extend
    (hpress hstep₄)).extend hstep₅
  have hrun := ((((hfirst.extend (hticks htick₆)).extend (hticks htick₇)).extend hstep₈).extend
    (hpress hstep₉)).extend (hpress hstep₁₀)
  have hscheduled₄ : k₄.currScheduled = .T1 :=
    (hkey hstep₄).trans ((hkey hstep₃).trans ((hkey hstep₂).trans (hsame₁.trans hscheduled)))
  have hscheduled₇ : k₇.currScheduled = .T3 := by
    rw [hrotated₇.currScheduled, hrotated₆.currScheduled, hsame₅, hscheduled₄]
    rfl
  have haction₂ : k₁.keyState.action KEY_A = .print [97] := hk₁.action fun _ => rfl
  have haction₃ : k₂.keyState.action ALT_PRESSED = .print [] := hk₂.action fun _ => rfl
  have haction₄ : k₃.keyState.action KEY_F2 = .print [] := hk₃.action fun _ => rfl
  have haction₉ : k₈.keyState.action ALT_RELEASED = .print [] := hk₈.action fun _ => rfl
  have haction₁₀ : k₉.keyState.action KEY_Q = .print [113] := hk₉.action fun _ => rfl
  obtain ⟨screens, hshows, hlast⟩ :=
    (three_screens hreach hset.totalTerminal (congrArg Prod.fst hrouted) hrun).1
  refine ⟨k, last, _, hrun, rfl, screens, hshows, ?_, ?_, ?_⟩
  all_goals
    refine (congrArg (last.display.Shows _) ?_).mp (hlast _)
    simp [actionsOn, screenEffect, hscheduled, hscheduled₄, hscheduled₇, haction₂, haction₃,
      haction₄, haction₉, haction₁₀, hk₁.shown, hk₂.shown, hk₃.shown, hk₈.shown, hk₉.shown, NUL,
      ScreenAction.apply]

end Ece391
