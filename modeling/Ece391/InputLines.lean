import Ece391.StartUp

/-! # The input line of each terminal

The terminal that receives input has its line in `keyboard_buffer`, and every other
terminal in its saved buffer. Alt with a function key exchanges the lines at once but
saves the live one for `curr_terminal`, which follows only at the next tick: a second
press before that tick saves the line for the wrong terminal.
-/

namespace Ece391

open Function Transition

/-! ## Lines under the keys -/

theorem Keyboard.modifiers_line (kb : Keyboard) (c : UInt8) :
    (kb.modifiers c).line = kb.line ∧ (kb.modifiers c).savedLine = kb.savedLine := by
  obtain ⟨⟨hbuffer, hindex⟩, ⟨hsaved, hpos⟩, -⟩ := kb.modifiers_lines c
  unfold Keyboard.line Keyboard.savedLine
  rw [hbuffer, hindex, hsaved, hpos]
  exact ⟨rfl, rfl⟩

theorem Keyboard.append_line (kb : Keyboard) (c : UInt8) :
    (kb.append c).line = kb.line ++ [c] := by
  unfold Keyboard.append Keyboard.line
  dsimp only
  rw [List.range_succ, List.map_append, List.map_singleton, update_self]
  refine congrArg (· ++ [c]) (List.map_congr_left fun i hi => ?_)
  rw [update_of_ne (List.mem_range.mp hi).ne]

theorem Keyboard.erase_line (kb : Keyboard) (hsome : 0 < kb.index) :
    Keyboard.line { kb with index := kb.index - 1 } = kb.line.dropLast := by
  obtain ⟨n, hn⟩ : ∃ n, kb.index = n + 1 := ⟨kb.index - 1, by omega⟩
  unfold Keyboard.line
  dsimp only
  rw [hn, Nat.add_sub_cancel, List.range_succ, List.map_append, List.map_singleton,
    List.dropLast_concat]

/-- What is echoed on the screen is what happens to the line: a character is added, the
last one erased, and clearing the screen leaves it. -/
def ScreenAction.edit (d : Display) : ScreenAction → List UInt8 → List UInt8
  | .print chars, line => line ++ chars
  | .erase, line =>
      if d.screenX d.currTerminal = 0 ∧ d.screenY d.currTerminal = 0 then line else line.dropLast
  | .clear, line => line

/-- Keys that ask for no other terminal edit the live line. -/
theorem KeyEffect.edits {s after : KeyState} {c : UInt8} {action : ScreenAction}
    (heffect : KeyEffect s c action after) (hstay : s.wanted c = none) :
    after.switchFlag = s.switchFlag ∧ after.kb.line = action.edit s.display s.kb.line ∧
      after.kb.savedLine = s.kb.savedLine := by
  obtain ⟨hline, hsaved⟩ := s.kb.modifiers_line c
  cases heffect with
  | idle | enter =>
      refine ⟨rfl, ?_, hsaved⟩
      rw [ScreenAction.edit, List.append_nil]
      exact hline
  | clear => exact ⟨rfl, hline, hsaved⟩
  | exchange wanted hwanted =>
      rw [hwanted] at hstay
      simp at hstay
  | type char =>
      refine ⟨rfl, ?_, hsaved⟩
      rw [Keyboard.append_line, hline]
      rfl
  | blocked _ _ hcursor =>
      refine ⟨rfl, ?_, hsaved⟩
      rw [ScreenAction.edit, if_pos hcursor]
      exact hline
  | erase _ _ hsome hcursor =>
      refine ⟨rfl, ?_, hsaved⟩
      obtain ⟨⟨-, hindex⟩, -⟩ := s.kb.modifiers_lines c
      have herase := (s.kb.modifiers c).erase_line (hindex ▸ hsome)
      rw [ScreenAction.edit, if_neg hcursor, ← hline, ← herase]
      dsimp only
      rw [hindex]

/-- A key that asks for another terminal exchanges the lines. -/
theorem KeyEffect.exchanges {s after : KeyState} {c : UInt8} {action : ScreenAction}
    {wanted : Terminal} (heffect : KeyEffect s c action after) (hs : s.Sound)
    (hwanted : s.wanted c = some wanted) :
    s.display.currTerminal ≠ wanted ∧ action = .print [] ∧ after.display = s.display ∧
      after.switchFlag = some wanted ∧
      (s.kb.modifiers c).LinesExchanged s.display.currTerminal wanted after.kb := by
  obtain ⟨⟨-, hindex⟩, ⟨-, hpos⟩, -⟩ := s.kb.modifiers_lines c
  have hkb : (s.kb.modifiers c).InBounds :=
    ⟨hindex ▸ hs.inBounds.index, fun t => hpos ▸ hs.inBounds.savedPos t⟩
  cases heffect with
  | exchange wanted' hwanted' _ hne =>
      obtain rfl : wanted' = wanted := Option.some.inj (hwanted'.symm.trans hwanted)
      exact ⟨hne, rfl, rfl, rfl, Keyboard.exchangeLine_lines hkb hne⟩
  | idle hstay | clear hstay | type _ hstay | blocked hstay | erase hstay | enter hstay =>
      rw [hstay] at hwanted
      simp at hwanted

/-! ## One event -/

/-- The line of a terminal: the terminal that receives input is the one that is wanted
while a switch is pending, and the displayed one otherwise. -/
def Kernel.lineOf (k : Kernel) (t : Terminal) : List UInt8 :=
  if t = k.displayedNext then k.kb.line else k.kb.savedLine t

/-- Scancodes and ticks. -/
def Event.IsInput : Event → Prop
  | .tick _ _ | .key _ => True
  | _ => False

/-- What an event shall do to the line of a terminal. -/
def typed (k : Kernel) (t : Terminal) : Event → List UInt8 → List UInt8
  | .key c, line => if t = k.displayedNext then (k.keyState.action c).edit k.display line else line
  | _, line => line

/-- The event has done so to every line. -/
def LinesKept (fired : Fired Kernel Event) : Prop :=
  ∀ t, fired.post.lineOf t = typed fired.pre t fired.event (fired.pre.lineOf t)

/-- No press asks for another terminal while a switch is pending, unless the live line is
saved already both for the displayed terminal and for the pending one. -/
def KeepsLines (k : Kernel) : Event → Prop
  | .key c => ∀ wanted, k.keyState.wanted c = some wanted → ∀ pending, k.switchFlag = some pending →
      k.kb.savedLine k.currTerminal = k.kb.line ∧ k.kb.savedLine pending = k.kb.line
  | _ => True

/-- The tick moves the display to where the input is. -/
theorem Rotated.lineOf {k after : Kernel} {ebp : Nat} (hrotated : Rotated k ebp after) :
    after.lineOf = k.lineOf := by
  have hshown : after.displayedNext = k.displayedNext := by
    rw [Kernel.displayedNext, hrotated.switchFlag, Option.getD_none, hrotated.currTerminal]
  funext t
  unfold Kernel.lineOf
  rw [hshown, hrotated.kb]

/-- A press that asks for another terminal keeps the lines exactly when it may. -/
theorem linesKept_exchange {k after : Kernel} {c : UInt8} {wanted : Terminal}
    (hk : k.keyState.Sound) (hwanted : k.keyState.wanted c = some wanted)
    (hstep : k.keyboardInterrupt c = after) :
    LinesKept ⟨k, .key c, after⟩ ↔ KeepsLines k (.key c) := by
  obtain ⟨hne, haction, -, hflag, hlines⟩ :=
    (keyboardHandler_effect k.keyState c).exchanges hk hwanted
  obtain ⟨hline, hsaved⟩ := k.kb.modifiers_line c
  have hkb : after.kb = (keyboardHandler k.keyState c).kb := by rw [← hstep]; rfl
  have hnext : after.displayedNext = wanted := by
    rw [Kernel.displayedNext, ← hstep]
    show (keyboardHandler k.keyState c).switchFlag.getD _ = wanted
    rw [hflag, Option.getD_some]
  have hafter : ∀ t, after.lineOf t =
      if t = wanted then k.kb.savedLine t
      else if t = k.currTerminal then k.kb.line else k.kb.savedLine t := by
    intro t
    rw [Kernel.lineOf, hnext, hkb]
    by_cases ht : t = wanted
    · rw [if_pos ht, if_pos ht, hlines.line, hsaved, ht]
    · rw [if_neg ht, if_neg ht]
      by_cases hshown : t = k.currTerminal
      · rw [if_pos hshown, hshown, ← hline]
        exact hlines.saved
      · rw [if_neg hshown, ← hsaved]
        exact hlines.untouched t hshown
  have htyped : ∀ t line, typed k t (.key c) line = line := by
    intro t line
    simp only [typed, haction, ScreenAction.edit, List.append_nil, ite_self]
  have hkept : LinesKept ⟨k, .key c, after⟩ ↔ ∀ t, after.lineOf t = k.lineOf t :=
    forall_congr' fun t => by rw [htyped]
  rw [hkept]
  -- without a pending switch the lines change places; with one, two of them are mixed up
  cases hpending : k.switchFlag with
  | none =>
      have hshown : k.displayedNext = k.currTerminal := by
        rw [Kernel.displayedNext, hpending, Option.getD_none]
      constructor
      · intro _ _ _ pending h
        rw [hpending] at h
        simp at h
      · intro _ t
        rw [hafter, Kernel.lineOf, hshown]
        by_cases ht : t = wanted
        · rw [if_pos ht, if_neg fun h => hne (h.symm.trans ht)]
        · rw [if_neg ht]
  | some pending =>
      have hshown : k.displayedNext = pending := by
        rw [Kernel.displayedNext, hpending, Option.getD_some]
      have hother : pending ≠ k.currTerminal := hk.pending pending hpending
      constructor
      · intro hall other hother' pending' hpending'
        obtain rfl : pending = pending' := Option.some.inj (hpending.symm.trans hpending')
        have hdisplayed := hall k.currTerminal
        have hlost := hall pending
        rw [hafter, Kernel.lineOf, hshown, if_neg hne, if_pos rfl, if_neg (Ne.symm hother)]
          at hdisplayed
        rw [hafter, Kernel.lineOf, hshown, if_pos rfl, if_neg hother, ite_self] at hlost
        exact ⟨hdisplayed.symm, hlost⟩
      · intro hkeeps t
        obtain ⟨hdisplayed, hlost⟩ := hkeeps wanted hwanted pending hpending
        rw [hafter, Kernel.lineOf, hshown]
        by_cases ht : t = pending
        · subst ht
          rw [if_pos rfl, if_neg hother, ite_self, hlost]
        · rw [if_neg ht]
          by_cases hcurrent : t = k.currTerminal
          · rw [if_pos hcurrent, hcurrent, if_neg hne, hdisplayed]
          · rw [if_neg hcurrent, ite_self]

theorem linesKept_iff {k after : Kernel} {img : Image} {event : Event} (hk : k.keyState.Sound)
    (htotal : k.totalTerminal = 4) (hinput : event.IsInput)
    (hstep : step img k event = some after) :
    LinesKept ⟨k, event, after⟩ ↔ KeepsLines k event := by
  cases event with
  | tick ebp inner =>
      have hrotated := Kernel.pitHandler_rotated (by rw [htotal]; decide) hstep
      refine ⟨fun _ => trivial, fun _ t => ?_⟩
      show after.lineOf t = k.lineOf t
      rw [hrotated.lineOf]
  | key c =>
      have hkey : k.keyboardInterrupt c = after := Option.some.inj hstep
      cases hwanted : k.keyState.wanted c with
      | some wanted => exact linesKept_exchange hk hwanted hkey
      | none =>
          refine ⟨fun _ wanted h => ?_, fun _ t => ?_⟩
          · rw [hwanted] at h
            simp at h
          · obtain ⟨hflag, hline, hsaved⟩ := (keyboardHandler_effect k.keyState c).edits hwanted
            have hquiet : (Event.key c).Quiet := trivial
            have hshown := (step_same hquiet hstep).currTerminal
            have hkb : after.kb = (keyboardHandler k.keyState c).kb := by rw [← hkey]; rfl
            have hflag' : after.switchFlag = k.switchFlag := by
              rw [← hkey]
              exact hflag
            have hnext : after.displayedNext = k.displayedNext := by
              rw [Kernel.displayedNext, hflag', hshown, Kernel.displayedNext]
            show after.lineOf t = typed k t (.key c) (k.lineOf t)
            unfold Kernel.lineOf typed
            dsimp only
            rw [hnext, hkb]
            by_cases ht : t = k.displayedNext
            · rw [if_pos ht, if_pos ht, if_pos ht]
              exact hline
            · rw [if_neg ht, if_neg ht, if_neg ht, hsaved]
  | rtc | execute | halt | read | write | open_ | close | getargs | vidmap => exact hinput.elim

/-! ## Keys on a known keyboard -/

/-- All that a key depends on but for where the cursor is. -/
structure Kernel.KeyedAt (k : Kernel) (kb : Keyboard) (flag : Option Terminal) (t : Terminal) :
    Prop where
  kb : k.kb = kb
  flag : k.switchFlag = flag
  shown : k.currTerminal = t

namespace Kernel.KeyedAt

variable {k after : Kernel} {kb : Keyboard} {flag : Option Terminal} {t : Terminal}

theorem press {img : Image} {s : DisjointStacks Terminal Nat} (hk : k.KeyedAt kb flag t)
    (hset : Settled img k s) (c : UInt8) (kb' : Keyboard) (flag' : Option Terminal)
    (hhandled : ∀ display : Display, display.currTerminal = t →
      (keyboardHandler ⟨kb, display, flag⟩ c).kb = kb' ∧
        (keyboardHandler ⟨kb, display, flag⟩ c).switchFlag = flag') :
    ∃ after, step img k (.key c) = some after ∧ Settled img after s ∧
      after.KeyedAt kb' flag' t := by
  have hstep : step img k (.key c) = some (k.keyboardInterrupt c) := rfl
  have hsame := step_same (show (Event.key c).Quiet from trivial) hstep
  obtain ⟨hkb, hflag⟩ := hhandled k.display hk.shown
  rw [← hk.kb, ← hk.flag] at hkb hflag
  exact ⟨_, hstep, hset.same hsame, hkb, hflag, hsame.currTerminal.trans hk.shown⟩

theorem tick (hk : k.KeyedAt kb flag t) {ebp : Nat} (hrotated : Rotated k ebp after) :
    after.KeyedAt kb none (flag.getD t) where
  kb := hrotated.kb.trans hk.kb
  flag := hrotated.switchFlag
  shown := by rw [hrotated.currTerminal, Kernel.displayedNext, hk.flag, hk.shown]

theorem displayedNext (hk : k.KeyedAt kb flag t) : k.displayedNext = flag.getD t := by
  rw [Kernel.displayedNext, hk.flag, hk.shown]

theorem action (hk : k.KeyedAt kb flag t) {c : UInt8} {action : ScreenAction}
    (haction : ∀ display, KeyState.action ⟨kb, display, flag⟩ c = action) :
    k.keyState.action c = action := by
  rw [Kernel.keyState, hk.kb, hk.flag]
  exact haction k.display

end Kernel.KeyedAt

/-- Keys that are no function keys ask for no terminal. -/
theorem keepsLines_of_functionKey (k : Kernel) {c : UInt8} (hnone : functionKey c = none) :
    KeepsLines k (.key c) := by
  intro wanted hwanted
  rw [KeyState.wanted, hnone, Option.filter_none, ite_self] at hwanted
  cases hwanted

/-- The keyboard when A was typed on the first terminal, Alt is pressed and then F2. -/
def typedKeyboard : Keyboard := { (boot zeroMemory).kb.append 97 with altKey := true }

def exchangedKeyboard : Keyboard := typedKeyboard.exchangeLine .T1 .T2

theorem exchanges_second {display : Display} {flag : Option Terminal}
    (hshown : display.currTerminal = .T1) :
    (keyboardHandler ⟨typedKeyboard, display, flag⟩ KEY_F2).kb = exchangedKeyboard ∧
      (keyboardHandler ⟨typedKeyboard, display, flag⟩ KEY_F2).switchFlag = some .T2 := by
  have hcases : keyboardHandler ⟨typedKeyboard, display, flag⟩ KEY_F2 =
      if display.currTerminal ≠ .T2 then
        ⟨typedKeyboard.exchangeLine display.currTerminal .T2, display, some .T2⟩
      else ⟨typedKeyboard, display, flag⟩ := rfl
  have hne : display.currTerminal ≠ .T2 := by
    rw [hshown]
    decide
  rw [hcases, if_pos hne, hshown, exchangedKeyboard]
  exact ⟨rfl, rfl⟩

/-! ## Every run -/

/-- Input and ticks after the start-up leave lines and numbers as they have to be. -/
theorem Event.IsInput.step {k after : Kernel} {img : Image} {event : Event}
    (hinput : event.IsInput) (hstep : step img k event = some after)
    (hk : k.keyState.Sound ∧ k.totalTerminal = 4) :
    after.keyState.Sound ∧ after.totalTerminal = 4 := by
  refine ⟨step_sound hstep hk.1, ?_⟩
  cases event with
  | tick ebp inner =>
      exact (Kernel.pitHandler_rotated (by rw [hk.2]; decide) hstep).totalTerminal.trans hk.2
  | key c =>
      obtain rfl := Option.some.inj hstep
      exact hk.2
  | rtc | execute | halt | read | write | open_ | close | getargs | vidmap => exact hinput.elim

/-- From any state after the start-up, an event of a run of scancodes and ticks keeps
every line exactly when it is no second press of a function key before the tick, or a
harmless one. Runs of such events type into the lines as their keys say. -/
theorem lines_kept {m : BootMemory} {img : Image} {k last : Kernel}
    {history : List (Fired Kernel Event)} (hreach : Reachable (step img) (boot m) k)
    (htotal : k.totalTerminal = 4) (hrun : Run (step img) k history last)
    (hinput : ∀ fired ∈ history, fired.event.IsInput) :
    (∀ fired ∈ history, LinesKept fired ↔ KeepsLines fired.pre fired.event) ∧
      ((∀ fired ∈ history, KeepsLines fired.pre fired.event) → ∀ t,
        last.lineOf t =
          history.foldl (fun line fired => typed fired.pre t fired.event line) (k.lineOf t)) ∧
      last.kb.InBounds := by
  have hrun' : (last.keyState.Sound ∧ last.totalTerminal = 4) ∧
      ∀ fired ∈ history, LinesKept fired ↔ KeepsLines fired.pre fired.event := by
    induction hrun with
    | start => exact ⟨⟨Reachable.sound hreach, htotal⟩, by simp⟩
    | extend prior hstep ih =>
        obtain ⟨hprior, hhistory⟩ := ih fun fired hmem => hinput fired (List.mem_append_left _ hmem)
        have hlast := hinput _ (List.mem_append_right _ List.mem_cons_self)
        refine ⟨Event.IsInput.step hlast hstep hprior, fun fired hmem => ?_⟩
        rcases List.mem_append.mp hmem with hmem | hmem
        · exact hhistory fired hmem
        · rw [List.mem_singleton] at hmem
          subst hmem
          exact linesKept_iff hprior.1 hprior.2 hlast hstep
  obtain ⟨⟨hsound, -⟩, hiff⟩ := hrun'
  refine ⟨hiff, fun hkeeps => ?_, hsound.inBounds⟩
  have hkept : ∀ fired ∈ history, LinesKept fired := fun fired hmem =>
    (hiff fired hmem).mpr (hkeeps fired hmem)
  clear hiff hinput hkeeps hsound
  induction hrun with
  | start => exact fun t => rfl
  | extend prior hstep ih =>
      intro t
      rw [List.foldl_append, List.foldl_cons, List.foldl_nil,
        ← ih (fun fired hmem => hkept fired (List.mem_append_left _ hmem)) t]
      exact hkept _ (List.mem_append_right _ List.mem_cons_self) t

/-- A is typed on the first terminal, the second one is shown, and Q is typed there. -/
theorem lines_kept_switch :
    ∃ k last history, Run (step shellImage) k history last ∧
      history.map Fired.event = [.key KEY_A, .key ALT_PRESSED, .key KEY_F2, .tick 0 ⟨0, 0⟩,
        .key ALT_RELEASED, .key KEY_Q] ∧
      k.currTerminal = .T1 ∧ last.currTerminal = .T2 ∧
      last.lineOf .T1 = k.lineOf .T1 ++ [97] ∧ last.lineOf .T2 = k.lineOf .T2 ++ [113] := by
  obtain ⟨start, k, s, ⟨⟨m, boots, hboot, -⟩, -⟩, htick, hset, -, -, hshown, hflag, hkb⟩ :=
    shellImage_displayed
  have hreach : Reachable (step shellImage) (boot m) k := ⟨_, hboot.extend htick⟩
  have hk : k.KeyedAt (boot zeroMemory).kb none .T1 := ⟨hkb, hflag, hshown⟩
  obtain ⟨k₁, hstep₁, hset₁, hk₁⟩ :=
    hk.press hset KEY_A ((boot zeroMemory).kb.append 97) none fun _ _ => ⟨rfl, rfl⟩
  obtain ⟨k₂, hstep₂, hset₂, hk₂⟩ :=
    hk₁.press hset₁ ALT_PRESSED typedKeyboard none fun _ _ => ⟨rfl, rfl⟩
  obtain ⟨k₃, hstep₃, hset₃, hk₃⟩ :=
    hk₂.press hset₂ KEY_F2 exchangedKeyboard (some .T2) fun _ => exchanges_second
  obtain ⟨k₄, htick₄, hrotated⟩ := hset₃.tick_completes 0 ⟨0, 0⟩
  have hstep₄ : step shellImage k₃ (.tick 0 ⟨0, 0⟩) = some k₄ := htick₄
  have hk₄ := hk₃.tick hrotated
  obtain ⟨k₅, hstep₅, -, hk₅⟩ := hk₄.press (hset₃.tick hrotated) ALT_RELEASED
    (exchangedKeyboard.modifiers ALT_RELEASED) none fun _ _ => ⟨rfl, rfl⟩
  obtain ⟨last, hstep₆⟩ : ∃ last, step shellImage k₅ (.key KEY_Q) = some last := ⟨_, rfl⟩
  have hsame := step_same (show (Event.key KEY_Q).Quiet from trivial) hstep₆
  have hrun := (((((Run.single hstep₁).extend hstep₂).extend hstep₃).extend hstep₄).extend
    hstep₅).extend hstep₆
  have hlines := (lines_kept hreach hset.totalTerminal hrun (by simp [Event.IsInput])).2.1 (by
    intro fired hmem
    simp only [List.cons_append, List.nil_append, List.mem_cons, List.not_mem_nil, or_false] at hmem
    rcases hmem with rfl | rfl | rfl | rfl | rfl | rfl
    · exact keepsLines_of_functionKey k rfl
    · exact keepsLines_of_functionKey k₁ rfl
    · -- no switch is pending
      intro _ _ pending hpending
      rw [hk₂.flag] at hpending
      cases hpending
    · exact trivial
    · exact keepsLines_of_functionKey k₄ rfl
    · exact keepsLines_of_functionKey k₅ rfl)
  have haction : k.keyState.action KEY_A = .print [97] := hk.action fun _ => rfl
  have haction₁ : k₁.keyState.action ALT_PRESSED = .print [] := hk₁.action fun _ => rfl
  have haction₂ : k₂.keyState.action KEY_F2 = .print [] := hk₂.action fun _ => rfl
  have haction₄ : k₄.keyState.action ALT_RELEASED = .print [] := hk₄.action fun _ => rfl
  have haction₅ : k₅.keyState.action KEY_Q = .print [113] := hk₅.action fun _ => rfl
  refine ⟨k, last, _, hrun, rfl, hshown, hsame.currTerminal.trans hk₅.shown, ?_, ?_⟩
  all_goals
    rw [hlines]
    simp [typed, haction, haction₁, haction₂, haction₄, haction₅, hk.displayedNext,
      hk₅.displayedNext, ScreenAction.edit]

/-! ## Two presses before the tick -/

/-- Two function keys pressed one after the other with a character in the live line. -/
theorem linesKept_two_presses {k second third : Kernel} (char : UInt8) (hk : k.keyState.Sound)
    (hshown : k.currTerminal = .T1) (halt : k.kb.altKey = true) (hline : k.kb.line = [char])
    (hempty : k.kb.savedLine .T2 = []) (hsecond : k.keyboardInterrupt KEY_F2 = second)
    (hthird : second.keyboardInterrupt KEY_F3 = third) :
    ¬ LinesKept ⟨second, .key KEY_F3, third⟩ := by
  have hne : k.keyState.display.currTerminal ≠ .T2 := by
    show k.currTerminal ≠ _
    rw [hshown]
    decide
  have hwanted : k.keyState.wanted KEY_F2 = some .T2 := KeyState.wanted_functionKey halt rfl hne
  have heffect := keyboardHandler_effect k.keyState KEY_F2
  obtain ⟨-, -, hdisplay, hflag, hlines⟩ := heffect.exchanges hk hwanted
  have hstate : second.keyState = keyboardHandler k.keyState KEY_F2 := by rw [← hsecond]; rfl
  have hsound : second.keyState.Sound := hstate ▸ heffect.sound hk
  rw [← hstate] at hdisplay hflag hlines
  have hshown' : second.currTerminal = .T1 := (congrArg Display.currTerminal hdisplay).trans hshown
  have hne' : second.keyState.display.currTerminal ≠ .T3 := by
    show second.currTerminal ≠ _
    rw [hshown']
    decide
  have hwanted' : second.keyState.wanted KEY_F3 = some .T3 :=
    KeyState.wanted_functionKey (hlines.altKey.trans halt) rfl hne'
  rw [linesKept_exchange hsound hwanted' hthird]
  intro hkeeps
  obtain ⟨hsaved, -⟩ := hkeeps .T3 hwanted' .T2 hflag
  obtain ⟨hmodLine, hmodSaved⟩ := k.kb.modifiers_line KEY_F2
  have hfirst : second.kb.savedLine .T1 = [char] := by
    rw [← hline, ← hmodLine, ← hlines.saved]
    exact congrArg _ hshown.symm
  have hlive : second.kb.line = [] := by
    rw [← hempty, ← hmodSaved]
    exact hlines.line
  rw [hshown', hfirst, hlive] at hsaved
  simp at hsaved

/-- A line is typed on the first terminal, then Alt+F2 and Alt+F3 come before a tick: the
empty line of the second terminal is saved for the first. -/
theorem lines_not_kept_two_presses :
    ∃ k last history, AfterStartUp shellImage k ∧ Run (step shellImage) k history last ∧
      history.map Fired.event =
        [.tick 0 ⟨0, 0⟩, .key KEY_A, .key ALT_PRESSED, .key KEY_F2, .key KEY_F3] ∧
      ¬ ∀ fired ∈ history, LinesKept fired := by
  obtain ⟨start, k, s, hstart, htick, hset, -, -, hshown, hflag, hkb⟩ := shellImage_displayed
  have hsound : k.keyState.Sound := by
    obtain ⟨⟨m, history, hboot, -⟩, -⟩ := hstart
    exact Reachable.sound ⟨_, hboot.extend htick⟩
  have hkeys : ∀ (k : Kernel) (c : UInt8), step shellImage k (.key c) =
      some (k.keyboardInterrupt c) := fun _ _ => rfl
  have hrun := (((((Run.single htick).extend (hkeys _ KEY_A)).extend (hkeys _ ALT_PRESSED)).extend
    (hkeys _ KEY_F2)).extend (hkeys _ KEY_F3))
  refine ⟨start, _, _, hstart, hrun, rfl, fun hkept => ?_⟩
  have hkb' : ((k.keyboardInterrupt KEY_A).keyboardInterrupt ALT_PRESSED).kb =
      { (boot zeroMemory).kb.append 97 with altKey := true } := by
    show (keyboardHandler
      (keyboardHandler ⟨k.kb, k.display, k.switchFlag⟩ KEY_A) ALT_PRESSED).kb = _
    rw [hkb]
    rfl
  have hquiet : ∀ c, (Event.key c).Quiet := fun _ => trivial
  have hpressed := step_same (hquiet _) (hkeys (k.keyboardInterrupt KEY_A) ALT_PRESSED)
  have hshown' :=
    (hpressed.currTerminal.trans (step_same (hquiet _) (hkeys k KEY_A)).currTerminal).trans hshown
  have hsound' := step_sound (hkeys (k.keyboardInterrupt KEY_A) ALT_PRESSED)
    (step_sound (hkeys k KEY_A) hsound)
  refine linesKept_two_presses 97 hsound' hshown' ?_ ?_ ?_ rfl rfl (hkept _ List.mem_concat_self)
  all_goals rw [hkb']
  · rw [show Keyboard.line { (boot zeroMemory).kb.append 97 with altKey := true } =
      ((boot zeroMemory).kb.append 97).line from rfl, Keyboard.append_line]
    rfl
  · rfl

end Ece391
