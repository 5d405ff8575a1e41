import Ece391.Screens

/-! # Keyboard input

`keyboard_handler` edits one live line, `keyboard_buffer`, and keeps the lines
of the other terminals in three saved buffers. Pressing Alt with a function key
exchanges the live line at once, while the display follows at the next PIT tick.
-/

namespace Ece391

open Function

def KB_BUF_SIZE : Nat := 128

/-! ## Scancodes -/

def SHIFT_PRESSED1 : UInt8 := 0x2A
def SHIFT_PRESSED2 : UInt8 := 0x36
def SHIFT_RELEASED1 : UInt8 := 0xAA
def SHIFT_RELEASED2 : UInt8 := 0xB6
def ALT_PRESSED : UInt8 := 0x38
def ALT_RELEASED : UInt8 := 0xB8
def CAPS_PRESSED : UInt8 := 0x3A
def CTRL_PRESSED : UInt8 := 0x1D
def CTRL_RELEASED : UInt8 := 0x9D
def SPACE : UInt8 := 0x39
def BACKSPACE : UInt8 := 0x0E
def ENTER_PRESS : UInt8 := 0x1C
def char_upper : UInt8 := 0x35
def char_lower : UInt8 := 0x01

/-- First and last scancode of each of the three letter rows, and of `L`. -/
def KEY_Q : UInt8 := 0x10
def KEY_P : UInt8 := 0x19
def KEY_A : UInt8 := 0x1E
def KEY_L : UInt8 := 0x26
def KEY_Z : UInt8 := 0x2C
def KEY_M : UInt8 := 0x32

def KEY_F1 : UInt8 := 0x3B
def KEY_F2 : UInt8 := 0x3C
def KEY_F3 : UInt8 := 0x3D

/-- The terminal of a function key. -/
def functionKey (c : UInt8) : Option Terminal :=
  if c = KEY_F1 then some .T1 else if c = KEY_F2 then some .T2
  else if c = KEY_F3 then some .T3 else none

/-- The codes of the characters of a table. -/
def charTable (rows : List (List Char)) : List UInt8 :=
  rows.flatten.map fun c => UInt8.ofNat c.toNat

/-- `char_list`; entry `c-1` belongs to scancode `c`. -/
def char_list : List UInt8 := charTable
  [['\x00', '1', '2', '3', '4', '5', '6', '7'],
    ['8', '9', '0', '-', '=', '\x00', '\x00', 'q', 'w'],
    ['e', 'r', 't', 'y', 'u', 'i', 'o', 'p', '[', ']'],
    ['\n', '\x00', 'a', 's', 'd', 'f', 'g', 'h', 'j'],
    ['k', 'l', ';', '\'', '`', '\x00', '\\', 'z'],
    ['x', 'c', 'v', 'b', 'n', 'm', ',', '.', '/']]

/-- `upper_char_list`. -/
def upper_char_list : List UInt8 := charTable
  [['\x00', '!', '@', '#', '$', '%', '^', '&'],
    ['*', '(', ')', '_', '+', '\x00', '\x00', 'Q', 'W'],
    ['E', 'R', 'T', 'Y', 'U', 'I', 'O', 'P', '{', '}'],
    ['\n', '\x00', 'A', 'S', 'D', 'F', 'G', 'H', 'J'],
    ['K', 'L', ':', '"', '~', '\x00', '|', 'Z'],
    ['X', 'C', 'V', 'B', 'N', 'M', '<', '>', '?']]

/-- The globals of `keyboard.c`. -/
structure Keyboard where
  shiftKey : Bool
  altKey : Bool
  capFlag : Bool
  ctrlKey : Bool
  enterFlag : Bool
  /-- `keyboard_buffer` and `keyboard_buffer_index`. -/
  buffer : Nat → UInt8
  index : Nat
  /-- `keyboard_buffer1..3` and `kb1_pos..kb3_pos`. -/
  saved : Terminal → Nat → UInt8
  savedPos : Terminal → Nat

namespace Keyboard

variable (kb : Keyboard)

/-- The first block of tests: modifier keys only change their flags. -/
def modifiers (c : UInt8) : Keyboard :=
  let kb :=
    if c = SHIFT_PRESSED1 ∨ c = SHIFT_PRESSED2 then { kb with shiftKey := true }
    else if c = SHIFT_RELEASED1 ∨ c = SHIFT_RELEASED2 then { kb with shiftKey := false }
    else kb
  if c = ALT_PRESSED then { kb with altKey := true }
  else if c = ALT_RELEASED then { kb with altKey := false }
  else if c = CAPS_PRESSED then { kb with capFlag := !kb.capFlag }
  else if c = CTRL_PRESSED then { kb with ctrlKey := true }
  else if c = CTRL_RELEASED then { kb with ctrlKey := false }
  else kb

def isLetter (c : UInt8) : Bool :=
  (KEY_Q ≤ c ∧ c ≤ KEY_P) ∨ (KEY_A ≤ c ∧ c ≤ KEY_L) ∨ (KEY_Z ≤ c ∧ c ≤ KEY_M)

/-- `print_char` of an ordinary key. -/
def printChar (c : UInt8) : UInt8 :=
  let upper := upper_char_list.getD (c.toNat - 1) NUL
  let lower := char_list.getD (c.toNat - 1) NUL
  if kb.capFlag ∧ isLetter c ∧ ¬ kb.shiftKey then upper
  else if ¬ kb.shiftKey ∨ (kb.shiftKey ∧ kb.capFlag) then lower
  else upper

/-- The body of the loops that save the live line and load another one. -/
def exchangeByte (current wanted : Terminal) (kb : Keyboard) (j : Nat) : Keyboard :=
  let kept :=
    { kb with saved := update kb.saved current (update (kb.saved current) j (kb.buffer j)) }
  { kept with buffer := update kept.buffer j (kept.saved wanted j) }

/-- The live line goes to the saved line of `current`, and the saved line of
`wanted` becomes the live one. -/
def exchangeLine (current wanted : Terminal) : Keyboard :=
  let kb := (List.range KB_BUF_SIZE).foldl (exchangeByte current wanted) kb
  let kb := { kb with savedPos := update kb.savedPos current kb.index }
  { kb with index := kb.savedPos wanted }

def append (c : UInt8) : Keyboard :=
  { kb with buffer := update kb.buffer kb.index c, index := kb.index + 1 }

/-- The end of `terminal_read`: the live line is emptied. -/
def clearLine : Keyboard :=
  { kb with
    buffer := (List.range KB_BUF_SIZE).foldl (fun line i => update line i NUL) kb.buffer
    index := 0 }

/-- The end of `terminal_write`: the saved line of the scheduled terminal is emptied. -/
def clearSaved (t : Terminal) : Keyboard :=
  { kb with
    saved := update kb.saved t
      ((List.range KB_BUF_SIZE).foldl (fun line i => update line i NUL) (kb.saved t))
    savedPos := update kb.savedPos t 0 }

end Keyboard

/-- What one keyboard interrupt works on: the keyboard's globals, the display, and
the `switch_flag` it raises for the PIT handler. -/
structure KeyState where
  kb : Keyboard
  display : Display
  switchFlag : Option Terminal

/-- `keyboard_handler` for scancode `c`. -/
def keyboardHandler (s : KeyState) (c : UInt8) : KeyState :=
  let s := { s with kb := s.kb.modifiers c }
  if s.kb.ctrlKey ∧ c = KEY_L then { s with display := s.display.clearScreen }
  else if s.kb.altKey ∧ (functionKey c).isSome then
    match functionKey c with
    | some wanted =>
        if s.display.currTerminal ≠ wanted then
          { s with
            kb := s.kb.exchangeLine s.display.currTerminal wanted
            switchFlag := some wanted }
        else s
    | none => s
  else if c = SPACE then
    if s.kb.index < KB_BUF_SIZE then
      { s with kb := s.kb.append SPACE_CHAR, display := s.display.putc2 SPACE_CHAR }
    else s
  else if c = BACKSPACE ∧ s.kb.index > 0 then
    if s.display.screenX s.display.currTerminal = 0 ∧
        s.display.screenY s.display.currTerminal = 0 then s
    else
      { s with
        kb := { s.kb with index := s.kb.index - 1 }
        display := s.display.eraseChar }
  else if c = ENTER_PRESS then { s with kb := { s.kb with enterFlag := true } }
  else if c ≤ char_upper ∧ c ≥ char_lower then
    if s.kb.index < KB_BUF_SIZE ∧ s.kb.printChar c ≠ NUL then
      { s with
        kb := s.kb.append (s.kb.printChar c)
        display := s.display.putc2 (s.kb.printChar c) }
    else s
  else s

/-! ## What one key does -/

/-- The input lines and the Enter flag are no concern of the modifier keys. -/
theorem Keyboard.modifiers_lines (kb : Keyboard) (c : UInt8) :
    ((kb.modifiers c).buffer = kb.buffer ∧ (kb.modifiers c).index = kb.index) ∧
      ((kb.modifiers c).saved = kb.saved ∧ (kb.modifiers c).savedPos = kb.savedPos) ∧
      (kb.modifiers c).enterFlag = kb.enterFlag := by
  simp only [modifiers]
  repeat' split
  all_goals exact ⟨⟨rfl, rfl⟩, ⟨rfl, rfl⟩, rfl⟩

/-- The terminal a key press asks for, when it is not the displayed one. -/
def KeyState.wanted (s : KeyState) (c : UInt8) : Option Terminal :=
  if (s.kb.modifiers c).altKey then
    (functionKey c).filter fun t => s.display.currTerminal ≠ t
  else none

/-- An operation on the screen of one terminal. -/
inductive ScreenAction where
  | print (chars : List UInt8)
  | erase
  | clear
  deriving DecidableEq

def ScreenAction.apply : ScreenAction → Screen → Screen
  | .print chars => fun s => chars.foldl (TextScreen.print SPACE_CHAR isBreak) s
  | .erase => TextScreen.erase SPACE_CHAR
  | .clear => TextScreen.clear SPACE_CHAR

/-- What one key does to the screen of the displayed terminal. -/
def KeyState.action (s : KeyState) (c : UInt8) : ScreenAction :=
  let kb := s.kb.modifiers c
  if kb.ctrlKey ∧ c = KEY_L then .clear
  else if kb.altKey ∧ (functionKey c).isSome then .print []
  else if c = SPACE then
    if kb.index < KB_BUF_SIZE then .print [SPACE_CHAR] else .print []
  else if c = BACKSPACE ∧ kb.index > 0 then .erase
  else if c = ENTER_PRESS then .print []
  else if c ≤ char_upper ∧ c ≥ char_lower then
    if kb.index < KB_BUF_SIZE ∧ kb.printChar c ≠ NUL then .print [kb.printChar c] else .print []
  else .print []

/-- The results of one keyboard interrupt, by what the key does to the screen. -/
inductive KeyEffect (s : KeyState) (c : UInt8) : ScreenAction → KeyState → Prop
  | idle (hstay : s.wanted c = none) (henter : c ≠ ENTER_PRESS) :
      KeyEffect s c (.print []) { s with kb := s.kb.modifiers c }
  | clear (hstay : s.wanted c = none) (henter : c ≠ ENTER_PRESS) :
      KeyEffect s c .clear
        { s with kb := s.kb.modifiers c, display := s.display.clearScreen }
  | exchange (wanted : Terminal) (hwanted : s.wanted c = some wanted) (henter : c ≠ ENTER_PRESS)
      (hne : s.display.currTerminal ≠ wanted) :
      KeyEffect s c (.print [])
        { s with
          kb := (s.kb.modifiers c).exchangeLine s.display.currTerminal wanted
          switchFlag := some wanted }
  | type (char : UInt8) (hstay : s.wanted c = none) (henter : c ≠ ENTER_PRESS)
      (hroom : s.kb.index < KB_BUF_SIZE) :
      KeyEffect s c (.print [char])
        { s with kb := (s.kb.modifiers c).append char, display := s.display.putc2 char }
  | blocked (hstay : s.wanted c = none) (henter : c ≠ ENTER_PRESS)
      (hcursor : s.display.screenX s.display.currTerminal = 0 ∧
        s.display.screenY s.display.currTerminal = 0) :
      KeyEffect s c .erase { s with kb := s.kb.modifiers c }
  | erase (hstay : s.wanted c = none) (henter : c ≠ ENTER_PRESS) (hsome : 0 < s.kb.index)
      (hcursor : ¬ (s.display.screenX s.display.currTerminal = 0 ∧
        s.display.screenY s.display.currTerminal = 0)) :
      KeyEffect s c .erase
        { s with
          kb := { s.kb.modifiers c with index := s.kb.index - 1 }
          display := s.display.eraseChar }
  | enter (hstay : s.wanted c = none) (henter : c = ENTER_PRESS) :
      KeyEffect s c (.print []) { s with kb := { s.kb.modifiers c with enterFlag := true } }

theorem KeyState.wanted_functionKey {s : KeyState} {c : UInt8} {t : Terminal}
    (halt : (s.kb.modifiers c).altKey = true) (hkey : functionKey c = some t)
    (hne : s.display.currTerminal ≠ t) : s.wanted c = some t := by
  simp [KeyState.wanted, halt, hkey, hne]

theorem KeyState.wanted_ne {s : KeyState} {c : UInt8} {t : Terminal}
    (hwanted : s.wanted c = some t) : s.display.currTerminal ≠ t := by
  unfold KeyState.wanted at hwanted
  split at hwanted
  · simpa using (Option.filter_eq_some_iff.mp hwanted).2
  · simp at hwanted

theorem KeyState.wanted_enter (s : KeyState) : s.wanted ENTER_PRESS = none := by
  unfold KeyState.wanted
  rw [show functionKey ENTER_PRESS = none from rfl]
  split <;> rfl

theorem functionKey_isSome_ne_enter {c : UInt8} (hkey : (functionKey c).isSome) :
    c ≠ ENTER_PRESS := by
  rintro rfl
  exact absurd hkey (by decide)

theorem keyboardHandler_effect (s : KeyState) (c : UInt8) :
    KeyEffect s c (s.action c) (keyboardHandler s c) := by
  have hindex := (s.kb.modifiers_lines c).1.2
  unfold keyboardHandler KeyState.action
  dsimp only
  -- the tests of the handler, in its order
  by_cases hclear : (s.kb.modifiers c).ctrlKey ∧ c = KEY_L
  · rw [if_pos hclear, if_pos hclear]
    obtain ⟨-, rfl⟩ := hclear
    exact .clear (by simp [KeyState.wanted, show functionKey KEY_L = none from rfl]) (by decide)
  rw [if_neg hclear, if_neg hclear]
  by_cases hfn : (s.kb.modifiers c).altKey ∧ (functionKey c).isSome
  · rw [if_pos hfn, if_pos hfn]
    obtain ⟨halt, hsome⟩ := hfn
    have henter := functionKey_isSome_ne_enter hsome
    obtain ⟨wanted, hkey⟩ := Option.isSome_iff_exists.mp hsome
    rw [hkey]
    dsimp only
    by_cases hne : s.display.currTerminal ≠ wanted
    · rw [if_pos hne]
      exact .exchange wanted (by simp [KeyState.wanted, halt, hkey, hne]) henter hne
    · rw [if_neg hne]
      exact .idle (by simpa [KeyState.wanted, halt, hkey] using hne) henter
  rw [if_neg hfn, if_neg hfn]
  have hstay : s.wanted c = none := by
    unfold KeyState.wanted
    by_cases halt : (s.kb.modifiers c).altKey = true
    · rw [if_pos halt]
      have hnone : functionKey c = none := by
        simpa using fun hsome => hfn ⟨halt, hsome⟩
      rw [hnone]
      rfl
    · rw [if_neg halt]
  by_cases hspace : c = SPACE
  · rw [if_pos hspace, if_pos hspace]
    subst hspace
    split
    · exact .type SPACE_CHAR hstay (by decide) (by omega)
    · exact .idle hstay (by decide)
  rw [if_neg hspace, if_neg hspace]
  by_cases herase : c = BACKSPACE ∧ (s.kb.modifiers c).index > 0
  · rw [if_pos herase, if_pos herase]
    obtain ⟨rfl, hsome⟩ := herase
    split
    · exact .blocked hstay (by decide) (by assumption)
    · rw [hindex]
      exact .erase hstay (by decide) (by omega) (by assumption)
  rw [if_neg herase, if_neg herase]
  by_cases henter : c = ENTER_PRESS
  · rw [if_pos henter, if_pos henter]
    exact .enter hstay henter
  rw [if_neg henter, if_neg henter]
  split
  · split
    · exact .type _ hstay henter (by omega)
    · exact .idle hstay henter
  · exact .idle hstay henter

theorem KeyEffect.kept {s after : KeyState} {c : UInt8} {action : ScreenAction}
    (heffect : KeyEffect s c action after) : s.display.Kept after.display := by
  cases heffect with
  | idle | exchange | blocked | enter => exact .refl _
  | clear => exact .clearScreen _
  | type char => exact .putc2 _ char
  | erase => exact .eraseChar _

/-! ## Lines and cursors stay inside -/

/-- The four lines are no longer than their buffers. -/
structure Keyboard.InBounds (kb : Keyboard) : Prop where
  index : kb.index ≤ KB_BUF_SIZE
  savedPos : ∀ t, kb.savedPos t ≤ KB_BUF_SIZE

/-- After some turns of the loop of `exchangeLine` the first bytes are exchanged. -/
structure Keyboard.Exchanged (kb : Keyboard) (current wanted : Terminal) (count : Nat)
    (last : Keyboard) : Prop where
  index : last.index = kb.index
  savedPos : last.savedPos = kb.savedPos
  enterFlag : last.enterFlag = kb.enterFlag
  altKey : last.altKey = kb.altKey
  buffer : ∀ i, last.buffer i = if i < count then kb.saved wanted i else kb.buffer i
  saved : ∀ i, last.saved current i = if i < count then kb.buffer i else kb.saved current i
  untouched : ∀ t, t ≠ current → last.saved t = kb.saved t

theorem Keyboard.exchanged_foldl (kb : Keyboard) {current wanted : Terminal}
    (hne : current ≠ wanted) (count : Nat) :
    kb.Exchanged current wanted count
      ((List.range count).foldl (exchangeByte current wanted) kb) := by
  induction count with
  | zero => exact ⟨rfl, rfl, rfl, rfl, fun _ => rfl, fun _ => rfl, fun _ _ => rfl⟩
  | succ count ih =>
      rw [List.range_succ, List.foldl_append, List.foldl_cons, List.foldl_nil]
      generalize (List.range count).foldl (exchangeByte current wanted) kb = middle at ih
      have hlive := ih.buffer count
      rw [if_neg (Nat.lt_irrefl _)] at hlive
      refine
        { index := ih.index
          savedPos := ih.savedPos
          enterFlag := ih.enterFlag
          altKey := ih.altKey
          buffer := fun i => ?_
          saved := fun i => ?_
          untouched := fun t ht => ?_ }
      all_goals simp only [exchangeByte]
      · by_cases hi : i = count
        · subst hi
          rw [update_self, update_of_ne (Ne.symm hne), ih.untouched wanted (Ne.symm hne),
            if_pos (Nat.lt_succ_self _)]
        · rw [update_of_ne hi, ih.buffer]
          have hiff : i < count ↔ i < count + 1 := by omega
          simp only [hiff]
      · rw [update_self]
        by_cases hi : i = count
        · subst hi
          rw [update_self, if_pos (Nat.lt_succ_self _), hlive]
        · rw [update_of_ne hi, ih.saved]
          have hiff : i < count ↔ i < count + 1 := by omega
          simp only [hiff]
      · rw [update_of_ne ht, ih.untouched t ht]

/-- The live line, and the saved line of a terminal. -/
def Keyboard.line (kb : Keyboard) : List UInt8 := (List.range kb.index).map kb.buffer

def Keyboard.savedLine (kb : Keyboard) (t : Terminal) : List UInt8 :=
  (List.range (kb.savedPos t)).map (kb.saved t)

/-- The live line is saved for the one terminal and that of the other becomes live. -/
structure Keyboard.LinesExchanged (kb : Keyboard) (current wanted : Terminal) (last : Keyboard) :
    Prop where
  line : last.line = kb.savedLine wanted
  saved : last.savedLine current = kb.line
  untouched : ∀ t, t ≠ current → last.savedLine t = kb.savedLine t
  enterFlag : last.enterFlag = kb.enterFlag
  altKey : last.altKey = kb.altKey
  inBounds : last.InBounds

theorem Keyboard.exchangeLine_lines {kb : Keyboard} {current wanted : Terminal}
    (hkb : kb.InBounds) (hne : current ≠ wanted) :
    kb.LinesExchanged current wanted (kb.exchangeLine current wanted) := by
  have hloop := kb.exchanged_foldl hne KB_BUF_SIZE
  unfold exchangeLine
  dsimp only
  generalize (List.range KB_BUF_SIZE).foldl (exchangeByte current wanted) kb = middle at hloop ⊢
  have hwanted : update middle.savedPos current middle.index wanted = kb.savedPos wanted := by
    rw [update_of_ne (Ne.symm hne), hloop.savedPos]
  rw [hwanted]
  refine
    { line := List.map_congr_left fun i hi => ?_
      saved := ?_
      untouched := fun t ht => ?_
      enterFlag := hloop.enterFlag
      altKey := hloop.altKey
      inBounds := ⟨hkb.savedPos wanted, fun t => ?_⟩ }
  · have hlt := Nat.lt_of_lt_of_le (List.mem_range.mp hi) (hkb.savedPos wanted)
    rw [hloop.buffer, if_pos hlt]
  · unfold savedLine line
    dsimp only
    rw [update_self, hloop.index]
    refine List.map_congr_left fun i hi => ?_
    have hlt := Nat.lt_of_lt_of_le (List.mem_range.mp hi) hkb.index
    rw [hloop.saved, if_pos hlt]
  · unfold savedLine
    dsimp only
    rw [update_of_ne ht, hloop.savedPos, hloop.untouched t ht]
  · dsimp only
    by_cases ht : t = current
    · subst ht
      rw [update_self, hloop.index]
      exact hkb.index
    · rw [update_of_ne ht, hloop.savedPos]
      exact hkb.savedPos t

/-- Lines and cursors are inside, and a pending switch leads to another terminal. -/
structure KeyState.Sound (s : KeyState) : Prop where
  inRange : s.display.InRange
  inBounds : s.kb.InBounds
  pending : ∀ t, s.switchFlag = some t → t ≠ s.display.currTerminal

theorem Keyboard.InBounds.clearLine {kb : Keyboard} (hkb : kb.InBounds) : kb.clearLine.InBounds :=
  ⟨Nat.zero_le _, hkb.savedPos⟩

theorem Keyboard.InBounds.clearSaved {kb : Keyboard} (t : Terminal) (hkb : kb.InBounds) :
    (kb.clearSaved t).InBounds where
  index := hkb.index
  savedPos u := by
    unfold Keyboard.clearSaved
    dsimp only
    by_cases hu : u = t
    · subst hu
      rw [update_self]
      exact Nat.zero_le _
    · rw [update_of_ne hu]
      exact hkb.savedPos u

theorem KeyState.Sound.of_none {kb : Keyboard} {d : Display} (hd : d.InRange) (hkb : kb.InBounds) :
    KeyState.Sound ⟨kb, d, none⟩ := ⟨hd, hkb, by simp⟩

/-- Operations of the display and of the lines that leave `switch_flag` alone. -/
theorem KeyState.Sound.of_kept {s : KeyState} {kb : Keyboard} {d : Display} (hs : s.Sound)
    (hdisplay : s.display.Kept d) (hkb : s.kb.InBounds → kb.InBounds) :
    KeyState.Sound ⟨kb, d, s.switchFlag⟩ where
  inRange := hdisplay.inRange hs.inRange
  inBounds := hkb hs.inBounds
  pending t ht := by
    have hshown : d.currTerminal = s.display.currTerminal := congrArg Prod.fst hdisplay.aim
    rw [hshown]
    exact hs.pending t ht

theorem KeyEffect.sound {s after : KeyState} {c : UInt8} {action : ScreenAction}
    (heffect : KeyEffect s c action after) (hs : s.Sound) : after.Sound := by
  have hkept := heffect.kept
  have hlines := s.kb.modifiers_lines c
  have hmodifiers : s.kb.InBounds → (s.kb.modifiers c).InBounds := fun hkb =>
    ⟨hlines.1.2 ▸ hkb.index, fun t => hlines.2.1.2 ▸ hkb.savedPos t⟩
  cases heffect with
  | idle | clear | blocked => exact hs.of_kept hkept hmodifiers
  | enter =>
      exact hs.of_kept hkept fun hkb => ⟨(hmodifiers hkb).index, (hmodifiers hkb).savedPos⟩
  | exchange wanted hwanted henter hne =>
      have hexchanged := Keyboard.exchangeLine_lines (hmodifiers hs.inBounds) hne
      generalize (s.kb.modifiers c).exchangeLine s.display.currTerminal wanted =
          kb at hexchanged hkept
      refine ⟨hs.inRange, hexchanged.inBounds, fun t ht => ?_⟩
      obtain rfl : wanted = t := Option.some.inj ht
      exact Ne.symm hne
  | type char hstay henter hroom =>
      refine hs.of_kept hkept fun hkb => ⟨?_, (hmodifiers hkb).savedPos⟩
      show (s.kb.modifiers c).index + 1 ≤ KB_BUF_SIZE
      rw [hlines.1.2]
      exact hroom
  | erase hstay henter hsome =>
      exact hs.of_kept hkept fun hkb =>
        ⟨(Nat.sub_le _ _).trans hkb.index, (hmodifiers hkb).savedPos⟩

end Ece391
