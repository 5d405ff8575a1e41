import Ece391.ThreeScreens
import Ece391.LineReads
import Mathlib.Data.Bool.AllAny

/-! # What the keys of a line show

The kernel keeps one flag for both Shift keys: a release clears it also while the other
key is held. And with Caps active it shows the lower character of every key that is no
letter, Shift or not. All else about the line is as typed.
-/

namespace Ece391

open Function Transition LineEditor

/-! ## Keys and modifiers -/

/-- The rows of the keyboard: the scancode of the first key, and what the keys show
without and with Shift. -/
def keyRows : List (Nat × List Char × List Char) :=
  [(0x02, ['1', '2', '3', '4', '5', '6', '7', '8', '9', '0', '-', '='],
      ['!', '@', '#', '$', '%', '^', '&', '*', '(', ')', '_', '+']),
    (0x10, ['q', 'w', 'e', 'r', 't', 'y', 'u', 'i', 'o', 'p', '[', ']'],
      ['Q', 'W', 'E', 'R', 'T', 'Y', 'U', 'I', 'O', 'P', '{', '}']),
    (0x1E, ['a', 's', 'd', 'f', 'g', 'h', 'j', 'k', 'l', ';', '\'', '`'],
      ['A', 'S', 'D', 'F', 'G', 'H', 'J', 'K', 'L', ':', '"', '~']),
    (0x2B, ['\\', 'z', 'x', 'c', 'v', 'b', 'n', 'm', ',', '.', '/'],
      ['|', 'Z', 'X', 'C', 'V', 'B', 'N', 'M', '<', '>', '?'])]

/-- The two characters of a printable key other than Space. -/
def keycap (c : UInt8) : Option (Char × Char) :=
  keyRows.findSome? fun row =>
    if row.1 ≤ c.toNat then (row.2.1.zip row.2.2)[c.toNat - row.1]? else none

def charCode (c : Char) : UInt8 := UInt8.ofNat c.toNat

structure ModifierKeys where
  left : Bool
  right : Bool
  caps : Bool
  /-- Whether the last Shift code was that of a press. -/
  latest : Bool
  deriving DecidableEq

namespace ModifierKeys

variable (m : ModifierKeys)

def key (c : UInt8) : ModifierKeys where
  left := if c = SHIFT_PRESSED1 then true else if c = SHIFT_RELEASED1 then false else m.left
  right := if c = SHIFT_PRESSED2 then true else if c = SHIFT_RELEASED2 then false else m.right
  caps := if c = CAPS_PRESSED then !m.caps else m.caps
  latest :=
    if c = SHIFT_PRESSED1 ∨ c = SHIFT_PRESSED2 then true
    else if c = SHIFT_RELEASED1 ∨ c = SHIFT_RELEASED2 then false
    else m.latest

/-- At least one Shift key is held. -/
def shift : Bool := m.left || m.right

/-- Whether a key shows its upper character: a letter when exactly one of Shift and Caps is
active, another key when Shift is. -/
def upper (lower : Char) : Bool := if lower.isLower then m.shift != m.caps else m.shift

end ModifierKeys

/-- The character that shall appear for a key. -/
def shownChar (m : ModifierKeys) (c : UInt8) : UInt8 :=
  match keycap c with
  | some (lower, upper) => charCode (if m.upper lower then upper else lower)
  | none => SPACE_CHAR

/-! ## Lines -/

/-- The modifiers, and the line of what the keys show. -/
structure TypedLine (α : Type) where
  modifiers : ModifierKeys
  line : List α

/-- What a key means, when the printable ones show what `char` says. -/
def keyMeaning {α : Type} (char : ModifierKeys → UInt8 → α) (m : ModifierKeys) (c : UInt8) :
    Key α :=
  if c = BACKSPACE then .erase
  else if c = SPACE ∨ (keycap c).isSome then .char (char m c)
  else .idle

namespace TypedLine

variable {α β : Type}

def key (char : ModifierKeys → UInt8 → α) (s : TypedLine α) (c : UInt8) : TypedLine α :=
  ⟨s.modifiers.key c, edit KB_BUF_SIZE s.line (keyMeaning char (s.modifiers.key c) c)⟩

/-- What is typed on an empty line. -/
def typed (char : ModifierKeys → UInt8 → α) (m : ModifierKeys) (codes : List UInt8) : TypedLine α :=
  codes.foldl (key char) ⟨m, []⟩

end TypedLine

/-- The line the codes shall make. -/
def referenceLine (m : ModifierKeys) (codes : List UInt8) : List UInt8 :=
  (TypedLine.typed shownChar m codes).line

/-- Scancodes that arrive one after the other. -/
def Kernel.type (k : Kernel) (codes : List UInt8) : Kernel := codes.foldl Kernel.keyboardInterrupt k

/-- Codes and Enter come, then `terminal_read` of `n` bytes: it returns the beginning of the
reference line and leaves the line empty. -/
def ReadsReference (k : Kernel) (m : ModifierKeys) (codes : List UInt8) (n : Nat) : Prop :=
  let (result, after) := (k.type (codes ++ [ENTER_PRESS])).terminalRead n
  result = .returned (min n (referenceLine m codes).length) ((referenceLine m codes).take n) ∧
    after.kb.line = []

/-! ## Presses -/

/-- A printable key was pressed under some modifiers. -/
structure Press where
  modifiers : ModifierKeys
  code : UInt8
  deriving DecidableEq

/-- The presses whose characters are in the line. -/
def presses (m : ModifierKeys) (codes : List UInt8) : List Press :=
  (TypedLine.typed Press.mk m codes).line

/-- For a letter, the last Shift code was that of a press exactly when a Shift key is held;
for another key but Space, it was and Caps is not active exactly when a Shift key is held. -/
def Press.Decoded (press : Press) : Prop :=
  ∀ cap ∈ keycap press.code,
    (press.modifiers.latest && (cap.1.isLower || !press.modifiers.caps)) = press.modifiers.shift

instance (press : Press) : Decidable press.Decoded :=
  inferInstanceAs (Decidable (∀ cap ∈ keycap press.code,
    (press.modifiers.latest && (cap.1.isLower || !press.modifiers.caps)) = press.modifiers.shift))

/-- Whether the kernel takes a press for the upper character. -/
def ModifierKeys.takesUpper (m : ModifierKeys) (lower : Char) : Bool :=
  if lower.isLower then m.latest != m.caps else m.latest && !m.caps

/-- The character the kernel takes for a press. -/
def Press.taken (press : Press) : UInt8 :=
  match keycap press.code with
  | some (lower, upper) => charCode (if press.modifiers.takesUpper lower then upper else lower)
  | none => SPACE_CHAR

def Press.shown (press : Press) : UInt8 := shownChar press.modifiers press.code

theorem TypedLine.typed_snoc {α : Type} (char : ModifierKeys → UInt8 → α) (m : ModifierKeys)
    (codes : List UInt8) (c : UInt8) :
    typed char m (codes ++ [c]) = (typed char m codes).key char c := List.foldl_append

/-- A reading of the keys is a reading of the presses. -/
theorem TypedLine.typed_map {α : Type} (read : Press → α) (m : ModifierKeys) (codes : List UInt8) :
    typed (fun m c => read ⟨m, c⟩) m codes =
      ⟨(typed Press.mk m codes).modifiers, (presses m codes).map read⟩ := by
  have hmeaning : ∀ m c, keyMeaning (fun m c => read ⟨m, c⟩) m c =
      (keyMeaning Press.mk m c).map read := by
    intro m c
    unfold keyMeaning
    split
    · rfl
    · split <;> rfl
  induction codes using List.reverseRecOn with
  | nil => rfl
  | append_singleton codes c ih =>
      unfold presses at ih ⊢
      rw [typed_snoc, ih, typed_snoc, key, hmeaning]
      exact congrArg (TypedLine.mk _) (map_edit read KB_BUF_SIZE _ _).symm

/-! ## The tables of the kernel -/

/-- What the tables say of a printable key. -/
theorem keycap_tables (c : UInt8) : ∀ cap ∈ keycap c,
    char_list.getD (c.toNat - 1) NUL = charCode cap.1 ∧
      upper_char_list.getD (c.toNat - 1) NUL = charCode cap.2 ∧
      Keyboard.isLetter c = cap.1.isLower ∧ charCode cap.1 ≠ charCode cap.2 ∧
      (c ≤ char_upper ∧ c ≥ char_lower) ∧
      ∀ shown ∈ [charCode cap.1, charCode cap.2], shown ≠ NUL ∧ isBreak shown = false := by
  have hall : ∀ n < 256, ∀ cap ∈ keycap (UInt8.ofNat n),
      char_list.getD ((UInt8.ofNat n).toNat - 1) NUL = charCode cap.1 ∧
        upper_char_list.getD ((UInt8.ofNat n).toNat - 1) NUL = charCode cap.2 ∧
        Keyboard.isLetter (UInt8.ofNat n) = cap.1.isLower ∧ charCode cap.1 ≠ charCode cap.2 ∧
        (UInt8.ofNat n ≤ char_upper ∧ UInt8.ofNat n ≥ char_lower) ∧
        ∀ shown ∈ [charCode cap.1, charCode cap.2], shown ≠ NUL ∧ isBreak shown = false := by
    decide +kernel
  have hc := hall c.toNat c.toNat_lt
  rwa [UInt8.ofNat_toNat] at hc

/-- All other entries are NUL, but for that of Enter. -/
theorem keycap_none {c : UInt8} (hnone : keycap c = none) (henter : c ≠ ENTER_PRESS)
    (hrange : c ≤ char_upper ∧ c ≥ char_lower) :
    char_list.getD (c.toNat - 1) NUL = NUL ∧ upper_char_list.getD (c.toNat - 1) NUL = NUL := by
  have hall : ∀ n < 256, keycap (UInt8.ofNat n) = none → UInt8.ofNat n ≠ ENTER_PRESS →
      UInt8.ofNat n ≤ char_upper ∧ UInt8.ofNat n ≥ char_lower →
      char_list.getD ((UInt8.ofNat n).toNat - 1) NUL = NUL ∧
        upper_char_list.getD ((UInt8.ofNat n).toNat - 1) NUL = NUL := by
    decide +kernel
  have hc := hall c.toNat c.toNat_lt
  rw [UInt8.ofNat_toNat] at hc
  exact hc hnone henter hrange

/-- The kernel takes a press for the right character when it decodes it right, and otherwise
for the other character of the key. -/
theorem Press.taken_eq_iff (press : Press) : press.taken = press.shown ↔ press.Decoded := by
  obtain ⟨⟨left, right, caps, latest⟩, code⟩ := press
  unfold taken shown shownChar Decoded ModifierKeys.takesUpper ModifierKeys.upper ModifierKeys.shift
  dsimp only
  cases hkeycap : keycap code with
  | none => exact iff_of_true rfl (by simp)
  | some cap =>
      obtain ⟨lower, upper⟩ := cap
      obtain ⟨-, -, -, hne, -⟩ := keycap_tables code _ hkeycap
      have hother := Ne.symm hne
      simp only [Option.mem_some_iff, forall_eq']
      dsimp only at hne hother ⊢
      generalize (left || right) = shift
      generalize lower.isLower = letter
      -- the two sides differ in which of the two characters they take
      cases letter <;> cases shift <;> cases caps <;> cases latest <;> simp [hne, hother]

/-- No press is taken for NUL or for a line break. -/
theorem Press.taken_char (press : Press) : press.taken ≠ NUL ∧ isBreak press.taken = false := by
  unfold taken
  cases hkeycap : keycap press.code with
  | none => exact (by decide : SPACE_CHAR ≠ NUL ∧ isBreak SPACE_CHAR = false)
  | some cap =>
      obtain ⟨lower, upper⟩ := cap
      obtain ⟨-, -, -, -, -, hchars⟩ := keycap_tables press.code _ hkeycap
      dsimp only
      split
      · exact hchars _ (by simp)
      · exact hchars _ (by simp)

/-- The flags of the kernel are the modifiers, and neither Alt nor Ctrl is held. -/
structure Keyboard.Follows (kb : Keyboard) (m : ModifierKeys) : Prop where
  caps : kb.capFlag = m.caps
  latest : kb.shiftKey = m.latest
  altKey : kb.altKey = false
  ctrlKey : kb.ctrlKey = false

theorem Keyboard.Follows.key {kb : Keyboard} {m : ModifierKeys} {c : UInt8} (hkb : kb.Follows m)
    (halt : c ≠ ALT_PRESSED) (hctrl : c ≠ CTRL_PRESSED) :
    (kb.modifiers c).Follows (m.key c) := by
  obtain ⟨hcaps, hlatest, haltKey, hctrlKey⟩ := hkb
  by_cases hpress : c = SHIFT_PRESSED1 ∨ c = SHIFT_PRESSED2
  · rcases hpress with rfl | rfl <;> exact ⟨hcaps, rfl, haltKey, hctrlKey⟩
  by_cases hrelease : c = SHIFT_RELEASED1 ∨ c = SHIFT_RELEASED2
  · rcases hrelease with rfl | rfl <;> exact ⟨hcaps, rfl, haltKey, hctrlKey⟩
  unfold Keyboard.modifiers ModifierKeys.key
  dsimp only
  rw [if_neg hpress, if_neg hrelease, if_neg halt]
  by_cases hlock : c = CAPS_PRESSED
  · subst hlock
    exact ⟨congrArg not hcaps, hlatest, haltKey, hctrlKey⟩
  rw [if_neg hlock, if_neg hlock, if_neg hctrl]
  split
  · exact ⟨hcaps, hlatest, rfl, hctrlKey⟩
  · split
    · exact ⟨hcaps, hlatest, haltKey, rfl⟩
    · exact ⟨hcaps, hlatest, haltKey, hctrlKey⟩

theorem Keyboard.Follows.printChar {kb : Keyboard} {m : ModifierKeys} {c : UInt8}
    (hkb : kb.Follows m) (hcap : (keycap c).isSome) : kb.printChar c = Press.taken ⟨m, c⟩ := by
  obtain ⟨⟨lower, upper⟩, hkeycap⟩ := Option.isSome_iff_exists.mp hcap
  obtain ⟨hlower, hupper, hletter, -⟩ := keycap_tables c _ hkeycap
  unfold Keyboard.printChar Press.taken ModifierKeys.takesUpper
  rw [hlower, hupper, hletter, hkeycap, hkb.caps, hkb.latest]
  dsimp only
  cases lower.isLower <;> cases m.caps <;> cases m.latest <;> rfl

theorem Keyboard.Follows.lineKey {kb : Keyboard} {m : ModifierKeys} {c : UInt8}
    (hkb : (kb.modifiers c).Follows m) (henter : c ≠ ENTER_PRESS) :
    kb.lineKey c = some (keyMeaning (fun m c => Press.taken ⟨m, c⟩) m c) := by
  unfold Keyboard.lineKey keyMeaning
  dsimp only
  rw [if_neg (by simp [hkb.altKey, hkb.ctrlKey]), if_neg henter]
  by_cases hspace : c = SPACE
  · subst hspace
    rfl
  rw [if_neg hspace]
  by_cases hback : c = BACKSPACE
  · rw [if_pos hback, if_pos hback]
  rw [if_neg hback, if_neg hback]
  by_cases hcap : (keycap c).isSome
  · obtain ⟨cap, hkeycap⟩ := Option.isSome_iff_exists.mp hcap
    obtain ⟨-, -, -, -, hrange, -⟩ := keycap_tables c cap hkeycap
    rw [hkb.printChar hcap, if_pos ⟨hrange.1, hrange.2, (Press.taken_char _).1⟩, if_pos (.inr hcap)]
  · have hchar : ¬ (c ≤ char_upper ∧ c ≥ char_lower ∧ (kb.modifiers c).printChar c ≠ NUL) := by
      rintro ⟨hle, hge, hchar⟩
      obtain ⟨hlower, hupper⟩ := keycap_none (by simpa using hcap) henter ⟨hle, hge⟩
      apply hchar
      unfold Keyboard.printChar
      rw [hlower, hupper]
      simp
    rw [if_neg hchar, if_neg (not_or.mpr ⟨hspace, hcap⟩)]

theorem Keyboard.Follows.lineKey_enter {kb : Keyboard} {m : ModifierKeys} (hkb : kb.Follows m) :
    kb.lineKey ENTER_PRESS = some .enter := by
  have hkey := hkb.key (c := ENTER_PRESS) (by decide) (by decide)
  unfold Keyboard.lineKey
  dsimp only
  rw [if_neg (by simp [hkey.altKey, hkey.ctrlKey])]
  rfl

/-! ## The cursor -/

/-- The cells in front of the cursor of the displayed terminal. -/
def Display.cursorCell (d : Display) : Nat :=
  NUM_COLS * d.screenY d.currTerminal + d.screenX d.currTerminal

theorem Display.Shows.cursorCell {d : Display} {s : Screen} (hs : d.Shows d.currTerminal s) :
    d.cursorCell = s.position := by
  rw [Display.cursorCell, hs.row, hs.col]
  rfl

theorem Display.cursorCell_pos_iff {d : Display} (hd : d.InRange) :
    0 < d.cursorCell ↔ ¬ (d.screenX d.currTerminal = 0 ∧ d.screenY d.currTerminal = 0) := by
  obtain ⟨s, hs⟩ := exists_shown (d.page (d.own d.currTerminal)) (hd d.currTerminal).1
    (hd d.currTerminal).2
  rw [Display.Shows.cursorCell hs, TextScreen.position_pos_iff, TextScreen.AtHome,
    ← hs.row, ← hs.col, and_comm]

theorem KeyState.lineAction_char (s : KeyState) (char : UInt8) :
    s.lineAction (.char char) = if s.kb.index < KB_BUF_SIZE then .print [char] else .print [] := rfl

theorem KeyState.lineAction_erase (s : KeyState) :
    s.lineAction .erase = if s.kb.index > 0 then .erase else .print [] := rfl

theorem Keyboard.line_nil {kb : Keyboard} (hindex : ¬ kb.index > 0) : kb.line = [] :=
  List.eq_nil_of_length_eq_zero (kb.line_length.trans (Nat.eq_zero_of_not_pos hindex))

/-- Away from the first cell the line is edited as a line of at most 128 characters. -/
theorem KeyState.lineAction_edit {s : KeyState} (key : Key UInt8)
    (hhome : 0 < s.kb.index → ¬ (s.display.screenX s.display.currTerminal = 0 ∧
      s.display.screenY s.display.currTerminal = 0)) :
    (s.lineAction key).edit s.display s.kb.line = edit KB_BUF_SIZE s.kb.line key := by
  cases key with
  | char char =>
      rw [lineAction_char, LineEditor.edit, Keyboard.line_length]
      split
      · rfl
      · exact List.append_nil _
  | erase =>
      rw [lineAction_erase, LineEditor.edit]
      split
      · next hsome => exact if_neg (hhome hsome)
      · next hnone =>
        rw [Keyboard.line_nil hnone]
        rfl
  | enter | idle => exact List.append_nil _

/-- A cursor behind the line stays behind it. At the end of the screen it goes back to the
last row, which leaves more cells in front of it than the line can have characters. -/
theorem KeyState.lineAction_behind {s : KeyState} {screen : Screen} {key : Key UInt8}
    (hbehind : s.kb.line.length < screen.position)
    (hchar : ∀ char, key = .char char → isBreak char = false) :
    (edit KB_BUF_SIZE s.kb.line key).length < ((s.lineAction key).apply screen).position := by
  cases key with
  | char char =>
      rw [lineAction_char, LineEditor.edit, Keyboard.line_length]
      split
      · next hroom =>
        have hprint : ScreenAction.apply (.print [char]) screen = screen.put SPACE_CHAR char := by
          change TextScreen.print SPACE_CHAR isBreak screen char = _
          rw [TextScreen.print, hchar char rfl]
          rfl
        rw [hprint, List.length_append, List.length_singleton]
        rcases screen.position_put SPACE_CHAR char with hnext | hlast
        · omega
        · rw [hlast, Keyboard.line_length]
          simp only [NUM_COLS, NUM_ROWS, KB_BUF_SIZE] at *
          omega
      · exact hbehind
  | erase =>
      have hhome : ¬ screen.AtHome := TextScreen.position_pos_iff.mp (Nat.zero_lt_of_lt hbehind)
      have hback := TextScreen.position_erase SPACE_CHAR hhome
      rw [lineAction_erase, LineEditor.edit, List.length_dropLast]
      split
      · next hsome =>
        have hlength := s.kb.line_length
        change _ < (screen.erase SPACE_CHAR).position
        omega
      · next hnone =>
        rw [Keyboard.line_nil hnone] at hbehind ⊢
        exact hbehind
  | enter | idle => exact hbehind

/-- The cursor is behind all characters of the line. -/
structure Kernel.LineBehind (k : Kernel) : Prop where
  sound : k.keyState.Sound
  behind : k.kb.line.length < k.display.cursorCell

/-- A key that asks for nothing but the line edits it and leaves the cursor behind it. -/
theorem Kernel.LineBehind.key {k : Kernel} {c : UInt8} {key : Key UInt8} (hk : k.LineBehind)
    (hkey : k.kb.lineKey c = some key) (hchar : ∀ char, key = .char char → isBreak char = false) :
    (k.keyboardInterrupt c).LineBehind ∧
      (k.keyboardInterrupt c).kb.line = edit KB_BUF_SIZE k.kb.line key := by
  obtain ⟨hshown, -, hline⟩ := Kernel.key_line hkey
  obtain ⟨-, haction, -⟩ := KeyState.action_of_lineKey (s := k.keyState) hkey
  have hhome := (Display.cursorCell_pos_iff hk.sound.inRange).mp (Nat.zero_lt_of_lt hk.behind)
  have hline' : (k.keyboardInterrupt c).kb.line = edit KB_BUF_SIZE k.kb.line key :=
    hline.trans (KeyState.lineAction_edit (s := k.keyState) key fun _ => hhome)
  refine ⟨⟨(keyboardHandler_effect k.keyState c).sound hk.sound, ?_⟩, hline'⟩
  obtain ⟨s, hs⟩ := exists_shown (k.display.page (k.display.own k.currTerminal))
    (hk.sound.inRange k.currTerminal).1 (hk.sound.inRange k.currTerminal).2
  have hbefore : k.display.cursorCell = s.position := Display.Shows.cursorCell hs
  have hshows := (Display.ActsOn.key k.keyState c).shows s hs
  rw [haction] at hshows
  have hafter : (k.keyboardInterrupt c).display.cursorCell =
      ((k.keyState.lineAction key).apply s).position := by
    apply Display.Shows.cursorCell
    change (k.keyboardInterrupt c).display.Shows (k.keyboardInterrupt c).currTerminal _
    rw [hshown]
    exact hshows
  rw [hline', hafter]
  exact KeyState.lineAction_behind (s := k.keyState) (hbefore ▸ hk.behind) hchar

/-! ## Codes and the read -/

/-- No key but one that asks for another terminal changes more flags than its own. -/
theorem KeyEffect.follows {s after : KeyState} {c : UInt8} {action : ScreenAction}
    {m : ModifierKeys} (heffect : KeyEffect s c action after) (hstay : s.wanted c = none)
    (hkb : (s.kb.modifiers c).Follows m) : after.kb.Follows m := by
  obtain ⟨hcaps, hlatest, haltKey, hctrlKey⟩ := hkb
  cases heffect with
  | exchange wanted hwanted =>
      rw [hstay] at hwanted
      cases hwanted
  | idle | clear | type | blocked | erase | enter => exact ⟨hcaps, hlatest, haltKey, hctrlKey⟩

/-- The kernel has the line and the modifiers, and the displayed terminal is scheduled. -/
structure Kernel.Typing (k : Kernel) (s : TypedLine UInt8) : Prop extends k.LineBehind where
  follows : k.kb.Follows s.modifiers
  line : k.kb.line = s.line
  shown : k.currTerminal = k.currScheduled

/-- The line as the kernel takes it. -/
def takenLine (m : ModifierKeys) (codes : List UInt8) : TypedLine UInt8 :=
  TypedLine.typed (fun m c => Press.taken ⟨m, c⟩) m codes

namespace Kernel.Typing

variable {k : Kernel} {s : TypedLine UInt8} {c : UInt8}

/-- What a code means to the kernel is what its key means; Enter only sets the flag. -/
theorem lineKey (hk : k.Typing s) (halt : c ≠ ALT_PRESSED) (hctrl : c ≠ CTRL_PRESSED) :
    ∃ key, k.kb.lineKey c = some key ∧ (∀ char, key = .char char → isBreak char = false) ∧
      ∀ line, edit KB_BUF_SIZE line key = edit KB_BUF_SIZE line
        (keyMeaning (fun m c => Press.taken ⟨m, c⟩) (s.modifiers.key c) c) := by
  by_cases henter : c = ENTER_PRESS
  · subst henter
    exact ⟨.enter, hk.follows.lineKey_enter, fun char hkey => (nomatch hkey), fun line => rfl⟩
  · refine ⟨_, (hk.follows.key halt hctrl).lineKey henter, fun char hkey => ?_, fun line => rfl⟩
    unfold keyMeaning at hkey
    split at hkey
    · cases hkey
    · split at hkey
      · obtain rfl := Key.char.inj hkey
        exact (Press.taken_char _).2
      · cases hkey

theorem key (hk : k.Typing s) (halt : c ≠ ALT_PRESSED) (hctrl : c ≠ CTRL_PRESSED) :
    (k.keyboardInterrupt c).Typing (s.key (fun m c => Press.taken ⟨m, c⟩) c) := by
  obtain ⟨key, hkey, hchar, hedit⟩ := hk.lineKey halt hctrl
  obtain ⟨hshown, -⟩ := Kernel.key_line hkey
  obtain ⟨hstay, -⟩ := KeyState.action_of_lineKey (s := k.keyState) hkey
  obtain ⟨hbehind, hline⟩ := hk.toLineBehind.key hkey hchar
  exact
    { toLineBehind := hbehind
      follows := (keyboardHandler_effect k.keyState c).follows hstay (hk.follows.key halt hctrl)
      line := by
        rw [hline, hk.line, hedit]
        rfl
      shown := hshown.trans hk.shown }

/-- A sequence of codes, by induction on its length. -/
theorem type {m : ModifierKeys} {codes : List UInt8} (hk : k.Typing ⟨m, []⟩)
    (hplain : ∀ c ∈ codes, c ≠ ALT_PRESSED ∧ c ≠ CTRL_PRESSED) :
    (k.type codes).Typing (takenLine m codes) := by
  induction codes using List.reverseRecOn with
  | nil => exact hk
  | append_singleton codes c ih =>
      have hcodes := ih fun c' hmem => hplain c' (List.mem_append_left _ hmem)
      obtain ⟨halt, hctrl⟩ := hplain c (List.mem_append_right _ (List.mem_singleton_self c))
      rw [takenLine, TypedLine.typed_snoc, Kernel.type, List.foldl_append]
      exact hcodes.key halt hctrl

end Kernel.Typing

/-- Behind its loop `terminal_read` returns the beginning of the live line. -/
theorem Kernel.terminalRead_line {k : Kernel} (hflag : k.kb.enterFlag = true)
    (hshown : k.currTerminal = k.currScheduled) (n : Nat) :
    (k.terminalRead n).1 = .returned (min n k.kb.line.length) (k.kb.line.take n) ∧
      (k.terminalRead n).2.kb.line = [] := by
  have hcount : (if (n : Int) < k.kb.index then (n : Int).toNat else k.kb.index) =
      min n k.kb.index := by
    rw [Int.toNat_natCast]
    split <;> omega
  have hnonneg : ¬ (n : Int) < 0 := by omega
  rw [Kernel.terminalRead, if_neg hnonneg, if_pos ⟨hflag, hshown⟩, Kernel.takeLine, hcount,
    k.kb.line_length]
  have hmin : ((min n k.kb.index : Nat) : Int) = min (n : Int) k.kb.index := by omega
  refine ⟨?_, rfl⟩
  dsimp only
  rw [hmin, Keyboard.line, ← List.map_take, List.take_range]

/-- The read after a sequence of codes and Enter. -/
theorem Kernel.Typing.read {k : Kernel} {m : ModifierKeys} {codes : List UInt8}
    (hk : k.Typing ⟨m, []⟩) (hplain : ∀ c ∈ codes, c ≠ ALT_PRESSED ∧ c ≠ CTRL_PRESSED) (n : Nat) :
    ((k.type (codes ++ [ENTER_PRESS])).terminalRead n).1 =
        .returned (min n (takenLine m codes).line.length) ((takenLine m codes).line.take n) ∧
      ((k.type (codes ++ [ENTER_PRESS])).terminalRead n).2.kb.line = [] := by
  have htyped := hk.type hplain
  obtain ⟨hshown, hflag, hline⟩ := Kernel.key_line htyped.follows.lineKey_enter
  have hentered : k.type (codes ++ [ENTER_PRESS]) =
      (k.type codes).keyboardInterrupt ENTER_PRESS := by
    rw [Kernel.type, List.foldl_append]
    rfl
  have hlast : ((k.type codes).keyboardInterrupt ENTER_PRESS).kb.line = (takenLine m codes).line :=
    (hline.trans (List.append_nil _)).trans htyped.line
  rw [hentered, ← hlast]
  apply Kernel.terminalRead_line
  · rw [hflag]
    simp
  · exact hshown.trans htyped.shown

/-! ## The reference -/

theorem takenLine_presses (m : ModifierKeys) (codes : List UInt8) :
    (takenLine m codes).line = (presses m codes).map Press.taken :=
  congrArg TypedLine.line (TypedLine.typed_map Press.taken m codes)

theorem referenceLine_presses (m : ModifierKeys) (codes : List UInt8) :
    referenceLine m codes = (presses m codes).map Press.shown :=
  congrArg TypedLine.line (TypedLine.typed_map Press.shown m codes)

/-- At the start the line is empty, the cursor is away from the top left corner, and neither
Alt nor Ctrl is held; the terminal on display is the scheduled one. The reference starts with
Caps as the kernel has it and any Shift keys held. -/
structure ReadyToType (k : Kernel) (m : ModifierKeys) : Prop where
  empty : k.kb.line = []
  cursor : ¬ (k.display.screenX k.currTerminal = 0 ∧ k.display.screenY k.currTerminal = 0)
  follows : k.kb.Follows m
  shown : k.currTerminal = k.currScheduled

theorem ReadyToType.typing {k : Kernel} {m : ModifierKeys} (hready : ReadyToType k m)
    (hsound : k.keyState.Sound) : k.Typing ⟨m, []⟩ where
  sound := hsound
  behind := by
    rw [hready.empty]
    exact (Display.cursorCell_pos_iff hsound.inRange).mpr hready.cursor
  follows := hready.follows
  line := hready.empty
  shown := hready.shown

/-- The read returns the reference exactly when the presses behind the returned characters
were decoded right: those that Backspace took back do not count. -/
theorem reads_reference_iff {img : Image} {b : BootMemory} {k : Kernel} {m : ModifierKeys}
    {codes : List UInt8} (hreach : Reachable (step img) (boot b) k) (hready : ReadyToType k m)
    (hplain : ∀ c ∈ codes, c ≠ ALT_PRESSED ∧ c ≠ CTRL_PRESSED) (n : Nat) :
    ReadsReference k m codes n ↔ ∀ press ∈ (presses m codes).take n, press.Decoded := by
  have htyping := hready.typing (Reachable.sound hreach)
  obtain ⟨hresult, hempty⟩ := htyping.read hplain n
  have hlength : (takenLine m codes).line.length = (referenceLine m codes).length := by
    rw [takenLine_presses, referenceLine_presses, List.length_map, List.length_map]
  have hlines : (takenLine m codes).line.take n = (referenceLine m codes).take n ↔
      ∀ press ∈ (presses m codes).take n, press.taken = press.shown := by
    rw [takenLine_presses, referenceLine_presses, ← List.map_take, ← List.map_take]
    exact List.map_inj_left
  calc ReadsReference k m codes n
      ↔ (takenLine m codes).line.take n = (referenceLine m codes).take n := by
        unfold ReadsReference
        rw [hlength] at hresult
        constructor
        · rintro ⟨hreturned, -⟩
          exact (SysReturn.returned.inj (hresult.symm.trans hreturned)).2
        · intro hsame
          exact ⟨hsame ▸ hresult, hempty⟩
    _ ↔ ∀ press ∈ (presses m codes).take n, press.taken = press.shown := hlines
    _ ↔ ∀ press ∈ (presses m codes).take n, press.Decoded :=
        forall₂_congr fun press _ => press.taken_eq_iff

/-- Memory at boot with the cursor below one line of boot messages. -/
def messageMemory : BootMemory := { zeroMemory with y := 1, y_lt := by decide }

def noModifiers : ModifierKeys := ⟨false, false, false, false⟩

theorem messageMemory_ready : ReadyToType (boot messageMemory) noModifiers where
  empty := rfl
  cursor := fun hhome => absurd hhome.2 (by decide)
  follows := ⟨rfl, rfl, rfl, rfl⟩
  shown := rfl

/-- One Shift key for the first letter, and Caps for the second. -/
theorem reads_reference_letters :
    ReadsReference (boot messageMemory) noModifiers
      [SHIFT_PRESSED1, KEY_A, SHIFT_RELEASED1, CAPS_PRESSED, KEY_L] 128 :=
  (reads_reference_iff (show Reachable (step shellImage) (boot messageMemory) _ from ⟨_, .start _⟩)
    messageMemory_ready (List.all_iff_forall_prop.mp rfl) 128).mpr (by decide +kernel)

/-- Both Shift keys are pressed and one is released: the letter is not upper-case. And under
Caps and Shift the key of the digit 1 shows the digit. -/
theorem reads_no_reference :
    ∃ b k, Reachable (step shellImage) (boot b) k ∧ ReadyToType k noModifiers ∧
      ¬ ReadsReference k noModifiers [SHIFT_PRESSED1, SHIFT_PRESSED2, SHIFT_RELEASED2, KEY_A] 1 ∧
      ¬ ReadsReference k noModifiers [CAPS_PRESSED, SHIFT_PRESSED1, 0x02] 1 := by
  have hwrong : ∀ codes, (∀ c ∈ codes, c ≠ ALT_PRESSED ∧ c ≠ CTRL_PRESSED) →
      (takenLine noModifiers codes).line.take 1 ≠ (referenceLine noModifiers codes).take 1 →
      ¬ ReadsReference (boot messageMemory) noModifiers codes 1 := by
    intro codes hplain hne hreads
    have hread := (messageMemory_ready.typing (boot_sound messageMemory)).read hplain 1
    exact hne (SysReturn.returned.inj (hread.1.symm.trans hreads.1)).2
  refine ⟨messageMemory, boot messageMemory, ⟨_, .start _⟩, messageMemory_ready, ?_, ?_⟩
  · exact hwrong _ (List.all_iff_forall_prop.mp rfl) (by decide +kernel)
  · exact hwrong _ (List.all_iff_forall_prop.mp rfl) (by decide +kernel)

end Ece391
