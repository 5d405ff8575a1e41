import Ece391.KeyDecoding
import Ece391.ScreenText
import Ece391.Lib.SheetEditing

/-! # What is shown is what will be read

While nothing but the line is typed on the displayed terminal, the line in the keyboard buffer
stands on the screen from the cell the cursor started in, over the ends of rows and after
scrolls. Backspace steps back, prints a blank and steps back, and never comes to the first cell
of the screen, because the start of the line stays on it.
-/

namespace Ece391

open LineEditor

/-- The characters of the keyboard tables are no line breaks, but for that of Enter. -/
theorem Keyboard.printChar_isBreak (kb : Keyboard) {c : UInt8} (henter : c ≠ ENTER_PRESS)
    (hrange : c ≤ char_upper ∧ c ≥ char_lower) : isBreak (kb.printChar c) = false := by
  have htables : isBreak (char_list.getD (c.toNat - 1) NUL) = false ∧
      isBreak (upper_char_list.getD (c.toNat - 1) NUL) = false := by
    cases hkeycap : keycap c with
    | none =>
        obtain ⟨hlower, hupper⟩ := keycap_none hkeycap henter hrange
        rw [hlower, hupper]
        exact ⟨rfl, rfl⟩
    | some cap =>
        obtain ⟨hlower, hupper, -, -, -, hchars⟩ := keycap_tables c cap hkeycap
        rw [hlower, hupper]
        exact ⟨(hchars _ (by simp)).2, (hchars _ (by simp)).2⟩
  unfold Keyboard.printChar
  dsimp only
  split
  · exact htables.2
  · split
    · exact htables.1
    · exact htables.2

theorem Keyboard.lineKey_isBreak {kb : Keyboard} {c char : UInt8}
    (hkey : kb.lineKey c = some (.char char)) : isBreak char = false := by
  unfold Keyboard.lineKey at hkey
  dsimp only at hkey
  split at hkey
  · cases hkey
  · split at hkey
    · obtain rfl := Key.char.inj (Option.some.inj hkey)
      rfl
    · split at hkey
      · cases Option.some.inj hkey
      · split at hkey
        · cases Option.some.inj hkey
        · next henter =>
          split at hkey
          · next hrange =>
            obtain rfl := Key.char.inj (Option.some.inj hkey)
            exact Keyboard.printChar_isBreak _ henter ⟨hrange.1, hrange.2.1⟩
          · cases Option.some.inj hkey

/-- The keys of a sequence of codes, when none of them asks for anything but the line. -/
def Kernel.lineKeys (k : Kernel) : List UInt8 → Option (List (Key UInt8))
  | [] => some []
  | c :: rest => do
      let key ← k.kb.lineKey c
      let keys ← (k.keyboardInterrupt c).lineKeys rest
      some (key :: keys)

/-- The action of a key on the screen is the key's. -/
theorem KeyState.lineAction_apply (s : KeyState) (screen : Screen) {key : Key UInt8}
    (hchar : ∀ char, key = .char char → isBreak char = false) :
    (s.lineAction key).apply screen =
      screen.editKey SPACE_CHAR KB_BUF_SIZE s.kb.line.length key := by
  cases key with
  | char char =>
      rw [lineAction_char, Keyboard.line_length, TextScreen.editKey]
      split
      · change TextScreen.print SPACE_CHAR isBreak screen char = _
        rw [TextScreen.print, hchar char rfl]
        rfl
      · rfl
  | erase =>
      rw [lineAction_erase, Keyboard.line_length, TextScreen.editKey]
      split <;> rfl
  | enter | idle => rfl

/-- The line stands on the screen behind what was there when it was begun. -/
structure Kernel.ShowsLine (k : Kernel) (t : Terminal) (start : Sheet UInt8) (e : Edited UInt8) :
    Prop where
  current : k.currTerminal = t
  line : k.kb.line = e.line
  length : e.line.length ≤ e.longest
  longest : e.longest ≤ KB_BUF_SIZE
  screen : ∃ s, k.display.Shows t s ∧ s.ShowsFrom SPACE_CHAR (start.withLine SPACE_CHAR e)
    ((start.pos + e.longest) / NUM_COLS + 1 - NUM_ROWS)

namespace Kernel.ShowsLine

variable {k : Kernel} {t : Terminal} {start : Sheet UInt8} {e : Edited UInt8}

theorem key (hk : k.ShowsLine t start e) {c : UInt8} {key : Key UInt8}
    (hkey : k.kb.lineKey c = some key) :
    (k.keyboardInterrupt c).ShowsLine t start (e.key KB_BUF_SIZE key) := by
  obtain ⟨hcurrent, -, hline⟩ := Kernel.key_line hkey
  obtain ⟨-, haction, -⟩ := KeyState.action_of_lineKey (s := k.keyState) hkey
  obtain ⟨s, hshows, hfrom⟩ := hk.screen
  have hroom : KB_BUF_SIZE + NUM_COLS ≤ NUM_COLS * NUM_ROWS := by decide
  have hlongest := hk.longest
  have hindex : k.kb.index = e.line.length := by rw [← hk.line, Keyboard.line_length]
  have hhome : 0 < k.kb.index → ¬ (k.display.screenX k.display.currTerminal = 0 ∧
      k.display.screenY k.display.currTerminal = 0) := by
    rw [hindex]
    rintro hsome ⟨hx, hy⟩
    have hcursor : k.display.currTerminal = t := hk.current
    rw [hcursor] at hx hy
    exact hfrom.behind_not_home (by omega) hsome
      ⟨hshows.row.symm.trans hy, hshows.col.symm.trans hx⟩
  have hline' : (k.keyboardInterrupt c).kb.line = (e.key KB_BUF_SIZE key).line := by
    rw [hline, KeyState.lineAction_edit (s := k.keyState) key hhome]
    change edit KB_BUF_SIZE k.kb.line key = _
    rw [hk.line]
    rfl
  have hacts := Display.ActsOn.key k.keyState c
  change Display.ActsOn k.display (k.keyboardInterrupt c).display k.currTerminal _ at hacts
  rw [hk.current, haction] at hacts
  have hscreen := hacts.shows s hshows
  have hchar : ∀ char, key = .char char → isBreak char = false := by
    rintro char rfl
    exact Keyboard.lineKey_isBreak hkey
  rw [KeyState.lineAction_apply _ s hchar] at hscreen
  change (k.keyboardInterrupt c).display.Shows t
    (s.editKey SPACE_CHAR KB_BUF_SIZE k.kb.line.length key) at hscreen
  rw [hk.line] at hscreen
  exact
    { current := hcurrent.trans hk.current
      line := hline'
      length := Nat.le_max_right _ _
      longest := max_le hk.longest (edit_length_le key (hk.length.trans hk.longest))
      screen := ⟨_, hscreen, hfrom.editKey hk.length hk.longest hroom key⟩ }

/-- All keys of a sequence, one after the other. -/
theorem type {codes : List UInt8} {keys : List (Key UInt8)} (hk : k.ShowsLine t start e)
    (hkeys : k.lineKeys codes = some keys) :
    (k.type codes).ShowsLine t start (keys.foldl (Edited.key KB_BUF_SIZE) e) := by
  induction codes generalizing k e keys with
  | nil =>
      obtain rfl := Option.some.inj hkeys
      exact hk
  | cons c rest ih =>
      obtain ⟨key, hkey, hkeys⟩ := Option.bind_eq_some_iff.mp hkeys
      obtain ⟨others, hothers, hkeys⟩ := Option.bind_eq_some_iff.mp hkeys
      obtain rfl := Option.some.inj hkeys
      have hrest := ih (hk.key hkey) hothers
      exact hrest

/-- With an empty line the screen shows what it shows. -/
theorem empty (hempty : k.kb.line = []) (hx : k.display.screenX k.currTerminal < NUM_COLS)
    (hy : k.display.screenY k.currTerminal < NUM_ROWS) :
    k.ShowsLine k.currTerminal
      (k.display.video.text (k.display.screenX k.currTerminal) (k.display.screenY k.currTerminal))
      ⟨[], 0⟩ where
  current := rfl
  line := hempty
  length := Nat.zero_le _
  longest := Nat.zero_le _
  screen := by
    obtain ⟨s, hs⟩ := exists_shown k.display.video hx hy
    have hshows : k.display.Shows k.currTerminal s := by
      have hown : k.display.own k.currTerminal = .screen := k.display.own_displayed
      rw [Display.Shows, hown]
      exact hs
    have hstart : s.ShowsFrom SPACE_CHAR (Sheet.ofScreen SPACE_CHAR s) 0 := s.showsFrom_ofScreen
    have htop : ((k.display.video.text (k.display.screenX k.currTerminal)
        (k.display.screenY k.currTerminal)).pos + 0) / NUM_COLS + 1 - NUM_ROWS = 0 := by
      change (NUM_COLS * k.display.screenY k.currTerminal + k.display.screenX k.currTerminal + 0) /
        NUM_COLS + 1 - NUM_ROWS = 0
      simp only [NUM_COLS, NUM_ROWS] at *
      omega
    refine ⟨s, hshows, ?_⟩
    rw [htop, Sheet.withLine_nil, ← hs.text_eq]
    exact hstart

end Kernel.ShowsLine

/-! ## Keys beyond the end of the buffer -/

/-- A character for which there is no room changes neither the screen nor the buffer. -/
theorem Kernel.key_full {k : Kernel} {c char : UInt8} (hkey : k.kb.lineKey c = some (.char char))
    (hfull : KB_BUF_SIZE ≤ k.kb.index) :
    (k.keyboardInterrupt c).display = k.display ∧
      (k.keyboardInterrupt c).kb.buffer = k.kb.buffer ∧
      (k.keyboardInterrupt c).kb.index = k.kb.index := by
  obtain ⟨hstay, haction, henter⟩ := KeyState.action_of_lineKey (s := k.keyState) hkey
  have hnone : k.keyState.lineAction (.char char) = .print [] := if_neg (Nat.not_lt.mpr hfull)
  have heffect := keyboardHandler_effect k.keyState c
  obtain ⟨⟨hbuffer, hindex⟩, -⟩ := k.kb.modifiers_lines c
  rw [haction, hnone] at heffect
  change (keyboardHandler k.keyState c).display = _ ∧ (keyboardHandler k.keyState c).kb.buffer = _ ∧
    (keyboardHandler k.keyState c).kb.index = _
  generalize keyboardHandler k.keyState c = after at heffect
  cases heffect with
  | idle => exact ⟨rfl, hbuffer, hindex⟩
  | exchange wanted hwanted =>
      rw [hstay] at hwanted
      cases hwanted
  | enter _ hpress => exact absurd (henter.mpr hpress) (by simp)

/-! ## The screen under a line -/

/-- How many rows the screen has scrolled when a line that was begun at a cell has been so long. -/
def scrolls (start longest : Nat) : Nat := (start + longest) / NUM_COLS + 1 - NUM_ROWS

/-- A line that was begun on `k` and then edited, on the displayed terminal and in the buffer. -/
structure ShowsTyped (k last : Kernel) (e : Edited UInt8) : Prop where
  current : last.currTerminal = k.currTerminal
  line : last.kb.line = e.line
  /-- The start of the line has not left the screen. -/
  onScreen : NUM_COLS * scrolls k.display.cursorCell e.longest ≤ k.display.cursorCell
  shown : ∀ i (hi : i < last.kb.line.length), (last.display.video
    (k.display.cursorCell + i - NUM_COLS * scrolls k.display.cursorCell e.longest)).ch =
      last.kb.line[i]
  erased : ∀ i, last.kb.line.length ≤ i → i < e.longest → (last.display.video
    (k.display.cursorCell + i - NUM_COLS * scrolls k.display.cursorCell e.longest)).ch = SPACE_CHAR
  before : ∀ j, NUM_COLS * scrolls k.display.cursorCell e.longest ≤ j → j < k.display.cursorCell →
    (last.display.video (j - NUM_COLS * scrolls k.display.cursorCell e.longest)).ch =
      (k.display.video j).ch
  inRange : last.display.screenX last.currTerminal < NUM_COLS ∧
    last.display.screenY last.currTerminal < NUM_ROWS
  cursor : last.display.cursorCell + NUM_COLS * scrolls k.display.cursorCell e.longest =
    k.display.cursorCell + last.kb.line.length
  /-- Keys beyond the end of the buffer. -/
  full : last.kb.line.length = KB_BUF_SIZE → ∀ c char, last.kb.lineKey c = some (.char char) →
    (last.keyboardInterrupt c).display = last.display ∧
      (last.keyboardInterrupt c).kb.buffer = last.kb.buffer ∧
      (last.keyboardInterrupt c).kb.index = last.kb.index

/-- A screen that shows a sheet from some row on, cell by cell of the sheet. -/
theorem Shown.cell_from {page : Page} {x y top : Nat} {s : Screen} {sheet : Sheet UInt8}
    (hs : Shown page x y s) (hfrom : s.ShowsFrom SPACE_CHAR sheet top) {j : Nat}
    (hlow : NUM_COLS * top ≤ j) (hhigh : j < NUM_COLS * (top + NUM_ROWS)) :
    (page (j - NUM_COLS * top)).ch = sheet.cell j := by
  have hrow : (j - NUM_COLS * top) / NUM_COLS < NUM_ROWS := by
    simp only [NUM_COLS, NUM_ROWS] at *
    omega
  have hcol : (j - NUM_COLS * top) % NUM_COLS < NUM_COLS := Nat.mod_lt _ (by decide)
  have hpage := hs.cell ⟨_, hrow⟩ ⟨_, hcol⟩
  have hsheet := hfrom.cell ⟨_, hrow⟩ ⟨_, hcol⟩
  dsimp only at hpage hsheet
  rw [Nat.div_add_mod] at hpage
  rw [hpage, hsheet, Nat.mul_add, Nat.add_assoc, Nat.div_add_mod]
  congr 1
  omega

/-- From an empty line and any cursor on the screen, whatever is typed and erased: the screen
shows the line that will be read. -/
theorem typed_text_shown {k : Kernel} {codes : List UInt8} {keys : List (Key UInt8)}
    (hx : k.display.screenX k.currTerminal < NUM_COLS)
    (hy : k.display.screenY k.currTerminal < NUM_ROWS) (hempty : k.kb.line = [])
    (hkeys : k.lineKeys codes = some keys) :
    ShowsTyped k (k.type codes) (editing KB_BUF_SIZE keys) := by
  have hlast := (Kernel.ShowsLine.empty hempty hx hy).type hkeys
  change (k.type codes).ShowsLine _ _ (editing KB_BUF_SIZE keys) at hlast
  generalize k.type codes = last at hlast
  generalize editing KB_BUF_SIZE keys = e at hlast
  obtain ⟨hcurrent, hline, hlength, hlongest, s, hshows, hfrom⟩ := hlast
  -- the buffer is shorter than the screen, so that the start of the line never scrolls away
  have hroom : e.longest + NUM_COLS ≤ NUM_COLS * NUM_ROWS := by
    simp only [KB_BUF_SIZE, NUM_COLS, NUM_ROWS] at *
    omega
  have hcells : k.display.cursorCell < screenCells := by
    change NUM_COLS * k.display.screenY k.currTerminal + k.display.screenX k.currTerminal < _
    simp only [screenCells, NUM_COLS, NUM_ROWS] at *
    omega
  have htop : NUM_COLS * scrolls k.display.cursorCell e.longest ≤ k.display.cursorCell :=
    TextScreen.ShowsFrom.scrolled_le _ hroom
  have hbottom : k.display.cursorCell + e.longest <
      NUM_COLS * (scrolls k.display.cursorCell e.longest + NUM_ROWS) := by
    unfold scrolls
    simp only [NUM_COLS, NUM_ROWS] at *
    omega
  have hown : last.display.own k.currTerminal = .screen := by
    rw [← hcurrent]
    exact last.display.own_displayed
  have hscreen : Shown last.display.video (last.display.screenX k.currTerminal)
      (last.display.screenY k.currTerminal) s := by
    rw [Display.Shows, Display.ShownOn, hown] at hshows
    exact hshows
  have hcell : ∀ j, NUM_COLS * scrolls k.display.cursorCell e.longest ≤ j →
      j < NUM_COLS * (scrolls k.display.cursorCell e.longest + NUM_ROWS) →
      (last.display.video (j - NUM_COLS * scrolls k.display.cursorCell e.longest)).ch =
        (Sheet.withLine SPACE_CHAR (k.display.video.text (k.display.screenX k.currTerminal)
          (k.display.screenY k.currTerminal)) e).cell j :=
    fun j hlow hhigh => hscreen.cell_from hfrom hlow hhigh
  refine ⟨hcurrent, hline, htop, fun i hi => ?_, fun i hbehind hi => ?_,
    fun j hlow hj => ?_, ?_, ?_, fun hfull c char hkey => Kernel.key_full hkey ?_⟩
  · have hi' : i < e.line.length := hline ▸ hi
    rw [hcell _ (by omega) (by omega)]
    simp only [hline]
    exact Sheet.withLine_line hi'
  · rw [hline] at hbehind
    rw [hcell _ (by omega) (by omega)]
    exact Sheet.withLine_erased (Nat.add_le_add_left hbehind _) (Nat.add_lt_add_left hi _)
  · rw [hcell j hlow (by omega)]
    refine (Sheet.withLine_before hj).trans ?_
    exact if_pos (hj.trans hcells)
  · rw [hcurrent]
    exact ⟨hscreen.x_lt, hscreen.y_lt⟩
  · have hpos := hfrom.pos
    change k.display.cursorCell + e.line.length =
      NUM_COLS * (scrolls k.display.cursorCell e.longest + s.row.val) + s.col.val at hpos
    have hcursor : last.display.cursorCell = NUM_COLS * s.row.val + s.col.val := by
      change NUM_COLS * last.display.screenY last.currTerminal +
        last.display.screenX last.currTerminal = _
      rw [hcurrent, hscreen.row, hscreen.col]
    rw [hcursor, hline, hpos, Nat.mul_add]
    omega
  · rw [← last.kb.line_length, hfull]

/-- Memory at boot with the cursor in the last cell of the screen. -/
def lastCellMemory : BootMemory :=
  { zeroMemory with x := 79, x_lt := by decide, y := 24, y_lt := by decide }

/-- A letter typed in the last cell scrolls the screen, and is erased across the end of the row. -/
theorem typed_text_last_cell :
    ShowsTyped (boot lastCellMemory) ((boot lastCellMemory).type [KEY_A, BACKSPACE])
        (editing KB_BUF_SIZE [.char 97, .erase]) ∧
      scrolls (boot lastCellMemory).display.cursorCell
        (editing KB_BUF_SIZE [Key.char (97 : UInt8), .erase]).longest = 1 := by
  have hkeys : (boot lastCellMemory).lineKeys [KEY_A, BACKSPACE] = some [.char 97, .erase] := rfl
  exact ⟨typed_text_shown (by decide : 79 < NUM_COLS) (by decide : 24 < NUM_ROWS) rfl hkeys,
    by decide⟩

end Ece391
