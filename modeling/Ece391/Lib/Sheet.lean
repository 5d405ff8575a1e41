import Ece391.Lib.TextScreen

/-! # Texts without a bottom

A sheet has as many rows as one wants. Its cells are counted in reading order, so that with
`cols` cells in a row the cell `j` is the one in row `j / cols` and column `j % cols`, and
printing at the end of a row goes on at the start of the next one. A screen shows some rows of
a sheet: printing on the screen prints on the sheet, and a screen that scrolls shows the sheet
from one row further down.
-/

universe u

/-- The cells in reading order, and the one the next character goes to. -/
structure Sheet (α : Type u) where
  cell : Nat → α
  pos : Nat

namespace Sheet

open Function

variable {α : Type u}

def put (sheet : Sheet α) (char : α) : Sheet α :=
  ⟨update sheet.cell sheet.pos char, sheet.pos + 1⟩

/-- The start of the next row. -/
def lineFeed (cols : Nat) (sheet : Sheet α) : Sheet α :=
  { sheet with pos := cols * (sheet.pos / cols + 1) }

def print (cols : Nat) (isBreak : α → Bool) (sheet : Sheet α) (char : α) : Sheet α :=
  if isBreak char then sheet.lineFeed cols else sheet.put char

/-- Go back by one cell and blank it. -/
def erase (blank : α) (sheet : Sheet α) : Sheet α :=
  ⟨update sheet.cell (sheet.pos - 1) blank, sheet.pos - 1⟩

/-- The rows of a screen with nothing but blanks below them. -/
def ofScreen {rows cols : Nat} (blank : α) (s : TextScreen rows cols α) : Sheet α where
  cell j :=
    if h : j / cols < rows then
      s.cell ⟨j / cols, h⟩ ⟨j % cols, Nat.mod_lt _ (Nat.zero_lt_of_lt s.col.isLt)⟩
    else blank
  pos := s.position

theorem ofScreen_of_lt {rows cols : Nat} (blank : α) (s : TextScreen rows cols α) {j : Nat}
    (hrow : j / cols < rows) (hcols : 0 < cols) :
    (ofScreen blank s).cell j = s.cell ⟨j / cols, hrow⟩ ⟨j % cols, Nat.mod_lt _ hcols⟩ :=
  dif_pos hrow

theorem ofScreen_of_ge {rows cols : Nat} (blank : α) (s : TextScreen rows cols α) {j : Nat}
    (hrow : rows ≤ j / cols) : (ofScreen blank s).cell j = blank := dif_neg (Nat.not_lt.mpr hrow)

/-- How many rows have gone off the top of a screen that follows the cursor. -/
def dropped (rows cols : Nat) (sheet : Sheet α) : Nat := sheet.pos / cols + 1 - rows

/-- The last rows, down to that of the cursor or to the last row of the screen. -/
def lastRows {rows cols : Nat} (hrows : 0 < rows) (hcols : 0 < cols) (sheet : Sheet α) :
    TextScreen rows cols α where
  cell r c := sheet.cell (cols * (sheet.dropped rows cols + r.val) + c.val)
  row := ⟨sheet.pos / cols - sheet.dropped rows cols, by unfold dropped; omega⟩
  col := ⟨sheet.pos % cols, Nat.mod_lt _ hcols⟩

end Sheet

namespace TextScreen

open Function

variable {rows cols : Nat} {α : Type u} {blank : α}

/-- The screen shows the rows of the sheet from `top` on, and below it the sheet is blank. -/
structure ShowsFrom (blank : α) (s : TextScreen rows cols α) (sheet : Sheet α) (top : Nat) :
    Prop where
  cell : ∀ r c, s.cell r c = sheet.cell (cols * (top + r.val) + c.val)
  pos : sheet.pos = cols * (top + s.row.val) + s.col.val
  below : ∀ j, cols * (top + rows) ≤ j → sheet.cell j = blank

theorem showsFrom_ofScreen (s : TextScreen rows cols α) :
    s.ShowsFrom blank (Sheet.ofScreen blank s) 0 where
  cell r c := by
    have hcols : 0 < cols := Nat.zero_lt_of_lt s.col.isLt
    have hrow : (cols * (0 + r.val) + c.val) / cols = r.val := by
      rw [Nat.zero_add, Nat.mul_add_div hcols, Nat.div_eq_of_lt c.isLt, Nat.add_zero]
    have hcol : (cols * (0 + r.val) + c.val) % cols = c.val := by
      rw [Nat.mul_add_mod, Nat.mod_eq_of_lt c.isLt]
    rw [Sheet.ofScreen_of_lt blank s (by rw [hrow]; exact r.isLt) hcols]
    congr 1
    · exact Fin.ext hrow.symm
    · exact Fin.ext hcol.symm
  pos := by rw [Sheet.ofScreen, position, Nat.zero_add]
  below j hj := by
    have hcols : 0 < cols := Nat.zero_lt_of_lt s.col.isLt
    rw [Nat.zero_add, Nat.mul_comm] at hj
    exact Sheet.ofScreen_of_ge blank s ((Nat.le_div_iff_mul_le hcols).mpr hj)

namespace ShowsFrom

variable {s : TextScreen rows cols α} {sheet : Sheet α} {top : Nat}

theorem cols_pos (_ : s.ShowsFrom blank sheet top) : 0 < cols := Nat.zero_lt_of_lt s.col.isLt

/-- The row of the sheet the cursor is in. -/
theorem row_eq (hs : s.ShowsFrom blank sheet top) : sheet.pos / cols = top + s.row.val := by
  rw [hs.pos, Nat.mul_add_div hs.cols_pos, Nat.div_eq_of_lt s.col.isLt, Nat.add_zero]

/-- Two cells of a row-wise numbering are the same when rows and columns are. -/
theorem index_inj {r r' c c' : Nat} (hc : c < cols) (hc' : c' < cols) :
    cols * r + c = cols * r' + c' ↔ r = r' ∧ c = c' := by
  constructor
  · intro heq
    have hrow := congrArg (· / cols) heq
    have hcol := congrArg (· % cols) heq
    have hcols : 0 < cols := Nat.zero_lt_of_lt hc
    simp only [Nat.mul_add_div hcols, Nat.div_eq_of_lt hc, Nat.div_eq_of_lt hc',
      Nat.add_zero] at hrow
    simp only [Nat.mul_add_mod, Nat.mod_eq_of_lt hc, Nat.mod_eq_of_lt hc'] at hcol
    exact ⟨hrow, hcol⟩
  · rintro ⟨rfl, rfl⟩
    rfl

/-- The cell under the cursor is written on both. -/
theorem write (hs : s.ShowsFrom blank sheet top) (char : α) :
    (s.write char).ShowsFrom blank { sheet with cell := update sheet.cell sheet.pos char } top where
  cell r c := by
    have hat : cols * (top + r.val) + c.val = sheet.pos ↔ r = s.row ∧ c = s.col := by
      rw [hs.pos, index_inj c.isLt s.col.isLt, Fin.ext_iff, Fin.ext_iff]
      omega
    rw [TextScreen.write]
    dsimp only
    by_cases hcursor : r = s.row ∧ c = s.col
    · rw [if_pos hcursor, hat.mpr hcursor, update_self]
    · rw [if_neg hcursor, update_of_ne fun heq => hcursor (hat.mp heq), hs.cell]
  pos := hs.pos
  below j hj := by
    have hbehind : sheet.pos < cols * (top + rows) := by
      rw [hs.pos]
      calc cols * (top + s.row.val) + s.col.val
          < cols * (top + s.row.val) + cols := Nat.add_lt_add_left s.col.isLt _
        _ = cols * (top + s.row.val + 1) := (Nat.mul_succ _ _).symm
        _ ≤ cols * (top + rows) := Nat.mul_le_mul_left _ (by have := s.row.isLt; omega)
    exact (update_of_ne (by omega) ..).trans (hs.below j hj)

/-- Below the last row of the screen the next row of the sheet comes into sight. -/
theorem lineFeed (hs : s.ShowsFrom blank sheet top) :
    (s.lineFeed blank).ShowsFrom blank (sheet.lineFeed cols)
      (if s.row.val + 1 < rows then top else top + 1) := by
  rw [TextScreen.lineFeed, Sheet.lineFeed, hs.row_eq]
  split
  · exact ⟨hs.cell, (Nat.add_zero _).symm, hs.below⟩
  · next hlast =>
    refine ⟨fun r c => ?_, ?_, fun j hj => hs.below j (Nat.le_trans (Nat.mul_le_mul_left _ ?_) hj)⟩
    · rw [TextScreen.scrollUp]
      dsimp only
      split
      · next hbelow =>
        rw [hs.cell, Nat.add_right_comm, Nat.add_assoc top]
      · next hbottom =>
        refine (hs.below _ (Nat.le_trans (Nat.mul_le_mul_left _ ?_) (Nat.le_add_right _ _))).symm
        omega
    · exact congrArg (cols * ·) (Nat.add_right_comm ..)
    · omega

/-- Whether printing a character that is not a line break leaves the last row. -/
theorem put (hs : s.ShowsFrom blank sheet top) (char : α) :
    (s.put blank char).ShowsFrom blank (sheet.put char)
      (if s.col.val + 1 < cols ∨ s.row.val + 1 < rows then top else top + 1) := by
  rw [TextScreen.put]
  have hwritten := hs.write char
  split
  · next hinside =>
    rw [if_pos (.inl hinside)]
    exact ⟨hwritten.cell, (congrArg (· + 1) hs.pos).trans (Nat.add_assoc ..), hwritten.below⟩
  · next hend =>
    have hput : Sheet.lineFeed cols { sheet with cell := update sheet.cell sheet.pos char } =
        sheet.put char := by
      have hcol : s.col.val + 1 = cols := by have := s.col.isLt; omega
      rw [Sheet.lineFeed, Sheet.put, hs.row_eq, Nat.mul_succ, hs.pos]
      congr 1
      omega
    have hfeed := hwritten.lineFeed
    rw [hput] at hfeed
    simp only [hend, false_or]
    exact hfeed

/-- One more row drops another one when the cursor was in the last row of the screen. -/
theorem dropped_next (hs : s.ShowsFrom blank sheet (sheet.dropped rows cols)) {next : Sheet α}
    (hnext : next.pos / cols = sheet.pos / cols + 1) :
    next.dropped rows cols =
      if s.row.val + 1 < rows then sheet.dropped rows cols else sheet.dropped rows cols + 1 := by
  have hrow := hs.row_eq
  have hlt := s.row.isLt
  unfold Sheet.dropped at *
  split <;> omega

/-- A printed character is printed on both, and a screen that follows the cursor goes on to
follow it. -/
theorem print (hs : s.ShowsFrom blank sheet (sheet.dropped rows cols)) (isBreak : α → Bool)
    (char : α) : (s.print blank isBreak char).ShowsFrom blank (sheet.print cols isBreak char)
      ((sheet.print cols isBreak char).dropped rows cols) := by
  rw [TextScreen.print, Sheet.print]
  split
  · have hfeed := hs.lineFeed
    have hnext : (sheet.lineFeed cols).pos / cols = sheet.pos / cols + 1 :=
      Nat.mul_div_cancel_left _ hs.cols_pos
    rwa [← hs.dropped_next hnext] at hfeed
  · have hput := hs.put char
    by_cases hinside : s.col.val + 1 < cols
    · have hsame : (sheet.put char).pos / cols = sheet.pos / cols := by
        rw [hs.row_eq, Sheet.put, hs.pos, Nat.add_assoc, Nat.mul_add_div hs.cols_pos,
          Nat.div_eq_of_lt hinside, Nat.add_zero]
      rw [if_pos (.inl hinside)] at hput
      rwa [Sheet.dropped, hsame, ← Sheet.dropped]
    · have hnext : (sheet.put char).pos / cols = sheet.pos / cols + 1 := by
        have hcol : s.col.val + 1 = cols := by have := s.col.isLt; omega
        rw [hs.row_eq, Sheet.put, hs.pos, Nat.add_assoc, hcol, ← Nat.mul_succ,
          Nat.mul_div_cancel_left _ hs.cols_pos]
      simp only [hinside, false_or] at hput
      rwa [← hs.dropped_next hnext] at hput

/-- A screen that shows the last rows is made of them. -/
theorem eq_lastRows (hs : s.ShowsFrom blank sheet (sheet.dropped rows cols)) (hrows : 0 < rows)
    (hcols : 0 < cols) : s = sheet.lastRows hrows hcols := by
  obtain ⟨cell, row, col⟩ := s
  have hcell : cell = (sheet.lastRows hrows hcols).cell :=
    funext fun r => funext fun c => hs.cell r c
  have hrow : row = (sheet.lastRows hrows hcols).row := by
    apply Fin.ext
    have heq := hs.row_eq
    change row.val = sheet.pos / cols - _
    rw [heq]
    exact (Nat.add_sub_cancel_left ..).symm
  have hcol : col = (sheet.lastRows hrows hcols).col := by
    apply Fin.ext
    change col.val = sheet.pos % cols
    rw [hs.pos, Nat.mul_add_mod]
    exact (Nat.mod_eq_of_lt col.isLt).symm
  rw [hcell, hrow, hcol]

end ShowsFrom

/-- Printing a text on a screen shows the last rows of the text laid out below what was there. -/
theorem print_lastRows (s : TextScreen rows cols α) (blank : α) (isBreak : α → Bool)
    (chars : List α) (hrows : 0 < rows) (hcols : 0 < cols) :
    chars.foldl (TextScreen.print blank isBreak) s =
      (chars.foldl (Sheet.print cols isBreak) (Sheet.ofScreen blank s)).lastRows hrows hcols := by
  have hshows : ∀ (s : TextScreen rows cols α) (sheet : Sheet α),
      s.ShowsFrom blank sheet (sheet.dropped rows cols) →
      (chars.foldl (TextScreen.print blank isBreak) s).ShowsFrom blank
        (chars.foldl (Sheet.print cols isBreak) sheet)
        ((chars.foldl (Sheet.print cols isBreak) sheet).dropped rows cols) := by
    induction chars with
    | nil => exact fun s sheet hs => hs
    | cons char rest ih => exact fun s sheet hs => ih _ _ (hs.print isBreak char)
  have hstart : s.ShowsFrom blank (Sheet.ofScreen blank s) 0 := s.showsFrom_ofScreen
  have htop : (Sheet.ofScreen blank s).dropped rows cols = 0 := by
    have hrow := hstart.row_eq
    have hlt := s.row.isLt
    unfold Sheet.dropped
    omega
  rw [← htop] at hstart
  exact (hshows s _ hstart).eq_lastRows hrows hcols

end TextScreen
