import Mathlib.Data.List.Basic

/-! # A character screen

A screen is a grid of characters with a cursor inside it. Printing past the
last column starts a new row, and a new row below the last one drops the first
row of the grid.
-/

universe u

/-- A grid of characters and the cell the next character goes to. -/
structure TextScreen (rows cols : Nat) (α : Type u) where
  cell : Fin rows → Fin cols → α
  row : Fin rows
  col : Fin cols

namespace TextScreen

variable {rows cols : Nat} {α : Type u} (blank : α)

/-- Every row moves up by one and the last row becomes blank. -/
def scrollUp (s : TextScreen rows cols α) : TextScreen rows cols α where
  cell r c := if h : r.val + 1 < rows then s.cell ⟨r.val + 1, h⟩ c else blank
  row := s.row
  col := s.col

/-- The cursor goes to the start of the next row, which may have to be made. -/
def lineFeed (s : TextScreen rows cols α) : TextScreen rows cols α :=
  if h : s.row.val + 1 < rows then
    { s with row := ⟨s.row.val + 1, h⟩, col := ⟨0, Nat.zero_lt_of_lt s.col.isLt⟩ }
  else { s.scrollUp blank with col := ⟨0, Nat.zero_lt_of_lt s.col.isLt⟩ }

def write (s : TextScreen rows cols α) (char : α) : TextScreen rows cols α :=
  { s with cell := fun r c => if r = s.row ∧ c = s.col then char else s.cell r c }

/-- Print one character that is not a line break. -/
def put (s : TextScreen rows cols α) (char : α) : TextScreen rows cols α :=
  if h : s.col.val + 1 < cols then { s.write char with col := ⟨s.col.val + 1, h⟩ }
  else (s.write char).lineFeed blank

/-- Print one character; `isBreak` tells the line breaks. -/
def print (isBreak : α → Bool) (s : TextScreen rows cols α) (char : α) :
    TextScreen rows cols α :=
  if isBreak char then s.lineFeed blank else s.put blank char

/-- The cursor steps back by one cell, over the start of a row to the end of the
row above; at the first cell it stays. -/
def back (s : TextScreen rows cols α) : TextScreen rows cols α :=
  if 0 < s.col.val then
    { s with col := ⟨s.col.val - 1, Nat.lt_of_le_of_lt (Nat.sub_le _ _) s.col.isLt⟩ }
  else if 0 < s.row.val then
    { s with
      row := ⟨s.row.val - 1, Nat.lt_of_le_of_lt (Nat.sub_le _ _) s.row.isLt⟩
      col := ⟨cols - 1, Nat.sub_lt (Nat.zero_lt_of_lt s.col.isLt) (by decide)⟩ }
  else s

/-- The cursor is on the first cell. -/
def AtHome (s : TextScreen rows cols α) : Prop := s.row.val = 0 ∧ s.col.val = 0

instance (s : TextScreen rows cols α) : Decidable s.AtHome := inferInstanceAs (Decidable (_ ∧ _))

/-- Blank the cell in front of the cursor and stand on it. Nothing is erased in
front of the first cell. -/
def erase (s : TextScreen rows cols α) : TextScreen rows cols α :=
  if s.AtHome then s else s.back.write blank

/-- Blank every cell and home the cursor. -/
def clear (s : TextScreen rows cols α) : TextScreen rows cols α where
  cell _ _ := blank
  row := ⟨0, Nat.zero_lt_of_lt s.row.isLt⟩
  col := ⟨0, Nat.zero_lt_of_lt s.col.isLt⟩

theorem back_of_pos {s : TextScreen rows cols α} (hpos : 0 < s.col.val) :
    s.back = { s with col := ⟨s.col.val - 1, Nat.lt_of_le_of_lt (Nat.sub_le _ _) s.col.isLt⟩ } :=
  if_pos hpos

theorem back_of_zero {s : TextScreen rows cols α} (hcol : s.col.val = 0) (hrow : 0 < s.row.val) :
    s.back =
      { s with
        row := ⟨s.row.val - 1, Nat.lt_of_le_of_lt (Nat.sub_le _ _) s.row.isLt⟩
        col := ⟨cols - 1, Nat.sub_lt (Nat.zero_lt_of_lt s.col.isLt) (by decide)⟩ } := by
  rw [back, if_neg (by omega), if_pos hrow]

/-- Stepping back, printing a character and stepping back again writes one cell. -/
theorem back_put_back {s : TextScreen rows cols α} (hhome : ¬ s.AtHome) (char : α) :
    ¬ (s.back.put blank char).AtHome ∧ (s.back.put blank char).back = s.back.write char := by
  by_cases hcol : 0 < s.col.val
  · have hinside : s.col.val - 1 + 1 < cols := by
      have := s.col.isLt
      omega
    rw [back_of_pos hcol, put, dif_pos hinside]
    refine ⟨fun h => absurd h.2 (by simp), ?_⟩
    rw [back_of_pos (Nat.succ_pos _)]
    rfl
  · have hzero : s.col.val = 0 := by omega
    have hrow : 0 < s.row.val := Nat.pos_of_ne_zero fun h => hhome ⟨h, hzero⟩
    have hcols : 0 < cols := Nat.zero_lt_of_lt s.col.isLt
    have hlast : ¬ cols - 1 + 1 < cols := by omega
    have hinside : s.row.val - 1 + 1 < rows := by
      have := s.row.isLt
      omega
    rw [back_of_zero hzero hrow, put, dif_neg hlast, lineFeed, write, dif_pos hinside]
    refine ⟨fun h => absurd h.1 (by simp), ?_⟩
    rw [back_of_zero rfl (Nat.succ_pos _)]
    rfl

/-! ## How far the cursor is from home -/

/-- The cells in front of the cursor. -/
def position (s : TextScreen rows cols α) : Nat := cols * s.row.val + s.col.val

theorem position_pos_iff {s : TextScreen rows cols α} : 0 < s.position ↔ ¬ s.AtHome := by
  have hcols : 0 < cols := Nat.zero_lt_of_lt s.col.isLt
  rw [AtHome, position, Nat.add_pos_iff_pos_or_pos, Nat.mul_pos_iff_of_pos_left hcols]
  omega

theorem position_lineFeed (s : TextScreen rows cols α) :
    (s.lineFeed blank).position = cols * (s.row.val + 1) ∨
      (s.lineFeed blank).position = cols * (rows - 1) := by
  unfold lineFeed
  split
  · exact .inl rfl
  · next hbelow =>
    refine .inr ?_
    have hrow : s.row.val = rows - 1 := by
      have := s.row.isLt
      omega
    change cols * s.row.val + 0 = cols * (rows - 1)
    rw [hrow, Nat.add_zero]

/-- Printing moves on by one cell, or to the start of the last row. -/
theorem position_put (s : TextScreen rows cols α) (char : α) :
    (s.put blank char).position = s.position + 1 ∨
      (s.put blank char).position = cols * (rows - 1) := by
  unfold put
  split
  · exact .inl (Nat.add_assoc _ _ _).symm
  · next hlast =>
    have hcol : s.col.val + 1 = cols := by omega
    rcases position_lineFeed blank (s.write char) with hnext | hbottom
    · refine .inl (hnext.trans ?_)
      change cols * (s.row.val + 1) = cols * s.row.val + s.col.val + 1
      rw [Nat.mul_succ]
      omega
    · exact .inr hbottom

/-- Behind a character the cursor is not at home, unless there is but one row. -/
theorem position_print_pos (hrows : 1 < rows) (breaks : α → Bool) (s : TextScreen rows cols α)
    (char : α) : 0 < (s.print blank breaks char).position := by
  have hcols : 0 < cols := Nat.zero_lt_of_lt s.col.isLt
  have hbottom : 0 < cols * (rows - 1) := Nat.mul_pos hcols (Nat.sub_pos_of_lt hrows)
  unfold print
  split
  · rcases position_lineFeed blank s with hnext | hlast
    · rw [hnext]
      exact Nat.mul_pos hcols (Nat.succ_pos _)
    · rwa [hlast]
  · rcases position_put blank s char with hnext | hlast
    · rw [hnext]
      exact Nat.succ_pos _
    · rwa [hlast]

/-- Erasing goes back by one cell. -/
theorem position_erase {s : TextScreen rows cols α} (hhome : ¬ s.AtHome) :
    (s.erase blank).position + 1 = s.position := by
  rw [erase, if_neg hhome]
  by_cases hpos : 0 < s.col.val
  · rw [back_of_pos hpos]
    change cols * s.row.val + (s.col.val - 1) + 1 = cols * s.row.val + s.col.val
    omega
  · have hzero : s.col.val = 0 := by omega
    obtain ⟨row, hrow⟩ : ∃ row, s.row.val = row + 1 :=
      Nat.exists_eq_succ_of_ne_zero fun h => hhome ⟨h, hzero⟩
    have hcols : 0 < cols := Nat.zero_lt_of_lt s.col.isLt
    rw [back_of_zero hzero (by omega)]
    change cols * (s.row.val - 1) + (cols - 1) + 1 = cols * s.row.val + s.col.val
    rw [hrow, hzero, Nat.add_sub_cancel, Nat.mul_succ]
    omega

end TextScreen
