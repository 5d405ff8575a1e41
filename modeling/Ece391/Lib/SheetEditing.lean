import Ece391.Lib.Sheet
import Ece391.Lib.LineEditor
import Mathlib.Data.List.Induction

/-! # A line under edit on a screen

A line that is typed on a screen stands on the sheet from the cell where it was begun. What
was erased of it is blank, and the screen is scrolled as far as its longest state has needed.
-/

universe u

namespace LineEditor

variable {α : Type u}

/-- A line, and how long it has been. -/
structure Edited (α : Type u) where
  line : List α
  longest : Nat

def Edited.key (size : Nat) (e : Edited α) (key : Key α) : Edited α :=
  ⟨edit size e.line key, max e.longest (edit size e.line key).length⟩

/-- An empty line under some keys. -/
def editing (size : Nat) (keys : List (Key α)) : Edited α := keys.foldl (Edited.key size) ⟨[], 0⟩

/-- A key that leaves the line alone. -/
theorem Edited.key_same {size : Nat} {e : Edited α} {key : Key α}
    (hedit : edit size e.line key = e.line)
    (hlength : e.line.length ≤ e.longest) : e.key size key = e := by
  rw [Edited.key, hedit, Nat.max_eq_left hlength]

end LineEditor

namespace Sheet

open Function LineEditor

variable {α : Type u} {blank : α} {start : Sheet α} {e : Edited α}

/-- The sheet with a line from the cursor on, and blanks where it has been longer. -/
def withLine (blank : α) (start : Sheet α) (e : Edited α) : Sheet α where
  cell j :=
    if j < start.pos then start.cell j
    else if h : j - start.pos < e.line.length then e.line[j - start.pos]
    else if j < start.pos + e.longest then blank
    else start.cell j
  pos := start.pos + e.line.length

theorem withLine_before {j : Nat} (hj : j < start.pos) :
    (start.withLine blank e).cell j = start.cell j :=
  if_pos hj

theorem withLine_line {i : Nat} (hi : i < e.line.length) :
    (start.withLine blank e).cell (start.pos + i) = e.line[i] := by
  have hindex : start.pos + i - start.pos = i := Nat.add_sub_cancel_left ..
  unfold withLine
  dsimp only
  rw [if_neg (by omega), dif_pos (by omega)]
  simp only [hindex]

theorem withLine_erased {j : Nat} (hline : start.pos + e.line.length ≤ j)
    (hlongest : j < start.pos + e.longest) : (start.withLine blank e).cell j = blank := by
  unfold withLine
  dsimp only
  rw [if_neg (by omega), dif_neg (by omega), if_pos hlongest]

theorem withLine_behind {j : Nat} (hline : start.pos + e.line.length ≤ j)
    (hlongest : start.pos + e.longest ≤ j) : (start.withLine blank e).cell j = start.cell j := by
  unfold withLine
  dsimp only
  rw [if_neg (by omega), dif_neg (by omega), if_neg (by omega)]

theorem withLine_nil : start.withLine blank ⟨[], 0⟩ = start := by
  have hcell : (start.withLine blank ⟨[], 0⟩).cell = start.cell := by
    funext j
    by_cases hj : j < start.pos
    · exact withLine_before hj
    · exact withLine_behind (by rw [List.length_nil]; omega) (by change start.pos + 0 ≤ j; omega)
  calc start.withLine blank ⟨[], 0⟩
      = ⟨(start.withLine blank ⟨[], 0⟩).cell, (start.withLine blank ⟨[], 0⟩).pos⟩ := rfl
    _ = start := by rw [hcell]; rfl

theorem ext {sheet other : Sheet α} (hcell : ∀ j, sheet.cell j = other.cell j)
    (hpos : sheet.pos = other.pos) : sheet = other := by
  cases sheet
  cases other
  obtain rfl : _ = _ := funext hcell
  obtain rfl : _ = _ := hpos
  rfl

/-- A character that is printed behind the line becomes its last one. -/
theorem withLine_put {size : Nat} (hroom : e.line.length < size)
    (hlength : e.line.length ≤ e.longest)
    (char : α) :
    (start.withLine blank e).put char = start.withLine blank (e.key size (.char char)) := by
  have hline : (e.key size (.char char)).line = e.line ++ [char] := if_pos hroom
  have hlongest : (e.key size (.char char)).longest = max e.longest (e.line.length + 1) := by
    change max e.longest (e.key size (.char char)).line.length = _
    rw [hline, List.length_append, List.length_singleton]
  refine ext (fun j => ?_) ?_
  · by_cases hcursor : j = start.pos + e.line.length
    · subst hcursor
      have hi : e.line.length < (e.key size (.char char)).line.length := by
        rw [hline, List.length_append, List.length_singleton]
        omega
      rw [withLine_line hi]
      simp only [hline]
      rw [List.getElem_concat_length rfl]
      exact update_self ..
    · have hput : ((start.withLine blank e).put char).cell j = (start.withLine blank e).cell j :=
        update_of_ne hcursor ..
      rw [hput]
      rcases Nat.lt_or_ge j start.pos with hbefore | hfrom
      · rw [withLine_before hbefore, withLine_before hbefore]
      obtain ⟨i, rfl⟩ := Nat.exists_eq_add_of_le hfrom
      rcases Nat.lt_or_ge i e.line.length with hi | hbehind
      · have hi' : i < (e.key size (.char char)).line.length := by
          rw [hline, List.length_append]
          omega
        rw [withLine_line hi, withLine_line hi']
        simp only [hline]
        rw [List.getElem_append_left hi]
      · have hlast : start.pos + (e.key size (.char char)).line.length ≤ start.pos + i := by
          rw [hline, List.length_append, List.length_singleton]
          omega
        rcases Nat.lt_or_ge i e.longest with herased | hfresh
        · rw [withLine_erased (by omega) (by omega),
            withLine_erased hlast (by rw [hlongest]; omega)]
        · rw [withLine_behind (by omega) (by omega),
            withLine_behind hlast (by rw [hlongest]; omega)]
  · change start.pos + e.line.length + 1 = start.pos + (e.key size (.char char)).line.length
    rw [hline, List.length_append, List.length_singleton, Nat.add_assoc]

/-- The last character of the line is blanked and belongs to it no more. -/
theorem withLine_erase (size : Nat) (hsome : 0 < e.line.length)
    (hlength : e.line.length ≤ e.longest) :
    (start.withLine blank e).erase blank = start.withLine blank (e.key size .erase) := by
  have hline : (e.key size .erase).line = e.line.dropLast := rfl
  have hlongest : (e.key size .erase).longest = e.longest := by
    change max e.longest (e.key size .erase).line.length = _
    rw [hline, List.length_dropLast]
    omega
  have hpos : start.pos + e.line.length - 1 = start.pos + (e.line.length - 1) := by omega
  have hlast : start.pos + (e.key size .erase).line.length = start.pos + (e.line.length - 1) := by
    rw [hline, List.length_dropLast]
  refine ext (fun j => ?_) ?_
  · by_cases hcursor : j = start.pos + (e.line.length - 1)
    · subst hcursor
      have hbehind : start.pos + (e.line.length - 1) < start.pos + (e.key size .erase).longest := by
        rw [hlongest]
        omega
      rw [withLine_erased (Nat.le_of_eq hlast) hbehind, ← hpos]
      exact update_self ..
    · have herase : ((start.withLine blank e).erase blank).cell j =
          (start.withLine blank e).cell j :=
        update_of_ne (by change j ≠ start.pos + e.line.length - 1; omega) ..
      rw [herase]
      rcases Nat.lt_or_ge j start.pos with hbefore | hfrom
      · rw [withLine_before hbefore, withLine_before hbefore]
      obtain ⟨i, rfl⟩ := Nat.exists_eq_add_of_le hfrom
      rcases Nat.lt_or_ge i (e.line.length - 1) with hi | hbehind
      · have hi' : i < (e.key size .erase).line.length := by
          rw [hline, List.length_dropLast]
          exact hi
        rw [withLine_line (by omega), withLine_line hi']
        simp only [hline]
        rw [List.getElem_dropLast]
      · rcases Nat.lt_or_ge i e.longest with herased | hfresh
        · rw [withLine_erased (by omega) (by omega),
            withLine_erased (by omega) (by rw [hlongest]; omega)]
        · rw [withLine_behind (by omega) (by omega),
            withLine_behind (by omega) (by rw [hlongest]; omega)]
  · exact hpos.trans hlast.symm

end Sheet

namespace TextScreen

open LineEditor

variable {rows cols : Nat} {α : Type u} {blank : α} {s : TextScreen rows cols α}

/-- What a key does to the screen when the line has `length` characters. -/
def editKey (blank : α) (size length : Nat) (s : TextScreen rows cols α) :
    Key α → TextScreen rows cols α
  | .char c => if length < size then s.put blank c else s
  | .erase => if 0 < length then s.erase blank else s
  | .enter | .idle => s

namespace ShowsFrom

variable {sheet start : Sheet α} {top size : Nat} {e : Edited α}

/-- Away from the first cell of the screen a cell is erased on both. -/
theorem erase (hs : s.ShowsFrom blank sheet top) (hhome : ¬ s.AtHome) :
    (s.erase blank).ShowsFrom blank (sheet.erase blank) top := by
  have hback : s.back.ShowsFrom blank { sheet with pos := sheet.pos - 1 } top := by
    by_cases hcol : 0 < s.col.val
    · rw [back_of_pos hcol]
      refine ⟨hs.cell, ?_, hs.below⟩
      change sheet.pos - 1 = cols * (top + s.row.val) + (s.col.val - 1)
      rw [hs.pos]
      omega
    · have hzero : s.col.val = 0 := by omega
      have hrow : 0 < s.row.val := Nat.pos_of_ne_zero fun h => hhome ⟨h, hzero⟩
      rw [back_of_zero hzero hrow]
      refine ⟨hs.cell, ?_, hs.below⟩
      change sheet.pos - 1 = cols * (top + (s.row.val - 1)) + (cols - 1)
      obtain ⟨row, hrow'⟩ := Nat.exists_eq_succ_of_ne_zero (Nat.ne_of_gt hrow)
      have hcols := hs.cols_pos
      rw [hs.pos, hrow', hzero, Nat.succ_sub_one, Nat.succ_eq_add_one, ← Nat.add_assoc,
        Nat.mul_succ]
      omega
  rw [TextScreen.erase, if_neg hhome]
  exact hback.write blank

/-- A line that leaves a row of the screen free never scrolls its first cell off the screen. -/
theorem scrolled_le (start : Nat) {longest : Nat} (hroom : longest + cols ≤ cols * rows) :
    cols * ((start + longest) / cols + 1 - rows) ≤ start := by
  have hle := Nat.mul_div_le (start + longest) cols
  rw [Nat.mul_sub, Nat.mul_succ]
  omega

/-- How many rows a line has scrolled the screen. -/
theorem scrolled_char (hs : s.ShowsFrom blank (start.withLine blank e)
      ((start.pos + e.longest) / cols + 1 - rows)) :
    (if s.col.val + 1 < cols ∨ s.row.val + 1 < rows then (start.pos + e.longest) / cols + 1 - rows
      else (start.pos + e.longest) / cols + 1 - rows + 1) =
    (start.pos + max e.longest (e.line.length + 1)) / cols + 1 - rows := by
  have hlt := s.row.isLt
  have hpos : start.pos + e.line.length =
      cols * ((start.pos + e.longest) / cols + 1 - rows + s.row.val) + s.col.val := hs.pos
  have hmax : (start.pos + max e.longest (e.line.length + 1)) / cols =
      max ((start.pos + e.longest) / cols) ((start.pos + e.line.length + 1) / cols) := by
    rcases Nat.le_total e.longest (e.line.length + 1) with hle | hge
    · rw [Nat.max_eq_right hle, Nat.max_eq_right (Nat.div_le_div_right (by omega)), Nat.add_assoc]
    · rw [Nat.max_eq_left hge, Nat.max_eq_left (Nat.div_le_div_right (by omega))]
  rw [hmax, hpos]
  generalize (start.pos + e.longest) / cols = last
  by_cases hinside : s.col.val + 1 < cols
  · rw [if_pos (.inl hinside), Nat.add_assoc, Nat.mul_add_div hs.cols_pos, Nat.div_eq_of_lt hinside]
    omega
  · have hcol : s.col.val + 1 = cols := by
      have := s.col.isLt
      omega
    rw [Nat.add_assoc, hcol, ← Nat.mul_succ, Nat.mul_div_cancel_left _ hs.cols_pos]
    by_cases hrow : s.row.val + 1 < rows
    · rw [if_pos (.inr hrow)]
      omega
    · rw [if_neg (by omega)]
      omega

/-- Behind a line that is not empty the cursor is away from the first cell of the screen. -/
theorem behind_not_home (hs : s.ShowsFrom blank (start.withLine blank e)
      ((start.pos + e.longest) / cols + 1 - rows)) (hroom : e.longest + cols ≤ cols * rows)
    (hsome : 0 < e.line.length) : ¬ s.AtHome := by
  rintro ⟨hrow, hcol⟩
  have hpos : start.pos + e.line.length =
      cols * ((start.pos + e.longest) / cols + 1 - rows + s.row.val) + s.col.val := hs.pos
  have htop := scrolled_le start.pos hroom
  rw [hrow, hcol, Nat.add_zero, Nat.add_zero] at hpos
  omega

/-- A key is a key for the screen as for the line. -/
theorem editKey (hs : s.ShowsFrom blank (start.withLine blank e)
      ((start.pos + e.longest) / cols + 1 - rows)) (hlength : e.line.length ≤ e.longest)
    (hlongest : e.longest ≤ size) (hsize : size + cols ≤ cols * rows) (key : Key α) :
    (s.editKey blank size e.line.length key).ShowsFrom blank
      (start.withLine blank (e.key size key))
      ((start.pos + (e.key size key).longest) / cols + 1 - rows) := by
  cases key with
  | char c =>
      rw [TextScreen.editKey]
      by_cases hroom : e.line.length < size
      · rw [if_pos hroom]
        have hput := hs.put c
        rw [hs.scrolled_char, Sheet.withLine_put hroom hlength] at hput
        have hline : edit size e.line (.char c) = e.line ++ [c] := if_pos hroom
        have hnext : (e.key size (.char c)).longest = max e.longest (e.line.length + 1) := by
          rw [Edited.key, hline, List.length_append, List.length_singleton]
        rwa [hnext]
      · have hfull : edit size e.line (.char c) = e.line := if_neg hroom
        rw [if_neg hroom, Edited.key_same hfull hlength]
        exact hs
  | erase =>
      rw [TextScreen.editKey]
      by_cases hsome : 0 < e.line.length
      · have hhome := hs.behind_not_home (by omega) hsome
        have hdropped : (e.key size .erase).longest = e.longest := by
          change max e.longest e.line.dropLast.length = _
          rw [List.length_dropLast]
          omega
        have herase := hs.erase hhome
        rw [Sheet.withLine_erase size hsome hlength] at herase
        rwa [if_pos hsome, hdropped]
      · have hnil : edit size e.line .erase = e.line := by
          rw [List.length_eq_zero_iff.mp (Nat.eq_zero_of_not_pos hsome)]
          rfl
        rw [if_neg hsome, Edited.key_same hnil hlength]
        exact hs
  | enter | idle =>
      rw [Edited.key_same rfl hlength]
      exact hs

end ShowsFrom

end TextScreen
