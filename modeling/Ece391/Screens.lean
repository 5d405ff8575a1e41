import Ece391.Display
import Ece391.Lib.TextScreen

/-! # The screen each terminal has for itself

The terminal on display owns the screen page, and every other terminal its buffer.
Seen through the page and the cursor it owns, each terminal is one character screen,
and printing, erasing, clearing and switching act on these screens alone.
-/

namespace Ece391

open Function

/-- One terminal's 80 by 25 characters and its cursor. -/
abbrev Screen := TextScreen NUM_ROWS NUM_COLS UInt8

def isBreak (c : UInt8) : Bool := c = NEWLINE ∨ c = RETURN

/-- A page and a cursor position show a screen. -/
structure Shown (page : Page) (x y : Nat) (s : Screen) : Prop where
  cell : ∀ r c, (page (NUM_COLS * r.val + c.val)).ch = s.cell r c
  col : x = s.col.val
  row : y = s.row.val

/-- A cursor inside the page shows some screen. -/
theorem exists_shown (page : Page) {x y : Nat} (hx : x < NUM_COLS) (hy : y < NUM_ROWS) :
    ∃ s, Shown page x y s :=
  ⟨⟨fun r c => (page (NUM_COLS * r.val + c.val)).ch, ⟨y, hy⟩, ⟨x, hx⟩⟩, fun _ _ => rfl, rfl, rfl⟩

theorem Shown.unique {page : Page} {x y : Nat} {s s' : Screen} (hs : Shown page x y s)
    (hs' : Shown page x y s') : s = s' := by
  obtain ⟨cell, row, col⟩ := s
  obtain ⟨cell', row', col'⟩ := s'
  have hcell : cell = cell' :=
    funext fun r => funext fun c => (hs.cell r c).symm.trans (hs'.cell r c)
  have hrow : row = row' := Fin.ext (hs.row.symm.trans hs'.row)
  have hcol : col = col' := Fin.ext (hs.col.symm.trans hs'.col)
  rw [hcell, hrow, hcol]

/-- The two loops of `scroll`, at one cell. -/
theorem scrollPage_cell (page : Page) (i : Nat) :
    scrollPage page i =
      if (NUM_ROWS - 1) * NUM_COLS ≤ i ∧ i < (NUM_ROWS - 1) * NUM_COLS + NUM_COLS then blankCell
      else if i < (NUM_ROWS - 1) * NUM_COLS then ⟨(page (i + NUM_COLS)).ch, ATTRIB⟩
      else page i := by
  rw [scrollPage, CountedLoop.foldl_update_from (fun _ => blankCell),
    CountedLoop.foldl_shift (fun cell : Cell => (⟨cell.ch, ATTRIB⟩ : Cell)) NUM_COLS]

namespace Shown

variable {page : Page} {x y : Nat} {s : Screen}

theorem x_lt (hs : Shown page x y s) : x < NUM_COLS := hs.col ▸ s.col.isLt

theorem y_lt (hs : Shown page x y s) : y < NUM_ROWS := hs.row ▸ s.row.isLt

theorem index_inj {r y : Nat} {c x : Nat} (hc : c < NUM_COLS) (hx : x < NUM_COLS) :
    NUM_COLS * r + c = NUM_COLS * y + x ↔ r = y ∧ c = x := by
  simp only [NUM_COLS] at *
  omega

/-- Only the characters of the page's 2000 cells are seen. -/
theorem congr {page' : Page} (hs : Shown page x y s)
    (hcells : ∀ i < screenCells, (page' i).ch = (page i).ch) : Shown page' x y s where
  cell := by
    rintro ⟨r, hr⟩ ⟨c, hc⟩
    have hinside : NUM_COLS * r + c < screenCells := by
      simp only [screenCells, NUM_ROWS, NUM_COLS] at *
      omega
    exact (hcells _ hinside).trans (hs.cell ⟨r, hr⟩ ⟨c, hc⟩)
  col := hs.col
  row := hs.row

/-- The cell under the cursor is written. -/
theorem write (hs : Shown page x y s) (char : UInt8) :
    Shown (update page (NUM_COLS * y + x) ⟨char, ATTRIB⟩) x y (s.write char) where
  cell r c := by
    have hcell := hs.cell r c
    have hat := index_inj (r := r.val) (y := y) (c := c.val) (x := x) c.isLt hs.x_lt
    simp only [TextScreen.write, Fin.ext_iff, ← hs.row, ← hs.col]
    by_cases hcursor : r.val = y ∧ c.val = x
    · rw [hat.mpr hcursor, update_self, if_pos hcursor]
    · rw [update_of_ne fun heq => hcursor (hat.mp heq), if_neg hcursor, hcell]
  col := hs.col
  row := hs.row

/-- The two loops of `scroll` move every row up. -/
theorem scroll (hs : Shown page x y s) : Shown (scrollPage page) x y (s.scrollUp SPACE_CHAR) where
  cell := by
    rintro ⟨r, hr⟩ ⟨c, hc⟩
    simp only [TextScreen.scrollUp]
    rw [scrollPage_cell]
    by_cases hlast : r + 1 < NUM_ROWS
    · have hmoved : NUM_COLS * r + c < (NUM_ROWS - 1) * NUM_COLS := by
        simp only [NUM_ROWS, NUM_COLS] at *
        omega
      have hbelow : NUM_COLS * r + c + NUM_COLS = NUM_COLS * (r + 1) + c := by
        rw [Nat.mul_succ]
        omega
      rw [if_neg (by omega), if_pos hmoved, dif_pos hlast, hbelow]
      exact hs.cell ⟨r + 1, hlast⟩ ⟨c, hc⟩
    · have hblank : (NUM_ROWS - 1) * NUM_COLS ≤ NUM_COLS * r + c ∧
          NUM_COLS * r + c < (NUM_ROWS - 1) * NUM_COLS + NUM_COLS := by
        simp only [NUM_ROWS, NUM_COLS] at *
        omega
      rw [if_pos hblank, dif_neg hlast]
      rfl
  col := hs.col
  row := hs.row

/-- Where the row below the cursor is still on the page the cursor goes to its start;
below the last row the page is scrolled. -/
theorem lineFeed_inside (hs : Shown page x y s) (hinside : y + 1 < NUM_ROWS) :
    Shown page 0 (y + 1) (s.lineFeed SPACE_CHAR) := by
  rw [hs.row] at hinside
  rw [TextScreen.lineFeed, dif_pos hinside]
  exact ⟨hs.cell, rfl, by rw [hs.row]⟩

theorem lineFeed_last (hs : Shown page x y s) (hlast : NUM_ROWS ≤ y + 1) :
    Shown (scrollPage page) 0 y (s.lineFeed SPACE_CHAR) := by
  rw [hs.row] at hlast
  rw [TextScreen.lineFeed, dif_neg (Nat.not_lt.mpr hlast)]
  exact ⟨hs.scroll.cell, rfl, hs.row⟩

theorem put_inside (hs : Shown page x y s) (char : UInt8) (hinside : x + 1 < NUM_COLS) :
    Shown (update page (NUM_COLS * y + x) ⟨char, ATTRIB⟩) (x + 1) y (s.put SPACE_CHAR char) := by
  rw [hs.col] at hinside
  rw [TextScreen.put, dif_pos hinside]
  exact ⟨(hs.write char).cell, by rw [hs.col], hs.row⟩

theorem put_last (hs : Shown page x y s) (char : UInt8) (hlast : NUM_COLS ≤ x + 1) :
    s.put SPACE_CHAR char = (s.write char).lineFeed SPACE_CHAR := by
  rw [hs.col] at hlast
  rw [TextScreen.put, dif_neg (Nat.not_lt.mpr hlast)]

end Shown

/-- The loop of `clear` blanks the page. -/
theorem clearPage_shown (page : Page) (s : Screen) :
    Shown (clearPage page) 0 0 (s.clear SPACE_CHAR) where
  cell := by
    rintro ⟨r, hr⟩ ⟨c, hc⟩
    have hinside : NUM_COLS * r + c < screenCells := by
      simp only [screenCells, NUM_ROWS, NUM_COLS] at *
      omega
    simp only [clearPage, TextScreen.clear]
    rw [CountedLoop.foldl_update (fun _ => blankCell), if_pos hinside]
    rfl
  col := rfl
  row := rfl

/-! ## Printing -/

namespace Display

variable {d : Display} {target : VideoPage} {t : Terminal} {s : Screen}

/-- The screen a terminal shows on a page. -/
abbrev ShownOn (d : Display) (target : VideoPage) (t : Terminal) (s : Screen) : Prop :=
  Shown (d.page target) (d.screenX t) (d.screenY t) s

@[simp] theorem setPage_page_self (d : Display) (target : VideoPage) (cells : Page) :
    (d.setPage target cells).page target = cells := by
  cases target
  · rfl
  · exact update_self ..

theorem setPage_page_of_ne {other : VideoPage} (hne : other ≠ target) (cells : Page) :
    (d.setPage target cells).page other = d.page other := by
  cases target <;> cases other
  · exact absurd rfl hne
  · rfl
  · rfl
  · exact update_of_ne (by rintro rfl; exact hne rfl) _ _

@[simp] theorem setPage_screenX (d : Display) (target : VideoPage) (cells : Page) :
    (d.setPage target cells).screenX = d.screenX := by
  cases target <;> rfl

@[simp] theorem setPage_screenY (d : Display) (target : VideoPage) (cells : Page) :
    (d.setPage target cells).screenY = d.screenY := by
  cases target <;> rfl

@[simp] theorem moveTo_page (d : Display) (t : Terminal) (x y : Nat) :
    (d.moveTo t x y).page = d.page := by
  funext target
  cases target <;> rfl

@[simp] theorem moveTo_screenX_self (d : Display) (t : Terminal) (x y : Nat) :
    (d.moveTo t x y).screenX t = x := update_self ..

@[simp] theorem moveTo_screenY_self (d : Display) (t : Terminal) (x y : Nat) :
    (d.moveTo t x y).screenY t = y := update_self ..

theorem isBreak_iff {c : UInt8} : isBreak c = true ↔ c = NEWLINE ∨ c = RETURN := by
  simp [isBreak]

@[simp] theorem setCell_page_self (d : Display) (target : VideoPage) (index : Nat) (cell : Cell) :
    (d.setCell target index cell).page target = update (d.page target) index cell :=
  d.setPage_page_self target _

/-- A cursor that has just gone to the next row stays there or scrolls the page. -/
theorem wrapRow_shown {x y : Nat} (hs : Shown (d.page target) x y s) (hx : d.screenX t = 0)
    (hy : d.screenY t = y + 1) : (d.wrapRow target t).ShownOn target t (s.lineFeed SPACE_CHAR) := by
  rw [ShownOn, wrapRow, hy]
  by_cases hlast : NUM_ROWS ≤ y + 1
  · rw [if_pos hlast, moveTo_page, moveTo_screenX_self, moveTo_screenY_self, scroll,
      setPage_page_self, Nat.add_sub_cancel]
    exact hs.lineFeed_last hlast
  · rw [if_neg hlast, hx, hy]
    exact hs.lineFeed_inside (Nat.lt_of_not_le hlast)

/-- A printed character appears on the screen of the page and cursor it is printed with. -/
theorem putChar_shown (hs : d.ShownOn target t s) (c : UInt8) :
    (d.putChar target t c).ShownOn target t (s.print SPACE_CHAR isBreak c) := by
  unfold putChar TextScreen.print
  by_cases hbreak : c = NEWLINE ∨ c = RETURN
  · rw [advance, if_pos hbreak, if_pos (isBreak_iff.mpr hbreak)]
    refine wrapRow_shown (x := d.screenX t) (y := d.screenY t) ?_ (moveTo_screenX_self ..)
      (moveTo_screenY_self ..)
    rwa [moveTo_page]
  · rw [advance, if_neg hbreak, if_neg fun h => hbreak (isBreak_iff.mp h)]
    by_cases hinside : d.screenX t + 1 < NUM_COLS
    · have hrow : d.screenY t + (d.screenX t + 1) / NUM_COLS = d.screenY t := by
        rw [Nat.div_eq_of_lt hinside, Nat.add_zero]
      rw [wrapRow, moveTo_screenY_self, hrow, if_neg (Nat.not_le.mpr hs.y_lt), ShownOn, moveTo_page,
        moveTo_screenX_self, moveTo_screenY_self, setCell_page_self, Nat.mod_eq_of_lt hinside]
      exact hs.put_inside c hinside
    · have hcols : d.screenX t + 1 = NUM_COLS := by
        have hx := hs.x_lt
        omega
      rw [hs.put_last c hcols.ge, hcols, Nat.mod_self, Nat.div_self (by decide)]
      refine wrapRow_shown (x := d.screenX t) (y := d.screenY t) ?_ (moveTo_screenX_self ..)
        (moveTo_screenY_self ..)
      rw [moveTo_page, setCell_page_self]
      exact hs.write c

/-! ## What an operation leaves alone -/

/-- The page a terminal owns. -/
def own (d : Display) (t : Terminal) : VideoPage :=
  if t = d.currTerminal then .screen else .buffer t

theorem own_displayed (d : Display) : d.own d.currTerminal = .screen := if_pos rfl

/-- No two terminals own one page. -/
theorem own_ne {u : Terminal} (hne : u ≠ t) : d.own u ≠ d.own t := by
  unfold own
  split <;> split <;> simp_all

/-- The terminal shows a screen on the page it owns. -/
abbrev Shows (d : Display) (t : Terminal) (s : Screen) : Prop := d.ShownOn (d.own t) t s

/-- At the most one page and one cursor differ. -/
structure Beside (d d' : Display) (target : VideoPage) (t : Terminal) : Prop where
  aim : d'.aim = d.aim
  page : ∀ other, other ≠ target → d'.page other = d.page other
  screenX : ∀ u, u ≠ t → d'.screenX u = d.screenX u
  screenY : ∀ u, u ≠ t → d'.screenY u = d.screenY u

namespace Beside

variable {d' last : Display}

theorem refl (d : Display) (target : VideoPage) (t : Terminal) : Beside d d target t :=
  ⟨rfl, fun _ _ => rfl, fun _ _ => rfl, fun _ _ => rfl⟩

theorem trans (hfirst : Beside d d' target t) (hsecond : Beside d' last target t) :
    Beside d last target t where
  aim := hsecond.aim.trans hfirst.aim
  page other hne := (hsecond.page other hne).trans (hfirst.page other hne)
  screenX u hne := (hsecond.screenX u hne).trans (hfirst.screenX u hne)
  screenY u hne := (hsecond.screenY u hne).trans (hfirst.screenY u hne)

theorem own_eq (hbeside : Beside d d' target t) (u : Terminal) : d'.own u = d.own u := by
  unfold own
  rw [show d'.currTerminal = d.currTerminal from congrArg Prod.fst hbeside.aim]

/-- The other terminals show what they showed. -/
theorem shows_iff {u : Terminal} (hbeside : Beside d d' (d.own t) t) (hu : u ≠ t) :
    d'.Shows u s ↔ d.Shows u s := by
  unfold Shows ShownOn
  rw [hbeside.own_eq, hbeside.page _ (own_ne hu), hbeside.screenX u hu, hbeside.screenY u hu]

theorem setPage (d : Display) (target : VideoPage) (t : Terminal) (cells : Page) :
    Beside d (d.setPage target cells) target t where
  aim := d.setPage_aim target cells
  page _ hne := setPage_page_of_ne hne cells
  screenX _ _ := by rw [setPage_screenX]
  screenY _ _ := by rw [setPage_screenY]

theorem moveTo (d : Display) (target : VideoPage) (t : Terminal) (x y : Nat) :
    Beside d (d.moveTo t x y) target t where
  aim := rfl
  page _ _ := by rw [moveTo_page]
  screenX _ hne := update_of_ne hne _ _
  screenY _ hne := update_of_ne hne _ _

theorem updateCursor (d : Display) (target : VideoPage) (t : Terminal) (x y : Nat) :
    Beside d (d.updateCursor x y) target t :=
  ⟨rfl, fun other _ => by cases other <;> rfl, fun _ _ => rfl, fun _ _ => rfl⟩

theorem advance (d : Display) (target : VideoPage) (t : Terminal) (c : UInt8) :
    Beside d (d.advance target t c) target t := by
  unfold Display.advance
  split
  · exact .moveTo d target t _ _
  · exact (setPage d target t _).trans (.moveTo _ target t _ _)

theorem wrapRow (d : Display) (target : VideoPage) (t : Terminal) :
    Beside d (d.wrapRow target t) target t := by
  unfold Display.wrapRow
  split
  · exact (setPage d target t _).trans (.moveTo _ target t _ _)
  · exact .refl d target t

theorem putChar (d : Display) (target : VideoPage) (t : Terminal) (c : UInt8) :
    Beside d (d.putChar target t c) target t :=
  (advance d target t c).trans (wrapRow _ target t)

theorem setCursors (target : VideoPage) (x y : Int) (hshown : d.currTerminal = t) :
    Beside d (d.setCursors x y) target t := by
  subst hshown
  unfold Display.setCursors
  dsimp only
  generalize (if x < 0 then y - 1 else y) = row
  generalize (if x < 0 then (NUM_COLS : Int) - 1 else x) = col
  split
  · exact .refl d target _
  · exact .moveTo d target _ _ _

end Beside

/-! ## Operations as actions on one screen -/

/-- An operation does to one terminal's screen what a function says, and nothing to
any other. -/
structure ActsOn (d d' : Display) (t : Terminal) (action : Screen → Screen) : Prop where
  beside : Beside d d' (d.own t) t
  shows : ∀ s, d.Shows t s → d'.Shows t (action s)

namespace ActsOn

variable {d' last : Display} {action next : Screen → Screen}

theorem refl (d : Display) (t : Terminal) : ActsOn d d t id := ⟨.refl _ _ _, fun _ hs => hs⟩

theorem trans (hfirst : ActsOn d d' t action) (hsecond : ActsOn d' last t next) :
    ActsOn d last t fun s => next (action s) := by
  have hbeside := hsecond.beside
  rw [hfirst.beside.own_eq] at hbeside
  exact ⟨hfirst.beside.trans hbeside, fun s hs => hsecond.shows _ (hfirst.shows s hs)⟩

/-- All screens at once. -/
theorem screens {screens : Terminal → Screen} (hacts : ActsOn d d' t action)
    (hshows : ∀ u, d.Shows u (screens u)) (u : Terminal) :
    d'.Shows u (update screens t (action (screens t)) u) := by
  by_cases hu : u = t
  · subst hu
    rw [update_self]
    exact hacts.shows _ (hshows u)
  · rw [update_of_ne hu, hacts.beside.shows_iff hu]
    exact hshows u

/-- Printing on the page a terminal owns, at its cursor. -/
theorem putChar (d : Display) (t : Terminal) (c : UInt8) :
    ActsOn d (d.putChar (d.own t) t c) t (TextScreen.print SPACE_CHAR isBreak · c) where
  beside := .putChar d (d.own t) t c
  shows s hs := by
    rw [Shows, (Beside.putChar d (d.own t) t c).own_eq]
    exact putChar_shown hs c

theorem updateCursor (d : Display) (t : Terminal) (x y : Nat) :
    ActsOn d (d.updateCursor x y) t id where
  beside := .updateCursor d (d.own t) t x y
  shows s hs := by
    have hpage : (d.updateCursor x y).page = d.page := by
      funext target
      cases target <;> rfl
    rwa [Shows, ShownOn, hpage]

theorem putc2 (c : UInt8) (hshown : d.currTerminal = t) :
    ActsOn d (d.putc2 c) t (TextScreen.print SPACE_CHAR isBreak · c) := by
  subst hshown
  have hprint := putChar d d.currTerminal c
  rw [own_displayed] at hprint
  exact hprint.trans (updateCursor _ _ _ _)

theorem putc (hrouted : d.videoMem = d.own t) (c : UInt8) :
    ActsOn d (d.putc t c) t (TextScreen.print SPACE_CHAR isBreak · c) := by
  have hprint := putChar d t c
  rw [← hrouted] at hprint
  unfold Display.putc
  dsimp only
  split
  · exact hprint.trans (updateCursor _ _ _ _)
  · exact hprint

/-- What a process prints: the bytes that are not NUL, one after the other. -/
theorem putfile (hrouted : d.videoMem = d.own t) (chars : List UInt8) :
    ActsOn d (d.putfile t chars) t fun s =>
      (chars.filter (· ≠ NUL)).foldl (TextScreen.print SPACE_CHAR isBreak) s := by
  induction chars generalizing d with
  | nil => exact refl d t
  | cons c rest ih =>
      by_cases hnul : c = NUL
      · subst hnul
        exact ih hrouted
      · have hfilter : (c :: rest).filter (· ≠ NUL) = c :: rest.filter (· ≠ NUL) := by
          simp [hnul]
        have hfirst : ActsOn d (if t = d.currTerminal then d.putc2 c else d.putc t c) t
            (TextScreen.print SPACE_CHAR isBreak · c) := by
          split
          · next hshown => exact putc2 c hshown.symm
          · exact putc hrouted c
        have hrest := ih (d := if t = d.currTerminal then d.putc2 c else d.putc t c) (by
          rw [hfirst.beside.own_eq, ← hrouted]
          exact congrArg Prod.snd hfirst.beside.aim)
        rw [hfilter]
        have hput : d.putfile t (c :: rest) =
            (if t = d.currTerminal then d.putc2 c else d.putc t c).putfile t rest := by
          rw [Display.putfile, List.foldl_cons, if_neg hnul]
          rfl
        rw [hput]
        exact hfirst.trans hrest

end ActsOn

/-! ## Erasing and clearing -/

/-- One column to the left of the cursor, or the end of the row above. -/
theorem setCursors_back (hshown : d.currTerminal = t) (hs : d.Shows t s) (hhome : ¬ s.AtHome) :
    (d.setCursors (d.screenX t - 1) (d.screenY t)).Shows t s.back := by
  have hown := (Beside.setCursors (d.own t) (d.screenX t - 1) (d.screenY t) hshown).own_eq t
  subst hshown
  have hx := hs.x_lt
  have hy := hs.y_lt
  have hcol := hs.col
  have hrow := hs.row
  rw [Shows, hown]
  generalize hX : d.screenX d.currTerminal = x at *
  generalize hY : d.screenY d.currTerminal = y at *
  unfold setCursors
  dsimp only
  by_cases hpos : 0 < x
  · have hstay : ¬ (x : Int) - 1 < 0 := by omega
    simp only [if_neg hstay]
    rw [if_neg (by omega), ShownOn, moveTo_page, moveTo_screenX_self, moveTo_screenY_self,
      TextScreen.back_of_pos (hcol ▸ hpos)]
    exact ⟨hs.cell, by simp only; omega, by simp only; omega⟩
  · have hzero : s.col.val = 0 := by omega
    have hup : 0 < s.row.val := Nat.pos_of_ne_zero fun h => hhome ⟨h, hzero⟩
    have hleft : (x : Int) - 1 < 0 := by omega
    simp only [if_pos hleft]
    have hinside : ¬ ((NUM_COLS : Int) - 1 < 0 ∨ (NUM_COLS : Int) - 1 ≥ NUM_COLS ∨
        (y : Int) - 1 < 0 ∨ (y : Int) - 1 ≥ NUM_ROWS) := by
      simp only [NUM_COLS, NUM_ROWS] at *
      omega
    rw [if_neg hinside, ShownOn, moveTo_page, moveTo_screenX_self, moveTo_screenY_self,
      TextScreen.back_of_zero hzero hup]
    exact ⟨hs.cell, by simp only [NUM_COLS]; omega, by simp only; omega⟩

theorem setCursors_home (d : Display) : d.setCursors 0 0 = d.moveTo d.currTerminal 0 0 := by
  simp [setCursors, NUM_ROWS, NUM_COLS]

/-- The Backspace branch steps back, prints a blank and steps back. -/
theorem ActsOn.eraseChar (hshown : d.currTerminal = t)
    (hhome : ¬ (d.screenX t = 0 ∧ d.screenY t = 0)) :
    ActsOn d d.eraseChar t (TextScreen.erase SPACE_CHAR) := by
  subst hshown
  unfold Display.eraseChar
  dsimp only
  have hback :
      (d.setCursors (d.screenX d.currTerminal - 1) (d.screenY d.currTerminal)).currTerminal =
        d.currTerminal := congrArg Prod.fst (d.setCursors_aim _ _)
  have hbeside := Beside.setCursors (d.own d.currTerminal) (d.screenX d.currTerminal - 1)
    (d.screenY d.currTerminal) (rfl : d.currTerminal = d.currTerminal)
  have hshows : ∀ s, d.Shows d.currTerminal s → ¬ s.AtHome →
      (d.setCursors (d.screenX d.currTerminal - 1) (d.screenY d.currTerminal)).Shows d.currTerminal
        s.back := fun s => setCursors_back rfl
  generalize d.setCursors (d.screenX d.currTerminal - 1) (d.screenY d.currTerminal) = stepped at *
  have hput := putc2 SPACE_CHAR hback
  have hblank : (stepped.putc2 SPACE_CHAR).currTerminal = d.currTerminal :=
    (congrArg Prod.fst hput.beside.aim).trans hback
  generalize stepped.putc2 SPACE_CHAR = blanked at *
  rw [hblank]
  have hputBeside := hput.beside
  have hownBlank := hput.beside.own_eq d.currTerminal
  rw [hbeside.own_eq] at hputBeside hownBlank
  have hlast := Beside.setCursors (d.own d.currTerminal) (blanked.screenX d.currTerminal - 1)
    (blanked.screenY d.currTerminal) hblank
  refine ⟨((hbeside.trans hputBeside).trans hlast).trans (.updateCursor _ _ _ _ _), fun s hs => ?_⟩
  have hs' : ¬ s.AtHome := by
    rintro ⟨hrow, hcol⟩
    exact hhome ⟨hs.col.trans hcol, hs.row.trans hrow⟩
  have hprinted := hput.shows _ (hshows s hs hs')
  have hbreak : ¬ isBreak SPACE_CHAR = true := by decide
  rw [TextScreen.print, if_neg hbreak] at hprinted
  obtain ⟨hmoved, hwritten⟩ := TextScreen.back_put_back SPACE_CHAR hs' SPACE_CHAR
  have hdone := setCursors_back hblank hprinted hmoved
  rw [hwritten] at hdone
  rw [TextScreen.erase, if_neg hs']
  exact (updateCursor _ _ _ _).shows _ hdone

/-- The Ctrl-L branch blanks the screen page and homes the cursor. -/
theorem ActsOn.clearScreen (hshown : d.currTerminal = t) :
    ActsOn d d.clearScreen t (TextScreen.clear SPACE_CHAR) := by
  subst hshown
  have hown := d.own_displayed
  have hclear : Beside d d.clear (d.own d.currTerminal) d.currTerminal := by
    rw [hown]
    exact .setPage d .screen d.currTerminal (clearPage d.video)
  have hcleared : d.clear.currTerminal = d.currTerminal := by simp only [Display.clear]
  have hhome := Beside.setCursors (d.own d.currTerminal) 0 0 hcleared
  refine ⟨(hclear.trans hhome).trans (.updateCursor _ _ _ _ _), fun s hs => ?_⟩
  refine (updateCursor _ _ _ _).shows _ ?_
  have hmove : d.clear.setCursors 0 0 = d.clear.moveTo d.currTerminal 0 0 := by
    rw [setCursors_home, hcleared]
  rw [Shows, hhome.own_eq, hclear.own_eq, hown, hmove, ShownOn, moveTo_page, moveTo_screenX_self,
    moveTo_screenY_self]
  have hpage : d.clear.page .screen = clearPage d.video := by simp only [Display.clear, page]
  rw [hpage]
  exact clearPage_shown d.video s

/-! ## Switching -/

/-- After some turns of the loop the first cells of the screen are saved and replaced. -/
structure Swapped (d : Display) (origin target : Terminal) (count : Nat) (last : Display) :
    Prop where
  aim : last.aim = d.aim
  screenX : last.screenX = d.screenX
  screenY : last.screenY = d.screenY
  saved : ∀ i < count, (last.videoBuf origin i).ch = (d.video i).ch
  loaded : ∀ i < count, (last.video i).ch =
    if target = origin then (d.video i).ch else (d.videoBuf target i).ch
  untouched : ∀ t, t ≠ origin → last.videoBuf t = d.videoBuf t
  video : ∀ i, count ≤ i → last.video i = d.video i

theorem swapCell_videoBuf (origin target t : Terminal) (d : Display) (i j : Nat) :
    (swapCell origin target d i).videoBuf t j =
      if t = origin ∧ j = i then { d.videoBuf origin i with ch := (d.video i).ch }
      else d.videoBuf t j := by
  simp only [swapCell, setCell, setPage, page]
  by_cases ht : t = origin
  · subst ht
    rw [update_self]
    by_cases hj : j = i
    · rw [if_pos ⟨rfl, hj⟩, hj, update_self]
    · rw [if_neg fun h => hj h.2, update_of_ne hj]
  · rw [if_neg fun h => ht h.1, update_of_ne ht]

/-- The cell that is loaded has just been saved when both terminals are the same. -/
theorem swapCell_video (origin target : Terminal) (d : Display) (i j : Nat) :
    (swapCell origin target d i).video j =
      if j = i then
        { d.video i with
          ch := if target = origin then (d.video i).ch else (d.videoBuf target i).ch }
      else d.video j := by
  simp only [swapCell, setCell, setPage, page]
  by_cases hj : j = i
  · subst hj
    rw [update_self, if_pos rfl]
    by_cases ht : target = origin
    · rw [ht, update_self, update_self, if_pos rfl]
    · rw [update_of_ne ht, if_neg ht]
  · rw [update_of_ne hj, if_neg hj]

theorem swapped_foldl (d : Display) (origin target : Terminal) (count : Nat) :
    Swapped d origin target count ((List.range count).foldl (swapCell origin target) d) := by
  induction count with
  | zero => exact ⟨rfl, rfl, rfl, by simp, by simp, fun _ _ => rfl, fun _ _ => rfl⟩
  | succ count ih =>
      rw [List.range_succ, List.foldl_append, List.foldl_cons, List.foldl_nil]
      generalize (List.range count).foldl (swapCell origin target) d = middle at ih
      have hold := ih.video count le_rfl
      refine
        { aim := by rw [← ih.aim]; simp only [swapCell, setCell_aim]
          screenX := by rw [← ih.screenX]; rfl
          screenY := by rw [← ih.screenY]; rfl
          saved := fun i hi => ?_
          loaded := fun i hi => ?_
          untouched := fun t ht => ?_
          video := fun i hi => ?_ }
      · rw [swapCell_videoBuf]
        by_cases hlast : i = count
        · rw [if_pos ⟨rfl, hlast⟩, hold, hlast]
        · rw [if_neg fun h => hlast h.2]
          exact ih.saved i (by omega)
      · rw [swapCell_video]
        by_cases hlast : i = count
        · rw [if_pos hlast, hold, hlast]
          dsimp only
          split
          · rfl
          · next hother => rw [ih.untouched target hother]
        · rw [if_neg hlast]
          exact ih.loaded i (by omega)
      · funext i
        rw [swapCell_videoBuf, if_neg fun h => ht h.1, ih.untouched t ht]
      · rw [swapCell_video, if_neg (by omega)]
        exact ih.video i (by omega)

/-- A switch away from the displayed terminal changes no terminal's screen. -/
theorem switchTerminal_shows {u : Terminal} (target : Terminal) (hs : d.Shows u s) :
    (d.switchTerminal d.currTerminal target).Shows u s := by
  have haim := d.switchTerminal_aim d.currTerminal target
  have hswapped : Swapped { d with currTerminal := target } d.currTerminal target screenCells
      (d.switchTerminal d.currTerminal target) := by
    have hloop := swapped_foldl ({ d with currTerminal := target }.updateCursor
      (d.screenX target) (d.screenY target)) d.currTerminal target screenCells
    unfold switchTerminal
    dsimp only
    generalize (List.range screenCells).foldl _ _ = last at hloop ⊢
    exact ⟨hloop.aim, hloop.screenX, hloop.screenY, hloop.saved, hloop.loaded, hloop.untouched,
      hloop.video⟩
  generalize d.switchTerminal d.currTerminal target = last at haim hswapped
  have hshown : last.currTerminal = target := congrArg Prod.fst haim
  rw [Shows, ShownOn, hswapped.screenX, hswapped.screenY]
  refine hs.congr fun i hi => ?_
  unfold own
  rw [hshown]
  by_cases htarget : u = target
  · rw [if_pos htarget]
    subst htarget
    refine (hswapped.loaded i hi).trans ?_
    split <;> rfl
  · rw [if_neg htarget]
    by_cases horigin : u = d.currTerminal
    · rw [if_pos horigin, horigin]
      exact hswapped.saved i hi
    · rw [if_neg horigin]
      exact congrArg (fun page => (page i).ch) (hswapped.untouched u horigin)

/-! ## Cursors on the page -/

/-- Every cursor is on its page. -/
def InRange (d : Display) : Prop := ∀ t, d.screenX t < NUM_COLS ∧ d.screenY t < NUM_ROWS

/-- An operation that aims nothing elsewhere and moves no cursor off its page. -/
structure Kept (d d' : Display) : Prop where
  aim : d'.aim = d.aim
  inRange : d.InRange → d'.InRange

namespace Kept

variable {d' last : Display}

theorem refl (d : Display) : Kept d d := ⟨rfl, id⟩

theorem trans (hfirst : Kept d d') (hsecond : Kept d' last) : Kept d last :=
  ⟨hsecond.aim.trans hfirst.aim, fun hd => hsecond.inRange (hfirst.inRange hd)⟩

/-- One cursor is to be looked at. -/
theorem of_beside (hbeside : Beside d d' target t)
    (hcursor : d.InRange → d'.screenX t < NUM_COLS ∧ d'.screenY t < NUM_ROWS) : Kept d d' where
  aim := hbeside.aim
  inRange hd u := by
    by_cases hu : u = t
    · subst hu
      exact hcursor hd
    · rw [hbeside.screenX u hu, hbeside.screenY u hu]
      exact hd u

theorem setPage (d : Display) (target : VideoPage) (cells : Page) :
    Kept d (d.setPage target cells) :=
  .of_beside (.setPage d target .T1 cells) fun hd => by
    rw [setPage_screenX, setPage_screenY]
    exact hd .T1

theorem storeByte (d : Display) (target : VideoPage) (offset : Nat) (byte : UInt8) :
    Kept d (d.storeByte target offset byte) := setPage d target _

theorem updateCursor (d : Display) (x y : Nat) : Kept d (d.updateCursor x y) := ⟨rfl, id⟩

theorem putChar (d : Display) (target : VideoPage) (t : Terminal) (c : UInt8) :
    Kept d (d.putChar target t c) :=
  .of_beside (.putChar d target t c) fun hd => by
    obtain ⟨s, hs⟩ := exists_shown (d.page target) (hd t).1 (hd t).2
    have hprinted := putChar_shown hs c
    exact ⟨hprinted.x_lt, hprinted.y_lt⟩

theorem putc (d : Display) (t : Terminal) (c : UInt8) : Kept d (d.putc t c) := by
  unfold Display.putc
  dsimp only
  split
  · exact (putChar d _ _ _).trans (updateCursor _ _ _)
  · exact putChar d _ _ _

theorem putc2 (d : Display) (c : UInt8) : Kept d (d.putc2 c) :=
  (putChar d _ _ _).trans (updateCursor _ _ _)

theorem printf (d : Display) (t : Terminal) (text : List UInt8) : Kept d (d.printf t text) := by
  induction text generalizing d with
  | nil => exact refl d
  | cons c rest ih => exact (putc d t c).trans (ih _)

theorem putfile (d : Display) (t : Terminal) (chars : List UInt8) : Kept d (d.putfile t chars) := by
  induction chars generalizing d with
  | nil => exact refl d
  | cons c rest ih =>
      refine Kept.trans ?_ (ih _)
      dsimp only
      split
      · exact refl d
      · split
        · exact putc2 d c
        · exact putc d t c

theorem setCursors (d : Display) (x y : Int) : Kept d (d.setCursors x y) := by
  refine .of_beside (.setCursors .screen x y rfl) fun hd => ?_
  unfold Display.setCursors
  dsimp only
  generalize (if x < 0 then y - 1 else y) = row
  generalize (if x < 0 then (NUM_COLS : Int) - 1 else x) = col
  split
  · exact hd d.currTerminal
  · rw [moveTo_screenX_self, moveTo_screenY_self]
    omega

theorem eraseChar (d : Display) : Kept d d.eraseChar :=
  (((setCursors d _ _).trans (putc2 _ _)).trans (setCursors _ _ _)).trans (updateCursor _ _ _)

theorem clear (d : Display) : Kept d d.clear := setPage d .screen (clearPage d.video)

theorem clearScreen (d : Display) : Kept d d.clearScreen :=
  ((clear d).trans (setCursors _ _ _)).trans (updateCursor _ _ _)

end Kept

theorem switchTerminal_inRange (origin target : Terminal) (hd : d.InRange) :
    (d.switchTerminal origin target).InRange := by
  have hloop := swapped_foldl ({ d with currTerminal := target }.updateCursor
    (d.screenX target) (d.screenY target)) origin target screenCells
  unfold switchTerminal
  dsimp only
  generalize (List.range screenCells).foldl _ _ = last at hloop ⊢
  intro t
  rw [hloop.screenX, hloop.screenY]
  exact hd t

end Display

end Ece391
