import Ece391.Screens
import Ece391.Lib.Sheet

/-! # A page as the end of a text

Whatever is printed with `putc` or `putc2`, the page shows the last 25 rows of the text that
was on it with the printed text laid out behind the cursor. The row copies of `scroll` reset
the attributes, so this is about the characters; a cell that has been touched has `ATTRIB`.
-/

namespace Ece391

open Function

/-- The characters of a page with blanks below them, and the cell of a cursor. -/
def Page.text (page : Page) (x y : Nat) : Sheet UInt8 where
  cell j := if j < screenCells then (page j).ch else SPACE_CHAR
  pos := NUM_COLS * y + x

theorem Shown.text_eq {page : Page} {x y : Nat} {s : Screen} (hs : Shown page x y s) :
    Sheet.ofScreen SPACE_CHAR s = page.text x y := by
  have hcell : (Sheet.ofScreen SPACE_CHAR s).cell = (page.text x y).cell := by
    funext j
    unfold Page.text
    dsimp only
    by_cases hj : j < screenCells
    · have hrow : j / NUM_COLS < NUM_ROWS := by
        simp only [screenCells, NUM_ROWS, NUM_COLS] at *
        omega
      rw [if_pos hj, Sheet.ofScreen_of_lt SPACE_CHAR s hrow (by decide), ← hs.cell]
      dsimp only
      rw [Nat.div_add_mod]
    · have hrow : NUM_ROWS ≤ j / NUM_COLS := by
        simp only [screenCells, NUM_ROWS, NUM_COLS] at *
        omega
      rw [if_neg hj, Sheet.ofScreen_of_ge SPACE_CHAR s hrow]
  have hpos : (Sheet.ofScreen SPACE_CHAR s).pos = (page.text x y).pos := by
    change NUM_COLS * s.row.val + s.col.val = NUM_COLS * y + x
    rw [← hs.row, ← hs.col]
  calc Sheet.ofScreen SPACE_CHAR s
      = ⟨(Sheet.ofScreen SPACE_CHAR s).cell, (Sheet.ofScreen SPACE_CHAR s).pos⟩ := rfl
    _ = page.text x y := by rw [hcell, hpos]

/-- Cells inside of the page may have been written to, all others are as they were. -/
structure Inked (page after : Page) : Prop where
  inside : ∀ i < screenCells, after i = page i ∨ (after i).attrib = ATTRIB
  outside : ∀ i, screenCells ≤ i → after i = page i

namespace Inked

variable {page after last : Page}

theorem refl (page : Page) : Inked page page := ⟨fun _ _ => .inl rfl, fun _ _ => rfl⟩

theorem trans (hfirst : Inked page after) (hsecond : Inked after last) : Inked page last where
  inside i hi := by
    rcases hsecond.inside i hi with hsame | hink
    · rw [hsame]
      exact hfirst.inside i hi
    · exact .inr hink
  outside i hi := (hsecond.outside i hi).trans (hfirst.outside i hi)

theorem write {x y : Nat} (hx : x < NUM_COLS) (hy : y < NUM_ROWS) (char : UInt8) :
    Inked page (update page (NUM_COLS * y + x) ⟨char, ATTRIB⟩) := by
  have hinside : NUM_COLS * y + x < screenCells := by
    simp only [screenCells, NUM_ROWS, NUM_COLS] at *
    omega
  refine ⟨fun i hi => ?_, fun i hi => update_of_ne (by omega) ..⟩
  by_cases hcell : i = NUM_COLS * y + x
  · rw [hcell, update_self]
    exact .inr rfl
  · exact .inl (update_of_ne hcell ..)

/-- Both loops of `scroll` set the attribute, and stay on the page. -/
theorem scroll (page : Page) : Inked page (scrollPage page) := by
  refine ⟨fun i hi => .inr ?_, fun i hi => ?_⟩
  · rw [scrollPage_cell]
    split
    · rfl
    · next hrow =>
      have hmoved : i < (NUM_ROWS - 1) * NUM_COLS := by
        simp only [screenCells, NUM_ROWS, NUM_COLS] at *
        omega
      rw [if_pos hmoved]
  · rw [scrollPage_cell, if_neg, if_neg] <;>
      · simp only [screenCells, NUM_ROWS, NUM_COLS] at *
        omega

end Inked

namespace Display

variable {d : Display} {target : VideoPage} {t : Terminal} {s : Screen}

theorem wrapRow_inked (d : Display) (target : VideoPage) (t : Terminal) :
    Inked (d.page target) ((d.wrapRow target t).page target) := by
  unfold wrapRow
  split
  · rw [moveTo_page, scroll, setPage_page_self]
    exact .scroll _
  · exact .refl _

theorem putChar_inked (hx : d.screenX t < NUM_COLS) (hy : d.screenY t < NUM_ROWS) (c : UInt8) :
    Inked (d.page target) ((d.putChar target t c).page target) := by
  refine Inked.trans ?_ (wrapRow_inked _ target t)
  unfold advance
  split
  · rw [moveTo_page]
    exact .refl _
  · rw [moveTo_page, setCell_page_self]
    exact .write hx hy c

/-- A text has been printed on a page at the cursor of a terminal: everything else is as it was,
and the page and the cursor are the last rows of the text. -/
structure PrintsText (d after : Display) (target : VideoPage) (t : Terminal) (chars : List UInt8) :
    Prop where
  beside : Beside d after target t
  inked : Inked (d.page target) (after.page target)
  lastRows : after.ShownOn target t
    ((chars.foldl (Sheet.print NUM_COLS isBreak)
      ((d.page target).text (d.screenX t) (d.screenY t))).lastRows (by decide) (by decide))

/-- What one character does to any screen, a text does to the one that is shown. -/
theorem PrintsText.of_putChar {op : Display → UInt8 → Display} (hx : d.screenX t < NUM_COLS)
    (hy : d.screenY t < NUM_ROWS) (hop : ∀ d' : Display, d'.aim = d.aim → ∀ c,
      Beside (d'.putChar target t c) (op d' c) target t ∧
        (op d' c).page = (d'.putChar target t c).page ∧
        (op d' c).screenX = (d'.putChar target t c).screenX ∧
        (op d' c).screenY = (d'.putChar target t c).screenY) (chars : List UInt8) :
    PrintsText d (chars.foldl op d) target t chars := by
  obtain ⟨s, hs⟩ := exists_shown (d.page target) hx hy
  have hrun : Beside d (chars.foldl op d) target t ∧
      Inked (d.page target) ((chars.foldl op d).page target) ∧
      (chars.foldl op d).ShownOn target t
        (chars.foldl (TextScreen.print SPACE_CHAR isBreak) s) := by
    induction chars using List.reverseRecOn with
    | nil => exact ⟨.refl d target t, .refl _, hs⟩
    | append_singleton chars c ih =>
        obtain ⟨hbeside, hinked, hshown⟩ := ih
        obtain ⟨hstep, hpage, hscreenX, hscreenY⟩ := hop (chars.foldl op d) hbeside.aim c
        rw [List.foldl_append, List.foldl_append]
        change Beside d (op (chars.foldl op d) c) target t ∧
          Inked (d.page target) ((op (chars.foldl op d) c).page target) ∧
          (op (chars.foldl op d) c).ShownOn target t (TextScreen.print SPACE_CHAR isBreak _ c)
        refine ⟨(hbeside.trans (.putChar _ target t c)).trans hstep, ?_, ?_⟩
        · rw [hpage]
          exact hinked.trans (putChar_inked hshown.x_lt hshown.y_lt c)
        · rw [ShownOn, hpage, hscreenX, hscreenY]
          exact putChar_shown hshown c
  refine ⟨hrun.1, hrun.2.1, ?_⟩
  rw [← hs.text_eq, ← TextScreen.print_lastRows]
  exact hrun.2.2

theorem updateCursor_page (d : Display) (x y : Nat) : (d.updateCursor x y).page = d.page := by
  funext target
  cases target <;> rfl

/-- `putc2` prints on the screen, for the displayed terminal. -/
theorem putc2_printsText (hshown : t = d.currTerminal) (hx : d.screenX t < NUM_COLS)
    (hy : d.screenY t < NUM_ROWS) (chars : List UInt8) :
    PrintsText d (chars.foldl putc2 d) .screen t chars := by
  refine .of_putChar hx hy (fun d' haim c => ?_) chars
  have hcurrent : d'.currTerminal = t := (congrArg Prod.fst haim).trans hshown.symm
  rw [putc2, hcurrent]
  exact ⟨.updateCursor _ _ _ _ _, updateCursor_page _ _ _, rfl, rfl⟩

/-- `putc` prints on the page that `video_mem` points to, for the scheduled terminal. -/
theorem putc_printsText (hx : d.screenX t < NUM_COLS) (hy : d.screenY t < NUM_ROWS)
    (chars : List UInt8) :
    PrintsText d (chars.foldl (fun d c => d.putc t c) d) d.videoMem t chars := by
  refine .of_putChar hx hy (fun d' haim c => ?_) chars
  have hmem : d'.videoMem = d.videoMem := congrArg Prod.snd haim
  rw [putc, hmem]
  split
  · exact ⟨.updateCursor _ _ _ _ _, updateCursor_page _ _ _, rfl, rfl⟩
  · exact ⟨.refl _ _ _, rfl, rfl, rfl⟩

end Display

/-- From any page and any cursor inside of it, a text printed with either function is shown as
the last rows of what was there and the text behind the cursor. -/
theorem screen_shows_last_rows {d : Display} {t : Terminal} (hx : d.screenX t < NUM_COLS)
    (hy : d.screenY t < NUM_ROWS) (chars : List UInt8) :
    (t = d.currTerminal → d.PrintsText (chars.foldl Display.putc2 d) .screen t chars) ∧
      d.PrintsText (chars.foldl (fun d c => d.putc t c) d) d.videoMem t chars :=
  ⟨fun hshown => Display.putc2_printsText hshown hx hy chars, Display.putc_printsText hx hy chars⟩

/-- A screen of blanks with the cursor in its last cell. -/
def lastCell : Display :=
  ⟨.T1, fun _ => 79, fun _ => 24, fun _ => blankCell, fun _ _ => blankCell, .screen, 1999⟩

/-- A letter in the last cell and a line break scroll the page twice. -/
theorem screen_shows_last_cell :
    lastCell.PrintsText ([65, NEWLINE].foldl Display.putc2 lastCell) .screen .T1 [65, NEWLINE] ∧
      ([65, NEWLINE].foldl (Sheet.print NUM_COLS isBreak)
        (Page.text lastCell.video 79 24)).dropped NUM_ROWS NUM_COLS = 2 :=
  ⟨(screen_shows_last_rows (d := lastCell) (t := .T1) (by decide) (by decide) [65, NEWLINE]).1 rfl,
    by decide⟩

end Ece391
