import Ece391.Constants
import Ece391.Lib.Loop

/-! # Video memory and the terminals' cursors

`lib.c` keeps one video page on screen, one buffer page for each terminal, and
one cursor for each terminal. Printing for the running process goes through
`video_mem`; printing for the displayed terminal always goes to the screen.
-/

namespace Ece391

open Function

/-- A character and its attribute byte. -/
structure Cell where
  ch : UInt8
  attrib : UInt8
  deriving DecidableEq

/-- The cells of a 4 KB page. -/
abbrev Page := Nat → Cell

/-- The pages `video_mem` and the user's video page can be aimed at: `VIDEO`, and
`VIDEO1`, `VIDEO2`, `VIDEO3`. -/
inductive VideoPage where
  | screen
  | buffer (t : Terminal)
  deriving DecidableEq

/-- The physical address of a page. -/
def VideoPage.addr : VideoPage → Nat
  | .screen => 0xB8000
  | .buffer .T1 => 0xB9000
  | .buffer .T2 => 0xBA000
  | .buffer .T3 => 0xBB000

structure Display where
  currTerminal : Terminal
  screenX : Terminal → Nat
  screenY : Terminal → Nat
  video : Page
  videoBuf : Terminal → Page
  videoMem : VideoPage
  /-- The cell position last sent to the hardware cursor. -/
  vgaCursor : Nat

/-- A blank cell as `clear` and `scroll` write it. -/
def blankCell : Cell := ⟨SPACE_CHAR, ATTRIB⟩

def screenCells : Nat := NUM_ROWS * NUM_COLS

/-- `clear`, `clear1`, `clear2` and `clear3` on the page they name. -/
def clearPage (page : Page) : Page :=
  (List.range screenCells).foldl (fun p i => update p i blankCell) page

/-- The two loops of `scroll`. -/
def scrollPage (page : Page) : Page :=
  let moved := (List.range ((NUM_ROWS - 1) * NUM_COLS)).foldl
    (fun p i => update p i ⟨(p (i + NUM_COLS)).ch, ATTRIB⟩) page
  (List.range' ((NUM_ROWS - 1) * NUM_COLS) NUM_COLS).foldl
    (fun p i => update p i blankCell) moved

namespace Display

variable (d : Display)

def page : VideoPage → Page
  | .screen => d.video
  | .buffer t => d.videoBuf t

def setPage (target : VideoPage) (cells : Page) : Display :=
  match target with
  | .screen => { d with video := cells }
  | .buffer t => { d with videoBuf := update d.videoBuf t cells }

def setCell (target : VideoPage) (index : Nat) (cell : Cell) : Display :=
  d.setPage target (update (d.page target) index cell)

/-- One byte stored in a video page, by its offset in the page. -/
def storeByte (target : VideoPage) (offset : Nat) (byte : UInt8) : Display :=
  let old := d.page target (offset / 2)
  d.setCell target (offset / 2)
    (if offset % 2 = 0 then { old with ch := byte } else { old with attrib := byte })

def clear : Display := { d with video := clearPage d.video }

/-- `scroll(0)` scrolls the page `video_mem` points to, `scroll(1)` the screen. -/
def scroll (target : VideoPage) : Display := d.setPage target (scrollPage (d.page target))

/-- The cursor of a terminal at a column and a row. -/
def moveTo (t : Terminal) (x y : Nat) : Display :=
  { d with screenX := update d.screenX t x, screenY := update d.screenY t y }

def updateCursor (x y : Nat) : Display :=
  { d with vgaCursor := (y * NUM_COLS + x) % 2 ^ 16 }

/-- Out-of-range positions leave the cursor alone; one column too far to the left
means the end of the row above. -/
def setCursors (posX posY : Int) : Display :=
  let posY := if posX < 0 then posY - 1 else posY
  let posX := if posX < 0 then (NUM_COLS : Int) - 1 else posX
  if posX < 0 ∨ posX ≥ NUM_COLS ∨ posY < 0 ∨ posY ≥ NUM_ROWS then d
  else d.moveTo d.currTerminal posX.toNat posY.toNat

/-- The body of `switch_terminal`'s loop. -/
def swapCell (origin target : Terminal) (d : Display) (i : Nat) : Display :=
  let saved := d.setCell (.buffer origin) i { d.videoBuf origin i with ch := (d.video i).ch }
  saved.setCell .screen i { saved.video i with ch := (saved.videoBuf target i).ch }

def switchTerminal (origin target : Terminal) : Display :=
  let d := { d with currTerminal := target }
  let d := d.updateCursor (d.screenX d.currTerminal) (d.screenY d.currTerminal)
  (List.range screenCells).foldl (swapCell origin target) d

/-- The first half of `putc` and `putc2`: the character is stored on a page at the
cursor of a terminal, and the cursor moves on. -/
def advance (target : VideoPage) (t : Terminal) (c : UInt8) : Display :=
  if c = NEWLINE ∨ c = RETURN then d.moveTo t 0 (d.screenY t + 1)
  else
    (d.setCell target (NUM_COLS * d.screenY t + d.screenX t) ⟨c, ATTRIB⟩).moveTo t
      ((d.screenX t + 1) % NUM_COLS) (d.screenY t + (d.screenX t + 1) / NUM_COLS)

/-- The second half: a cursor below the last row scrolls the page. -/
def wrapRow (target : VideoPage) (t : Terminal) : Display :=
  if d.screenY t ≥ NUM_ROWS then (d.scroll target).moveTo t 0 (d.screenY t - 1) else d

/-- What `putc` and `putc2` share: one character printed on a page at the cursor
of a terminal. -/
def putChar (target : VideoPage) (t : Terminal) (c : UInt8) : Display :=
  (d.advance target t c).wrapRow target t

/-- Output for the running process, whose terminal is `currScheduled`. -/
def putc (currScheduled : Terminal) (c : UInt8) : Display :=
  let d := d.putChar d.videoMem currScheduled c
  if currScheduled = d.currTerminal then
    d.updateCursor (d.screenX currScheduled) (d.screenY currScheduled)
  else d

/-- Output on the screen, for the displayed terminal. -/
def putc2 (c : UInt8) : Display :=
  let d := d.putChar .screen d.currTerminal c
  d.updateCursor (d.screenX d.currTerminal) (d.screenY d.currTerminal)

/-- `printf` of a text without conversions. -/
def printf (currScheduled : Terminal) (text : List UInt8) : Display :=
  text.foldl (fun d c => d.putc currScheduled c) d

/-- The bytes `s` points to, without the NUL bytes among them. -/
def putfile (currScheduled : Terminal) (s : List UInt8) : Display :=
  s.foldl (fun d c =>
    if c = NUL then d
    else if currScheduled = d.currTerminal then d.putc2 c
    else d.putc currScheduled c) d

/-- The Backspace branch of `keyboard_handler`, without the buffer index. -/
def eraseChar : Display :=
  let d := d.setCursors (d.screenX d.currTerminal - 1) (d.screenY d.currTerminal)
  let d := d.putc2 SPACE_CHAR
  let d := d.setCursors (d.screenX d.currTerminal - 1) (d.screenY d.currTerminal)
  d.updateCursor (d.screenX d.currTerminal) (d.screenY d.currTerminal)

/-- The Ctrl-L branch of `keyboard_handler`. -/
def clearScreen : Display := (d.clear.setCursors 0 0).updateCursor 0 0

/-! ## What printing never moves -/

/-- The displayed terminal and the page `video_mem` points to. -/
def aim : Terminal × VideoPage := (d.currTerminal, d.videoMem)

@[simp] theorem setPage_aim (target : VideoPage) (cells : Page) :
    (d.setPage target cells).aim = d.aim := by
  cases target <;> rfl

@[simp] theorem setCell_aim (target : VideoPage) (index : Nat) (cell : Cell) :
    (d.setCell target index cell).aim = d.aim := d.setPage_aim _ _

@[simp] theorem storeByte_aim (target : VideoPage) (offset : Nat) (byte : UInt8) :
    (d.storeByte target offset byte).aim = d.aim := d.setCell_aim _ _ _

@[simp] theorem scroll_aim (target : VideoPage) : (d.scroll target).aim = d.aim :=
  d.setPage_aim _ _

@[simp] theorem clear_aim : d.clear.aim = d.aim := by
  simp only [aim, clear]

@[simp] theorem updateCursor_aim (x y : Nat) : (d.updateCursor x y).aim = d.aim := rfl

@[simp] theorem setCursors_aim (posX posY : Int) : (d.setCursors posX posY).aim = d.aim := by
  simp only [setCursors]
  split <;> split <;> rfl

@[simp] theorem putChar_aim (target : VideoPage) (t : Terminal) (c : UInt8) :
    (d.putChar target t c).aim = d.aim := by
  have hadvance : (d.advance target t c).aim = d.aim := by
    unfold advance
    split
    · rfl
    · exact d.setCell_aim _ _ _
  unfold putChar wrapRow
  split
  · exact (scroll_aim _ _).trans hadvance
  · exact hadvance

@[simp] theorem putc_aim (currScheduled : Terminal) (c : UInt8) :
    (d.putc currScheduled c).aim = d.aim := by
  simp only [putc]
  split
  · rw [updateCursor_aim, putChar_aim]
  · exact d.putChar_aim _ _ _

@[simp] theorem putc2_aim (c : UInt8) : (d.putc2 c).aim = d.aim := by
  simp only [putc2, updateCursor_aim, putChar_aim]

@[simp] theorem printf_aim (currScheduled : Terminal) (text : List UInt8) :
    (d.printf currScheduled text).aim = d.aim := by
  induction text generalizing d with
  | nil => rfl
  | cons c rest ih => exact (ih _).trans (d.putc_aim _ _)

@[simp] theorem putfile_aim (currScheduled : Terminal) (s : List UInt8) :
    (d.putfile currScheduled s).aim = d.aim := by
  induction s generalizing d with
  | nil => rfl
  | cons c rest ih =>
      refine (ih _).trans ?_
      dsimp only
      split
      · rfl
      · split
        · exact d.putc2_aim c
        · exact d.putc_aim _ _

@[simp] theorem eraseChar_aim : d.eraseChar.aim = d.aim := by
  simp only [eraseChar, updateCursor_aim, setCursors_aim, putc2_aim]

@[simp] theorem clearScreen_aim : d.clearScreen.aim = d.aim := by
  simp only [clearScreen, updateCursor_aim, setCursors_aim, clear_aim]

/-- A switch moves the display and leaves `video_mem` where it was. -/
@[simp] theorem switchTerminal_aim (origin target : Terminal) :
    (d.switchTerminal origin target).aim = (target, d.videoMem) := by
  have hloop : ∀ (cells : List Nat) (d : Display),
      (cells.foldl (swapCell origin target) d).aim = d.aim := by
    intro cells
    induction cells with
    | nil => exact fun d => rfl
    | cons i rest ih =>
        intro d
        rw [List.foldl_cons, ih]
        simp only [swapCell, setCell_aim]
  unfold switchTerminal
  exact hloop _ _

end Display

end Ece391
