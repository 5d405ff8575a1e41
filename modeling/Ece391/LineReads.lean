import Ece391.EnterDelivery
import Ece391.InputLines
import Ece391.Lib.LineEditor

/-! # The lines `terminal_read` returns

A process on the displayed terminal reads lines one after the other. Between any two
statements of `terminal_read` keys may arrive: its loop waits with interrupts enabled, and
they stay enabled while the line is copied, emptied and reset. Keys that come after an
Enter and before the reset work on the line that was entered.
-/

namespace Ece391

open Function Transition LineEditor

/-! ## Keys -/

/-- What a scancode means to the line, if it is a printable key, Space, Backspace, Enter or
one that leaves the line alone. Ctrl+L and Alt with a function key are none of these. -/
def Keyboard.lineKey (kb : Keyboard) (c : UInt8) : Option (Key UInt8) :=
  let kb := kb.modifiers c
  if kb.ctrlKey ∧ c = KEY_L ∨ kb.altKey ∧ (functionKey c).isSome then none
  else if c = SPACE then some (.char SPACE_CHAR)
  else if c = BACKSPACE then some .erase
  else if c = ENTER_PRESS then some .enter
  else if c ≤ char_upper ∧ c ≥ char_lower ∧ kb.printChar c ≠ NUL then
    some (.char (kb.printChar c))
  else some .idle

/-! ## The reader -/

/-- The statement of `terminal_read` that comes next, with the bytes copied so far. -/
inductive ReadPoint where
  | away
  | polling
  | flagSeen
  | clearing
  | newline
  | testing (out : List UInt8)
  | copying (out : List UInt8)
  | emptying (i : Nat) (out : List UInt8)
  | resetting (out : List UInt8)
  deriving DecidableEq

structure LineReader where
  kernel : Kernel
  point : ReadPoint

/-- Keys, what timers and other processes do, and the next statement of the reader. -/
inductive LineEvent where
  | key (c : UInt8)
  | other (event : Event)
  | run

namespace LineReader

variable (s : LineReader)

/-- The next statement of a reader that calls `terminal_read(fd, buf, 128)` again and
again. -/
def next : LineReader :=
  let kb := s.kernel.kb
  match s.point with
  | .away => { s with point := .polling }
  | .polling => { s with point := if kb.enterFlag then .flagSeen else .polling }
  | .flagSeen =>
      { s with
        point := if s.kernel.currTerminal = s.kernel.currScheduled then .clearing else .polling }
  | .clearing => ⟨{ s.kernel with kb := { kb with enterFlag := false } }, .newline⟩
  | .newline => ⟨{ s.kernel with display := s.kernel.display.putc2 NEWLINE }, .testing []⟩
  | .testing out =>
      let count := if KB_BUF_SIZE < kb.index then KB_BUF_SIZE else kb.index
      { s with point := if out.length < count then .copying out else .emptying 0 out }
  | .copying out => { s with point := .testing (out ++ [kb.buffer out.length]) }
  | .emptying i out =>
      if i < KB_BUF_SIZE then
        ⟨{ s.kernel with kb := { kb with buffer := update kb.buffer i NUL } },
          .emptying (i + 1) out⟩
      else { s with point := .resetting out }
  | .resetting _ => ⟨{ s.kernel with kb := { kb with index := 0 } }, .away⟩

/-- The reader runs on terminal `t`. Interrupts come at any time; system calls come from
other terminals, or from the reader's while it is not in `terminal_read`. -/
def mayCome (t : Terminal) : Event → Bool
  | .tick _ _ | .rtc => true
  | .key _ => false
  | .read _ _ _ => s.kernel.currScheduled ≠ t
  | _ => s.kernel.currScheduled ≠ t ∨ s.point = .away

/-- Terminal `t` stays displayed, and the reader runs while it is scheduled. -/
def step (img : Image) (t : Terminal) : LineEvent → Option LineReader
  | .key c =>
      if (s.kernel.kb.lineKey c).isSome then
        some { s with kernel := s.kernel.keyboardInterrupt c }
      else none
  | .other event =>
      if s.mayCome t event then
        ((Ece391.step img s.kernel event).filter fun k => k.currTerminal = t).map fun k =>
          { s with kernel := k }
      else none
  | .run => if s.kernel.currScheduled = t then some s.next else none

end LineReader

/-! ## What was typed and what was read -/

/-- The keys of a run, as they are meant. -/
def keysTyped (history : List (Fired LineReader LineEvent)) : List (Key UInt8) :=
  history.filterMap fun fired =>
    match fired.event with
    | .key c => fired.pre.kernel.kb.lineKey c
    | _ => none

/-- What the completed reads returned, in order. -/
def linesRead (history : List (Fired LineReader LineEvent)) : List (List UInt8) :=
  history.filterMap fun fired =>
    match fired.event, fired.pre.point with
    | .run, .resetting out => some out
    | _, _ => none

/-- The reads returned the lines that were entered, in order, each cut to the buffer. -/
def LinesDelimited (history : List (Fired LineReader LineEvent)) : Prop :=
  linesRead history <+: (typing (keysTyped history)).lines.map (·.take KB_BUF_SIZE)

/-- No Enter is unread and the reader has not begun to take one. -/
def LineReader.Open (s : LineReader) : Prop :=
  s.kernel.kb.enterFlag = false ∧ (s.point = .away ∨ s.point = .polling)

/-- The line is copied, and what is left of it in the buffer will be thrown away. -/
def ReadPoint.Copied : ReadPoint → Prop
  | .emptying _ _ | .resetting _ => True
  | _ => False

/-- Characters come while the line is open, and Enter while none is unread. Backspace finds
the line open, the cursor away from the top left corner and no more text than the buffer
holds, or it finds the line empty or copied. -/
def KeepsDelimited (text : List UInt8) (s : LineReader) : LineEvent → Prop
  | .key c =>
      match s.kernel.kb.lineKey c with
      | some .erase => s.kernel.kb.index = 0 ∨ s.point.Copied ∨
          s.Open ∧ text.length ≤ KB_BUF_SIZE ∧
            ¬ (s.kernel.display.screenX s.kernel.currTerminal = 0 ∧
              s.kernel.display.screenY s.kernel.currTerminal = 0)
      | some (.char _) => s.Open
      | some .enter => s.kernel.kb.enterFlag = false
      | some .idle | none => True
  | .other _ | .run => True

/-! ## One key -/

theorem Keyboard.line_length (kb : Keyboard) : kb.line.length = kb.index := by
  rw [Keyboard.line, List.length_map, List.length_range]

theorem Keyboard.printChar_backspace (kb : Keyboard) : kb.printChar BACKSPACE = NUL := by
  have hupper : upper_char_list.getD (BACKSPACE.toNat - 1) NUL = NUL := by decide
  have hlower : char_list.getD (BACKSPACE.toNat - 1) NUL = NUL := by decide
  unfold Keyboard.printChar
  rw [hupper, hlower]
  simp

/-- What the handler does with a key is what the key means, as far as there is room. -/
def KeyState.lineAction (s : KeyState) : Key UInt8 → ScreenAction
  | .char c => if s.kb.index < KB_BUF_SIZE then .print [c] else .print []
  | .erase => if s.kb.index > 0 then .erase else .print []
  | .enter | .idle => .print []

theorem KeyState.action_of_lineKey {s : KeyState} {c : UInt8} {key : Key UInt8}
    (hkey : s.kb.lineKey c = some key) :
    s.wanted c = none ∧ s.action c = s.lineAction key ∧ (key = .enter ↔ c = ENTER_PRESS) := by
  have hindex := (s.kb.modifiers_lines c).1.2
  unfold Keyboard.lineKey at hkey
  dsimp only at hkey
  split at hkey
  · cases hkey
  next hplain =>
  rw [not_or] at hplain
  obtain ⟨hclear, hfunction⟩ := hplain
  have hstay : s.wanted c = none := by
    unfold KeyState.wanted
    split
    · next halt =>
      have hnone : functionKey c = none := by simpa using fun hsome => hfunction ⟨halt, hsome⟩
      rw [hnone]
      rfl
    · rfl
  refine ⟨hstay, ?_⟩
  unfold KeyState.action
  dsimp only
  rw [if_neg hclear, if_neg hfunction, hindex]
  split at hkey
  · next hspace =>
    subst hspace
    obtain rfl := Option.some.inj hkey
    exact ⟨if_pos rfl, by decide⟩
  next hspace =>
  rw [if_neg hspace]
  split at hkey
  · next hback =>
    subst hback
    obtain rfl := Option.some.inj hkey
    refine ⟨?_, by decide⟩
    unfold KeyState.lineAction
    by_cases hsome : s.kb.index > 0
    · rw [if_pos ⟨rfl, hsome⟩, if_pos hsome]
    · rw [if_neg (fun h => hsome h.2), if_neg hsome, if_neg (by decide),
        Keyboard.printChar_backspace]
      simp
  next hback =>
  rw [if_neg (fun h => hback h.1)]
  split at hkey
  · next henter =>
    obtain rfl := Option.some.inj hkey
    exact ⟨if_pos henter, by simp [henter]⟩
  next henter =>
  rw [if_neg henter]
  split at hkey
  · next hchar =>
    obtain rfl := Option.some.inj hkey
    refine ⟨?_, by simp [henter]⟩
    rw [if_pos ⟨hchar.1, hchar.2.1⟩]
    simp only [KeyState.lineAction, hchar.2.2, ne_eq, not_false_eq_true, and_true]
  · next hchar =>
    obtain rfl := Option.some.inj hkey
    refine ⟨?_, by simp [henter]⟩
    unfold KeyState.lineAction
    split
    · next hrange =>
      exact if_neg fun h => hchar ⟨hrange.1, hrange.2, h.2⟩
    · rfl

/-- A key that means something to the line, or leaves it alone. -/
theorem Kernel.key_line {k : Kernel} {c : UInt8} {key : Key UInt8}
    (hkey : k.kb.lineKey c = some key) :
    (k.keyboardInterrupt c).currTerminal = k.currTerminal ∧
      (k.keyboardInterrupt c).kb.enterFlag = (k.kb.enterFlag || key = .enter) ∧
      (k.keyboardInterrupt c).kb.line = (k.keyState.lineAction key).edit k.display k.kb.line := by
  obtain ⟨hstay, haction, henter⟩ := KeyState.action_of_lineKey (s := k.keyState) hkey
  have heffect := keyboardHandler_effect k.keyState c
  obtain ⟨hflag, hshown, -⟩ := heffect.request
  obtain ⟨-, hline, -⟩ := heffect.edits hstay
  rw [haction] at hline
  refine ⟨hshown, hflag.trans ?_, hline⟩
  simp only [henter]

/-! ## Everything else -/

/-- The Enter flag and the live line. -/
def Kernel.liveInput (k : Kernel) : Bool × List UInt8 := (k.kb.enterFlag, k.kb.line)

theorem Kernel.liveInput_of_kb {k after : Kernel} (hkb : after.kb = k.kb) :
    after.liveInput = k.liveInput := by
  rw [liveInput, liveInput, hkb]

theorem Kernel.liveInput_of_input {k after : Kernel} (hinput : after.input = k.input) :
    after.liveInput = k.liveInput :=
  liveInput_of_kb (congrArg Prod.fst hinput)

theorem Kernel.execute_liveInput {k after : Kernel} {img : Image} {command : Option (List UInt8)}
    {regs : Regs} {result : ExecReturn}
    (hexecute : k.execute img command regs = some (result, after)) :
    after.liveInput = k.liveInput := by
  rcases Kernel.execute_cases hexecute with ⟨-, -, -, -, -, hinput⟩ | ⟨program, -, -, -, hlaunched⟩
  · exact liveInput_of_input hinput
  · exact liveInput_of_input hlaunched.input

theorem Kernel.halt_liveInput {k after : Kernel} {img : Image} {status : UInt8} {regs : Regs}
    {result : HaltReturn} (hhalt : k.halt img status regs = some (result, after)) :
    after.liveInput = k.liveInput := by
  obtain ⟨released, hreleased, hcases⟩ := Kernel.halt_cases hhalt
  have hkept := liveInput_of_input hreleased.input
  rcases hcases with ⟨-, -, -, rfl⟩ | ⟨-, ⟨result', last'⟩, hexecuted, hlast⟩
  · exact hkept
  · obtain rfl : last' = after := hlast
    obtain ⟨d, -, hreset⟩ := released.resetTerminal_eq
    rw [hreset] at hexecuted
    exact (Kernel.execute_liveInput hexecuted).trans hkept

theorem Kernel.pitHandler_liveInput {k after : Kernel} {img : Image} {ebp : Nat} {inner : Regs}
    (htick : k.pitHandler img ebp inner = some after) : after.liveInput = k.liveInput := by
  rcases Nat.lt_trichotomy k.totalTerminal 3 with hmissing | hlast | hrunning
  · obtain ⟨left, result, hleft, hexecute⟩ := Kernel.pitHandler_shell hmissing htick
    exact (Kernel.execute_liveInput hexecute).trans (liveInput_of_kb hleft.kb)
  · obtain ⟨-, -, -, hkb, -⟩ := Kernel.pitHandler_finish hlast htick
    exact liveInput_of_kb hkb
  · exact liveInput_of_kb (Kernel.pitHandler_rotated hrunning htick).kb

/-- A read on a terminal that is not displayed has no part in the line. -/
theorem Kernel.read_liveInput {k after : Kernel} {img : Image} {fd nbytes : Int} {buf : Bool}
    {result : SysReturn} (hhidden : k.currTerminal ≠ k.currScheduled)
    (hread : k.read img fd buf nbytes = some (result, after)) : after.liveInput = k.liveInput := by
  obtain ⟨kb, display, rtc, dirIndex, pcb, rfl, hkb⟩ := Kernel.read_store hread
  exact liveInput_of_kb (hkb hhidden)

theorem Kernel.write_liveInput {k after : Kernel} {fd nbytes : Int} {buf : Option (Nat → UInt8)}
    {result : SysReturn} (hwrite : k.write fd buf nbytes = some (result, after)) :
    after.liveInput = k.liveInput := by
  obtain ⟨kb, display, rtc, rfl, rfl | rfl⟩ := Kernel.write_store hwrite
  · rfl
  · rfl

/-- Timers and the processes of other terminals leave the live line and the flag. -/
theorem LineReader.other_liveInput {s : LineReader} {img : Image} {t : Terminal} {k : Kernel}
    {event : Event} (hshown : s.kernel.currTerminal = t) (hmay : s.mayCome t event = true)
    (hstep : Ece391.step img s.kernel event = some k) : k.liveInput = s.kernel.liveInput := by
  cases event with
  | key => simp [mayCome] at hmay
  | tick ebp inner => exact Kernel.pitHandler_liveInput hstep
  | rtc =>
      obtain rfl := Option.some.inj hstep
      rfl
  | execute command regs =>
      obtain ⟨⟨result, last⟩, hexecute, rfl⟩ := Option.map_eq_some_iff.mp hstep
      exact Kernel.execute_liveInput hexecute
  | halt status regs =>
      obtain ⟨⟨result, last⟩, hhalt, rfl⟩ := Option.map_eq_some_iff.mp hstep
      exact Kernel.halt_liveInput hhalt
  | read fd buf nbytes =>
      obtain ⟨⟨result, last⟩, hread, rfl⟩ := Option.map_eq_some_iff.mp hstep
      have hother : s.kernel.currScheduled ≠ t := by simpa [mayCome] using hmay
      exact Kernel.read_liveInput (fun h => hother (h.symm.trans hshown)) hread
  | write fd buf nbytes =>
      obtain ⟨⟨result, last⟩, hwrite, rfl⟩ := Option.map_eq_some_iff.mp hstep
      exact Kernel.write_liveInput hwrite
  | open_ filename =>
      obtain ⟨⟨result, last⟩, hopen, rfl⟩ := Option.map_eq_some_iff.mp hstep
      exact Kernel.liveInput_of_input (Kernel.open_input hopen)
  | close fd =>
      obtain ⟨⟨value, last⟩, hclose, rfl⟩ := Option.map_eq_some_iff.mp hstep
      exact Kernel.liveInput_of_input (Kernel.close_input hclose)
  | getargs buf nbytes =>
      simp only [Ece391.step, Option.map_eq_some_iff] at hstep
      obtain ⟨⟨result, last⟩, hargs, rfl⟩ := hstep
      obtain rfl := Kernel.getargs_same hargs
      rfl
  | vidmap screenStart =>
      obtain ⟨⟨result, last⟩, hvidmap, rfl⟩ := Option.map_eq_some_iff.mp hstep
      exact Kernel.liveInput_of_input (Kernel.vidmap_input hvidmap)

/-! ## The line that is being read -/

namespace LineReader

/-- The reader has still to return `line`: before it clears the flag the line is the live
one, while it copies the bytes so far are its beginning, and afterwards they are all of it. -/
def Holds (s : LineReader) (line : List UInt8) : Prop :=
  match s.point with
  | .away | .polling | .flagSeen | .clearing => s.kernel.liveInput = (true, line)
  | .newline => s.kernel.kb.line = line
  | .testing out => s.kernel.kb.line = line ∧ out <+: line
  | .copying out => s.kernel.kb.line = line ∧ out <+: line ∧ out.length < line.length
  | .emptying _ out | .resetting out => out = line

/-- The lines entered behind the one the reader holds: once it has cleared the flag, an
Enter that follows at once ends an empty line. -/
def behind (s : LineReader) : List (List UInt8) :=
  match s.point with
  | .away | .polling | .flagSeen | .clearing => []
  | _ => if s.kernel.kb.enterFlag then [[]] else []

/-- The reads so far belong to the keys so far: the open line holds the beginning of the
text, or the reader holds a line that was entered, and the text behind it is empty. -/
def Tracks (s : LineReader) (keys : List (Key UInt8)) (reads : List (List UInt8)) : Prop :=
  (s.Open ∧ reads = (typing keys).lines.map (·.take KB_BUF_SIZE) ∧
      s.kernel.kb.line = (typing keys).text.take KB_BUF_SIZE) ∨
    ∃ earlier line, typing keys = ⟨earlier ++ line :: s.behind, []⟩ ∧
      reads = earlier.map (·.take KB_BUF_SIZE) ∧ s.Holds (line.take KB_BUF_SIZE)

theorem Holds.not_open {s : LineReader} {line : List UInt8} (hholds : s.Holds line) : ¬ s.Open := by
  rintro ⟨hflag, hpoint⟩
  rcases hpoint with hpoint | hpoint <;> rw [Holds, hpoint] at hholds <;>
    exact absurd ((congrArg Prod.fst hholds).symm.trans hflag) (by simp)

/-- Only the flag and the live line count. -/
theorem Holds.of_liveInput {s : LineReader} {line : List UInt8} {k : Kernel}
    (hholds : s.Holds line) (hlive : k.liveInput = s.kernel.liveInput) :
    Holds ⟨k, s.point⟩ line := by
  have hline : k.kb.line = s.kernel.kb.line := congrArg Prod.snd hlive
  unfold Holds at hholds ⊢
  dsimp only
  cases hpoint : s.point <;> rw [hpoint] at hholds <;> simp only [hlive, hline] <;> exact hholds

theorem behind_of_flag {s : LineReader} {k : Kernel}
    (hflag : k.kb.enterFlag = s.kernel.kb.enterFlag) : behind ⟨k, s.point⟩ = s.behind := by
  unfold behind
  rw [hflag]

theorem Tracks.of_liveInput {s : LineReader} {keys : List (Key UInt8)} {reads : List (List UInt8)}
    {k : Kernel} (htracks : s.Tracks keys reads) (hlive : k.liveInput = s.kernel.liveInput) :
    Tracks ⟨k, s.point⟩ keys reads := by
  have hflag : k.kb.enterFlag = s.kernel.kb.enterFlag := congrArg Prod.fst hlive
  have hline : k.kb.line = s.kernel.kb.line := congrArg Prod.snd hlive
  rcases htracks with ⟨hopen, hreads, htext⟩ | ⟨earlier, line, hkeys, hreads, hholds⟩
  · exact .inl ⟨⟨hflag.trans hopen.1, hopen.2⟩, hreads, hline.trans htext⟩
  · refine .inr ⟨earlier, line, ?_, hreads, hholds.of_liveInput hlive⟩
    rw [behind_of_flag hflag, hkeys]

section Keys

variable {s : LineReader} {keys : List (Key UInt8)} {reads : List (List UInt8)} {k : Kernel}

/-- A key without a meaning for the text leaves everything where it is. -/
theorem Tracks.idle {key : Key UInt8} (htracks : s.Tracks keys reads)
    (hlive : k.liveInput = s.kernel.liveInput)
    (hpress : (typing keys).press key = typing keys) :
    Tracks ⟨k, s.point⟩ (keys ++ [key]) reads := by
  have hkept := htracks.of_liveInput hlive
  unfold Tracks at hkept ⊢
  rwa [typing_snoc, hpress]

theorem Tracks.char {ch : UInt8} (htracks : s.Tracks keys reads) (hopen : s.Open)
    (hflag : k.kb.enterFlag = s.kernel.kb.enterFlag)
    (hline : k.kb.line =
      if s.kernel.kb.index < KB_BUF_SIZE then s.kernel.kb.line ++ [ch] else s.kernel.kb.line) :
    Tracks ⟨k, s.point⟩ (keys ++ [.char ch]) reads := by
  rcases htracks with ⟨-, hreads, htext⟩ | ⟨earlier, line, -, -, hholds⟩
  · have hlength : s.kernel.kb.index = min KB_BUF_SIZE (typing keys).text.length := by
      rw [← s.kernel.kb.line_length, htext, List.length_take]
    refine .inl ⟨⟨hflag.trans hopen.1, hopen.2⟩, ?_, ?_⟩
    · rw [hreads, typing_snoc]
      rfl
    · rw [hline, typing_snoc]
      change _ = ((typing keys).text ++ [ch]).take KB_BUF_SIZE
      by_cases hroom : s.kernel.kb.index < KB_BUF_SIZE
      · rw [if_pos hroom, take_snoc_of_lt ch (by omega), ← htext]
      · rw [if_neg hroom, List.take_append_of_le_length (by omega), ← htext]
  · exact absurd hopen hholds.not_open

theorem Tracks.erase (htracks : s.Tracks keys reads) (hopen : s.Open)
    (hfits : (typing keys).text.length ≤ KB_BUF_SIZE)
    (hflag : k.kb.enterFlag = s.kernel.kb.enterFlag)
    (hline : k.kb.line = s.kernel.kb.line.dropLast) :
    Tracks ⟨k, s.point⟩ (keys ++ [.erase]) reads := by
  rcases htracks with ⟨-, hreads, htext⟩ | ⟨earlier, line, -, -, hholds⟩
  · refine .inl ⟨⟨hflag.trans hopen.1, hopen.2⟩, ?_, ?_⟩
    · rw [hreads, typing_snoc]
      rfl
    · rw [hline, htext, typing_snoc]
      exact (take_dropLast hfits).symm
  · exact absurd hopen hholds.not_open

/-- Backspace on an empty line erases nothing. -/
theorem Tracks.press_erase (htracks : s.Tracks keys reads)
    (hempty : s.kernel.kb.index = 0 ∨ s.point.Copied) :
    (typing keys).press .erase = typing keys := by
  rcases htracks with ⟨⟨-, hpoint⟩, -, htext⟩ | ⟨earlier, line, hkeys, -, -⟩
  · have hnone : (typing keys).text = [] := by
      rcases hempty with hindex | hcopied
      · rw [← s.kernel.kb.line_length, htext] at hindex
        simpa [KB_BUF_SIZE] using List.length_eq_zero_iff.mp hindex
      · rcases hpoint with hpoint | hpoint <;> rw [hpoint] at hcopied <;> exact absurd hcopied id
    unfold Typed.press
    rw [hnone, List.dropLast_nil, ← hnone]
  · rw [hkeys]
    rfl

/-- The buffer of a copied line is not looked at any more. -/
theorem Tracks.erase_copied (htracks : s.Tracks keys reads) (hcopied : s.point.Copied)
    (hflag : k.kb.enterFlag = s.kernel.kb.enterFlag) :
    Tracks ⟨k, s.point⟩ (keys ++ [.erase]) reads := by
  have hpress := htracks.press_erase (.inr hcopied)
  rcases htracks with ⟨⟨-, hpoint⟩, -, -⟩ | ⟨earlier, line, hkeys, hreads, hholds⟩
  · rcases hpoint with hpoint | hpoint <;> rw [hpoint] at hcopied <;> exact absurd hcopied id
  · refine .inr ⟨earlier, line, ?_, hreads, ?_⟩
    · rw [behind_of_flag hflag, typing_snoc, hpress, hkeys]
    · obtain ⟨old, point⟩ := s
      cases point with
      | emptying i out => exact hholds
      | resetting out => exact hholds
      | _ => exact absurd hcopied id

/-- An Enter that finds none unread ends the open line, or the empty one behind the line
that is being read. -/
theorem Tracks.enter (htracks : s.Tracks keys reads) (hquiet : s.kernel.kb.enterFlag = false)
    (hset : k.kb.enterFlag = true) (hline : k.kb.line = s.kernel.kb.line) :
    Tracks ⟨k, s.point⟩ (keys ++ [.enter]) reads := by
  rcases htracks with ⟨⟨-, hpoint⟩, hreads, htext⟩ | ⟨earlier, line, hkeys, hreads, hholds⟩
  · refine .inr ⟨(typing keys).lines, (typing keys).text, ?_, hreads, ?_⟩
    · rw [typing_snoc]
      rcases hpoint with hpoint | hpoint <;> rw [hpoint] <;> rfl
    · have hlive : k.liveInput = (true, (typing keys).text.take KB_BUF_SIZE) :=
        Prod.ext hset (hline.trans htext)
      unfold Holds
      rcases hpoint with hpoint | hpoint <;> rw [hpoint] <;> exact hlive
  · obtain ⟨old, point⟩ := s
    have hclear : old.kb.enterFlag = false := hquiet
    have hentered : ∀ behind', behind' = behind ⟨old, point⟩ ++ [[]] →
        typing (keys ++ [.enter]) = ⟨earlier ++ line :: behind', []⟩ := by
      rintro behind' rfl
      rw [typing_snoc, hkeys, Typed.press, List.append_assoc, List.cons_append]
    refine .inr ⟨earlier, line, hentered _ ?_, hreads, ?_⟩
    · cases point with
      | away | polling | flagSeen | clearing =>
          exact absurd ((congrArg Prod.fst hholds).symm.trans hclear) (by simp)
      | _ => simp [behind, hset, hclear]
    · cases point with
      | away | polling | flagSeen | clearing =>
          exact absurd ((congrArg Prod.fst hholds).symm.trans hclear) (by simp)
      | newline => exact hline.trans hholds
      | testing out => exact ⟨hline.trans hholds.1, hholds.2⟩
      | copying out => exact ⟨hline.trans hholds.1, hholds.2⟩
      | emptying i out => exact hholds
      | resetting out => exact hholds

end Keys

/-- A key that may come leaves the reads with the keys. -/
theorem Tracks.key {s : LineReader} {keys : List (Key UInt8)} {reads : List (List UInt8)}
    {c : UInt8} {key : Key UInt8} (htracks : s.Tracks keys reads)
    (hkey : s.kernel.kb.lineKey c = some key)
    (hkeeps : KeepsDelimited (typing keys).text s (.key c)) :
    Tracks ⟨s.kernel.keyboardInterrupt c, s.point⟩ (keys ++ [key]) reads := by
  obtain ⟨-, hflag, hline⟩ := Kernel.key_line hkey
  unfold KeepsDelimited at hkeeps
  simp only [hkey] at hkeeps
  cases key with
  | idle =>
      exact htracks.idle (Prod.ext (hflag.trans (Bool.or_false _))
        (hline.trans (List.append_nil _))) rfl
  | enter =>
      exact htracks.enter hkeeps (hflag.trans (Bool.or_true _)) (hline.trans (List.append_nil _))
  | char ch =>
      refine htracks.char hkeeps (hflag.trans (Bool.or_false _)) (hline.trans ?_)
      by_cases hroom : s.kernel.kb.index < KB_BUF_SIZE
      · rw [KeyState.lineAction, if_pos hroom, if_pos hroom]
        rfl
      · rw [KeyState.lineAction, if_neg hroom, if_neg hroom]
        exact List.append_nil _
  | erase =>
      have hkept := hflag.trans (Bool.or_false _)
      by_cases hempty : s.kernel.kb.index = 0
      · refine htracks.idle (Prod.ext hkept (hline.trans ?_)) (htracks.press_erase (.inl hempty))
        rw [KeyState.lineAction, if_neg (by simp [hempty])]
        exact List.append_nil _
      · obtain hzero | hcopied | ⟨hopen, hfits, hcursor⟩ := hkeeps
        · exact absurd hzero hempty
        · exact htracks.erase_copied hcopied hkept
        · refine htracks.erase hopen hfits hkept (hline.trans ?_)
          rw [KeyState.lineAction, if_pos (Nat.pos_of_ne_zero hempty)]
          exact if_neg hcursor

/-- What the next statement returns: the last one completes the read. -/
def returns (s : LineReader) : Option (List UInt8) :=
  match s.point with
  | .resetting out => some out
  | _ => none

/-- Statements that complete nothing go on with the line. -/
theorem Holds.next {s : LineReader} {line : List UInt8} (hsize : line.length ≤ KB_BUF_SIZE)
    (hholds : s.Holds line) (hmore : s.returns = none) :
    s.next.Holds line ∧ s.next.behind = s.behind := by
  obtain ⟨k, point⟩ := s
  unfold Holds at hholds
  cases point with
  | away => exact ⟨hholds, rfl⟩
  | polling =>
      have hflag : k.kb.enterFlag = true := congrArg Prod.fst hholds
      simp only [LineReader.next, hflag, if_true]
      exact ⟨hholds, rfl⟩
  | flagSeen =>
      simp only [LineReader.next]
      split <;> exact ⟨hholds, rfl⟩
  | clearing => exact ⟨congrArg Prod.snd hholds, rfl⟩
  | newline => exact ⟨⟨hholds, List.nil_prefix⟩, rfl⟩
  | testing out =>
      obtain ⟨hline, hbegins⟩ := hholds
      have hindex : k.kb.index = line.length := by
        rw [← k.kb.line_length]
        exact congrArg List.length hline
      have hcount : (if KB_BUF_SIZE < k.kb.index then KB_BUF_SIZE else k.kb.index) =
          line.length := by
        rw [if_neg (by omega), hindex]
      simp only [LineReader.next, hcount]
      by_cases hrest : out.length < line.length
      · rw [if_pos hrest]
        exact ⟨⟨hline, hbegins, hrest⟩, rfl⟩
      · rw [if_neg hrest]
        exact ⟨hbegins.eq_of_length_le (by omega), rfl⟩
  | copying out =>
      obtain ⟨hline, hbegins, hrest⟩ := hholds
      refine ⟨⟨hline, ?_⟩, rfl⟩
      -- the byte behind those copied is the next one of the line
      have hbyte : k.kb.line[out.length]? = some (k.kb.buffer out.length) := by
        have hlt : out.length < k.kb.index := by
          rw [← k.kb.line_length]
          exact hrest.trans_eq (congrArg List.length hline).symm
        rw [Keyboard.line, List.getElem?_map, List.getElem?_range hlt, Option.map_some]
      replace hline : k.kb.line = line := hline
      rw [hline] at hbyte
      obtain ⟨rest, rfl⟩ := hbegins
      rw [List.getElem?_append_right (Nat.le_refl _), Nat.sub_self] at hbyte
      cases rest with
      | nil => cases hbyte
      | cons byte rest =>
          obtain rfl := Option.some.inj hbyte
          exact ⟨rest, by simp⟩
  | emptying i out =>
      simp only [LineReader.next]
      split <;> exact ⟨hholds, rfl⟩
  | resetting out => cases hmore

/-- The reset at the end of a read leaves the open line, or the empty line behind it. -/
theorem Tracks.resetting {k : Kernel} {keys : List (Key UInt8)} {reads : List (List UInt8)}
    {out : List UInt8} (htracks : Tracks ⟨k, .resetting out⟩ keys reads) :
    (next ⟨k, .resetting out⟩).Tracks keys (reads ++ [out]) := by
  rcases htracks with ⟨⟨-, hpoint⟩, -, -⟩ | ⟨earlier, line, hkeys, hreads, hholds⟩
  · rcases hpoint with hpoint | hpoint <;> cases hpoint
  · obtain rfl : out = line.take KB_BUF_SIZE := hholds
    have hsnoc : reads ++ [line.take KB_BUF_SIZE] =
        (earlier ++ [line]).map (·.take KB_BUF_SIZE) := by
      rw [hreads, List.map_append, List.map_singleton]
    rw [hsnoc]
    cases hflag : k.kb.enterFlag with
    | false =>
        have hbehind : behind ⟨k, .resetting (line.take KB_BUF_SIZE)⟩ = [] := by
          simp [behind, hflag]
        rw [hbehind] at hkeys
        refine .inl ⟨⟨hflag, .inl rfl⟩, ?_, ?_⟩
        · rw [hkeys]
        · rw [hkeys]
          rfl
    | true =>
        have hbehind : behind ⟨k, .resetting (line.take KB_BUF_SIZE)⟩ = [[]] := by
          simp [behind, hflag]
        rw [hbehind] at hkeys
        refine .inr ⟨earlier ++ [line], [], ?_, rfl, Prod.ext hflag rfl⟩
        rw [hkeys, List.append_assoc]
        rfl

/-- A statement of the reader leaves the reads with the keys. -/
theorem Tracks.next {s : LineReader} {keys : List (Key UInt8)} {reads : List (List UInt8)}
    (htracks : s.Tracks keys reads) : s.next.Tracks keys (reads ++ s.returns.toList) := by
  cases hreturns : s.returns with
  | some out =>
      obtain ⟨k, point⟩ := s
      cases point with
      | resetting out' =>
          obtain rfl := Option.some.inj hreturns
          exact htracks.resetting
      | _ => cases hreturns
  | none =>
      rw [Option.toList_none, List.append_nil]
      rcases htracks with ⟨⟨hflag, hpoint⟩, hreads, htext⟩ | ⟨earlier, line, hkeys, hreads, hholds⟩
      · obtain ⟨k, point⟩ := s
        rcases hpoint with rfl | rfl
        · exact .inl ⟨⟨hflag, .inr rfl⟩, hreads, htext⟩
        · refine .inl ⟨⟨hflag, .inr ?_⟩, hreads, htext⟩
          simp only [LineReader.next]
          rw [if_neg (by simpa using hflag)]
      · obtain ⟨hnext, hbehind⟩ := hholds.next (List.length_take_le _ _) hreturns
        exact .inr ⟨earlier, line, by rw [hbehind, hkeys], hreads, hnext⟩

/-! ## Runs -/

/-- The process is about to call `terminal_read` on an empty line of the displayed terminal. -/
def Fresh (s : LineReader) (t : Terminal) : Prop :=
  s.point = .away ∧ s.kernel.liveInput = (false, []) ∧ s.kernel.currTerminal = t

theorem Fresh.tracks {s : LineReader} {t : Terminal} (hfresh : s.Fresh t) : s.Tracks [] [] := by
  obtain ⟨haway, hlive, -⟩ := hfresh
  exact .inl ⟨⟨congrArg Prod.fst hlive, .inl haway⟩, rfl, congrArg Prod.snd hlive⟩

theorem next_terminals (s : LineReader) :
    s.next.kernel.currTerminal = s.kernel.currTerminal ∧
      s.next.kernel.currScheduled = s.kernel.currScheduled := by
  obtain ⟨k, point⟩ := s
  cases point with
  | newline => exact ⟨congrArg Prod.fst (k.display.putc2_aim NEWLINE), rfl⟩
  | emptying i out =>
      simp only [LineReader.next]
      split <;> exact ⟨rfl, rfl⟩
  | _ => exact ⟨rfl, rfl⟩

/-- The key of a step. -/
def keyOf (s : LineReader) : LineEvent → Option (Key UInt8)
  | .key c => s.kernel.kb.lineKey c
  | .other _ | .run => none

/-- What a step makes the reader return. -/
def returned (s : LineReader) : LineEvent → Option (List UInt8)
  | .run => s.returns
  | .key _ | .other _ => none

theorem keysTyped_snoc (history : List (Fired LineReader LineEvent))
    (fired : Fired LineReader LineEvent) :
    keysTyped (history ++ [fired]) =
      keysTyped history ++ (fired.pre.keyOf fired.event).toList := by
  obtain ⟨s, event, next⟩ := fired
  rw [keysTyped, List.filterMap_append, ← keysTyped]
  cases event with
  | key c =>
      cases hkey : s.kernel.kb.lineKey c <;> simp [keyOf, hkey]
  | _ => rfl

theorem linesRead_snoc (history : List (Fired LineReader LineEvent))
    (fired : Fired LineReader LineEvent) :
    linesRead (history ++ [fired]) =
      linesRead history ++ (fired.pre.returned fired.event).toList := by
  obtain ⟨⟨k, point⟩, event, next⟩ := fired
  rw [linesRead, List.filterMap_append, ← linesRead]
  cases event with
  | run => cases point <;> rfl
  | _ => rfl

/-- One step of a run leaves the reads with the keys, and the terminal displayed. -/
theorem Tracks.step {s next : LineReader} {img : Image} {t : Terminal} {event : LineEvent}
    {keys : List (Key UInt8)} {reads : List (List UInt8)}
    (htracks : s.Tracks keys reads) (hshown : s.kernel.currTerminal = t)
    (hkeeps : KeepsDelimited (typing keys).text s event) (hstep : s.step img t event = some next) :
    next.Tracks (keys ++ (s.keyOf event).toList) (reads ++ (s.returned event).toList) ∧
      next.kernel.currTerminal = t := by
  cases event with
  | key c =>
      simp only [LineReader.step] at hstep
      split at hstep
      · next hsome =>
        obtain rfl := Option.some.inj hstep
        obtain ⟨key, hkey⟩ := Option.isSome_iff_exists.mp hsome
        have hafter := htracks.key hkey hkeeps
        simp only [keyOf, returned, hkey, Option.toList_some, Option.toList_none, List.append_nil]
        exact ⟨hafter, (Kernel.key_line hkey).1.trans hshown⟩
      · cases hstep
  | other event =>
      simp only [LineReader.step] at hstep
      split at hstep
      · next hmay =>
        obtain ⟨k, hfilter, rfl⟩ := Option.map_eq_some_iff.mp hstep
        obtain ⟨hkernel, hstays⟩ := Option.filter_eq_some_iff.mp hfilter
        have hlive := other_liveInput hshown hmay hkernel
        simp only [keyOf, returned, Option.toList_none, List.append_nil]
        exact ⟨htracks.of_liveInput hlive, of_decide_eq_true hstays⟩
      · cases hstep
  | run =>
      simp only [LineReader.step] at hstep
      split at hstep
      · obtain rfl := Option.some.inj hstep
        refine ⟨?_, s.next_terminals.1.trans hshown⟩
        rw [keyOf, Option.toList_none, List.append_nil]
        exact htracks.next
      · cases hstep

/-- Every key of a run comes when it may, behind the text that is open then; `keys` were
typed before the run. -/
def KeysKeepDelimited (keys : List (Key UInt8)) (history : List (Fired LineReader LineEvent)) :
    Prop :=
  ∀ index fired, history[index]? = some fired →
    KeepsDelimited (typing (keys ++ keysTyped (history.take index))).text fired.pre fired.event

theorem Tracks.run {start last : LineReader} {img : Image} {t : Terminal}
    {keys : List (Key UInt8)} {reads : List (List UInt8)}
    {history : List (Fired LineReader LineEvent)} (htracks : start.Tracks keys reads)
    (hshown : start.kernel.currTerminal = t)
    (hrun : Run (fun s event => LineReader.step s img t event) start history last)
    (hkeeps : KeysKeepDelimited keys history) :
    last.Tracks (keys ++ keysTyped history) (reads ++ linesRead history) ∧
      last.kernel.currTerminal = t := by
  induction hrun with
  | start =>
      refine ⟨?_, hshown⟩
      rwa [show keysTyped [] = [] from rfl, show linesRead [] = [] from rfl, List.append_nil,
        List.append_nil]
  | @extend s next history event prior hstep ih =>
      have hearlier : KeysKeepDelimited keys history := by
        intro index fired hfired
        have hlt : index < history.length := (List.getElem?_eq_some_iff.mp hfired).1
        have hkept := hkeeps index fired (by rwa [List.getElem?_append_left hlt])
        rwa [List.take_append_of_le_length (Nat.le_of_lt hlt)] at hkept
      have hlast : KeepsDelimited (typing (keys ++ keysTyped history)).text s event := by
        have hkept := hkeeps history.length ⟨s, event, next⟩ (by simp)
        rwa [List.take_left] at hkept
      obtain ⟨hprior, hstays⟩ := ih hearlier
      rw [keysTyped_snoc, linesRead_snoc, ← List.append_assoc, ← List.append_assoc]
      exact hprior.step hstays hlast hstep

/-! ## The reader catches up -/

/-- The statements left before the line of `size` characters is returned. -/
def stepsLeft (size : Nat) : ReadPoint → Nat
  | .away => 2 * size + 137
  | .polling => 2 * size + 136
  | .flagSeen => 2 * size + 135
  | .clearing => 2 * size + 134
  | .newline => 2 * size + 133
  | .testing out => 2 * (size - out.length) + 132
  | .copying out => 2 * (size - out.length) + 131
  | .emptying i _ => KB_BUF_SIZE - i + 1
  | .resetting _ => 0

theorem Holds.stepsLeft_next {s : LineReader} {line : List UInt8}
    (hsize : line.length ≤ KB_BUF_SIZE) (hholds : s.Holds line)
    (hshown : s.kernel.currTerminal = s.kernel.currScheduled) (hmore : s.returns = none) :
    stepsLeft line.length s.next.point < stepsLeft line.length s.point := by
  obtain ⟨k, point⟩ := s
  unfold Holds at hholds
  have hbuffer : KB_BUF_SIZE = 128 := rfl
  cases point with
  | polling =>
      have hflag : k.kb.enterFlag = true := congrArg Prod.fst hholds
      simp only [LineReader.next, hflag, if_true, stepsLeft]
      omega
  | flagSeen =>
      simp only [LineReader.next, if_pos hshown, stepsLeft]
      omega
  | testing out =>
      have hindex : k.kb.index = line.length := by
        rw [← k.kb.line_length]
        exact congrArg List.length hholds.1
      have hcount : (if KB_BUF_SIZE < k.kb.index then KB_BUF_SIZE else k.kb.index) =
          line.length := by
        rw [if_neg (by omega), hindex]
      simp only [LineReader.next, hcount]
      split <;> simp only [stepsLeft] <;> omega
  | copying out =>
      have hrest : out.length < line.length := hholds.2.2
      simp only [LineReader.next, stepsLeft, List.length_append, List.length_singleton]
      omega
  | emptying i out =>
      simp only [LineReader.next]
      split <;> simp only [stepsLeft] <;> omega
  | resetting out => cases hmore
  | _ => simp only [LineReader.next, stepsLeft]; omega

/-- Statements of the reader alone lead from `s` to `last` and return `reads`. -/
def RunsOn (img : Image) (t : Terminal) (s last : LineReader) (reads : List (List UInt8)) : Prop :=
  ∃ more, Run (fun s event => LineReader.step s img t event) s more last ∧
    (∀ fired ∈ more, fired.event = .run) ∧ linesRead more = reads

theorem RunsOn.refl (img : Image) (t : Terminal) (s : LineReader) : RunsOn img t s s [] :=
  ⟨[], .start s, by simp, rfl⟩

theorem RunsOn.cons {img : Image} {t : Terminal} {s last : LineReader} {reads : List (List UInt8)}
    (hscheduled : s.kernel.currScheduled = t) (hrest : RunsOn img t s.next last reads) :
    RunsOn img t s last (s.returns.toList ++ reads) := by
  obtain ⟨more, hmore, hevents, hreads⟩ := hrest
  have hstep : s.step img t .run = some s.next := if_pos hscheduled
  refine ⟨_, hmore.cons hstep, ?_, ?_⟩
  · intro fired hfired
    obtain rfl | hmem := List.mem_cons.mp hfired
    · rfl
    · exact hevents fired hmem
  · have hfirst : linesRead [⟨s, .run, s.next⟩] = s.returns.toList := linesRead_snoc [] _
    rw [← List.singleton_append, linesRead, List.filterMap_append, ← linesRead, ← linesRead,
      hfirst, hreads]

theorem keysTyped_of_run {more : List (Fired LineReader LineEvent)}
    (hevents : ∀ fired ∈ more, fired.event = .run) : keysTyped more = [] := by
  refine List.filterMap_eq_nil_iff.mpr fun fired hfired => ?_
  rw [hevents fired hfired]

/-- A reader that holds a line returns it when it runs on. -/
theorem Holds.runsOn {s : LineReader} {line : List UInt8} {t : Terminal}
    (hsize : line.length ≤ KB_BUF_SIZE) (img : Image) (hholds : s.Holds line)
    (hshown : s.kernel.currTerminal = t) (hscheduled : s.kernel.currScheduled = t) :
    ∃ last, RunsOn img t s last [line] := by
  induction hleft : stepsLeft line.length s.point using Nat.strong_induction_on generalizing s with
  | _ left ih =>
  cases hreturns : s.returns with
  | some out =>
      have hlast := RunsOn.cons hscheduled (.refl img t s.next)
      obtain ⟨k, point⟩ := s
      cases point with
      | resetting out' =>
          have hall : out' = line := hholds
          rw [← hall]
          exact ⟨_, hlast⟩
      | _ => cases hreturns
  | none =>
      have hless := hholds.stepsLeft_next hsize (hshown.trans hscheduled.symm) hreturns
      obtain ⟨hshown', hscheduled'⟩ := s.next_terminals
      obtain ⟨last, hlast⟩ := ih _ (hleft ▸ hless) (hholds.next hsize hreturns).1
        (hshown'.trans hshown) (hscheduled'.trans hscheduled) rfl
      have hwhole := RunsOn.cons hscheduled hlast
      rw [hreturns] at hwhole
      exact ⟨last, hwhole⟩

theorem RunsOn.append {img : Image} {t : Terminal} {s mid last : LineReader}
    {first second : List (List UInt8)} (hfirst : RunsOn img t s mid first)
    (hsecond : RunsOn img t mid last second) : RunsOn img t s last (first ++ second) := by
  obtain ⟨earlier, hearlier, hevents, rfl⟩ := hfirst
  obtain ⟨later, hlater, hevents', rfl⟩ := hsecond
  refine ⟨_, hearlier.append hlater, fun fired hfired => ?_, List.filterMap_append⟩
  exact (List.mem_append.mp hfired).elim (hevents fired) (hevents' fired)

theorem RunsOn.tracks {img : Image} {t : Terminal} {s last : LineReader}
    {keys : List (Key UInt8)} {reads more : List (List UInt8)} (hruns : RunsOn img t s last more)
    (htracks : s.Tracks keys reads) (hshown : s.kernel.currTerminal = t)
    (hscheduled : s.kernel.currScheduled = t) :
    last.Tracks keys (reads ++ more) ∧ last.kernel.currTerminal = t ∧
      last.kernel.currScheduled = t := by
  obtain ⟨history, hrun, hevents, rfl⟩ := hruns
  have hkeeps : KeysKeepDelimited keys history := fun index fired hfired => by
    rw [hevents fired (List.mem_of_getElem? hfired)]
    trivial
  obtain ⟨hlast, hshown'⟩ := htracks.run hshown hrun hkeeps
  rw [keysTyped_of_run hevents, List.append_nil] at hlast
  refine ⟨hlast, hshown', ?_⟩
  refine hrun.invariant_of_allowed (fun s => s.kernel.currScheduled = t)
    (fun _ event => event = .run) ?_ hevents hscheduled
  rintro s' event next hscheduled' rfl hstep
  simp only [LineReader.step, if_pos hscheduled', Option.some.injEq] at hstep
  rw [← hstep]
  exact s'.next_terminals.2.trans hscheduled'

/-- A reader that runs on returns every line that was entered. -/
theorem Tracks.runsOn {s : LineReader} {t : Terminal} {keys : List (Key UInt8)}
    {reads : List (List UInt8)} (img : Image) (htracks : s.Tracks keys reads)
    (hshown : s.kernel.currTerminal = t) (hscheduled : s.kernel.currScheduled = t) :
    ∃ last more, RunsOn img t s last more ∧
      reads ++ more = (typing keys).lines.map (·.take KB_BUF_SIZE) := by
  induction hunread : (typing keys).lines.length - reads.length using Nat.strong_induction_on
    generalizing s reads with
  | _ unread ih =>
  rcases id htracks with ⟨-, hreads, -⟩ | ⟨earlier, line, hkeys, hreads, hholds⟩
  · exact ⟨s, [], .refl img t s, (List.append_nil _).trans hreads⟩
  · obtain ⟨mid, hmid⟩ := hholds.runsOn (List.length_take_le _ _) img hshown hscheduled
    obtain ⟨htracks', hshown', hscheduled'⟩ := hmid.tracks htracks hshown hscheduled
    have hless : (typing keys).lines.length - (reads ++ [line.take KB_BUF_SIZE]).length <
        unread := by
      rw [← hunread, hkeys, hreads]
      simp only [List.length_append, List.length_map, List.length_cons, List.length_nil]
      omega
    obtain ⟨last, more, hlast, hall⟩ := ih _ hless htracks' hshown' hscheduled' rfl
    rw [List.append_assoc] at hall
    exact ⟨last, _, hmid.append hlast, hall⟩

/-! ## Without an interruption -/

theorem clearLine_enterFlag (kb : Keyboard) (flag : Bool) :
    Keyboard.clearLine { kb with enterFlag := flag } = { kb.clearLine with enterFlag := flag } := by
  simp only [Keyboard.clearLine]

/-- From `emptying i` on, the line `out` is returned and the buffer emptied. -/
theorem runsOn_emptying (img : Image) (k : Kernel) (out : List UInt8) (i : Nat)
    (hi : i ≤ KB_BUF_SIZE) :
    RunsOn img k.currScheduled ⟨k, .emptying i out⟩
      ⟨{ k with
          kb :=
            { k.kb with
              buffer := (List.range' i (KB_BUF_SIZE - i)).foldl
                (fun line i => update line i NUL) k.kb.buffer
              index := 0 } }, .away⟩ [out] := by
  induction hleft : KB_BUF_SIZE - i generalizing i k with
  | zero =>
      have hdone : ¬ i < KB_BUF_SIZE := by omega
      refine RunsOn.cons (s := ⟨k, .emptying i out⟩) rfl ?_
      simp only [LineReader.next, if_neg hdone]
      exact RunsOn.cons (s := ⟨k, .resetting out⟩) rfl (.refl _ _ _)
  | succ left ih =>
      have hmore : i < KB_BUF_SIZE := by omega
      refine RunsOn.cons (s := ⟨k, .emptying i out⟩) rfl ?_
      simp only [LineReader.next, if_pos hmore]
      exact ih { k with kb := { k.kb with buffer := update k.kb.buffer i NUL } } (i + 1) hmore
        (by omega)

/-- From `testing` on, the rest of the line is copied and the line returned. -/
theorem runsOn_testing (img : Image) (k : Kernel) (i : Nat)
    (hi : i ≤ min KB_BUF_SIZE k.kb.index) :
    RunsOn img k.currScheduled ⟨k, .testing ((List.range i).map k.kb.buffer)⟩
      ⟨{ k with kb := k.kb.clearLine }, .away⟩
      [(List.range (min KB_BUF_SIZE k.kb.index)).map k.kb.buffer] := by
  have hcount : (if KB_BUF_SIZE < k.kb.index then KB_BUF_SIZE else k.kb.index) =
      min KB_BUF_SIZE k.kb.index := by
    split <;> omega
  induction hleft : min KB_BUF_SIZE k.kb.index - i generalizing i with
  | zero =>
      have hall : i = min KB_BUF_SIZE k.kb.index := by omega
      refine RunsOn.cons (s := ⟨k, .testing _⟩) rfl ?_
      simp only [LineReader.next, hcount, List.length_map, List.length_range, hall, lt_irrefl,
        if_false]
      have hempty := runsOn_emptying img k ((List.range (min KB_BUF_SIZE k.kb.index)).map
        k.kb.buffer) 0 (Nat.zero_le _)
      rwa [Nat.sub_zero, ← List.range_eq_range'] at hempty
  | succ left ih =>
      have hmore : i < min KB_BUF_SIZE k.kb.index := by omega
      refine RunsOn.cons (s := ⟨k, .testing _⟩) rfl ?_
      simp only [LineReader.next, hcount, List.length_map, List.length_range, if_pos hmore]
      refine RunsOn.cons (s := ⟨k, .copying _⟩) rfl ?_
      have hrest := ih (i + 1) hmore (by omega)
      rw [List.range_succ, List.map_append] at hrest
      simp only [LineReader.next, List.length_map, List.length_range]
      exact hrest

/-- Uninterrupted, the statements behind the loop are those of `takeLine`. -/
theorem runsOn_takeLine (img : Image) (k : Kernel) :
    ∃ line, k.takeLine KB_BUF_SIZE = (.returned line.length line, (k.takeLine KB_BUF_SIZE).2) ∧
      RunsOn img k.currScheduled ⟨k, .clearing⟩ ⟨(k.takeLine KB_BUF_SIZE).2, .away⟩ [line] := by
  refine ⟨(List.range (min KB_BUF_SIZE k.kb.index)).map k.kb.buffer, ?_, ?_⟩
  · have hcount : (if (KB_BUF_SIZE : Int) < k.kb.index then (KB_BUF_SIZE : Int).toNat
        else k.kb.index) = min KB_BUF_SIZE k.kb.index := by
      split <;> omega
    simp only [Kernel.takeLine, hcount, List.length_map, List.length_range]
  · refine RunsOn.cons (s := ⟨k, .clearing⟩) rfl ?_
    refine RunsOn.cons (s := ⟨{ k with kb := { k.kb with enterFlag := false } }, .newline⟩) rfl ?_
    have hrest := runsOn_testing img
      { k with
        kb := { k.kb with enterFlag := false }
        display := k.display.putc2 NEWLINE } 0 (Nat.zero_le _)
    rw [List.range_zero, List.map_nil] at hrest
    simp only [LineReader.next, Kernel.takeLine, ← clearLine_enterFlag]
    exact hrest

end LineReader

/-- In every run of a fresh reader whose keys come while the line is open, the reads return
the lines that were entered, and a scheduled reader goes on to return all of them. -/
theorem lines_delimited {start last : LineReader} {img : Image} {t : Terminal}
    {history : List (Fired LineReader LineEvent)} (hfresh : start.Fresh t)
    (hrun : Run (fun s event => LineReader.step s img t event) start history last)
    (hkeeps : LineReader.KeysKeepDelimited [] history) :
    LinesDelimited history ∧
      (last.kernel.currScheduled = t → ∃ more after,
        Run (fun s event => LineReader.step s img t event) last more after ∧
          (∀ fired ∈ more, fired.event = .run) ∧
          linesRead (history ++ more) =
            (typing (keysTyped history)).lines.map (·.take KB_BUF_SIZE)) := by
  obtain ⟨htracks, hshown⟩ := hfresh.tracks.run hfresh.2.2 hrun hkeeps
  rw [List.nil_append, List.nil_append] at htracks
  refine ⟨?_, fun hscheduled => ?_⟩
  · rcases htracks with ⟨-, hreads, -⟩ | ⟨earlier, line, hkeys, hreads, -⟩
    · rw [LinesDelimited, hreads]
    · rw [LinesDelimited, hreads, hkeys, List.map_append]
      exact List.prefix_append _ _
  · obtain ⟨after, reads, ⟨more, hmore, hevents, rfl⟩, hall⟩ := htracks.runsOn img hshown hscheduled
    refine ⟨more, after, hmore, hevents, ?_⟩
    rw [linesRead, List.filterMap_append, ← linesRead, ← linesRead, hall]

/-! ## Keys behind an Enter -/

theorem LineReader.step_key {k : Kernel} {c : UInt8} {key : Key UInt8} (img : Image) (t : Terminal)
    (point : ReadPoint) (hkey : k.kb.lineKey c = some key) :
    LineReader.step ⟨k, point⟩ img t (.key c) = some ⟨k.keyboardInterrupt c, point⟩ :=
  if_pos (Option.isSome_iff_exists.mpr ⟨key, hkey⟩)

/-- A, Enter and Z at a keyboard that was not touched since boot. -/
theorem Kernel.keys_a_enter_z {k : Kernel} (hkb : k.kb = (boot zeroMemory).kb) :
    (k.kb.lineKey KEY_A = some (.char 97) ∧
      (k.keyboardInterrupt KEY_A).kb.lineKey ENTER_PRESS = some .enter ∧
      ((k.keyboardInterrupt KEY_A).keyboardInterrupt ENTER_PRESS).kb.lineKey KEY_Z =
        some (.char 122)) ∧
      k.liveInput = (false, []) ∧ (k.keyboardInterrupt KEY_A).kb.enterFlag = false ∧
      (((k.keyboardInterrupt KEY_A).keyboardInterrupt ENTER_PRESS).keyboardInterrupt
        KEY_Z).liveInput = (true, [97, 122]) := by
  have hfirst : (k.keyboardInterrupt KEY_A).kb = (boot zeroMemory).kb.append 97 := by
    change (keyboardHandler ⟨k.kb, k.display, k.switchFlag⟩ KEY_A).kb = _
    rw [hkb]
    rfl
  generalize k.keyboardInterrupt KEY_A = first at hfirst ⊢
  have hsecond : (first.keyboardInterrupt ENTER_PRESS).kb =
      { (boot zeroMemory).kb.append 97 with enterFlag := true } := by
    change (keyboardHandler ⟨first.kb, first.display, first.switchFlag⟩ ENTER_PRESS).kb = _
    rw [hfirst]
    rfl
  generalize first.keyboardInterrupt ENTER_PRESS = second at hsecond ⊢
  have hthird : (second.keyboardInterrupt KEY_Z).kb =
      Keyboard.append { (boot zeroMemory).kb.append 97 with enterFlag := true } 122 := by
    change (keyboardHandler ⟨second.kb, second.display, second.switchFlag⟩ KEY_Z).kb = _
    rw [hsecond]
    rfl
  rw [liveInput, liveInput, hkb, hfirst, hsecond, hthird]
  exact ⟨⟨rfl, rfl, rfl⟩, rfl, rfl, rfl⟩

theorem keysTyped_cons {k : Kernel} {c : UInt8} {key : Key UInt8} (point : ReadPoint)
    (next : LineReader) (rest : List (Fired LineReader LineEvent))
    (hkey : k.kb.lineKey c = some key) :
    keysTyped (⟨⟨k, point⟩, .key c, next⟩ :: rest) = key :: keysTyped rest :=
  List.filterMap_cons_some hkey

/-- A and Enter come while the line is open, and the read returns the line. -/
theorem lines_delimited_a :
    ∃ m k last history, Reachable (step shellImage) (boot m) k ∧
      Run (fun s event => LineReader.step s shellImage .T1 event) ⟨k, .away⟩ history last ∧
      history.map Fired.event = [.key KEY_A, .key ENTER_PRESS] ∧ LinesDelimited history ∧
      ∃ more after, Run (fun s event => LineReader.step s shellImage .T1 event) last more after ∧
        linesRead (history ++ more) = [[97]] := by
  obtain ⟨start, k, s, ⟨⟨m, before, hboot, -⟩, -⟩, htick, -, -, hscheduled, hshown, -, hkb⟩ :=
    shellImage_displayed
  obtain ⟨⟨ha, henter, -⟩, hlive, hflag, -⟩ := Kernel.keys_a_enter_z hkb
  have hpress := LineReader.step_key shellImage .T1 .away ha
  have hentered := LineReader.step_key shellImage .T1 .away henter
  have hrun : Run (fun s event => LineReader.step s shellImage .T1 event) _ _ _ :=
    .cons hpress (.single hentered)
  have hdelimited := lines_delimited ⟨rfl, hlive, hshown⟩ hrun ?_
  · obtain ⟨hbegins, hmore⟩ := hdelimited
    obtain ⟨more, after, hrest, -, hlines⟩ := hmore hscheduled
    refine ⟨m, k, _, _, ⟨_, hboot.extend htick⟩, hrun, rfl, hbegins, more, after, hrest, ?_⟩
    rw [hlines, keysTyped_cons _ _ _ ha, keysTyped_cons _ _ _ henter]
    rfl
  · intro index fired hfired
    rcases index with - | - | index
    · obtain rfl := Option.some.inj hfired
      rw [KeepsDelimited, ha]
      exact ⟨congrArg Prod.fst hlive, .inl rfl⟩
    · obtain rfl := Option.some.inj hfired
      rw [KeepsDelimited, henter]
      exact hflag
    · cases hfired

/-- Z comes between Enter and the read, and is returned with the line that was entered. -/
theorem lines_not_delimited :
    ∃ m k last history, Reachable (step shellImage) (boot m) k ∧
      LineReader.Fresh ⟨k, .away⟩ .T1 ∧
      Run (fun s event => LineReader.step s shellImage .T1 event) ⟨k, .away⟩ history last ∧
      keysTyped history = [.char 97, .enter, .char 122] ∧ linesRead history = [[97, 122]] ∧
      ¬ LinesDelimited history := by
  obtain ⟨start, k, s, ⟨⟨m, before, hboot, -⟩, -⟩, htick, -, -, hscheduled, hshown, -, hkb⟩ :=
    shellImage_displayed
  obtain ⟨⟨ha, henter, hz⟩, hlive, -, hentered⟩ := Kernel.keys_a_enter_z hkb
  have hfirst := LineReader.step_key shellImage .T1 .away ha
  have hsecond := LineReader.step_key shellImage .T1 .away henter
  have hthird := LineReader.step_key shellImage .T1 .away hz
  have hsame := ((k.keyboardInterrupt_same KEY_A).trans
    (Kernel.keyboardInterrupt_same _ ENTER_PRESS)).trans (Kernel.keyboardInterrupt_same _ KEY_Z)
  obtain ⟨last, more, hmore, hevents, hreads⟩ :=
    LineReader.Holds.runsOn (s := ⟨_, .away⟩) (by decide) shellImage hentered
      (hsame.currTerminal.trans hshown) (hsame.currScheduled.trans hscheduled)
  have hrun : Run (fun s event => LineReader.step s shellImage .T1 event) _ _ _ :=
    .cons hfirst (.cons hsecond (.cons hthird hmore))
  refine ⟨m, k, last, _, ⟨_, hboot.extend htick⟩, ⟨rfl, hlive, hshown⟩, hrun, ?_⟩
  have hkeys := LineReader.keysTyped_of_run hevents
  generalize hhistory : (_ :: _ :: _ :: more) = history
  have htyped : keysTyped history = [.char 97, .enter, .char 122] := by
    rw [← hhistory, keysTyped_cons _ _ _ ha, keysTyped_cons _ _ _ henter, keysTyped_cons _ _ _ hz,
      hkeys]
  have hread : linesRead history = [[97, 122]] := by
    rw [← hhistory]
    exact hreads
  refine ⟨htyped, hread, ?_⟩
  rw [LinesDelimited, htyped, hread]
  decide

end Ece391
