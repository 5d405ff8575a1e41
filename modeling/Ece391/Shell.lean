import Ece391.LineSessions
import Ece391.ParentPrograms

/-! # The shell

The shell prompts, reads a line, and executes it unless it is empty or `exit`. What it has
printed, read and executed in an attentive session is a sequence of rounds, whatever its
children do.
-/

namespace Ece391

open Function Transition Sessions

def startingShell : List UInt8 := ascii
  ['S', 't', 'a', 'r', 't', 'i', 'n', 'g', ' ', '3', '9', '1', ' ', 'S', 'h', 'e', 'l', 'l', '\n']

def promptText : List UInt8 := ascii ['3', '9', '1', 'O', 'S', '>', ' ']

def readFromKeyboardFailed : List UInt8 := ascii
  ['r', 'e', 'a', 'd', ' ', 'f', 'r', 'o', 'm', ' ', 'k', 'e', 'y', 'b', 'o', 'a', 'r', 'd', ' ',
    'f', 'a', 'i', 'l', 'e', 'd', '\n']

def exitText : List UInt8 := ascii ['e', 'x', 'i', 't']

def noSuchCommand : List UInt8 := ascii
  ['n', 'o', ' ', 's', 'u', 'c', 'h', ' ', 'c', 'o', 'm', 'm', 'a', 'n', 'd', '\n']

def terminatedByException : List UInt8 := ascii
  ['p', 'r', 'o', 'g', 'r', 'a', 'm', ' ', 't', 'e', 'r', 'm', 'i', 'n', 'a', 't', 'e', 'd', ' ',
    'b', 'y', ' ', 'e', 'x', 'c', 'e', 'p', 't', 'i', 'o', 'n', '\n']

def terminatedAbnormally : List UInt8 := ascii
  ['p', 'r', 'o', 'g', 'r', 'a', 'm', ' ', 't', 'e', 'r', 'm', 'i', 'n', 'a', 't', 'e', 'd', ' ',
    'a', 'b', 'n', 'o', 'r', 'm', 'a', 'l', 'l', 'y', '\n']

/-! ## `main` -/

/-- `ece391_strcmp` from position `i` of the first string on; the second is given by the
characters that are left of it. -/
def strcmp (s1 : UserBuffer) : Nat → List UInt8 → Int
  | i, [] => if s1 i = NUL then 0 else (s1 i).toNat
  | i, c :: rest =>
      if s1 i = c then if s1 i = NUL then 0 else strcmp s1 (i + 1) rest
      else (s1 i).toNat - c.toNat

/-- The calls of `main` with the buffer as it then is. -/
inductive Shell where
  | start (buf : UserBuffer)
  | prompt (buf : UserBuffer)
  | read (buf : UserBuffer)
  | execute (buf : UserBuffer)
  | puts (text : List UInt8) (buf : UserBuffer)
  | readFailed
  | returned (value : Int)

namespace Shell

/-- The registers are those in which `execute` finds the shell. -/
def next (regs : Regs) : Shell → UserCall ⊕ Int
  | start _ => .inl (fdputs 1 startingShell)
  | prompt _ => .inl (fdputs 1 promptText)
  | read _ => .inl (.fd (.read 0 true 1023))
  | execute buf => .inl (.execute (bufferText buf 1024) regs)
  | puts text _ => .inl (fdputs 1 text)
  | readFailed => .inl (fdputs 1 readFromKeyboardFailed)
  | returned value => .inr value

/-- The buffer with the end of the line cut off. -/
def endLine (buf : UserBuffer) (cnt : Int) : UserBuffer :=
  let cnt := if cnt > 0 ∧ buf (cnt - 1).toNat = NEWLINE then cnt - 1 else cnt
  update buf cnt.toNat NUL

def resume : Shell → Reply → Shell
  | start buf, _ => prompt buf
  | prompt buf, _ => read buf
  | read buf, reply =>
      if -1 = reply.value then readFailed
      else
        let buf := endLine (storedAt buf reply.out) reply.value
        if strcmp buf 0 exitText = 0 then returned 0
        else if buf 0 = NUL then prompt buf
        else execute buf
  | execute buf, reply =>
      if -1 = reply.value then puts noSuchCommand buf
      else if 256 = reply.value then puts terminatedByException buf
      else if 0 ≠ reply.value then puts terminatedAbnormally buf
      else prompt buf
  | puts _ buf, _ => prompt buf
  | readFailed, _ => returned 3
  | returned value, _ => returned value

/-- `main` of `ece391shell.c`. -/
def main (regs : Regs) : UserProgram Shell := ⟨next regs, resume⟩

theorem shortCommands (regs : Regs) : ShortCommands (main regs) := by
  intro pos command regs' hnext
  cases pos with
  | execute buf =>
      obtain ⟨rfl, -⟩ := UserCall.execute.inj (Sum.inl.inj hnext)
      have hle := (List.takeWhile_prefix (l := bufferBytes buf 1024)
        fun c => decide (c ≠ NUL)).length_le
      rw [bufferBytes_length] at hle
      exact hle.trans (by decide)
  | start | prompt | read | puts | readFailed | returned => cases hnext

end Shell

/-! ## The text in the buffer -/

/-- The buffer holds a text in front of its first NUL byte. -/
structure HoldsText (buf : UserBuffer) (text : List UInt8) : Prop where
  front : ∀ i, (hi : i < text.length) → buf i = text[i]
  ended : buf text.length = NUL
  nonNul : NUL ∉ text

namespace HoldsText

variable {buf : UserBuffer} {word : List UInt8}

theorem ne_nul (hbuf : HoldsText buf word) {i : Nat} (hi : i < word.length) : word[i] ≠ NUL :=
  fun heq => hbuf.nonNul (heq ▸ List.getElem_mem hi)

theorem first_eq_nul (hbuf : HoldsText buf word) : buf 0 = NUL ↔ word = [] := by
  constructor
  · intro hfirst
    by_contra hword
    have hpos := List.length_pos_iff.mpr hword
    exact hbuf.ne_nul hpos ((hbuf.front 0 hpos).symm.trans hfirst)
  · rintro rfl
    exact hbuf.ended

theorem bufferText (hbuf : HoldsText buf word) {size : Nat} (hsize : word.length < size) :
    bufferText buf size = word := by
  rw [bufferText_front hbuf.front hbuf.ended hsize, List.takeWhile_eq_self_iff]
  intro c hc
  have hne : c ≠ NUL := fun heq => hbuf.nonNul (heq ▸ hc)
  simpa using hne

/-- `strcmp` returns 0 on equal texts only. -/
theorem strcmp_eq_zero (hbuf : HoldsText buf word) {text : List UInt8}
    (htext : NUL ∉ text) {i : Nat}
    (hi : i ≤ word.length) : strcmp buf i text = 0 ↔ word.drop i = text := by
  induction text generalizing i with
  | nil =>
      rw [strcmp]
      rcases hi.lt_or_eq with hlt | rfl
      · have hne := hbuf.ne_nul hlt
        rw [hbuf.front i hlt, if_neg hne, List.drop_eq_getElem_cons hlt]
        refine iff_of_false (fun hzero => hne ?_) (List.cons_ne_nil _ _)
        exact UInt8.toNat_inj.mp (Int.ofNat_eq_zero.mp hzero)
      · rw [hbuf.ended, if_pos rfl, List.drop_length]
        exact iff_of_true rfl rfl
  | cons c rest ih =>
      obtain ⟨hc, hrest⟩ := List.ne_and_not_mem_of_not_mem_cons htext
      have hdiffer : ∀ byte : UInt8, byte ≠ c → ((byte.toNat : Int) - c.toNat) ≠ 0 :=
        fun byte hne hzero => hne (UInt8.toNat_inj.mp (by omega))
      rw [strcmp]
      rcases hi.lt_or_eq with hlt | rfl
      · rw [hbuf.front i hlt, List.drop_eq_getElem_cons hlt]
        by_cases hsame : word[i] = c
        · have hnext : strcmp buf (i + 1) rest = 0 ↔ word.drop (i + 1) = rest :=
            ih hrest (Nat.succ_le_of_lt hlt)
          rw [if_pos hsame, if_neg (hbuf.ne_nul hlt), hnext, List.cons.injEq]
          exact (and_iff_right hsame).symm
        · rw [if_neg hsame]
          exact iff_of_false (hdiffer _ hsame) fun heq => hsame (List.cons.inj heq).1
      · rw [hbuf.ended, if_neg hc, List.drop_length]
        exact iff_of_false (hdiffer NUL hc) (List.cons_ne_nil _ _).symm

end HoldsText

/-- A line without the new line behind it. -/
def cutLine (line : List UInt8) : List UInt8 :=
  if line.getLast? = some NEWLINE then line.dropLast else line

/-- What a line is to the shell. -/
def shellWord (line : List UInt8) : List UInt8 := (cutLine line).takeWhile fun c => c ≠ NUL

theorem cutLine_front (line : List UInt8) : cutLine line <+: line := by
  unfold cutLine
  split
  · exact line.dropLast_prefix
  · exact List.prefix_refl line

theorem shellWord_front (line : List UInt8) : shellWord line <+: cutLine line :=
  List.takeWhile_prefix _

theorem endLine_storedAt (buf : UserBuffer) (line : List UInt8) :
    Shell.endLine (storedAt buf line) line.length =
      update (storedAt buf line) (cutLine line).length NUL := by
  have hcnt : (if (line.length : Int) > 0 ∧
        storedAt buf line ((line.length : Int) - 1).toNat = NEWLINE
      then (line.length : Int) - 1 else line.length).toNat = (cutLine line).length := by
    rcases List.eq_nil_or_concat line with rfl | ⟨front, c, rfl⟩
    · rfl
    · have hlast : (((front.concat c).length : Int) - 1).toNat = front.length := by simp
      have hpos : ((front.concat c).length : Int) > 0 := by simp
      have hstored : storedAt buf (front.concat c) front.length = c := by
        rw [storedAt_front buf (by simp)]
        simp
      rw [hlast, hstored, cutLine, List.concat_eq_append, List.getLast?_concat,
        List.dropLast_concat]
      by_cases hc : c = NEWLINE
      · rw [if_pos ⟨by simp, hc⟩, if_pos (congrArg some hc)]
        simp
      · rw [if_neg fun h => hc h.2, if_neg fun h => hc (Option.some.inj h)]
        simp
  unfold Shell.endLine
  dsimp only
  rw [hcnt]

/-- The buffer behind a read holds the word of the line. -/
theorem endLine_holds (buf : UserBuffer) (line : List UInt8) :
    HoldsText (Shell.endLine (storedAt buf line) line.length) (shellWord line) := by
  have hword := shellWord_front line
  have hkept : ∀ i, (hi : i < (cutLine line).length) →
      update (storedAt buf line) (cutLine line).length NUL i = (cutLine line)[i] := by
    intro i hi
    rw [update_of_ne hi.ne, storedAt_front buf (hi.trans_le (cutLine_front line).length_le),
      (cutLine_front line).getElem]
  rw [endLine_storedAt]
  refine ⟨fun i hi => ?_, ?_, ?_⟩
  · rw [hkept i (hi.trans_le hword.length_le), hword.getElem]
  · rcases hword.length_le.lt_or_eq with hlt | heq
    · -- the word ends at a NUL byte of the line
      rw [hkept _ hlt]
      obtain ⟨rest, hrest⟩ := hword
      have hstop : (cutLine line).dropWhile (fun c => decide (c ≠ NUL)) = rest := by
        have hsplit := List.takeWhile_append_dropWhile (p := fun c => decide (c ≠ NUL))
          (l := cutLine line)
        exact List.append_cancel_left (hsplit.trans hrest.symm)
      cases rest with
      | nil =>
          rw [List.append_nil] at hrest
          rw [hrest] at hlt
          exact absurd hlt (Nat.lt_irrefl _)
      | cons c rest =>
          have hc : c = NUL := by
            have hhead := List.head?_dropWhile_not (fun c => decide (c ≠ NUL)) (cutLine line)
            rw [hstop] at hhead
            simpa using hhead
          simp only [← hrest, List.getElem_append_right (le_refl _), Nat.sub_self,
            List.getElem_cons_zero, hc]
    · rw [heq, update_self]
  · intro hmem
    simpa using List.mem_takeWhile_imp hmem

/-! ## Rounds -/

/-- The lines that were read from the terminal. -/
def linesGiven (answered : List (UserCall × Reply)) : List (List UInt8) :=
  answered.filterMap fun
    | (.fd (.read 0 _ _), reply) => if reply.value ≠ -1 then some reply.out else none
    | _ => none

/-- The commands that were executed, with what `execute` returned. -/
def commandsRun (answered : List (UserCall × Reply)) : List (List UInt8 × Int) :=
  answered.filterMap fun
    | (.execute command _, reply) => some (command, reply.value)
    | _ => none

theorem linesGiven_append (answered more : List (UserCall × Reply)) :
    linesGiven (answered ++ more) = linesGiven answered ++ linesGiven more :=
  List.filterMap_append

theorem commandsRun_append (answered more : List (UserCall × Reply)) :
    commandsRun (answered ++ more) = commandsRun answered ++ commandsRun more :=
  List.filterMap_append

theorem printed_append (answered more : List (UserCall × Reply)) :
    printed (answered ++ more) = printed answered ++ printed more := List.flatMap_append

/-- What the shell says about the end of a command. -/
def outcomeText (value : Int) : List UInt8 :=
  if value = -1 then noSuchCommand else if value = 0 then [] else terminatedAbnormally

/-- A line that the shell is through with: nothing to execute, or a command that returned. -/
inductive ShellRound where
  | blank (line : List UInt8) (hword : shellWord line = [])
  | command (line : List UInt8) (value : Int) (hword : shellWord line ≠ [])
      (hexit : shellWord line ≠ exitText)

namespace ShellRound

def line : ShellRound → List UInt8
  | blank line _ => line
  | command line .. => line

def executed : ShellRound → Option (List UInt8 × Int)
  | blank .. => none
  | command line value .. => some (shellWord line, value)

/-- The prompt, the new line behind the line, and what is said about the command. -/
def text : ShellRound → List UInt8
  | blank .. => promptText ++ [NEWLINE]
  | command _ value .. => promptText ++ [NEWLINE] ++ outcomeText value

end ShellRound

/-- The answered calls are those of rounds that are over, then those that got `lines` and
printed `rest`. -/
structure InRounds (rounds : List ShellRound) (lines : List (List UInt8)) (rest : List UInt8)
    (answered : List (UserCall × Reply)) : Prop where
  lines : linesGiven answered = rounds.map ShellRound.line ++ lines
  commands : commandsRun answered = rounds.filterMap ShellRound.executed
  text : printed answered = startingShell ++ rounds.flatMap ShellRound.text ++ rest

/-- What the calls of the shell have been when it stands at a position. -/
def Shell.Log (answered : List (UserCall × Reply)) : Shell → Prop
  | start _ => answered = []
  | prompt _ => ∃ rounds, InRounds rounds [] [] answered
  | read _ => ∃ rounds, InRounds rounds [] promptText answered
  | execute buf => ∃ rounds line, InRounds rounds [line] (promptText ++ [NEWLINE]) answered ∧
      bufferText buf 1024 = shellWord line ∧ shellWord line ≠ [] ∧ shellWord line ≠ exitText
  | puts text _ => 0 < text.length ∧ ∃ rounds, ∀ reply : Reply, reply.value ≠ -1 →
      InRounds rounds [] [] (answered ++ [(fdputs 1 text, reply)])
  | readFailed => False
  | returned value => value = 0 ∧ ∃ rounds line,
      InRounds rounds [line] (promptText ++ [NEWLINE]) answered ∧ shellWord line = exitText

section Transcript

variable {answered : List (UserCall × Reply)} {rounds : List ShellRound}
  {lines : List (List UInt8)} {rest : List UInt8} {reply : Reply}

theorem printedBy_fdputs {text : List UInt8} (htext : NUL ∉ text) (hdone : reply.value ≠ -1) :
    printedBy (fdputs 1 text, reply) = text := by
  rw [fdputs, printedBy_write _ _ hdone, bufferBytes_getD, List.filter_eq_self]
  intro c hc
  have hne : c ≠ NUL := fun heq => htext (heq ▸ hc)
  simpa using hne

theorem InRounds.puts (hlog : InRounds rounds lines rest answered) {text : List UInt8}
    (htext : NUL ∉ text) (hdone : reply.value ≠ -1) :
    InRounds rounds lines (rest ++ text) (answered ++ [(fdputs 1 text, reply)]) where
  lines := by
    rw [linesGiven_append, hlog.lines]
    exact List.append_nil _
  commands := by
    rw [commandsRun_append, hlog.commands]
    exact List.append_nil _
  text := by rw [printed_snoc, hlog.text, printedBy_fdputs htext hdone, List.append_assoc]

/-- A line that was read is followed by the new line of the terminal. -/
theorem InRounds.read (hlog : InRounds rounds [] promptText answered) (hdone : reply.value ≠ -1) :
    InRounds rounds [reply.out] (promptText ++ [NEWLINE])
      (answered ++ [(.fd (.read 0 true 1023), reply)]) where
  lines := by
    rw [linesGiven_append, hlog.lines, List.append_nil]
    simp [linesGiven, hdone]
  commands := by
    rw [commandsRun_append, hlog.commands]
    exact List.append_nil _
  text := by rw [printed_snoc, hlog.text, printedBy, if_pos ⟨rfl, hdone⟩, List.append_assoc]

theorem InRounds.blank {line : List UInt8}
    (hlog : InRounds rounds [line] (promptText ++ [NEWLINE]) answered)
    (hword : shellWord line = []) :
    InRounds (rounds ++ [.blank line hword]) [] [] answered where
  lines := by rw [hlog.lines, List.map_append, List.append_nil]; rfl
  commands := by rw [hlog.commands, List.filterMap_append]; exact (List.append_nil _).symm
  text := by
    rw [hlog.text, List.flatMap_append, List.flatMap_singleton, List.append_nil, List.append_assoc]
    rfl

/-- With what is said about it the round of a command is over. -/
theorem InRounds.command {line : List UInt8} {regs : Regs}
    (hlog : InRounds rounds [line] (promptText ++ [NEWLINE]) answered)
    (hword : shellWord line ≠ []) (hexit : shellWord line ≠ exitText)
    (more : List (UserCall × Reply))
    (hlines : linesGiven more = []) (hcommands : commandsRun more = [])
    (htext : printed more = outcomeText reply.value) :
    InRounds (rounds ++ [.command line reply.value hword hexit]) [] []
      (answered ++ [(.execute (shellWord line) regs, reply)] ++ more) where
  lines := by
    rw [linesGiven_append, linesGiven_append, hlog.lines, hlines, List.map_append, List.append_nil,
      List.append_nil]
    exact List.append_nil _
  commands := by
    rw [commandsRun_append, commandsRun_append, hlog.commands, hcommands, List.filterMap_append,
      List.append_nil]
    rfl
  text := by
    rw [printed_append, printed_snoc, hlog.text, htext, List.flatMap_append, List.flatMap_singleton,
      ShellRound.text]
    simp [printedBy]

theorem ShellRound.executed_words (rounds : List ShellRound) :
    (rounds.filterMap executed).map Prod.fst =
      ((rounds.map line).map shellWord).filter fun word => word ≠ [] ∧ word ≠ exitText := by
  induction rounds with
  | nil => rfl
  | cons round rounds ih =>
      cases round with
      | blank line hword =>
          rw [List.filterMap_cons_none rfl, ih]
          simp [ShellRound.line, hword]
      | command line value hword hexit =>
          have hsome : executed (command line value hword hexit) = some (shellWord line, value) :=
            rfl
          rw [List.filterMap_cons_some hsome, List.map_cons, ih]
          simp [ShellRound.line, hword, hexit]

/-- Its commands are the words of its lines. -/
theorem InRounds.commands_words (hlog : InRounds rounds lines rest answered) :
    (commandsRun answered).map Prod.fst <+:
      ((linesGiven answered).map shellWord).filter fun word => word ≠ [] ∧ word ≠ exitText := by
  rw [hlog.commands, ShellRound.executed_words, hlog.lines, List.map_append, List.filter_append]
  exact List.prefix_append _ _

theorem Shell.Log.commands_words {pos : Shell} (hlog : pos.Log answered) :
    (commandsRun answered).map Prod.fst <+:
      ((linesGiven answered).map shellWord).filter fun word => word ≠ [] ∧ word ≠ exitText := by
  cases pos with
  | start buf =>
      obtain rfl := hlog
      exact List.prefix_refl _
  | prompt buf | read buf =>
      obtain ⟨rounds, hlog⟩ := hlog
      exact hlog.commands_words
  | execute buf =>
      obtain ⟨rounds, line, hlog, -⟩ := hlog
      exact hlog.commands_words
  | puts text buf =>
      obtain ⟨-, rounds, hlog⟩ := hlog
      -- the write that is still to come runs no command and reads no line
      have hwords := (hlog ⟨0, []⟩ (by decide)).commands_words
      rw [commandsRun_append, linesGiven_append] at hwords
      rwa [show commandsRun [(fdputs 1 text, ⟨0, []⟩)] = [] from rfl,
        show linesGiven [(fdputs 1 text, ⟨0, []⟩)] = [] from rfl, List.append_nil,
        List.append_nil] at hwords
  | readFailed => exact hlog.elim
  | returned value =>
      obtain ⟨-, rounds, line, hlog, -⟩ := hlog
      exact hlog.commands_words

/-- One answered call. -/
theorem Shell.Log.step {pos : Shell} {regs : Regs} (hlog : pos.Log answered) {call : UserCall}
    (hnext : (main regs).next pos = .inl call) (hlawful : Lawful (call, reply)) :
    ((main regs).resume pos reply).Log (answered ++ [(call, reply)]) := by
  have hputs : ∀ {text : List UInt8}, 0 < text.length → Lawful (fdputs 1 text, reply) →
      reply.value ≠ -1 := by
    intro text hpos hlawful
    have hvalue : reply.value = text.length + 1 := hlawful (by exact_mod_cast hpos)
    omega
  cases pos with
  | start buf =>
      obtain rfl := Sum.inl.inj hnext
      obtain rfl := hlog
      have hdone := hputs (by decide) hlawful
      exact ⟨[], rfl, rfl, by rw [printed_snoc, printedBy_fdputs (by decide) hdone]; rfl⟩
  | prompt buf =>
      obtain rfl := Sum.inl.inj hnext
      obtain ⟨rounds, hlog⟩ := hlog
      exact ⟨rounds, hlog.puts (by decide : NUL ∉ promptText) (hputs (by decide) hlawful)⟩
  | read buf =>
      obtain rfl := Sum.inl.inj hnext
      obtain ⟨rounds, hlog⟩ := hlog
      obtain ⟨hvalue, hle⟩ : reply.value = reply.out.length ∧ (reply.out.length : Int) ≤ 1023 :=
        hlawful (by decide)
      have hdone : reply.value ≠ -1 := by omega
      have hbuf := endLine_holds buf reply.out
      -- the word fits into the buffer, so that `execute` and `strcmp` see all of it
      have hshort : (shellWord reply.out).length < 1024 := by
        have hword := (shellWord_front reply.out).length_le
        have hcut := (cutLine_front reply.out).length_le
        omega
      have hexit := hbuf.strcmp_eq_zero (by decide : NUL ∉ exitText) (Nat.zero_le _)
      rw [List.drop_zero] at hexit
      change (Shell.resume (.read buf) reply).Log _
      rw [Shell.resume, if_neg hdone.symm, hvalue]
      dsimp only
      split
      · next hsame => exact ⟨rfl, rounds, reply.out, hlog.read hdone, hexit.mp hsame⟩
      split
      · next hempty => exact ⟨_, (hlog.read hdone).blank (hbuf.first_eq_nul.mp hempty)⟩
      · next hdiffer hsome =>
        exact ⟨rounds, reply.out, hlog.read hdone, hbuf.bufferText hshort,
          fun heq => hsome (hbuf.first_eq_nul.mpr heq), fun heq => hdiffer (hexit.mpr heq)⟩
  | execute buf =>
      obtain rfl := Sum.inl.inj hnext
      obtain ⟨rounds, line, hlog, hbuf, hword, hexit⟩ := hlog
      -- a status is a byte, so that the text for an exception is never printed
      have hstatus : reply.value ≠ 256 := by
        rcases hlawful with hvalue | ⟨status, hvalue⟩
        · omega
        · have hlt := status.toNat_lt
          omega
      have hsaid : ∀ {text : List UInt8}, NUL ∉ text → 0 < text.length →
          outcomeText reply.value = text →
          Shell.Log (answered ++ [(.execute (shellWord line) regs, reply)]) (.puts text buf) := by
        intro text htext hpos houtcome
        refine ⟨hpos, _, fun last hdone => hlog.command hword hexit _ rfl rfl ?_⟩
        rw [printed, List.flatMap_singleton, printedBy_fdputs htext hdone, houtcome]
      rw [hbuf]
      change (Shell.resume (.execute buf) reply).Log _
      rw [Shell.resume]
      split
      · next hrefused =>
        exact hsaid (by decide : NUL ∉ noSuchCommand) (by decide) (if_pos hrefused.symm)
      · next hstarted =>
        rw [if_neg hstatus.symm]
        split
        · next hfailed =>
          refine hsaid (by decide : NUL ∉ terminatedAbnormally) (by decide) ?_
          rw [outcomeText, if_neg (Ne.symm hstarted), if_neg (Ne.symm hfailed)]
        · next hzero =>
          have hdone : reply.value = 0 := (not_not.mp hzero).symm
          have hsilent : printed [] = outcomeText reply.value := by
            rw [hdone]
            rfl
          refine ⟨rounds ++ [.command line reply.value hword hexit], ?_⟩
          rw [← List.append_nil (answered ++ _)]
          exact hlog.command hword hexit [] rfl rfl hsilent
  | puts text buf =>
      obtain rfl := Sum.inl.inj hnext
      obtain ⟨hpos, rounds, hlog⟩ := hlog
      exact ⟨rounds, hlog reply (hputs hpos hlawful)⟩
  | readFailed => exact hlog.elim
  | returned value => cases hnext

/-- All answered calls of a shell. -/
theorem Shell.log_of_trace {pos : Shell} {regs : Regs} {buf : UserBuffer}
    (htrace : (main regs).Trace (start buf) answered pos)
    (hlawful : ∀ call ∈ answered, Lawful call) : pos.Log answered := by
  induction htrace with
  | start => rfl
  | snoc _ hnext ih =>
      exact (ih fun call hmem => hlawful call (List.mem_append_left _ hmem)).step hnext
        (hlawful _ (List.mem_append_right _ List.mem_cons_self))

end Transcript

/-! ## Sessions of the shell -/

/-- A shell in any attentive session, whatever its children do: it is where its log says, and
its commands are the words of the lines it was given, in their order. -/
theorem shell_transcript {img : Image} {t : Terminal} {n : Nat} {k : Kernel} {regs : Regs}
    {buf : UserBuffer} {last : UserSession Shell}
    {history : List (Fired (UserSession Shell) (ClientMove MachineEvent))} (hwf : img.WellFormed)
    (htypes : img.TypesKnown) (hattends : Attends img t n k)
    (hrun : Run (Session.step (Shell.main regs) (kernelService img t n)) ⟨k, .start buf, []⟩
      history last)
    (hallowed : ∀ fired ∈ history, Attentive img t n fired.pre.state fired.event) :
    Hosted img t n last.state ∧ last.pos.Log last.answered ∧
      (commandsRun last.answered).map Prod.fst <+:
        ((linesGiven last.answered).map shellWord).filter
          fun word => word ≠ [] ∧ word ≠ exitText := by
  obtain ⟨hwaits, hlawful⟩ := UserSession.lawful hwf htypes (Shell.shortCommands regs) hrun hallowed
    (hattends.waits _) (by simp)
  have hlog := Shell.log_of_trace (Session.trace hrun rfl) hlawful
  exact ⟨hwaits.hosted, hlog, hlog.commands_words⟩

/-- A shell comes to its first read by its own moves. -/
theorem LineEmpty.shell_prompts {img : Image} {t : Terminal} {n : Nat} {m : ModifierKeys}
    {k : Kernel} (hk : LineEmpty img t n m k) (hwf : img.WellFormed) (htypes : img.TypesKnown)
    (regs : Regs) (buf : UserBuffer) :
    ∃ history after, Run (Session.step (Shell.main regs) (kernelService img t n))
        ⟨k, .start buf, []⟩ history
        ⟨after, .read buf, [(fdputs 1 startingShell, ⟨startingShell.length + 1, []⟩),
          (fdputs 1 promptText, ⟨promptText.length + 1, []⟩)]⟩ ∧
      (∀ fired ∈ history, Attentive img t n fired.pre.state fired.event) ∧
      LinePrompted img t n m after ∧ after.processCount = k.processCount := by
  obtain ⟨first, hserve, hfirst, hcount, -⟩ :=
    hk.writes hwf htypes (by decide : 0 < startingShell.length) (by decide)
  obtain ⟨second, hserve', hsecond, hcount'⟩ :=
    hfirst.prompts hwf htypes (by decide : 0 < promptText.length) (by decide)
  refine ⟨_, second, .cons (Session.own_eq_some.mpr ⟨_, _, first, rfl, hk.runs, hserve, rfl⟩)
    (.single (Session.own_eq_some.mpr ⟨_, _, second, rfl, hfirst.runs, hserve', rfl⟩)),
    fun fired hmem => ?_, hsecond, hcount'.trans hcount⟩
  simp only [List.mem_cons, List.not_mem_nil, or_false] at hmem
  rcases hmem with rfl | rfl
  · exact hk.shown
  · exact hfirst.shown

/-- The child of a shell halts at once. -/
theorem LineEmpty.child_halts {t : Terminal} {n : Nat} {m : ModifierKeys} {s : UserSession Shell}
    {buf : UserBuffer} {regs : Regs} (hk : LineEmpty threeFiles t n m s.state)
    (hcount : s.state.processCount < MAX_PROCESS_COUNT) (hpos : s.pos = .execute buf)
    (hword : bufferText buf 1024 = shellCommand) :
    ∃ history last, Run (Session.step (Shell.main regs) (kernelService threeFiles t n)) s history
        last ∧
      (∀ fired ∈ history, Attentive threeFiles t n fired.pre.state fired.event) ∧
      last.pos = .prompt buf ∧
      last.answered = s.answered ++ [(.execute shellCommand regs, ⟨0, []⟩)] := by
  obtain ⟨hscheduled, hhead⟩ := Kernel.runs_iff.mp hk.runs
  have hshown : s.state.currTerminal = s.state.currScheduled := hk.shown.trans hscheduled.symm
  obtain ⟨before, hset⟩ := hk.routed.settled
  have hlaunching : s.state.launching threeFiles (some shellCommand) = some ⟨0, 0, []⟩ :=
    launching_some_iff.mpr ⟨hcount, threeFiles_shell⟩
  obtain ⟨child, _, hexecute, hlaunched, hset'⟩ :=
    hset.enters hshown hlaunching (by decide) threeFiles_loadable regs
  obtain ⟨result, after, _, hhalt, -, -, -, -, -, hparent, hback⟩ :=
    hset.frees hset' hshown (hset.slotSearch_free hcount).2 hlaunched 0 ⟨0, 0⟩
  have hnext : (Shell.main regs).next s.pos = .inl (.execute shellCommand regs) := by
    rw [hpos, ← hword]
    rfl
  have hserve : s.state.serve threeFiles (.execute shellCommand regs) = some (none, child) := by
    rw [Kernel.serve, hexecute]
    rfl
  -- the shell waits in `execute`, and its child runs in its place
  have hown : s.step (Shell.main regs) (kernelService threeFiles t n) .own =
      some { s with state := child } :=
    Session.own_eq_some.mpr ⟨_, none, child, hnext, hk.runs, hserve, rfl⟩
  have haway : child.head t ≠ n := by
    rw [Kernel.head, hlaunched.heads, hk.shown, update_self]
    exact (hk.hosted.ne_slotSearch hcount).symm
  have hreturned : after.head t = n := by
    rw [← hscheduled, hback, hscheduled, hhead]
  have hstep : machineStep threeFiles child (.kernel (.halt 0 ⟨0, 0⟩)) = some after := by
    simp only [machineStep, step, hhalt, Option.map_some]
  have hbeside : (kernelService threeFiles t n).beside child (.kernel (.halt 0 ⟨0, 0⟩)) := by
    simp [kernelService, Kernel.runs, haway]
  have hdeliver : (kernelService threeFiles t n).deliver child (.kernel (.halt 0 ⟨0, 0⟩)) after =
      some ⟨0, []⟩ := if_pos ⟨haway, hreturned⟩
  have hother : Session.step (Shell.main regs) (kernelService threeFiles t n)
      { s with state := child } (.other (.kernel (.halt 0 ⟨0, 0⟩))) = some _ :=
    Session.other_answers hbeside hstep hnext hdeliver
  have hspares : Spares threeFiles n child (.kernel (.halt 0 ⟨0, 0⟩)) := by
    refine ⟨fun hroot => absurd hparent hroot, .inl ?_⟩
    rw [Kernel.displayedPcb, Kernel.scheduledPcb, hlaunched.currTerminal, hlaunched.currScheduled,
      hshown]
  refine ⟨_, _, .cons hown (.single hother), fun fired hmem => ?_, ?_, rfl⟩
  · simp only [List.mem_cons, List.not_mem_nil, or_false] at hmem
    rcases hmem with rfl | rfl
    · exact hk.shown
    · exact hspares
  · change Shell.resume s.pos ⟨0, []⟩ = _
    rw [hpos]
    rfl

/-- The word `shell` on the keyboard. -/
def shellKeys : List UInt8 := [0x1F, 0x23, 0x12, KEY_L, KEY_L]

/-- A shell under a shell executes a third one, which ends. -/
theorem shell_transcript_child : ∃ k entered history last,
    Commanded threeFiles shellShell k entered ∧
      Run (Session.step (Shell.main ⟨0, 0⟩)
        (kernelService threeFiles k.currScheduled k.newProcess))
        ⟨entered, .start fun _ => NUL, []⟩ history last ∧
      (∀ fired ∈ history,
        Attentive threeFiles k.currScheduled k.newProcess fired.pre.state fired.event) ∧
      linesGiven last.answered = [shellCommand] ∧ commandsRun last.answered = [(shellCommand, 0)] ∧
      ∃ rounds, InRounds rounds [] [] last.answered := by
  obtain ⟨k, entered, hcommand, hempty, hcount⟩ := threeFiles_lineEmpty
  obtain ⟨prompting, second, hprompted, hshown, hsecond, hcount'⟩ :=
    hempty.shell_prompts threeFiles_wellFormed threeFiles_typesKnown ⟨0, 0⟩ fun _ => NUL
  have hplain : ∀ c ∈ shellKeys, c ≠ ALT_PRESSED ∧ c ≠ CTRL_PRESSED :=
    List.all_iff_forall_prop.mp rfl
  have hline : (takenLine noModifiers (shellKeys ++ [ENTER_PRESS])).line.take 1023 =
      shellCommand := by decide +kernel
  obtain ⟨typing, third, htaken⟩ :=
    LinePrompted.takes (s := ⟨second, .read fun _ => NUL, _⟩) hsecond
    threeFiles_wellFormed threeFiles_typesKnown
    (rfl : (Shell.main ⟨0, 0⟩).next _ = .inl (.fd (.read 0 true (1023 : Nat)))) hplain
  rw [hline] at htaken
  have hword : bufferText (Shell.endLine (storedAt (fun _ => NUL) shellCommand)
      shellCommand.length) 1024 = shellCommand :=
    (endLine_holds _ shellCommand).bufferText (by decide)
  have hroom : third.state.processCount < MAX_PROCESS_COUNT := by
    rw [htaken.processCount, hcount', hcount]
    decide
  obtain ⟨ending, last, hended, hspared, hlast, hanswered⟩ :=
    htaken.empty.child_halts hroom (htaken.pos.trans rfl) hword
  have hallowed : ∀ fired ∈ prompting ++ typing ++ ending,
      Attentive threeFiles k.currScheduled k.newProcess fired.pre.state fired.event :=
    List.forall_mem_append.mpr
      ⟨List.forall_mem_append.mpr ⟨hshown, htaken.attentive⟩, hspared⟩
  have hrun := (hprompted.append htaken.run).append hended
  obtain ⟨-, hlog, -⟩ := shell_transcript threeFiles_wellFormed threeFiles_typesKnown
    hempty.toAttends hrun hallowed
  rw [hlast] at hlog
  refine ⟨k, entered, _, last, hcommand, hrun, hallowed, ?_, ?_, hlog⟩
  · rw [hanswered, htaken.answered]
    rfl
  · rw [hanswered, htaken.answered]
    rfl

end Ece391
