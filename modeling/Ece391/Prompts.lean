import Ece391.LineSessions
import Ece391.UserScripts

/-! # Programs that ask for a line

`hello`, `counter` and `syserr` prompt, read one line from the keyboard and go on with it. What
is said of them is about attentive sessions.
-/

namespace Ece391

open Function Transition Sessions RoundRobin Scripts Script

/-- `main` of a program that asks for a line; `status` is returned when there is none. -/
def prompted (prompt cannotRead : List UInt8) (nbytes : Nat) (status : Int)
    (rest : Reply → UserScript Int) : UserScript Int := do
  tell (fdputs 1 prompt)
  let reply ← ask (.fd (.read 0 true nbytes))
  if -1 = reply.value then do
    tell (fdputs 1 cannotRead)
    return status
  else rest reply

/-! ## `hello` -/

def whatsYourName : List UInt8 := ascii
  ['H', 'i', ',', ' ', 'w', 'h', 'a', 't', Char.ofNat 39, 's', ' ', 'y', 'o', 'u', 'r', ' ', 'n',
    'a', 'm', 'e', '?', ' ']

def cannotReadName : List UInt8 := ascii
  ['C', 'a', 'n', Char.ofNat 39, 't', ' ', 'r', 'e', 'a', 'd', ' ', 'n', 'a', 'm', 'e', ' ', 'f',
    'r', 'o', 'm', ' ', 'k', 'e', 'y', 'b', 'o', 'a', 'r', 'd', '.', '\n']

def helloText : List UInt8 := ascii ['H', 'e', 'l', 'l', 'o', ',', ' ']

/-- The size of the buffers of `hello` and `counter`. -/
def lineRoom : Nat := 1024

/-- The buffer behind the read, with a NUL byte behind the line. -/
def lineBuffer (buf : UserBuffer) (reply : Reply) : UserBuffer :=
  update (storedAt buf reply.out) reply.value.toNat NUL

/-- `main` of `ece391hello.c`. -/
def helloMain (buf : UserBuffer) : UserScript Int :=
  prompted whatsYourName cannotReadName 1023 3 fun reply => do
    tell (fdputs 1 helloText)
    tell (fdputs 1 (bufferText (lineBuffer buf reply) lineRoom))
    return 0

/-! ## The calls -/

section Calls

variable {prompt cannotRead : List UInt8} {nbytes : Nat} {status : Int}
  {rest : Reply → UserScript Int}

theorem prompted_tame (hrest : ∀ reply, (rest reply).Asks Tame) :
    (prompted prompt cannotRead nbytes status rest).Asks Tame := by
  refine (Asks.tell (.fd _)).bind fun _ =>
    (Asks.ask (.fd _)).bind fun reply => .ite ?_ (hrest reply)
  exact (Asks.tell (.fd _)).bind fun _ => .done _

theorem helloMain_tame (buf : UserBuffer) : (helloMain buf).Asks Tame :=
  prompted_tame fun _ => (Asks.tell (.fd _)).bind fun _ => (Asks.tell (.fd _)).bind fun _ => .done _

/-! ## What is shown -/

variable {img : Image} {text : List UInt8 → List UInt8}

/-- One line was read, and what is shown is the prompt, the line's end and the text for it. -/
def Told (prompt : List UInt8) (text : List UInt8 → List UInt8) (nbytes : Nat) (value : Int)
    (answered : List (UserCall × Reply)) : Prop :=
  value = 0 ∧ ∃ line : List UInt8, line.length ≤ nbytes ∧ linesGiven answered = [line] ∧
    printed answered = prompt ++ [NEWLINE] ++ text line

theorem prompted_ensures (hprompt : NUL ∉ prompt)
    (hrest : ∀ line : List UInt8, line.length ≤ nbytes →
      Says img (rest ⟨line.length, line⟩) terminalFds 0 (text line) terminalFds) :
    (prompted prompt cannotRead nbytes status rest).Ensures (scriptRules img 1)
      (fun value view => Told prompt text nbytes value view.answered) ⟨terminalFds, []⟩ := by
  have hprints : Says img (tell (fdputs 1 prompt)) terminalFds ⟨⟩ prompt terminalFds :=
    .fdputs hprompt
  refine (hprints 1 []).bind ?_
  rintro ⟨⟩ ⟨left, log⟩ ⟨-, hused, hprinted, hlines⟩
  dsimp only at hused hprinted hlines
  subst hused
  -- no line was read so far, so that the rules allow this read
  have hread : (ask (.fd (.read 0 true nbytes)) : UserScript Reply).Ensures (scriptRules img 1)
      (fun reply view => view.used = terminalFds ∧ reply.value = reply.out.length ∧
        reply.out.length ≤ nbytes ∧ linesGiven view.answered = [reply.out] ∧
        printed view.answered = prompt ++ [NEWLINE]) ⟨terminalFds, log⟩ := by
    refine .ask (.inr ⟨by rw [hlines]; decide, nbytes, rfl⟩) ?_
    rintro ⟨value, out⟩ ⟨left, log'⟩ ⟨⟨hlawful, -, hleft⟩, rfl⟩
    obtain ⟨rfl, hroom⟩ : value = out.length ∧ (out.length : Int) ≤ nbytes :=
      hlawful (Int.natCast_nonneg nbytes)
    have hgiven : (out.length : Int) ≠ -1 := by omega
    refine ⟨hleft, rfl, Int.ofNat_le.mp hroom, ?_, ?_⟩
    · rw [linesGiven_append, hlines]
      simp [linesGiven, hgiven]
    · have hline : printedBy (.fd (.read 0 true nbytes), ⟨out.length, out⟩) = [NEWLINE] := by
        rw [printedBy, if_pos ⟨rfl, hgiven⟩]
      rw [printed_snoc, hprinted, hline]
      rfl
  refine hread.bind ?_
  rintro ⟨value, out⟩ ⟨left, log'⟩ ⟨hused, hvalue, hroom, hlines, hprinted⟩
  dsimp only at hused hvalue hroom hlines hprinted
  subst hused hvalue
  -- the value is the length of a line, and the branch of the failed read is not taken
  rw [if_neg (by dsimp only; omega)]
  refine (hrest out hroom 1 log').mono ?_
  rintro _ view ⟨rfl, -, hshown, hgiven⟩
  refine ⟨rfl, out, hroom, hgiven.trans hlines, ?_⟩
  rw [hshown, hprinted]

end Calls

/-! ## Sessions -/

/-- How far a session is that shows `prompt` and, for the line it is given, `text`. -/
structure Telling (img : Image) (t : Terminal) (n : Nat) (prompt : List UInt8)
    (text : List UInt8 → List UInt8) (nbytes : Nat)
    (last : UserSession { s : UserScript Int // s.Asks Tame }) : Prop where
  /-- What is shown is the front of what will be. -/
  front : ∃ line : List UInt8, line.length ≤ nbytes ∧ linesGiven last.answered <+: [line] ∧
    printed last.answered <+: prompt ++ [NEWLINE] ++ text line
  ended : ∀ value, last.pos.1 = done value → Told prompt text nbytes value last.answered
  /-- Behind the line the timer and the program's own calls are enough. -/
  ends : (linesGiven last.answered).length = 1 → last.state.currTerminal = t →
    last.state.switchFlag = none → ∃ more final,
      Run (Session.step scriptProgram (kernelService img t n)) last more final ∧
      (∀ fired ∈ more, fired.event = .own ∨ sessionTick fired.event = true) ∧
      final.pos.1 = done 0

section Sessions

variable {img : Image} {command prompt : List UInt8} {text : List UInt8 → List UInt8} {nbytes : Nat}
  {k entered : Kernel} {script : UserScript Int} {hasks : script.Asks Tame}
  {last : UserSession { s : UserScript Int // s.Asks Tame }}
  {history : List (Fired (UserSession { s : UserScript Int // s.Asks Tame })
    (ClientMove MachineEvent))}

/-- What the rules prove of a script's text holds of its sessions. -/
theorem Commanded.telling (hwf : img.WellFormed) (htypes : img.TypesKnown)
    (hcommand : Commanded img command k entered)
    (hscript : script.Ensures (scriptRules img 1)
      (fun value view => Told prompt text nbytes value view.answered) ⟨terminalFds, []⟩)
    (hrun : Run (Session.step scriptProgram (kernelService img k.currScheduled k.newProcess))
      ⟨entered, ⟨script, hasks⟩, []⟩ history last)
    (hallowed : ∀ fired ∈ history,
      Attentive img k.currScheduled k.newProcess fired.pre.state fired.event) :
    Telling img k.currScheduled k.newProcess prompt text nbytes last := by
  have hstart := hcommand.justStarted
  have hentered : script.Ensures (scriptRules img 1)
      (fun value view => Told prompt text nbytes value view.answered)
      (entered.viewOf k.newProcess []) := by
    rw [Kernel.viewOf, hstart.usedFds_eq]
    exact hscript
  obtain ⟨hattends, hensures⟩ :=
    UserSession.ensures hwf htypes hrun hallowed hstart.toAttends hentered
  refine ⟨?_, fun value hvalue => ?_, fun hgiven hshown hflag => ?_⟩
  · -- some replies would bring the script to its end, and there the whole text is printed
    obtain ⟨value, view, ⟨-, line, hroom, hline, hprinted⟩, more, hmore⟩ :=
      hattends.table.inUse.reaches hensures
    refine ⟨line, hroom, ?_, ?_⟩
    · rw [← hline, ← hmore, linesGiven_append]
      exact List.prefix_append _ _
    · rw [← hprinted, ← hmore, printed_append]
      exact List.prefix_append _ _
  · rw [hvalue] at hensures
    exact hensures
  · -- first the ticks that bring the turn back, then the calls that are left
    obtain ⟨count, -, ticks, next, hticks, hruns⟩ := hattends.regains
    obtain ⟨hnext, hheld⟩ := UserSession.ensures hwf htypes hticks.run
      (fun fired hmem => (hticks.allowed fired hmem).1) hattends hensures
    have hdisplayed : Displayed img k.currScheduled k.newProcess next.state :=
      ⟨hnext, hruns, (hticks.shown hflag).2.trans hshown⟩
    have hgiven' : (linesGiven next.answered).length = 1 := by rw [hticks.answered, hgiven]
    obtain ⟨more, final, value, hmore, hown, hpos, rfl, -⟩ :=
      hdisplayed.script_ends hwf htypes next.pos.2 hheld hgiven'
    refine ⟨ticks ++ more, final, hticks.run.append hmore, ?_, hpos⟩
    intro fired hmem
    rcases List.mem_append.mp hmem with hmem | hmem
    · exact .inr (hticks.ticks fired hmem)
    · exact .inl (hown fired hmem).1

/-- A session in which a line is typed at the prompt, ticks pass, and the program ends. -/
structure Answered (img : Image) (t : Terminal) (n : Nat) (line : List UInt8)
    (s : UserSession { s : UserScript Int // s.Asks Tame })
    (history : List (Fired (UserSession { s : UserScript Int // s.Asks Tame })
      (ClientMove MachineEvent)))
    (last : UserSession { s : UserScript Int // s.Asks Tame }) : Prop where
  run : Run (Session.step scriptProgram (kernelService img t n)) s history last
  attentive : ∀ fired ∈ history, Attentive img t n fired.pre.state fired.event
  ticks : 3 ≤ tickCount sessionTick history
  line : linesGiven last.answered = [line]
  ended : last.pos.1 = done 0

theorem Answered.printed {t : Terminal} {n : Nat} {line : List UInt8}
    {s : UserSession { s : UserScript Int // s.Asks Tame }}
    (hs : Answered img t n line s history last)
    (htelling : Telling img t n prompt text nbytes last) :
    printed last.answered = prompt ++ [NEWLINE] ++ text line := by
  obtain ⟨-, given, -, hgiven, hprinted⟩ := htelling.ended 0 hs.ended
  obtain ⟨hsame, -⟩ := List.cons.inj (hgiven.symm.trans hs.line)
  rw [hprinted, hsame]

/-- A line that is typed at the prompt is read, and what is shown then is shown for it. -/
theorem Commanded.answers (hwf : img.WellFormed) (htypes : img.TypesKnown)
    (hcommand : Commanded img command k entered) {m : ModifierKeys} {cannotRead : List UInt8}
    {status : Int} {rest : Reply → UserScript Int}
    (hempty : LineEmpty img k.currScheduled k.newProcess m entered)
    (hasks : (prompted prompt cannotRead nbytes status rest).Asks Tame)
    (hscript : (prompted prompt cannotRead nbytes status rest).Ensures (scriptRules img 1)
      (fun value view => Told prompt text nbytes value view.answered) ⟨terminalFds, []⟩)
    (hprompt : NUL ∉ prompt) (hpos : 0 < prompt.length) {codes : List UInt8}
    (hplain : ∀ c ∈ codes, c ≠ ALT_PRESSED ∧ c ≠ CTRL_PRESSED) :
    ∃ history last, Answered img k.currScheduled k.newProcess
      ((takenLine m (codes ++ [ENTER_PRESS])).line.take nbytes)
      ⟨entered, ⟨prompted prompt cannotRead nbytes status rest, hasks⟩, []⟩ history last := by
  have hstart := hcommand.justStarted
  obtain ⟨after, hserve, hafter, -⟩ := hempty.prompts hwf htypes hpos hprompt
  let start : UserSession { s : UserScript Int // s.Asks Tame } :=
    ⟨entered, ⟨prompted prompt cannotRead nbytes status rest, hasks⟩, []⟩
  let first := start.answer scriptProgram (fdputs 1 prompt) (some ⟨prompt.length + 1, []⟩) after
  have hown : start.step scriptProgram (kernelService img k.currScheduled k.newProcess) .own =
      some first := Session.own_eq_some.mpr ⟨_, _, after, rfl, hstart.runs, hserve, rfl⟩
  have hread : scriptProgram.next first.pos = .inl (.fd (.read 0 true nbytes)) := rfl
  obtain ⟨taken, next, htaken⟩ :=
    LinePrompted.takes (s := first) hafter hwf htypes hread hplain
  set line := (takenLine m (codes ++ [ENTER_PRESS])).line.take nbytes
  have hrun := Run.cons hown htaken.run
  have hallowed : ∀ fired ∈ ⟨start, .own, first⟩ :: taken,
      Attentive img k.currScheduled k.newProcess fired.pre.state fired.event := by
    intro fired hmem
    rcases List.mem_cons.mp hmem with rfl | hmem
    · exact hstart.shown
    · exact htaken.attentive fired hmem
  have hentered : start.pos.1.Ensures (scriptRules img 1)
      (fun value view => Told prompt text nbytes value view.answered)
      (entered.viewOf k.newProcess []) := by
    rw [Kernel.viewOf, hstart.usedFds_eq]
    exact hscript
  obtain ⟨-, hensures⟩ := UserSession.ensures hwf htypes hrun hallowed hstart.toAttends hentered
  have hgiven : linesGiven next.answered = [line] := by
    have hdone : (line.length : Int) ≠ -1 := by omega
    rw [htaken.answered, linesGiven_append]
    simp [linesGiven, hdone, first, start, Session.answer, fdputs]
  -- behind the line the program's own calls are all that is left
  obtain ⟨more, last, value, hmore, hown, hpos, ⟨rfl, given, -, hline, -⟩⟩ :=
    htaken.empty.toDisplayed.script_ends hwf htypes next.pos.2 hensures (by rw [hgiven]; rfl)
  refine ⟨_, last, hrun.append hmore, fun fired hmem => ?_, ?_, ?_, hpos⟩
  · rcases List.mem_append.mp hmem with hmem | hmem
    · exact hallowed fired hmem
    · obtain ⟨hevent, hshown⟩ := hown fired hmem
      rw [hevent]
      exact hshown
  · have hticks := htaken.ticks
    rw [tickCount] at hticks ⊢
    rw [List.countP_append, List.countP_cons, hticks]
    omega
  · obtain ⟨rest, hrest⟩ := Session.answered_prefix hmore
    have hkept : linesGiven last.answered = line :: linesGiven rest := by
      rw [← hrest, linesGiven_append, hgiven]
      rfl
    change linesGiven last.answered = [given] at hline
    obtain ⟨hsame, -⟩ := List.cons.inj (hkept.symm.trans hline)
    rw [hline, ← hsame]

end Sessions

/-! ## `hello` greets -/

theorem nul_notMem_word (line : List UInt8) : NUL ∉ line.takeWhile fun c => c ≠ NUL := by
  intro hmem
  have hne := List.mem_takeWhile_imp hmem
  simp at hne

/-- The line up to its first NUL byte is the text in the buffer. -/
theorem lineBuffer_text (buf : UserBuffer) {line : List UInt8} (hroom : line.length ≤ 1023) :
    bufferText (lineBuffer buf ⟨line.length, line⟩) lineRoom =
      line.takeWhile fun c => c ≠ NUL := by
  refine bufferText_front (fun i hi => ?_) (update_self _ _ _) (Nat.lt_succ_of_le hroom)
  rw [lineBuffer, Int.toNat_natCast, update_of_ne hi.ne]
  exact storedAt_front buf hi

def helloAnswer (line : List UInt8) : List UInt8 := helloText ++ line.takeWhile fun c => c ≠ NUL

theorem helloMain_ensures (img : Image) (buf : UserBuffer) :
    (helloMain buf).Ensures (scriptRules img 1)
      (fun value view => Told whatsYourName helloAnswer 1023 value view.answered)
      ⟨terminalFds, []⟩ := by
  refine prompted_ensures (by decide) fun line hroom => ?_
  rw [lineBuffer_text buf hroom]
  exact (Says.fdputs (by decide)).bind (.prints (nul_notMem_word line) 0)

section Hello

variable {img : Image} {command : List UInt8} {k entered : Kernel} {buf : UserBuffer}
  {last : UserSession { s : UserScript Int // s.Asks Tame }}
  {history : List (Fired (UserSession { s : UserScript Int // s.Asks Tame })
    (ClientMove MachineEvent))}

/-- In every attentive session, however the other programs, the keyboard and the timers
interleave with `hello`, it greets who was named. -/
theorem hello_greets (hwf : img.WellFormed) (htypes : img.TypesKnown)
    (hcommand : Commanded img command k entered)
    (hrun : Run (Session.step scriptProgram (kernelService img k.currScheduled k.newProcess))
      ⟨entered, ⟨helloMain buf, helloMain_tame buf⟩, []⟩ history last)
    (hallowed : ∀ fired ∈ history,
      Attentive img k.currScheduled k.newProcess fired.pre.state fired.event) :
    Telling img k.currScheduled k.newProcess whatsYourName helloAnswer 1023 last :=
  hcommand.telling hwf htypes (helloMain_ensures img buf) hrun hallowed

/-- The key of the digit 0. -/
def KEY_ZERO : UInt8 := 0x0B

/-- `Anm`, Backspace and `n` are typed. -/
def annKeys : List UInt8 :=
  [SHIFT_PRESSED1, KEY_A, SHIFT_RELEASED1, 0x31, KEY_M, BACKSPACE, 0x31]

theorem hello_greets_name : ∃ k entered history last, Commanded threeFiles shellShell k entered ∧
    Answered threeFiles k.currScheduled k.newProcess (ascii ['A', 'n', 'n'])
      ⟨entered, ⟨helloMain fun _ => NUL, helloMain_tame _⟩, []⟩ history last ∧
    printed last.answered =
      whatsYourName ++ [NEWLINE] ++ (helloText ++ ascii ['A', 'n', 'n']) := by
  obtain ⟨k, entered, hcommand, hempty, -⟩ := threeFiles_lineEmpty
  have hplain : ∀ c ∈ annKeys, c ≠ ALT_PRESSED ∧ c ≠ CTRL_PRESSED :=
    List.all_iff_forall_prop.mp rfl
  have hline : (takenLine noModifiers (annKeys ++ [ENTER_PRESS])).line.take 1023 =
      ascii ['A', 'n', 'n'] := by decide +kernel
  obtain ⟨history, last, hanswered⟩ := hcommand.answers threeFiles_wellFormed threeFiles_typesKnown
    hempty (helloMain_tame fun _ => NUL) (helloMain_ensures _ _) (by decide) (by decide) hplain
  rw [hline] at hanswered
  have hprinted := hanswered.printed (hello_greets threeFiles_wellFormed threeFiles_typesKnown
    hcommand hanswered.run hanswered.attentive)
  exact ⟨k, entered, history, last, hcommand, hanswered, hprinted⟩

end Hello

end Ece391
