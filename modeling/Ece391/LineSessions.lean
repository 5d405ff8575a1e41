import Ece391.KeyDecoding
import Ece391.Turns

/-! # A line typed to a program

A program that shows a prompt and reads a line gets what is typed behind the prompt, also when
ticks come between the Enter and the read.
-/

namespace Ece391

open Function Transition Sessions RoundRobin

section Lines

variable {img : Image} {t : Terminal} {n : Nat} {m : ModifierKeys} {k : Kernel} {Pos : Type}
  {program : UserProgram Pos} {s : UserSession Pos}

/-- Process `n` runs on terminal `t`, which is displayed, and nothing is typed that it has not
read. -/
structure LineEmpty (img : Image) (t : Terminal) (n : Nat) (m : ModifierKeys) (k : Kernel) : Prop
    extends Displayed img t n k where
  routed : RoutedSystem img k
  line : k.kb.line = []
  follows : k.kb.Follows m
  quiet : k.switchFlag = none

/-- The prompt stands in front of the cursor. -/
structure LinePrompted (img : Image) (t : Terminal) (n : Nat) (m : ModifierKeys) (k : Kernel) :
    Prop extends LineEmpty img t n m k where
  behind : 0 < k.display.cursorCell

theorem LinePrompted.typing (hk : LinePrompted img t n m k) : k.Typing ⟨m, []⟩ where
  sound := hk.routed.sound
  behind := by
    rw [hk.line]
    exact hk.behind
  follows := hk.follows
  line := hk.line
  shown := hk.shown.trans (Kernel.runs_iff.mp hk.runs).1.symm

/-! ## The prompt -/

/-- Behind a text the cursor is not at home. -/
theorem ScreenAction.print_position {text : List UInt8} (htext : text ≠ []) (screen : Screen) :
    0 < ((ScreenAction.print text).apply screen).position := by
  obtain ⟨front, c, rfl⟩ := (List.eq_nil_or_concat' text).resolve_left htext
  simp only [ScreenAction.apply, List.foldl_append, List.foldl_cons, List.foldl_nil]
  exact TextScreen.position_print_pos SPACE_CHAR (by decide) isBreak _ c

/-- A text is written, and nothing is typed meanwhile. -/
theorem LineEmpty.writes (hk : LineEmpty img t n m k) (hwf : img.WellFormed)
    (htypes : img.TypesKnown) {text : List UInt8} (hpos : 0 < text.length) (htext : NUL ∉ text) :
    ∃ after, k.serve img (fdputs 1 text) = some (some ⟨text.length + 1, []⟩, after) ∧
      LineEmpty img t n m after ∧ after.processCount = k.processCount ∧
      ∀ screen, k.display.Shows t screen →
        after.display.Shows t ((ScreenAction.print text).apply screen) := by
  obtain ⟨after, hserve, hafter, -, hinput⟩ :=
    hk.write_stdout hwf htypes (fun i => text.getD i NUL) hpos
  have hstep : machineStep img k (.kernel (fdputs 1 text).event) = some after :=
    Kernel.serve_step hserve
  have hdisc : MachineEvent.Disciplined img k (.kernel (fdputs 1 text).event) := trivial
  obtain ⟨hkb, hflag⟩ := Prod.mk.inj hinput
  obtain ⟨⟨result, last⟩, hcall, heq⟩ := Option.map_eq_some_iff.mp hserve
  obtain ⟨hreply, rfl⟩ := Prod.mk.inj heq
  refine ⟨last, hserve, ⟨hafter, hk.routed.step hdisc hstep, ?_, ?_, hflag.trans hk.quiet⟩,
    (Kernel.write_same hcall).processCount, fun screen hs => ?_⟩
  · rw [hkb]
    exact hk.line
  · rw [hkb]
    exact ⟨hk.follows.caps, hk.follows.latest, hk.follows.altKey, hk.follows.ctrlKey⟩
  · have hshows := hk.call_shows hwf htypes hk.routed.routed hcall hs
    rw [hreply] at hshows
    have hprinted : printedBy (fdputs 1 text, ⟨text.length + 1, []⟩) = text := by
      rw [fdputs, printedBy_write _ _ (by dsimp only; omega), bufferBytes_getD,
        List.filter_eq_self.mpr]
      intro c hc
      have hne : c ≠ NUL := fun heq => htext (heq ▸ hc)
      simpa using hne
    dsimp only at hshows
    rw [← hprinted]
    exact hshows

theorem LineEmpty.prompts (hk : LineEmpty img t n m k) (hwf : img.WellFormed)
    (htypes : img.TypesKnown) {prompt : List UInt8} (hpos : 0 < prompt.length)
    (hprompt : NUL ∉ prompt) :
    ∃ after, k.serve img (fdputs 1 prompt) = some (some ⟨prompt.length + 1, []⟩, after) ∧
      LinePrompted img t n m after ∧ after.processCount = k.processCount := by
  obtain ⟨after, hserve, hafter, hcount, hshows⟩ := hk.writes hwf htypes hpos hprompt
  obtain ⟨screen, hs⟩ := exists_shown (k.display.page (k.display.own t))
    (hk.routed.sound.inRange t).1 (hk.routed.sound.inRange t).2
  refine ⟨after, hserve, ⟨hafter, ?_⟩, hcount⟩
  have hprinted := hshows screen hs
  rw [← hafter.shown] at hprinted
  rw [hprinted.cursorCell]
  exact ScreenAction.print_position (List.ne_nil_of_length_pos hpos) screen

/-! ## The line -/

/-- A session behind keys alone. -/
structure BehindKeys (img : Image) (t : Terminal) (n : Nat) (program : UserProgram Pos)
    (s : UserSession Pos) (codes : List UInt8)
    (more : List (Fired (UserSession Pos) (ClientMove MachineEvent))) : Prop where
  run : Run (Session.step program (kernelService img t n)) s more
    { s with state := s.state.type codes }
  keys : ∀ fired ∈ more, ∃ c, fired.event = .other (.kernel (.key c))
  attends : Attends img t n (s.state.type codes)
  routed : RoutedSystem img s.state → RoutedSystem img (s.state.type codes)

theorem Attends.types (hk : Attends img t n s.state) (codes : List UInt8) :
    ∃ more, BehindKeys img t n program s codes more := by
  induction codes generalizing s with
  | nil => exact ⟨[], .start s, by simp, hk, id⟩
  | cons c rest ih =>
      have hdisc : MachineEvent.Disciplined img s.state (.kernel (.key c)) := trivial
      obtain ⟨more, hmore⟩ := ih (s := { s with state := s.state.keyboardInterrupt c })
        (hk.key c)
      refine ⟨_, .cons (hk.key_session c) hmore.run, fun fired hmem => ?_, hmore.attends,
        fun hrouted => hmore.routed (hrouted.step hdisc rfl)⟩
      rcases List.mem_cons.mp hmem with rfl | hmem
      · exact ⟨c, rfl⟩
      · exact hmore.keys fired hmem

theorem BehindKeys.attentive {codes : List UInt8}
    {more : List (Fired (UserSession Pos) (ClientMove MachineEvent))}
    (hmore : BehindKeys img t n program s codes more) :
    ∀ fired ∈ more, Attentive img t n fired.pre.state fired.event := by
  intro fired hmem
  obtain ⟨c, hkey⟩ := hmore.keys fired hmem
  rw [hkey]
  exact .inr id

theorem BehindKeys.tickCount {codes : List UInt8}
    {more : List (Fired (UserSession Pos) (ClientMove MachineEvent))}
    (hmore : BehindKeys img t n program s codes more) : tickCount sessionTick more = 0 := by
  refine List.countP_eq_zero.mpr fun fired hmem => ?_
  obtain ⟨c, hkey⟩ := hmore.keys fired hmem
  rw [hkey]
  exact Bool.false_ne_true

/-- Without Alt and Ctrl keys ask for no other terminal and start nothing. -/
theorem Kernel.Typing.type_stays (hk : k.Typing ⟨m, []⟩) {codes : List UInt8}
    (hplain : ∀ c ∈ codes, c ≠ ALT_PRESSED ∧ c ≠ CTRL_PRESSED) :
    (k.type codes).switchFlag = k.switchFlag ∧ (k.type codes).currTerminal = k.currTerminal ∧
      (k.type codes).currScheduled = k.currScheduled ∧
      (k.type codes).processCount = k.processCount := by
  induction codes using List.reverseRecOn with
  | nil => exact ⟨rfl, rfl, rfl, rfl⟩
  | append_singleton codes c ih =>
      have hcodes : ∀ c' ∈ codes, c' ≠ ALT_PRESSED ∧ c' ≠ CTRL_PRESSED :=
        fun c' hmem => hplain c' (List.mem_append_left _ hmem)
      obtain ⟨hflag, hshown, hscheduled, hcount⟩ := ih hcodes
      obtain ⟨halt, hctrl⟩ := hplain c (List.mem_append_right _ (List.mem_singleton_self c))
      obtain ⟨key, hkey, -⟩ := (hk.type hcodes).lineKey halt hctrl
      obtain ⟨hstay, -⟩ := KeyState.action_of_lineKey (s := (k.type codes).keyState) hkey
      have hrequest := (k.type codes).key_request hstay
      simp only [Kernel.request, Prod.mk.injEq] at hrequest
      obtain ⟨-, hflag', hshown'⟩ := hrequest
      have hsnoc : k.type (codes ++ [c]) = (k.type codes).keyboardInterrupt c := by
        rw [Kernel.type, List.foldl_append]
        rfl
      rw [hsnoc]
      exact ⟨hflag'.trans hflag, hshown'.trans hshown, hscheduled, hcount⟩

/-- A session in which a line was entered at the prompt. Three ticks took the turn from the
program and brought it back. -/
structure LineEntered (img : Image) (t : Terminal) (n : Nat) (m : ModifierKeys)
    (program : UserProgram Pos) (s : UserSession Pos) (line : List UInt8)
    (history : List (Fired (UserSession Pos) (ClientMove MachineEvent))) (next : UserSession Pos) :
    Prop extends Displayed img t n next.state where
  run : Run (Session.step program (kernelService img t n)) s history next
  attentive : ∀ fired ∈ history, Attentive img t n fired.pre.state fired.event
  ticks : tickCount sessionTick history = 3
  pos : next.pos = s.pos
  answered : next.answered = s.answered
  routed : RoutedSystem img next.state
  line : next.state.kb.line = line
  enterFlag : next.state.kb.enterFlag = true
  follows : next.state.kb.Follows m
  quiet : next.state.switchFlag = none
  processCount : next.state.processCount = s.state.processCount

theorem LinePrompted.enters (hk : LinePrompted img t n m s.state) {codes : List UInt8}
    (hplain : ∀ c ∈ codes, c ≠ ALT_PRESSED ∧ c ≠ CTRL_PRESSED) :
    ∃ history next, LineEntered img t n (takenLine m (codes ++ [ENTER_PRESS])).modifiers program s
      (takenLine m (codes ++ [ENTER_PRESS])).line history next := by
  have hplain' : ∀ c ∈ codes ++ [ENTER_PRESS], c ≠ ALT_PRESSED ∧ c ≠ CTRL_PRESSED :=
    List.forall_mem_append.mpr ⟨hplain, List.forall_mem_singleton.mpr (by decide)⟩
  have htyped := hk.typing.type hplain'
  obtain ⟨hflag, hshown, hscheduled, hcount⟩ := hk.typing.type_stays hplain'
  have henter : (s.state.type (codes ++ [ENTER_PRESS])).kb.enterFlag = true := by
    obtain ⟨-, henter, -⟩ := Kernel.key_line (hk.typing.type hplain).follows.lineKey_enter
    rw [Kernel.type, List.foldl_append]
    exact henter.trans (by simp)
  let entered : UserSession Pos := { s with state := s.state.type (codes ++ [ENTER_PRESS]) }
  obtain ⟨keys, hkeys⟩ : ∃ more, BehindKeys img t n program s (codes ++ [ENTER_PRESS]) more :=
    hk.toAttends.types _
  obtain ⟨ticks, next, hticks⟩ : ∃ more next, BehindTicks img t n program entered 3 more next :=
    Attends.behindTicks (s := entered) hkeys.attends 3
  obtain ⟨hquiet, hstays⟩ := hticks.shown (hflag.trans hk.quiet)
  have hturn : next.state.currScheduled = t := by
    rw [hticks.turn, ← (Kernel.runs_iff.mp hk.runs).1]
    change Terminal.next^[3] (s.state.type (codes ++ [ENTER_PRESS])).currScheduled = _
    rw [hscheduled]
    cases s.state.currScheduled <;> rfl
  refine ⟨keys ++ ticks, next, ⟨hticks.attends,
    Kernel.runs_iff.mpr ⟨hturn, hticks.attends.head⟩, hstays.trans (hshown.trans hk.shown)⟩,
    hkeys.run.append hticks.run, ?_, ?_, hticks.pos, hticks.answered,
    hticks.routed (hkeys.routed hk.routed), ?_, ?_, ?_, hquiet,
    hticks.processCount.trans hcount⟩
  · exact List.forall_mem_append.mpr
      ⟨hkeys.attentive, fun fired hmem => (hticks.allowed fired hmem).1⟩
  · rw [tickCount, List.countP_append, ← tickCount, ← tickCount, hkeys.tickCount,
      hticks.tickCount]
  -- a tick leaves the keyboard as it is
  · exact (congrArg Keyboard.line hticks.kb).trans htyped.line
  · rw [hticks.kb]
    exact henter
  · rw [hticks.kb]
    exact htyped.follows

/-- Behind the Enter a read takes the line. -/
theorem Displayed.takes_line (hk : Displayed img t n k) (hwf : img.WellFormed)
    (htypes : img.TypesKnown) (henter : k.kb.enterFlag = true) (nbytes : Nat) :
    ∃ after, k.serve img (.fd (.read 0 true nbytes)) =
        some (some ⟨(k.kb.line.take nbytes).length, k.kb.line.take nbytes⟩, after) ∧
      Displayed img t n after ∧ after.kb.line = [] ∧ (k.kb.Follows m → after.kb.Follows m) ∧
      after.switchFlag = k.switchFlag ∧ after.processCount = k.processCount := by
  have hscheduled := (Kernel.runs_iff.mp hk.runs).1
  have hshown : k.currTerminal = k.currScheduled := hk.shown.trans hscheduled.symm
  obtain ⟨hreturned, hempty⟩ := Kernel.terminalRead_line henter hshown nbytes
  have hread : k.read img 0 true nbytes = some (k.terminalRead nbytes) := hk.read_stdin nbytes
  have htaken : (k.terminalRead nbytes).2 = (k.takeLine nbytes).2 := by
    rw [Kernel.terminalRead, if_neg (by omega), if_pos ⟨henter, hshown⟩]
  obtain ⟨result, after, hread', -, hsound⟩ := hk.fdsSound.read hwf htypes 0 true nbytes
  obtain rfl : (k.terminalRead nbytes).2 = after :=
    congrArg Prod.snd (Option.some.inj (hread.symm.trans hread'))
  refine ⟨(k.terminalRead nbytes).2, ?_, hk.of_sound (Kernel.read_same hread) hsound, hempty,
    fun hfollows => ?_, ?_, (Kernel.read_same hread).processCount⟩
  · rw [Kernel.serve, Kernel.call, hread, Option.map_some, hreturned, List.length_take,
      Nat.cast_min]
    rfl
  · rw [htaken]
    exact ⟨hfollows.caps, hfollows.latest, hfollows.altKey, hfollows.ctrlKey⟩
  · rw [htaken]
    rfl

/-- A session in which a line was typed and read, with three ticks in between. -/
structure LineTaken (img : Image) (t : Terminal) (n : Nat) (m : ModifierKeys)
    (program : UserProgram Pos) (s : UserSession Pos) (nbytes : Nat) (line : List UInt8)
    (history : List (Fired (UserSession Pos) (ClientMove MachineEvent))) (last : UserSession Pos) :
    Prop where
  run : Run (Session.step program (kernelService img t n)) s history last
  attentive : ∀ fired ∈ history, Attentive img t n fired.pre.state fired.event
  ticks : tickCount sessionTick history = 3
  pos : last.pos = program.resume s.pos ⟨line.length, line⟩
  answered : last.answered = s.answered ++ [(.fd (.read 0 true nbytes), ⟨line.length, line⟩)]
  empty : LineEmpty img t n m last.state
  processCount : last.state.processCount = s.state.processCount

/-- What is typed at the prompt is read. -/
theorem LinePrompted.takes (hk : LinePrompted img t n m s.state) (hwf : img.WellFormed)
    (htypes : img.TypesKnown) {nbytes : Nat}
    (hnext : program.next s.pos = .inl (.fd (.read 0 true nbytes))) {codes : List UInt8}
    (hplain : ∀ c ∈ codes, c ≠ ALT_PRESSED ∧ c ≠ CTRL_PRESSED) :
    ∃ history last, LineTaken img t n (takenLine m (codes ++ [ENTER_PRESS])).modifiers program s
      nbytes ((takenLine m (codes ++ [ENTER_PRESS])).line.take nbytes) history last := by
  obtain ⟨history, next, hentered⟩ : ∃ history next, LineEntered img t n
      (takenLine m (codes ++ [ENTER_PRESS])).modifiers program s
      (takenLine m (codes ++ [ENTER_PRESS])).line history next := hk.enters hplain
  obtain ⟨after, hserve, hafter, hempty, hfollows, hflag, hcount⟩ :=
    hentered.takes_line hwf htypes hentered.enterFlag nbytes
  rw [hentered.line] at hserve
  have hstep : machineStep img next.state (.kernel (UserCall.fd (.read 0 true nbytes)).event) =
      some after := Kernel.serve_step hserve
  have hdisc : MachineEvent.Disciplined img next.state
      (.kernel (UserCall.fd (.read 0 true nbytes)).event) := trivial
  have hnext' : program.next next.pos = .inl (.fd (.read 0 true nbytes)) := by
    rw [hentered.pos]
    exact hnext
  have hown : next.step program (kernelService img t n) .own = some
      (next.answer program (.fd (.read 0 true nbytes)) (some _) after) :=
    Session.own_eq_some.mpr ⟨_, _, after, hnext', hentered.runs, hserve, rfl⟩
  refine ⟨_, _, hentered.run.append (.single hown), ?_, ?_, ?_, ?_,
    ⟨hafter, hentered.routed.step hdisc hstep, hempty, hfollows hentered.follows,
      hflag.trans hentered.quiet⟩, hcount.trans hentered.processCount⟩
  · exact List.forall_mem_append.mpr
      ⟨hentered.attentive, List.forall_mem_singleton.mpr hentered.shown⟩
  · rw [tickCount, List.countP_append, ← tickCount, hentered.ticks]
    rfl
  · rw [Session.answer, hentered.pos]
  · rw [Session.answer, hentered.answered]

end Lines

/-- A command is entered behind the start-up, and nothing was typed so far. -/
theorem threeFiles_lineEmpty : ∃ k entered, Commanded threeFiles shellShell k entered ∧
    LineEmpty threeFiles k.currScheduled k.newProcess noModifiers entered ∧
    entered.processCount = 4 := by
  obtain ⟨k, entered, hcommand, hflag, hkb, hcount⟩ := threeFiles_commanded_quiet
  have hstart := hcommand.justStarted
  refine ⟨k, entered, hcommand, ⟨hstart.toDisplayed, hstart.routed, ?_, ?_, hflag⟩, hcount⟩
  · rw [hkb]
    rfl
  · rw [hkb]
    exact ⟨rfl, rfl, rfl, rfl⟩

end Ece391
