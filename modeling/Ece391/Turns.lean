import Ece391.Cat
import Ece391.Lib.RoundRobin

/-! # Turns

The scheduled terminal changes by ticks and by nothing else, and a tick never fails. So every
terminal has its turn in any three ticks, and a program that was interrupted in an attentive
session can always be brought to its end.
-/

namespace Ece391

open Function Transition Sessions RoundRobin

def MachineEvent.isTick : MachineEvent → Bool
  | .kernel (.tick _ _) => true
  | _ => false

section Machine

variable {img : Image} {k after last : Kernel} {history : List (Fired Kernel MachineEvent)}

/-- A tick is always possible. -/
theorem RoutedSystem.tick_completes (hk : RoutedSystem img k) (ebp : Nat) (inner : Regs) :
    ∃ after, machineStep img k (.kernel (.tick ebp inner)) = some after ∧ RoutedSystem img after ∧
      Rotated k ebp after := by
  obtain ⟨s, hset⟩ := hk.settled
  obtain ⟨after, htick, hrotated⟩ := hset.tick_completes ebp inner
  have hstep : machineStep img k (.kernel (.tick ebp inner)) = some after := htick
  have hdisc : MachineEvent.Disciplined img k (.kernel (.tick ebp inner)) := trivial
  exact ⟨after, hstep, hk.step hdisc hstep, hrotated⟩

/-- So many ticks in a row. -/
theorem RoutedSystem.ticks (hk : RoutedSystem img k) (count : Nat) :
    ∃ history last, Run (machineStep img) k history last ∧
      tickCount MachineEvent.isTick history = count ∧
      ∀ fired ∈ history, fired.event.Disciplined img fired.pre := by
  induction count generalizing k with
  | zero => exact ⟨[], k, .start k, rfl, by simp⟩
  | succ count ih =>
      obtain ⟨after, hstep, hafter, -⟩ := hk.tick_completes 0 ⟨0, 0⟩
      obtain ⟨history, last, hrun, hcount, hdisc⟩ := ih hafter
      refine ⟨_, last, .cons hstep hrun, ?_, ?_⟩
      · rw [tickCount, List.countP_cons, ← tickCount, hcount]
        rfl
      · intro fired hmem
        rcases List.mem_cons.mp hmem with rfl | hmem
        · exact trivial
        · exact hdisc fired hmem

end Machine

/-! ## Sessions -/

section Sessions

variable {img : Image} {t : Terminal} {n : Nat} {Pos : Type} {program : UserProgram Pos}
  {s last : UserSession Pos}

/-- A tick beside a session. -/
def sessionTick : ClientMove MachineEvent → Bool
  | .other event => event.isTick
  | .own => false

/-- A tick leaves a session where it is. -/
theorem Attends.tick_session (hk : Attends img t n s.state) (ebp : Nat) (inner : Regs) :
    ∃ next : UserSession Pos,
      s.step program (kernelService img t n) (.other (.kernel (.tick ebp inner))) = some next ∧
      Attends img t n next.state ∧ next.pos = s.pos ∧ next.answered = s.answered ∧
      Rotated s.state ebp next.state ∧
      (RoutedSystem img s.state → RoutedSystem img next.state) := by
  obtain ⟨_, hset, -⟩ := id hk.hosted
  obtain ⟨after, htick, hrotated⟩ := hset.tick_completes ebp inner
  have hstep : machineStep img s.state (.kernel (.tick ebp inner)) = some after := htick
  have hspares : Spares img n s.state (.kernel (.tick ebp inner)) := .inr id
  have hdisc : MachineEvent.Disciplined img s.state (.kernel (.tick ebp inner)) := trivial
  obtain ⟨hhosted, hsame, hhead⟩ := hk.hosted.beside rfl hspares hstep
  exact ⟨_, Session.other_silent rfl hstep (hk.deliver_none _ after),
    ⟨hhosted, hhead hk.head, hk.table.same hsame⟩, rfl, rfl, hrotated,
    fun hrouted => hrouted.step hdisc hstep⟩

/-- A session behind ticks alone. -/
structure BehindTicks (img : Image) (t : Terminal) (n : Nat) (program : UserProgram Pos)
    (s : UserSession Pos) (count : Nat)
    (more : List (Fired (UserSession Pos) (ClientMove MachineEvent))) (next : UserSession Pos) :
    Prop where
  run : Run (Session.step program (kernelService img t n)) s more next
  length : more.length = count
  ticks : ∀ fired ∈ more, sessionTick fired.event = true
  attends : Attends img t n next.state
  pos : next.pos = s.pos
  answered : next.answered = s.answered
  turn : next.state.currScheduled = Terminal.next^[count] s.state.currScheduled
  kb : next.state.kb = s.state.kb
  processCount : next.state.processCount = s.state.processCount
  shown : s.state.switchFlag = none →
    next.state.switchFlag = none ∧ next.state.currTerminal = s.state.currTerminal
  routed : RoutedSystem img s.state → RoutedSystem img next.state

theorem Attends.behindTicks (hk : Attends img t n s.state) (count : Nat) :
    ∃ more next, BehindTicks img t n program s count more next := by
  induction count generalizing s with
  | zero =>
      exact ⟨[], s, .start s, rfl, by simp, hk, rfl, rfl, rfl, rfl, rfl,
        fun hflag => ⟨hflag, rfl⟩, id⟩
  | succ count ih =>
      obtain ⟨after, hstep, hafter, hpos, hanswered, hrotated, hrouted⟩ := hk.tick_session 0 ⟨0, 0⟩
      obtain ⟨more, next, hnext⟩ := ih hafter
      refine ⟨_, next, .cons hstep hnext.run, ?_, ?_, hnext.attends, hnext.pos.trans hpos,
        hnext.answered.trans hanswered, ?_, hnext.kb.trans hrotated.kb,
        hnext.processCount.trans hrotated.processCount, fun hflag => ?_,
        fun hs => hnext.routed (hrouted hs)⟩
      · rw [List.length_cons, hnext.length]
      · intro fired hmem
        rcases List.mem_cons.mp hmem with rfl | hmem
        · rfl
        · exact hnext.ticks fired hmem
      · rw [hnext.turn, hrotated.currScheduled, iterate_succ_apply]
      · obtain ⟨hquiet, hshown⟩ := hnext.shown hrotated.switchFlag
        refine ⟨hquiet, ?_⟩
        rw [hshown, hrotated.currTerminal, Kernel.displayedNext, hflag]
        rfl

theorem BehindTicks.allowed {count : Nat}
    {more : List (Fired (UserSession Pos) (ClientMove MachineEvent))}
    (hmore : BehindTicks img t n program s count more last) : AllowedMoves img t n more := by
  intro fired hmem
  have htick := hmore.ticks fired hmem
  cases hevent : fired.event with
  | own => rw [hevent] at htick; cases htick
  | other event =>
      rw [hevent] at htick
      cases event with
      | store | fill => cases htick
      | kernel event =>
          cases event with
          | tick ebp inner => exact ⟨.inr id, fun event heq => by cases heq; exact trivial⟩
          | _ => cases htick

theorem BehindTicks.tickCount {count : Nat}
    {more : List (Fired (UserSession Pos) (ClientMove MachineEvent))}
    (hmore : BehindTicks img t n program s count more last) :
    tickCount sessionTick more = count :=
  (List.countP_eq_length.mpr hmore.ticks).trans hmore.length

/-- At most two ticks, and the process of a session runs. -/
theorem Attends.regains (hk : Attends img t n s.state) :
    ∃ count ≤ 2, ∃ more next, BehindTicks img t n program s count more next ∧
      next.state.runs t n := by
  obtain ⟨count, hcount, hturn⟩ : ∃ count ≤ 2, Terminal.next^[count] s.state.currScheduled = t := by
    cases s.state.currScheduled <;> cases t <;> decide
  obtain ⟨more, next, hnext⟩ := hk.behindTicks count
  exact ⟨count, hcount, more, next, hnext,
    Kernel.runs_iff.mpr ⟨hnext.turn.trans hturn, hnext.attends.head⟩⟩

variable {command : List UInt8} {k entered : Kernel} {pos : Pos}
  {history : List (Fired (UserSession Pos) (ClientMove MachineEvent))}

end Sessions

/-! ## Ends -/

section Ends

variable {img : Image} {command : List UInt8} {k entered : Kernel} {buf : UserBuffer}
  {last : UserSession Cat} {history : List (Fired (UserSession Cat) (ClientMove MachineEvent))}

/-- Wherever `cat` stands in a session of allowed moves, once its terminal is shown and no switch
is pending it can be brought to its end by ticks and its own calls. -/
theorem cat_always_ends (hwf : img.WellFormed) (htypes : img.TypesKnown)
    (hregular : ∀ entry, readDentryByName img (commandRest command) = some entry →
      entry.fileType = 2)
    (hcommand : Commanded img command k entered)
    (hrun : Run (Session.step Cat.main (kernelService img k.currScheduled k.newProcess))
      ⟨entered, .getargs buf, []⟩ history last)
    (hallowed : AllowedMoves img k.currScheduled k.newProcess history)
    (hshown : last.state.currTerminal = k.currScheduled) (hflag : last.state.switchFlag = none) :
    ∃ more final, Run (Session.step Cat.main (kernelService img k.currScheduled k.newProcess)) last
        more final ∧
      (∀ fired ∈ more, fired.event = .own ∨ sessionTick fired.event = true) ∧
      final.pos = .returned (catValue img (commandRest command)) ∧
      printed final.answered = catText img (commandRest command) := by
  have hstart := hcommand.justStarted
  obtain ⟨hattends, hholds⟩ :=
    Cat.holds_run hwf htypes hregular hrun hallowed hstart.toAttends hstart.cat
  obtain ⟨count, -, ticks, next, hticks, hruns⟩ := hattends.regains
  obtain ⟨hnext, hheld⟩ :=
    Cat.holds_run hwf htypes hregular hticks.run hticks.allowed hattends hholds
  obtain ⟨more, final, hmore, hown, hpos, hprinted⟩ := Cat.ends hwf htypes hregular
    ⟨hnext, hruns, (hticks.shown hflag).2.trans hshown⟩ hheld
  refine ⟨ticks ++ more, final, hticks.run.append hmore, ?_, hpos, hprinted⟩
  intro fired hmem
  rcases List.mem_append.mp hmem with hmem | hmem
  · exact .inr (hticks.ticks fired hmem)
  · exact .inl (hown fired hmem).1

/-- After a tick, when another process runs. -/
theorem cat_always_ends_shell : ∃ k entered history last more final,
    Commanded threeFiles shellShell k entered ∧
    Run (Session.step Cat.main (kernelService threeFiles k.currScheduled k.newProcess))
      ⟨entered, .getargs fun _ => NUL, []⟩ history last ∧
    last.state.currScheduled = k.currScheduled.next ∧
    Run (Session.step Cat.main (kernelService threeFiles k.currScheduled k.newProcess)) last more
      final ∧
    printed final.answered = [0x7F, 0x45, 0x4C, 0x46] := by
  obtain ⟨k, entered, hcommand, hflag, -⟩ := threeFiles_commanded_quiet
  have hstart := hcommand.justStarted
  obtain ⟨history, last, htick⟩ : ∃ more next, BehindTicks threeFiles k.currScheduled k.newProcess
      Cat.main ⟨entered, .getargs fun _ => NUL, []⟩ 1 more next :=
    Attends.behindTicks (s := ⟨entered, Cat.getargs fun _ => NUL, []⟩) hstart.toAttends 1
  obtain ⟨hquiet, hshown⟩ := htick.shown hflag
  obtain ⟨more, final, hmore, -, -, hprinted⟩ := cat_always_ends threeFiles_wellFormed
    threeFiles_typesKnown threeFiles_regular hcommand htick.run htick.allowed
    (hshown.trans hstart.shown) hquiet
  have hturn : last.state.currScheduled = k.currScheduled.next := by
    rw [htick.turn]
    exact congrArg Terminal.next (Kernel.runs_iff.mp hstart.runs).1
  exact ⟨k, entered, history, last, more, final, hcommand, htick.run, hturn, hmore,
    hprinted.trans (by decide +kernel)⟩

end Ends

end Ece391
