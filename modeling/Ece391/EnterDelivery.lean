import Ece391.StartUp
import Ece391.Lib.Mailbox

/-! # Delivery of Enter

`terminal_read` waits with interrupts enabled, so its loop is taken apart here: it
loads `enter_flag`, compares the two terminal numbers, and clears the flag, with any
number of keys, ticks and other readers in between. The flag does not tell which
terminal Enter was pressed on. It acts as a mailbox with one place for that terminal
as long as the input does not move away from an Enter nobody has read.
-/

namespace Ece391

open Function Transition
open Mailbox (Mark)

/-! ## Readers -/

/-- Where the process on top of a terminal stands in `terminal_read`. -/
inductive ReadPhase where
  | away
  | polling (nbytes : Int)
  | flagSeen (nbytes : Int)
  | leaving (nbytes : Int)
  deriving DecidableEq

structure Readers where
  kernel : Kernel
  phase : Terminal → ReadPhase

/-- Events between which the readers are preempted. The last four are steps of the
scheduled process in `terminal_read`. -/
inductive ReadEvent where
  | kernel (event : Event)
  | call (nbytes : Int)
  | poll
  | compare
  | finish

/-- Interrupts come at any time, system calls while their caller is not in
`terminal_read`; `read` itself is taken apart. -/
def Event.mayCome (phase : ReadPhase) : Event → Bool
  | .tick _ _ | .key _ | .rtc => true
  | .read _ _ _ => false
  | _ => phase = .away

namespace Readers

variable (s : Readers)

/-- The phase of the scheduled process. -/
def current : ReadPhase := s.phase s.kernel.currScheduled

def enter (phase : ReadPhase) : Readers :=
  { s with phase := update s.phase s.kernel.currScheduled phase }

/-- Nothing behind the store that clears the flag looks at it again, so the end of
`terminal_read` is one step. -/
def step (img : Image) : ReadEvent → Option Readers
  | .kernel event =>
      if event.mayCome s.current then
        (Ece391.step img s.kernel event).map fun k => { s with kernel := k }
      else none
  | .call nbytes =>
      if s.current = .away then
        some (if nbytes < 0 then s else s.enter (.polling nbytes))
      else none
  | .poll =>
      match s.current with
      | .polling nbytes => some (if s.kernel.kb.enterFlag then s.enter (.flagSeen nbytes) else s)
      | _ => none
  | .compare =>
      match s.current with
      | .flagSeen nbytes =>
          some (s.enter
            (if s.kernel.currTerminal = s.kernel.currScheduled then .leaving nbytes
              else .polling nbytes))
      | _ => none
  | .finish =>
      match s.current with
      | .leaving nbytes =>
          some { s.enter .away with kernel := (s.kernel.takeLine nbytes).2 }
      | _ => none

end Readers

namespace Readers

variable {s : Readers} {img : Image} {nbytes : Int}

@[simp] theorem enter_kernel (phase : ReadPhase) : (s.enter phase).kernel = s.kernel := rfl

@[simp] theorem enter_current (phase : ReadPhase) : (s.enter phase).current = phase :=
  update_self _ _ _

@[simp] theorem enter_enter (first second : ReadPhase) :
    (s.enter first).enter second = s.enter second := by
  simp only [enter, update_idem]

theorem step_call (haway : s.current = .away) (hnbytes : 0 ≤ nbytes) :
    s.step img (.call nbytes) = some (s.enter (.polling nbytes)) := by
  simp only [step, haway, if_true, if_neg (not_lt.mpr hnbytes)]

theorem step_poll (hphase : s.current = .polling nbytes) (hflag : s.kernel.kb.enterFlag = true) :
    s.step img .poll = some (s.enter (.flagSeen nbytes)) := by
  simp only [step, hphase, hflag, if_true]

theorem step_compare (hphase : s.current = .flagSeen nbytes)
    (hshown : s.kernel.currTerminal = s.kernel.currScheduled) :
    s.step img .compare = some (s.enter (.leaving nbytes)) := by
  simp only [step, hphase, hshown, if_true]

theorem step_finish (hphase : s.current = .leaving nbytes) :
    s.step img .finish =
      some { s.enter .away with kernel := (s.kernel.takeLine nbytes).2 } := by
  simp only [step, hphase]

/-- Without an interrupt in between, the steps are `terminal_read`. -/
theorem steps_terminalRead (haway : s.current = .away) (hnbytes : 0 ≤ nbytes)
    (hflag : s.kernel.kb.enterFlag = true)
    (hshown : s.kernel.currTerminal = s.kernel.currScheduled) :
    exec (fun s event => step s img event) s [.call nbytes, .poll, .compare, .finish] =
      some { s with kernel := (s.kernel.terminalRead nbytes).2 } := by
  have hread : s.kernel.terminalRead nbytes = s.kernel.takeLine nbytes := by
    rw [Kernel.terminalRead, if_neg (not_lt.mpr hnbytes), if_pos ⟨hflag, hshown⟩]
  have hback : s.enter .away = s := by
    rw [enter, ← haway, current, update_eq_self]
  rw [exec, step_call haway hnbytes, Option.bind_some, exec, step_poll (enter_current _) hflag,
    Option.bind_some, enter_enter, exec, step_compare (enter_current _) hshown, Option.bind_some,
    enter_enter, exec, step_finish (enter_current _), Option.bind_some, enter_enter, hback, hread]
  rfl

end Readers

/-! ## The flag and the terminal that receives input -/

/-- The flag, and what the terminal that receives input depends on. -/
def Kernel.request (k : Kernel) : Bool × Option Terminal × Terminal :=
  (k.kb.enterFlag, k.switchFlag, k.currTerminal)

theorem Kernel.request_of_input {k after : Kernel} (hinput : after.input = k.input)
    (hshown : after.currTerminal = k.currTerminal) : after.request = k.request := by
  have hkb : after.kb = k.kb := congrArg Prod.fst hinput
  have hflag : after.switchFlag = k.switchFlag := congrArg Prod.snd hinput
  rw [request, request, hkb, hflag, hshown]

theorem Kernel.terminalWrite_enterFlag (k : Kernel) (buf : Option (Nat → UInt8)) (nbytes : Int) :
    (k.terminalWrite buf nbytes).2.kb.enterFlag = k.kb.enterFlag ∧
      (k.terminalWrite buf nbytes).2.switchFlag = k.switchFlag := by
  unfold terminalWrite
  cases buf with
  | none => exact ⟨rfl, rfl⟩
  | some buf =>
      dsimp only
      repeat' split
      all_goals exact ⟨rfl, rfl⟩

theorem Kernel.write_request {k after : Kernel} {fd nbytes : Int} {buf : Option (Nat → UInt8)}
    {result : SysReturn} (hwrite : k.write fd buf nbytes = some (result, after)) :
    after.request = k.request := by
  have hshown := (Kernel.write_same hwrite).currTerminal
  have hflags : after.kb.enterFlag = k.kb.enterFlag ∧ after.switchFlag = k.switchFlag := by
    unfold write at hwrite
    split at hwrite
    · obtain ⟨rfl, rfl⟩ := Prod.mk.inj (Option.some.inj hwrite)
      exact ⟨rfl, rfl⟩
    · obtain ⟨pcb, -, hwrite⟩ := Option.bind_eq_some_iff.mp hwrite
      split at hwrite
      · obtain ⟨rfl, rfl⟩ := Prod.mk.inj (Option.some.inj hwrite)
        exact ⟨rfl, rfl⟩
      · split at hwrite
        · obtain ⟨rfl, rfl⟩ := Prod.mk.inj (Option.some.inj hwrite)
          exact ⟨rfl, rfl⟩
        · obtain ⟨fops, -, heq⟩ := Option.map_eq_some_iff.mp hwrite
          obtain rfl := congrArg Prod.snd heq
          cases fops with
          | file | dir | stdin => exact ⟨rfl, rfl⟩
          | rtc =>
              unfold fopsWrite rtcWrite
              cases buf with
              | none => exact ⟨rfl, rfl⟩
              | some buf =>
                  dsimp only
                  repeat' split
                  all_goals exact ⟨rfl, rfl⟩
          | stdout => exact k.terminalWrite_enterFlag buf nbytes
  rw [request, request, hflags.1, hflags.2, hshown]

theorem Kernel.open_input {k after : Kernel} {img : Image} {filename : Option (List UInt8)}
    {result : SysReturn} (hopen : k.open_ img filename = some (result, after)) :
    after.input = k.input := by
  unfold open_ at hopen
  split at hopen
  · obtain ⟨rfl, rfl⟩ := Prod.mk.inj (Option.some.inj hopen)
    rfl
  · obtain ⟨pcb, -, hopen⟩ := Option.bind_eq_some_iff.mp hopen
    split at hopen
    · obtain ⟨rfl, rfl⟩ := Prod.mk.inj (Option.some.inj hopen)
      rfl
    · dsimp only at hopen
      split at hopen
      · simp at hopen
      · obtain ⟨fops, -, heq⟩ := Option.map_eq_some_iff.mp hopen
        obtain rfl := congrArg Prod.snd heq
        cases fops <;> rfl

theorem Kernel.vidmap_input {k after : Kernel} {screenStart : Nat} {result : SysReturn}
    (hvidmap : k.vidmap screenStart = some (result, after)) : after.input = k.input := by
  unfold vidmap at hvidmap
  split at hvidmap
  · obtain ⟨rfl, rfl⟩ := Prod.mk.inj (Option.some.inj hvidmap)
    rfl
  · obtain ⟨last, hlast, heq⟩ := Option.map_eq_some_iff.mp hvidmap
    obtain ⟨-, rfl⟩ := Prod.mk.inj heq
    exact (Kernel.storeUserBytes_same hlast).2.2.2

theorem Kernel.execute_request {k after : Kernel} {img : Image} {command : Option (List UInt8)}
    {regs : Regs} {result : ExecReturn}
    (hexecute : k.execute img command regs = some (result, after)) :
    after.request = k.request := by
  rcases Kernel.execute_cases hexecute with ⟨-, -, hsame, -, -, hinput⟩ |
      ⟨program, -, -, -, hlaunched⟩
  · exact request_of_input hinput hsame.currTerminal
  · exact request_of_input hlaunched.input hlaunched.currTerminal

theorem Kernel.halt_request {k after : Kernel} {img : Image} {status : UInt8} {regs : Regs}
    {result : HaltReturn} (hhalt : k.halt img status regs = some (result, after)) :
    after.request = k.request := by
  obtain ⟨released, hreleased, hcases⟩ := Kernel.halt_cases hhalt
  have hkept := request_of_input hreleased.input hreleased.currTerminal
  rcases hcases with ⟨-, -, -, rfl⟩ | ⟨-, ⟨result', last'⟩, hexecuted, hlast⟩
  · exact hkept
  · obtain rfl : last' = after := hlast
    obtain ⟨d, hd, hreset⟩ := released.resetTerminal_eq
    refine (Kernel.execute_request hexecuted).trans (Eq.trans ?_ hkept)
    rw [hreset]
    exact request_of_input rfl (congrArg Prod.fst hd.aim)

/-- System calls other than `read`, and the RTC, neither press nor read Enter and leave
the input where it is. -/
theorem step_request {img : Image} {k after : Kernel} {event : Event}
    (hcall : event.mayCome .away = true) (hkey : ∀ c, event ≠ .key c)
    (htick : ∀ ebp inner, event ≠ .tick ebp inner) (hstep : step img k event = some after) :
    after.request = k.request := by
  cases event with
  | tick ebp inner => exact absurd rfl (htick ebp inner)
  | key c => exact absurd rfl (hkey c)
  | read => simp [Event.mayCome] at hcall
  | rtc =>
      obtain rfl := Option.some.inj hstep
      rfl
  | execute command regs =>
      obtain ⟨⟨result, last⟩, hexecute, rfl⟩ := Option.map_eq_some_iff.mp hstep
      exact Kernel.execute_request hexecute
  | halt status regs =>
      obtain ⟨⟨result, last⟩, hhalt, rfl⟩ := Option.map_eq_some_iff.mp hstep
      exact Kernel.halt_request hhalt
  | write fd buf nbytes =>
      obtain ⟨⟨result, last⟩, hwrite, rfl⟩ := Option.map_eq_some_iff.mp hstep
      exact Kernel.write_request hwrite
  | open_ filename =>
      obtain ⟨⟨result, last⟩, hopen, rfl⟩ := Option.map_eq_some_iff.mp hstep
      exact Kernel.request_of_input (Kernel.open_input hopen) (Kernel.open_same hopen).currTerminal
  | close fd =>
      obtain ⟨⟨value, last⟩, hclose, rfl⟩ := Option.map_eq_some_iff.mp hstep
      exact Kernel.request_of_input (Kernel.close_input hclose)
        (Kernel.close_same hclose).currTerminal
  | getargs buf nbytes =>
      simp only [step, Option.map_eq_some_iff] at hstep
      obtain ⟨⟨result, last⟩, hargs, rfl⟩ := hstep
      obtain rfl := Kernel.getargs_same hargs
      rfl
  | vidmap screenStart =>
      obtain ⟨⟨result, last⟩, hvidmap, rfl⟩ := Option.map_eq_some_iff.mp hstep
      exact Kernel.request_of_input (Kernel.vidmap_input hvidmap)
        (Kernel.vidmap_same hvidmap).currTerminal

/-- The terminal a tick leaves displayed. The ticks that create shells, and the last
one of the start-up, change the display on their own. -/
def Kernel.shownAfterTick (k : Kernel) : Terminal :=
  if k.totalTerminal = 1 then .T2 else if k.totalTerminal = 2 then .T3
  else if k.totalTerminal = 3 then .T1 else k.displayedNext

theorem Kernel.pitHandler_request {k after : Kernel} {img : Image} {ebp : Nat} {inner : Regs}
    (htick : k.pitHandler img ebp inner = some after) :
    after.request = (k.kb.enterFlag, none, k.shownAfterTick) := by
  rcases Nat.lt_trichotomy k.totalTerminal 3 with hmissing | hlast | hrunning
  · obtain ⟨left, result, hleft, hexecute⟩ := Kernel.pitHandler_shell hmissing htick
    rw [Kernel.execute_request hexecute, request, hleft.kb, hleft.switchFlag, hleft.currTerminal,
      shownAfterTick]
    have htotal : k.totalTerminal = 0 ∨ k.totalTerminal = 1 ∨ k.totalTerminal = 2 := by omega
    rcases htotal with h | h | h <;> simp [h]
  · obtain ⟨hsame, -, hflag, hkb, -⟩ := Kernel.pitHandler_finish hlast htick
    rw [request, hkb, hflag, hsame.currTerminal, shownAfterTick, hlast]
    rfl
  · have hrotated := Kernel.pitHandler_rotated hrunning htick
    rw [request, hrotated.kb, hrotated.switchFlag, hrotated.currTerminal, shownAfterTick,
      if_neg (by omega), if_neg (by omega), if_neg (by omega)]

/-! ## Enter and the reads it completes -/

/-- Each completed read has an earlier Enter press of its own, made while the input went
to the reader's terminal. -/
def EnterDelivered (history : List (Fired Readers ReadEvent)) : Prop :=
  ∃ press : Nat → Nat,
    (∀ index fired, history[index]? = some fired → fired.event = .finish →
      press index < index ∧ ∃ enter, history[press index]? = some enter ∧
        enter.event = .kernel (.key ENTER_PRESS) ∧
        enter.pre.kernel.displayedNext = fired.pre.kernel.currScheduled) ∧
    ∀ first second one other, history[first]? = some one → one.event = .finish →
      history[second]? = some other → other.event = .finish →
      press first = press second → first = second

/-- The input stays on its terminal while nobody has read an Enter, and the reader of the
displayed terminal that has seen the flag finds it still set and no switch pending. -/
def KeepsEnter (s : Readers) : ReadEvent → Prop
  | .kernel (.key c) => s.kernel.kb.enterFlag = true →
      ∀ wanted, s.kernel.keyState.wanted c = some wanted → wanted = s.kernel.displayedNext
  | .kernel (.tick _ _) => s.kernel.kb.enterFlag = true →
      s.kernel.shownAfterTick = s.kernel.displayedNext
  | .compare => s.kernel.currTerminal = s.kernel.currScheduled →
      s.kernel.kb.enterFlag = true ∧ s.kernel.switchFlag = none
  | _ => True

/-- A reader that leaves its loop has the Enter of its own terminal. -/
def Readers.Waits (s : Readers) : Prop :=
  ∀ t nbytes, s.phase t = .leaving nbytes → s.kernel.request = (true, none, t)

/-- The terminal an unread Enter was pressed on. -/
def Readers.unread (s : Readers) : Option Terminal :=
  if s.kernel.kb.enterFlag then some s.kernel.displayedNext else none

/-- What an event does to the unread Enter. -/
def Readers.mark (s : Readers) : ReadEvent → Mark Terminal
  | .kernel (.key c) => if c = ENTER_PRESS then .put s.kernel.displayedNext else .skip
  | .finish => .take s.kernel.currScheduled
  | _ => .skip

theorem Kernel.displayedNext_of_request {k after : Kernel} (hrequest : after.request = k.request) :
    after.kb.enterFlag = k.kb.enterFlag ∧ after.displayedNext = k.displayedNext := by
  simp only [request, Prod.mk.injEq] at hrequest
  obtain ⟨henter, hflag, hshown⟩ := hrequest
  exact ⟨henter, by rw [displayedNext, hflag, hshown, displayedNext]⟩

theorem Keyboard.exchangeLine_enterFlag (kb : Keyboard) {current wanted : Terminal}
    (hne : current ≠ wanted) : (kb.exchangeLine current wanted).enterFlag = kb.enterFlag := by
  have hloop := (kb.exchanged_foldl hne KB_BUF_SIZE).enterFlag
  unfold exchangeLine
  dsimp only
  exact hloop

/-- What a key does to the flag and to the terminal that receives input. -/
theorem KeyEffect.request {s after : KeyState} {c : UInt8} {action : ScreenAction}
    (heffect : KeyEffect s c action after) :
    after.kb.enterFlag = (s.kb.enterFlag || c = ENTER_PRESS) ∧
      after.display.currTerminal = s.display.currTerminal ∧
      after.switchFlag = (s.wanted c).or s.switchFlag := by
  have hshown : after.display.currTerminal = s.display.currTerminal :=
    congrArg Prod.fst heffect.kept.aim
  have hmodifiers := (s.kb.modifiers_lines c).2.2
  cases heffect with
  | idle hstay henter | clear hstay henter | type _ hstay henter | blocked hstay henter
  | erase hstay henter =>
      refine ⟨?_, hshown, by rw [hstay, Option.none_or]⟩
      rw [decide_eq_false henter, Bool.or_false]
      exact hmodifiers
  | enter hstay henter =>
      refine ⟨?_, hshown, by rw [hstay, Option.none_or]⟩
      rw [decide_eq_true henter, Bool.or_true]
  | exchange wanted hwanted henter hne =>
      refine ⟨?_, hshown, by rw [hwanted, Option.some_or]⟩
      rw [decide_eq_false henter, Bool.or_false, Keyboard.exchangeLine_enterFlag _ hne]
      exact hmodifiers

/-- The unread Enter after an event of the kernel, by the state it leads to. -/
theorem Readers.unread_of {s : Readers} {k : Kernel}
    (hflag : k.kb.enterFlag = s.kernel.kb.enterFlag)
    (hstay : s.kernel.kb.enterFlag = true → k.displayedNext = s.kernel.displayedNext) :
    Readers.unread { s with kernel := k } = s.unread := by
  unfold unread
  dsimp only
  rw [hflag]
  by_cases hset : s.kernel.kb.enterFlag = true
  · rw [if_pos hset, if_pos hset, hstay hset]
  · rw [if_neg hset, if_neg hset]

/-- A key acts on the unread Enter as its mark says. -/
theorem Readers.key_unread {s : Readers} {c : UInt8} (hwaits : s.Waits)
    (hkeeps : KeepsEnter s (.kernel (.key c))) :
    Waits { s with kernel := s.kernel.keyboardInterrupt c } ∧
      Mailbox.step s.unread (s.mark (.kernel (.key c))) =
        some (Readers.unread { s with kernel := s.kernel.keyboardInterrupt c }) := by
  obtain ⟨henter, hshown, hflag⟩ := (keyboardHandler_effect s.kernel.keyState c).request
  set after := s.kernel.keyboardInterrupt c with hafter
  change after.kb.enterFlag = _ at henter
  change after.currTerminal = s.kernel.currTerminal at hshown
  change after.switchFlag = (s.kernel.keyState.wanted c).or s.kernel.switchFlag at hflag
  have hstay : s.kernel.keyState.wanted c = none →
      after.displayedNext = s.kernel.displayedNext := by
    intro hnone
    rw [Kernel.displayedNext, hflag, hnone, Option.none_or, hshown, Kernel.displayedNext]
  constructor
  · intro t nbytes hleaving
    have hrequest := hwaits t nbytes hleaving
    simp only [Kernel.request, Prod.mk.injEq] at hrequest
    obtain ⟨hset, hnone, rfl⟩ := hrequest
    have hwanted : s.kernel.keyState.wanted c = none := by
      by_contra hsome
      obtain ⟨wanted, hwanted⟩ := Option.ne_none_iff_exists'.mp hsome
      have htarget := hkeeps hset wanted hwanted
      rw [Kernel.displayedNext, hnone, Option.getD_none] at htarget
      exact KeyState.wanted_ne hwanted htarget.symm
    show after.request = _
    rw [Kernel.request, henter, hflag, hshown, hwanted, hnone]
    simp [hset]
  · by_cases hpress : c = ENTER_PRESS
    · subst hpress
      simp [mark, Mailbox.step, unread, henter, hstay (KeyState.wanted_enter _)]
    · rw [mark, if_neg hpress]
      refine congrArg some (unread_of ?_ fun hset => ?_).symm
      · rw [henter, decide_eq_false hpress, Bool.or_false]
      · cases hwanted : s.kernel.keyState.wanted c with
        | none => exact hstay hwanted
        | some wanted =>
            rw [Kernel.displayedNext, hflag, hwanted, Option.some_or, Option.getD_some]
            exact hkeeps hset wanted hwanted

/-- Every step keeps the readers that leave their loop waiting for their own Enter, and
acts on the unread Enter as its mark says. -/
theorem Readers.step_unread {s after : Readers} {img : Image} {event : ReadEvent}
    (hwaits : s.Waits) (hkeeps : KeepsEnter s event) (hstep : s.step img event = some after) :
    after.Waits ∧ Mailbox.step s.unread (s.mark event) = some after.unread := by
  have hphase : ∀ phase, (∀ nbytes, phase = .leaving nbytes →
      s.kernel.request = (true, none, s.kernel.currScheduled)) → (s.enter phase).Waits := by
    intro phase hnew t nbytes hleaving
    by_cases ht : t = s.kernel.currScheduled
    · subst ht
      exact hnew nbytes ((update_self _ _ _).symm.trans hleaving)
    · exact hwaits t nbytes ((update_of_ne ht _ _).symm.trans hleaving)
  cases event with
  | kernel event =>
      simp only [step] at hstep
      split at hstep
      · rename_i hmay
        obtain ⟨k, hk, rfl⟩ := Option.map_eq_some_iff.mp hstep
        cases event with
        | key c =>
            obtain rfl := Option.some.inj hk
            exact key_unread hwaits hkeeps
        | tick ebp inner =>
            have hrequest := Kernel.pitHandler_request hk
            have hfields := hrequest
            simp only [Kernel.request, Prod.mk.injEq] at hfields
            obtain ⟨henter, hflag, hshown⟩ := hfields
            have hnext : k.displayedNext = s.kernel.shownAfterTick := by
              rw [Kernel.displayedNext, hflag, Option.getD_none, hshown]
            refine ⟨fun t nbytes hleaving => ?_, ?_⟩
            · have hold := hwaits t nbytes hleaving
              simp only [Kernel.request, Prod.mk.injEq] at hold
              obtain ⟨hset, hnone, rfl⟩ := hold
              show k.request = _
              rw [hrequest, hset, hkeeps hset, Kernel.displayedNext, hnone, Option.getD_none]
            · refine congrArg some (unread_of henter fun hset => ?_).symm
              rw [hnext, hkeeps hset]
        -- every other event of the kernel leaves what the reads look at as it is
        | _ =>
            have hcall : ∀ event : Event, event.mayCome s.current = true →
                event.mayCome .away = true := by
              intro event hmay
              cases event <;> first | rfl | simp [Event.mayCome] at hmay
            have hrequest := step_request (hcall _ hmay) (by simp) (by simp) hk
            obtain ⟨henter, hnext⟩ := Kernel.displayedNext_of_request hrequest
            refine ⟨fun t nbytes hleaving => ?_,
              congrArg some (unread_of henter fun _ => hnext).symm⟩
            exact hrequest.trans (hwaits t nbytes hleaving)
      · simp at hstep
  | call nbytes =>
      simp only [step] at hstep
      split at hstep
      · obtain rfl := Option.some.inj hstep
        split
        · exact ⟨hwaits, rfl⟩
        · exact ⟨hphase _ (by simp), rfl⟩
      · simp at hstep
  | poll =>
      simp only [step] at hstep
      split at hstep
      · obtain rfl := Option.some.inj hstep
        split
        · exact ⟨hphase _ (by simp), rfl⟩
        · exact ⟨hwaits, rfl⟩
      · simp at hstep
  | compare =>
      simp only [step] at hstep
      split at hstep
      · obtain rfl := Option.some.inj hstep
        refine ⟨hphase _ fun nbytes hleaving => ?_, rfl⟩
        split at hleaving
        · rename_i hshown
          obtain ⟨hset, hnone⟩ := hkeeps hshown
          rw [Kernel.request, hset, hnone, hshown]
        · simp at hleaving
      · simp at hstep
  | finish =>
      simp only [step] at hstep
      split at hstep
      · rename_i nbytes hleaving
        obtain rfl := Option.some.inj hstep
        have hrequest := hwaits _ nbytes hleaving
        simp only [Kernel.request, Prod.mk.injEq] at hrequest
        obtain ⟨hset, hnone, hshown⟩ := hrequest
        refine ⟨fun t nbytes' hleaving' => ?_, ?_⟩
        · by_cases ht : t = s.kernel.currScheduled
          · subst ht
            have haway : ReadPhase.away = .leaving nbytes' :=
              (update_self _ _ _).symm.trans hleaving'
            simp at haway
          · have hother := hwaits t nbytes' ((update_of_ne ht _ _).symm.trans hleaving')
            simp only [Kernel.request, Prod.mk.injEq] at hother
            exact absurd (hother.2.2.symm.trans hshown) ht
        · have hunread : s.unread = some s.kernel.currScheduled := by
            rw [unread, if_pos hset, Kernel.displayedNext, hnone, Option.getD_none, hshown]
          rw [mark, Mailbox.step, hunread, if_pos rfl]
          rfl
      · simp at hstep

/-! ## Every run -/

theorem mark_eq_put {s : Readers} {event : ReadEvent} {t : Terminal}
    (hmark : s.mark event = .put t) :
    event = .kernel (.key ENTER_PRESS) ∧ s.kernel.displayedNext = t := by
  unfold Readers.mark at hmark
  split at hmark
  · split at hmark
    · rename_i c hpress
      subst hpress
      exact ⟨rfl, by simpa using hmark⟩
    · simp at hmark
  · simp at hmark
  · simp at hmark

/-- Marks with sources make the presses of the reads. -/
theorem EnterDelivered.of_marks {history : List (Fired Readers ReadEvent)} {source : Nat → Nat}
    (hsources : Mailbox.Sources (history.map fun fired => fired.pre.mark fired.event) source)
    (hdistinct : Mailbox.Distinct (history.map fun fired => fired.pre.mark fired.event) source) :
    EnterDelivered history := by
  have htake : ∀ {index : Nat} {fired : Fired Readers ReadEvent}, history[index]? = some fired →
      fired.event = .finish →
      (history.map fun fired => fired.pre.mark fired.event)[index]? =
        some (.take fired.pre.kernel.currScheduled) := by
    intro index fired hfired hevent
    rw [List.getElem?_map, hfired, Option.map_some, hevent]
    rfl
  refine ⟨source, fun index fired hfired hevent => ?_, ?_⟩
  · obtain ⟨hlt, hput⟩ := hsources index _ (htake hfired hevent)
    rw [List.getElem?_map] at hput
    obtain ⟨enter, henter, hmark⟩ := Option.map_eq_some_iff.mp hput
    obtain ⟨hpress, hshown⟩ := mark_eq_put hmark
    exact ⟨hlt, enter, henter, hpress, hshown⟩
  · intro first second one other hfirst hone hsecond hother
    exact hdistinct first second _ _ (htake hfirst hone) (htake hsecond hother)

/-- In every run from a state without an unread Enter, such as boot: when the input stays
on its terminal while an Enter is unread, and no reader finds its Enter taken or a switch
pending, every completed read has an Enter press of its own on its own terminal. -/
theorem enter_delivered {k : Kernel} {img : Image} {last : Readers}
    {history : List (Fired Readers ReadEvent)} (hquiet : k.kb.enterFlag = false)
    (hrun : Run (fun s event => Readers.step s img event) ⟨k, fun _ => .away⟩ history last)
    (hkeeps : ∀ fired ∈ history, KeepsEnter fired.pre fired.event) : EnterDelivered history := by
  have hwaits : ∀ fired ∈ history, fired.pre.Waits := by
    have hstart : Readers.Waits ⟨k, fun _ => .away⟩ := fun t nbytes h => by simp at h
    intro fired hfired
    obtain ⟨index, hindex⟩ := List.mem_iff_getElem?.mp hfired
    refine (hrun.before hindex).1.invariant_of_allowed Readers.Waits KeepsEnter ?_ ?_ hstart
    · exact fun s event next hs hallowed hstep => (Readers.step_unread hs hallowed hstep).1
    · exact fun earlier hmem => hkeeps earlier (List.mem_of_mem_take hmem)
  have hmailbox := hrun.simulate Mailbox.step Readers.unread Readers.mark
    fun fired hmem hstep =>
      (Readers.step_unread (hwaits fired hmem) (hkeeps fired hmem) hstep).2
  have hempty : Readers.unread ⟨k, fun _ => .away⟩ = none := by
    rw [Readers.unread, hquiet]
    rfl
  rw [hempty] at hmailbox
  obtain ⟨source, hsources, hdistinct⟩ := Mailbox.run_matched hmailbox
  rw [List.map_map] at hsources hdistinct
  exact .of_marks hsources hdistinct

/-! ## An Enter that follows the display -/

/-- The four steps of one read that finds the flag set. -/
theorem Readers.run_read (s : Readers) (img : Image) {nbytes : Int} (haway : s.current = .away)
    (hnbytes : 0 ≤ nbytes) (hflag : s.kernel.kb.enterFlag = true)
    (hshown : s.kernel.currTerminal = s.kernel.currScheduled) :
    ∃ last, Run (fun s event => step s img event) s
      [⟨s, .call nbytes, s.enter (.polling nbytes)⟩,
        ⟨s.enter (.polling nbytes), .poll, s.enter (.flagSeen nbytes)⟩,
        ⟨s.enter (.flagSeen nbytes), .compare, s.enter (.leaving nbytes)⟩,
        ⟨s.enter (.leaving nbytes), .finish, last⟩] last := by
  have hcall : s.step img (.call nbytes) = some (s.enter (.polling nbytes)) :=
    step_call haway hnbytes
  have hpoll : (s.enter (.polling nbytes)).step img .poll = some (s.enter (.flagSeen nbytes)) := by
    rw [step_poll (enter_current _) hflag, enter_enter]
  have hcompare : (s.enter (.flagSeen nbytes)).step img .compare =
      some (s.enter (.leaving nbytes)) := by
    rw [step_compare (enter_current _) hshown, enter_enter]
  exact ⟨_, .cons hcall (.cons hpoll (.cons hcompare (.single (step_finish (enter_current _)))))⟩

theorem Readers.step_key (s : Readers) (img : Image) (c : UInt8) :
    s.step img (.kernel (.key c)) = some { s with kernel := s.kernel.keyboardInterrupt c } := rfl

/-- Keys that ask for no other terminal leave the input where it is. -/
theorem Kernel.key_request (k : Kernel) {c : UInt8} (hstay : k.keyState.wanted c = none) :
    (k.keyboardInterrupt c).request =
      (k.kb.enterFlag || c = ENTER_PRESS, k.switchFlag, k.currTerminal) := by
  obtain ⟨henter, hshown, hflag⟩ := (keyboardHandler_effect k.keyState c).request
  rw [hstay, Option.none_or] at hflag
  exact Prod.ext henter (Prod.ext hflag hshown)

/-- Enter on the first terminal completes a read there. -/
theorem enter_delivered_read :
    ∃ m k last history, Reachable (step shellImage) (boot m) k ∧
      Run (fun s event => Readers.step s shellImage event) ⟨k, fun _ => .away⟩ history last ∧
      history.map Fired.event =
        [.kernel (.key ENTER_PRESS), .call 128, .poll, .compare, .finish] ∧
      EnterDelivered history := by
  obtain ⟨start, k, s, ⟨⟨m, before, hboot, -⟩, -⟩, htick, -, -, hscheduled, hshown, hflag, hkb⟩ :=
    shellImage_displayed
  have hquiet : k.kb.enterFlag = false := by
    rw [hkb]
    rfl
  have hrequest := k.key_request (KeyState.wanted_enter _)
  simp only [Kernel.request, Prod.mk.injEq] at hrequest
  obtain ⟨henter, hflag', hshown'⟩ := hrequest
  rw [decide_true, Bool.or_true] at henter
  have hscheduled' : (k.keyboardInterrupt ENTER_PRESS).currScheduled = .T1 := hscheduled
  obtain ⟨last, hread⟩ := Readers.run_read ⟨k.keyboardInterrupt ENTER_PRESS, fun _ => .away⟩
    shellImage rfl (by decide : (0 : Int) ≤ 128) henter
    ((hshown'.trans hshown).trans hscheduled'.symm)
  have hrun := Run.cons (Readers.step_key ⟨k, fun _ => .away⟩ shellImage ENTER_PRESS) hread
  refine ⟨m, k, last, _, ⟨_, hboot.extend htick⟩, hrun, rfl, ?_⟩
  refine enter_delivered hquiet hrun fun fired hmem => ?_
  simp only [List.mem_cons, List.not_mem_nil, or_false] at hmem
  rcases hmem with rfl | rfl | rfl | rfl | rfl
  · intro hset
    rw [hquiet] at hset
    simp at hset
  · trivial
  · trivial
  · exact fun _ => ⟨henter, hflag'.trans hflag⟩
  · trivial

/-- Alt+F2 asks for the second terminal. -/
theorem Kernel.altF2_request {k : Kernel} (halt : k.kb.altKey = true)
    (hshown : k.currTerminal = .T1) :
    (k.keyboardInterrupt KEY_F2).request = (k.kb.enterFlag, some .T2, .T1) := by
  have hne : k.keyState.display.currTerminal ≠ .T2 := by
    show k.currTerminal ≠ _
    rw [hshown]
    decide
  have hwanted : k.keyState.wanted KEY_F2 = some .T2 := KeyState.wanted_functionKey halt rfl hne
  obtain ⟨henter, hshown', hflag⟩ := (keyboardHandler_effect k.keyState KEY_F2).request
  rw [hwanted, Option.some_or] at hflag
  rw [decide_eq_false (by decide), Bool.or_false] at henter
  exact Prod.ext henter (Prod.ext hflag (hshown'.trans hshown))

/-- Enter is pressed on the first terminal, then Alt+F2: the read of the second terminal
completes. -/
theorem enter_not_delivered :
    ∃ m k last history, Reachable (step shellImage) (boot m) k ∧ k.kb.enterFlag = false ∧
      Run (fun s event => Readers.step s shellImage event) ⟨k, fun _ => .away⟩ history last ∧
      history.map Fired.event =
        [.kernel (.key ENTER_PRESS), .kernel (.key ALT_PRESSED), .kernel (.key KEY_F2),
          .kernel (.tick 0 ⟨0, 0⟩), .call 128, .poll, .compare, .finish] ∧
      ¬ EnterDelivered history := by
  obtain ⟨start, k, s, ⟨⟨m, before, hboot, -⟩, -⟩, htick, hset, -, hscheduled, hshown,
      hflag, hkb⟩ :=
    shellImage_displayed
  have hquiet : k.kb.enterFlag = false := by
    rw [hkb]
    rfl
  have hsame : ∀ (k : Kernel) (c : UInt8), SameProcesses k (k.keyboardInterrupt c) :=
    fun k c => k.keyboardInterrupt_same c
  -- from here on only the flags of the keyboard matter, so the states become variables
  have hkb' : ((k.keyboardInterrupt ENTER_PRESS).keyboardInterrupt ALT_PRESSED).kb =
      { (boot zeroMemory).kb with enterFlag := true, altKey := true } := by
    show (keyboardHandler (keyboardHandler ⟨k.kb, k.display, k.switchFlag⟩ ENTER_PRESS)
      ALT_PRESSED).kb = _
    rw [hkb]
    rfl
  generalize hentered : k.keyboardInterrupt ENTER_PRESS = entered at hkb'
  generalize halt : entered.keyboardInterrupt ALT_PRESSED = held at hkb'
  have hheld : SameProcesses k held := by
    rw [← halt, ← hentered]
    exact (hsame _ _).trans (hsame _ _)
  have hrequest := Kernel.altF2_request (by rw [hkb']) (hheld.currTerminal.trans hshown)
  have hasked : SameProcesses k (held.keyboardInterrupt KEY_F2) := hheld.trans (hsame _ _)
  generalize hwanted : held.keyboardInterrupt KEY_F2 = asked at hrequest hasked
  obtain ⟨switched, hswitch, hrotated⟩ := (hset.same hasked).tick_completes 0 ⟨0, 0⟩
  simp only [Kernel.request, Prod.mk.injEq] at hrequest
  obtain ⟨henter, hpending, -⟩ := hrequest
  have hshown' : switched.currTerminal = .T2 := by
    rw [hrotated.currTerminal, Kernel.displayedNext, hpending, Option.getD_some]
  have hscheduled' : switched.currScheduled = .T2 := by
    rw [hrotated.currScheduled, hasked.currScheduled, hscheduled]
    rfl
  have henter' : switched.kb.enterFlag = true := by
    rw [hrotated.kb, henter, hkb']
  obtain ⟨last, hread⟩ := Readers.run_read ⟨switched, fun _ => .away⟩ shellImage rfl
    (by decide : (0 : Int) ≤ 128) henter' (hshown'.trans hscheduled'.symm)
  have hkeys : ∀ (k after : Kernel) (c : UInt8), k.keyboardInterrupt c = after →
      Readers.step ⟨k, fun _ => .away⟩ shellImage (.kernel (.key c)) =
        some ⟨after, fun _ => .away⟩ := by
    rintro k after c rfl
    exact Readers.step_key _ _ _
  have hticked : Readers.step ⟨asked, fun _ => .away⟩ shellImage (.kernel (.tick 0 ⟨0, 0⟩)) =
      some ⟨switched, fun _ => .away⟩ := by
    show (step shellImage asked (.tick 0 ⟨0, 0⟩)).map _ = _
    rw [show step shellImage asked (.tick 0 ⟨0, 0⟩) = some switched from hswitch]
    rfl
  have hrun := Run.cons (hkeys _ _ _ hentered) (Run.cons (hkeys _ _ _ halt)
    (Run.cons (hkeys _ _ _ hwanted) (Run.cons hticked hread)))
  refine ⟨m, k, last, _, ⟨_, hboot.extend htick⟩, hquiet, hrun, rfl, ?_⟩
  rintro ⟨press, hpress, -⟩
  obtain ⟨hlt, enter, hfound, hevent, hreceiver⟩ := hpress 7 _ rfl rfl
  -- the only Enter of the run is its first event
  have hzero : press 7 = 0 := by
    generalize press 7 = position at hlt hfound
    have hcases : position = 0 ∨ position = 1 ∨ position = 2 ∨ position = 3 ∨ position = 4 ∨
        position = 5 ∨ position = 6 := by omega
    rcases hcases with rfl | rfl | rfl | rfl | rfl | rfl | rfl
    · rfl
    all_goals
      obtain rfl := Option.some.inj hfound
      simp [ALT_PRESSED, KEY_F2, ENTER_PRESS] at hevent
  rw [hzero] at hfound
  obtain rfl := Option.some.inj hfound
  -- the first terminal would have to be the one that the read served
  have hfirst : k.displayedNext = switched.currScheduled := hreceiver
  rw [Kernel.displayedNext, hflag, Option.getD_none, hshown, hscheduled'] at hfirst
  exact absurd hfirst (by decide)

end Ece391
