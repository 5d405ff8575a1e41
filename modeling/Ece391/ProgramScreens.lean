import Ece391.CommandLine
import Ece391.UserPrograms

/-! # What programs show

As long as a program calls while it is displayed and the events beside it are disciplined and
spare its PCB, its terminal's screen goes through what it prints and through the keys that are
pressed while it is displayed, in their order, and through nothing else.
-/

namespace Ece391

open Function Transition Sessions

/-! ## From the start-up on -/

/-- A system behind its first tick. -/
def Started (img : Image) (k : Kernel) : Prop :=
  ∃ start ebp inner first history, AfterStartUp img start ∧
    step img start (.tick ebp inner) = some first ∧ Run (machineStep img) first history k ∧
    ∀ fired ∈ history, fired.event.Disciplined img fired.pre

theorem Started.routedSystem {img : Image} {k : Kernel} (hk : Started img k) :
    RoutedSystem img k := by
  obtain ⟨start, ebp, inner, first, history, hstart, htick, hrun, hdisc⟩ := hk
  exact hrun.invariant_of_allowed (RoutedSystem img) (fun k event => event.Disciplined img k)
    (fun k event next hk hdisc hstep => hk.step hdisc hstep) hdisc (hstart.routedSystem htick)

/-- A command that is started on the displayed terminal. Its parts fit, and the byte that ends
the arguments is NUL. -/
structure Commanded (img : Image) (command : List UInt8) (k entered : Kernel) : Prop where
  started : Started img k
  shown : k.currTerminal = k.currScheduled
  nonNul : NUL ∉ command
  name : (commandName command).length ≤ FILE_NAME_SIZE
  rest : (commandRest command).length < MAX_ARGS
  ended : k.ArgsEnded img command
  entered : ∃ regs eip, k.execute img (some command) regs = some (.entered eip, entered)

/-- The process that a command gets. -/
def Kernel.newProcess (k : Kernel) : Nat := slotSearch k.pcbSlots + 1

/-- A program in front of its first call. -/
structure JustStarted (img : Image) (t : Terminal) (n : Nat) (text : List UInt8) (k : Kernel) : Prop
    extends Displayed img t n k where
  routed : RoutedSystem img k
  args : PcbArgs (k.pcb (getPCB n)) text
  /-- Only the terminal's descriptors are in use. -/
  fresh : (usedFds (k.pcb (getPCB n))).card = STDI_O

theorem Commanded.justStarted {img : Image} {command : List UInt8} {k entered : Kernel}
    (hcommand : Commanded img command k entered) :
    JustStarted img k.currScheduled k.newProcess (commandRest command) entered := by
  obtain ⟨regs, eip, hexecute⟩ := hcommand.entered
  have hk := hcommand.started.routedSystem
  have hshown := hcommand.shown
  have hfits : ∀ program, k.launching img (some command) = some program →
      program.args = commandRest command := by
    intro program hlaunching
    rw [findProgram_args (launching_some_iff.mp hlaunching).2,
      commandArgs_rest hcommand.nonNul hcommand.name]
  have hdisc : MachineEvent.Disciplined img k (.kernel (.execute (some command) regs)) := by
    intro program hlaunching
    refine ⟨hshown, ?_⟩
    rw [hfits program hlaunching]
    exact Nat.le_trans hcommand.rest.le (by decide)
  have hstep : machineStep img k (.kernel (.execute (some command) regs)) = some entered := by
    simp only [machineStep, Ece391.step, hexecute, Option.map_some]
  have hrouted := hk.step hdisc hstep
  rcases Kernel.execute_cases hexecute with ⟨-, ⟨value, hvalue⟩, -⟩ | ⟨program, -, -, -, hlaunched⟩
  · cases hvalue
  have hsound := hlaunched.fdsSound img hshown
  have haddr := hlaunched.scheduledPcb hshown
  have hcount := hlaunched.fdCount hshown
  have htable := hsound.pcbSound
  rw [haddr] at htable
  have hhead : entered.head k.currScheduled = k.newProcess := by
    rw [Kernel.head, hlaunched.heads, hshown, update_self, Kernel.newProcess]
  have hruns : entered.runs k.currScheduled k.newProcess :=
    Kernel.runs_iff.mpr ⟨hlaunched.currScheduled, hhead⟩
  obtain ⟨s, hset⟩ := hrouted.settled
  have hmem : k.newProcess ∈ s.stack k.currScheduled := by
    obtain ⟨-, -, rest, htop⟩ := hset.head_pos (hset.live k.currScheduled)
    rw [htop, hhead]
    exact List.mem_cons_self
  refine ⟨⟨⟨⟨s, hset, hmem⟩, hhead, htable⟩, hruns, ?_⟩, hrouted, ?_, ?_⟩
  · rw [hlaunched.currTerminal, hshown]
  · obtain ⟨program, hlaunching, hloads, hargs⟩ :=
      entered_args hcommand.nonNul hcommand.name hcommand.rest hexecute
    refine ⟨hcommand.rest, nul_notMem_rest hcommand.nonNul, fun j hj => ?_⟩
    rw [Kernel.newProcess, hargs, argsWith]
    rcases Nat.lt_or_eq_of_le hj with hlt | rfl
    · rw [if_pos (by omega), Nat.sub_zero]
    · rw [if_neg (by omega), hcommand.ended program hlaunching hloads, getD_behind le_rfl]
  · rw [usedFds, Kernel.newProcess, ← htable.count, ← haddr]
    exact hcount

/-! ## The screen of a program -/

section Screens

variable {img : Image} {t : Terminal} {n : Nat} {k after : Kernel}

/-- The descriptors that lead to the terminal are 0 and 1. -/
theorem Displayed.fops (hk : Displayed img t n k) (hwf : img.WellFormed) (htypes : img.TypesKnown)
    {fd : Nat} (hlt : fd < MAX_OPEN_FILES) (htaken : ¬ (k.fds fd).Free) {fops : Fops}
    (htable : fopsAt (k.fds fd).fopsTable = some fops) :
    (fops = .stdin ↔ fd = 0) ∧ (fops = .stdout ↔ fd = 1) := by
  have hsound := hk.fdsSound
  by_cases hlow : STDI_O ≤ fd
  · obtain ⟨filename, entry, hfind, hdesc⟩ := hsound.opened fd hlow hlt htaken
    obtain ⟨index, hindex, hentry⟩ := hwf.dentry_mem hfind
    have htype := htypes index hindex
    rw [← hentry] at htype
    rw [hdesc] at htable
    simp only [STDI_O] at hlow
    rcases descOf_cases htype with hrtc | hdir | ⟨-, hfile⟩
    · rw [hrtc] at htable
      obtain rfl := Option.some.inj ((show fopsAt rtc_table = some .rtc from rfl).symm.trans htable)
      simp
      omega
    · rw [hdir] at htable
      obtain rfl := Option.some.inj ((show fopsAt dir_table = some .dir from rfl).symm.trans htable)
      simp
      omega
    · rw [hfile] at htable
      obtain rfl :=
        Option.some.inj ((show fopsAt file_table = some .file from rfl).symm.trans htable)
      simp
      omega
  · have hcases : fd = 0 ∨ fd = 1 := by
      simp only [STDI_O] at hlow
      omega
    rcases hcases with rfl | rfl
    · rw [hsound.stdin] at htable
      obtain rfl :=
        Option.some.inj ((show fopsAt stdin_table = some .stdin from rfl).symm.trans htable)
      simp
    · rw [hsound.stdout] at htable
      obtain rfl := Option.some.inj
        ((show fopsAt stdout_table = some .stdout from rfl).symm.trans htable)
      simp

/-- An own call on descriptors draws what `printedBy` says. -/
theorem Displayed.call_shows (hk : Displayed img t n k) (hwf : img.WellFormed)
    (htypes : img.TypesKnown) (hrouted : Routed k) {call : Call} {result : SysReturn}
    (hcall : k.call img call = some (result, after)) {screen : Screen}
    (hs : k.display.Shows t screen) :
    match result.reply with
    | some reply => after.display.Shows t
        (ScreenAction.apply (.print (printedBy (.fd call, reply))) screen)
    | none => after.display.Shows t screen := by
  have hscheduled := (Kernel.runs_iff.mp hk.runs).1
  have hdisplayed : ∀ fd, (k.pcb k.displayedPcb).fileArray fd = k.fds fd := by
    intro fd
    rw [hk.fdsSound.displayed, Kernel.fds]
  have hquiet : after.display = k.display → (∀ reply, printedBy (.fd call, reply) = []) →
      match result.reply with
      | some reply => after.display.Shows t
          (ScreenAction.apply (.print (printedBy (.fd call, reply))) screen)
      | none => after.display.Shows t screen := by
    intro hdisplay hnothing
    rw [hdisplay]
    cases result.reply with
    | none => exact hs
    | some reply =>
        dsimp only
        rw [hnothing]
        exact hs
  have hdeny : after = k → result = failed → printedBy (.fd call, ⟨-1, []⟩) = [] →
      match result.reply with
      | some reply => after.display.Shows t
          (ScreenAction.apply (.print (printedBy (.fd call, reply))) screen)
      | none => after.display.Shows t screen := by
    rintro rfl rfl hnothing
    change after.display.Shows t
      (ScreenAction.apply (.print (printedBy (.fd call, ⟨-1, []⟩))) screen)
    rw [hnothing]
    exact hs
  cases call with
  | open_ filename =>
      refine hquiet ?_ fun _ => rfl
      rcases Kernel.open_cases hcall with ⟨-, rfl, -⟩ | ⟨entry, fd, fops, -, -, rfl⟩
      · rfl
      · cases fops <;> rfl
  | close fd =>
      refine hquiet ?_ fun _ => rfl
      obtain ⟨⟨value, last⟩, hclose, heq⟩ := Option.map_eq_some_iff.mp hcall
      obtain ⟨-, rfl⟩ := Prod.mk.inj heq
      rcases Kernel.close_cases hclose with ⟨-, rfl⟩ | ⟨-, -, -, rfl⟩ <;> rfl
  | write fd buf nbytes =>
      rcases Kernel.write_cases hcall with ⟨rfl, rfl⟩ | ⟨fops, hwrites, heq⟩
      · refine hdeny rfl rfl ?_
        cases buf with
        | none => rfl
        | some buf => exact if_neg fun h => h.2 rfl
      obtain ⟨rfl, rfl⟩ := Prod.mk.inj heq
      obtain ⟨fd, rfl⟩ := Int.eq_ofNat_of_zero_le hwrites.nonneg
      have htaken := hwrites.inUse
      have htable := hwrites.table
      rw [hdisplayed, Int.toNat_natCast] at htaken htable
      obtain ⟨hstdin, hstdout⟩ := hk.fops hwf htypes (Int.ofNat_lt.mp hwrites.lt) htaken htable
      cases fops with
      | stdin =>
          have hzero := hwrites.notStdin
          rw [hstdin.mp rfl] at hzero
          exact absurd rfl hzero
      | file | dir | rtc =>
          refine hquiet ?_ fun reply => ?_
          · first | rfl | exact k.rtcWrite_display buf nbytes
          · have hone : (fd : Int) ≠ 1 := by
              intro hone
              have heq := hstdout.mpr (by omega)
              cases heq
            cases buf with
            | none => rfl
            | some buf => exact if_neg fun h => hone h.1
      | stdout =>
          obtain rfl := hstdout.mp rfl
          obtain ⟨buf, rfl⟩ := Option.ne_none_iff_exists'.mp hwrites.buf
          dsimp only [Kernel.fopsWrite]
          rcases lt_trichotomy nbytes 0 with hneg | rfl | hpos
          · simp only [Kernel.terminalWrite, if_pos hneg]
            exact hs
          · exact hs
          · rw [k.terminalWrite_bytes buf hpos]
            have hprinted := (Display.ActsOn.putfile hrouted.videoMem
              (bufferBytes buf nbytes.toNat ++ [NUL])).shows screen (hscheduled ▸ hs)
            have hprints : printedBy (.fd (.write 1 (some buf) nbytes), ⟨nbytes + 1, []⟩) =
                (bufferBytes buf nbytes.toNat ++ [NUL]).filter fun c => c ≠ NUL := by
              rw [printedBy, if_pos ⟨rfl, by dsimp only; omega⟩, List.filter_append]
              simp
            rw [hscheduled] at hprinted
            change Display.Shows _ t (ScreenAction.apply
              (.print (printedBy (.fd (.write 1 (some buf) nbytes), ⟨nbytes + 1, []⟩))) screen)
            rw [hprints]
            dsimp only
            rw [hscheduled]
            exact hprinted
  | read fd buf nbytes =>
      rcases Kernel.read_cases hcall with ⟨rfl, rfl⟩ | ⟨fops, hreads, hread⟩
      · exact hdeny rfl rfl (if_neg fun h => h.2 rfl)
      obtain ⟨fd, rfl⟩ := Int.eq_ofNat_of_zero_le hreads.nonneg
      have htaken := hreads.inUse
      have htable := hreads.table
      rw [hdisplayed, Int.toNat_natCast] at htaken htable
      obtain ⟨hstdin, hstdout⟩ := hk.fops hwf htypes (Int.ofNat_lt.mp hreads.lt) htaken htable
      have hsilent : fops ≠ .stdin → ∀ reply,
          printedBy (.fd (.read fd buf nbytes), reply) = [] := by
        intro hne reply
        refine if_neg fun h => hne (hstdin.mpr ?_)
        have hzero := h.1
        omega
      cases fops with
      | stdout =>
          have hone := hreads.notStdout
          rw [hstdout.mp rfl] at hone
          exact absurd rfl hone
      | file => exact hquiet (Kernel.fileRead_display hread) (hsilent (by simp))
      | dir =>
          obtain rfl := congrArg Prod.snd (Option.some.inj hread)
          exact hquiet (k.dirRead_display img nbytes) (hsilent (by simp))
      | rtc =>
          obtain rfl := congrArg Prod.snd (Option.some.inj hread)
          exact hquiet rfl (hsilent (by simp))
      | stdin =>
          obtain rfl := hstdin.mp rfl
          have heq : k.terminalRead nbytes = (result, after) := Option.some.inj hread
          unfold Kernel.terminalRead at heq
          split at heq
          · obtain ⟨rfl, rfl⟩ := Prod.mk.inj heq
            exact hs
          split at heq
          · obtain ⟨rfl, rfl⟩ := Prod.mk.inj heq
            -- a line that was read is followed by the new line of `terminal_read`
            have hprinted := (Display.ActsOn.putc2 NEWLINE hk.shown).shows screen hs
            exact hprinted
          · obtain ⟨rfl, rfl⟩ := Prod.mk.inj heq
            exact hs

/-- A pointer that lies inside the page of the program is stored off every screen. -/
theorem Kernel.vidmap_display (hrouted : Routed k) {screenStart : Nat} {result : SysReturn}
    (hinside : screenStart + 4 ≤ USER_VID_ADDR ∨ USER_VID_ADDR ≤ screenStart)
    (hvidmap : k.vidmap screenStart = some (result, after)) : after.display = k.display := by
  unfold Kernel.vidmap at hvidmap
  split at hvidmap
  · obtain ⟨-, rfl⟩ := Prod.mk.inj (Option.some.inj hvidmap)
    rfl
  · next haccepted =>
    obtain ⟨last, hlast, heq⟩ := Option.map_eq_some_iff.mp hvidmap
    obtain ⟨-, rfl⟩ := Prod.mk.inj heq
    have hpage : videoPageFor k.currScheduled k.currTerminal = k.display.videoMem :=
      hrouted.videoMem.symm
    rw [hpage] at hlast
    have hlength : ((List.range 4).map (wordByte
        (if k.userVidMem = 0 then USER_VID_ADDR else k.userVidMem))).length = 4 := rfl
    obtain ⟨phys, hstored⟩ := Kernel.storeUserBytes_program _
      (by omega : _128MB ≤ screenStart)
      (hlength.symm ▸ (by omega : screenStart + 4 ≤ USER_VID_ADDR))
    rw [hstored] at hlast
    obtain rfl := Option.some.inj hlast
    rfl

end Screens

/-! ## The screen of a session -/

section Sessions

variable {img : Image} {t : Terminal} {n : Nat} {Pos : Type} {program : UserProgram Pos}
  {s last : UserSession Pos} {history : List (Fired (UserSession Pos) (ClientMove MachineEvent))}

/-- What a move does to the screen of terminal `t`, where the session is. -/
def sessionAction (t : Terminal) (fired : Fired (UserSession Pos) (ClientMove MachineEvent)) :
    ScreenAction :=
  match fired.event with
  | .own => .print (printed (fired.post.answered.drop fired.pre.answered.length))
  | .other (.kernel (.key c)) =>
      if fired.pre.state.currTerminal = t then fired.pre.state.keyState.action c else .print []
  | .other _ => .print []

@[simp] theorem ScreenAction.apply_print_nil (screen : Screen) :
    (ScreenAction.print []).apply screen = screen := rfl

/-- A screen behind the moves of a session. -/
def sessionScreen (t : Terminal)
    (history : List (Fired (UserSession Pos) (ClientMove MachineEvent)))
    (screen : Screen) : Screen :=
  history.foldl (fun screen fired => (sessionAction t fired).apply screen) screen

theorem sessionScreen_snoc (t : Terminal)
    (history : List (Fired (UserSession Pos) (ClientMove MachineEvent)))
    (fired : Fired (UserSession Pos) (ClientMove MachineEvent)) (screen : Screen) :
    sessionScreen t (history ++ [fired]) screen =
      (sessionAction t fired).apply (sessionScreen t history screen) := by
  rw [sessionScreen, List.foldl_append, ← sessionScreen]
  rfl

/-- An attentive session beside which the events are disciplined, so that the system stays
sound. -/
def AllowedMoves (img : Image) (t : Terminal) (n : Nat)
    (history : List (Fired (UserSession Pos) (ClientMove MachineEvent))) : Prop :=
  ∀ fired ∈ history, Attentive img t n fired.pre.state fired.event ∧
    ∀ event, fired.event = .other event → event.Disciplined img fired.pre.state

theorem AllowedMoves.of_own
    (hown : ∀ fired ∈ history, fired.event = .own ∧ fired.pre.state.currTerminal = t) :
    AllowedMoves img t n history := by
  intro fired hmem
  obtain ⟨heq, hshown⟩ := hown fired hmem
  rw [heq]
  exact ⟨hshown, fun event heq => by cases heq⟩

/-- One own move. -/
theorem Displayed.own_shows (hk : Displayed img t n s.state) (hwf : img.WellFormed)
    (htypes : img.TypesKnown) (hrouted : RoutedSystem img s.state) (hstarts : StartsNothing program)
    (hmaps : MapsInside program)
    (hstep : s.step program (kernelService img t n) .own = some last) {screen : Screen}
    (hs : s.state.display.Shows t screen) :
    RoutedSystem img last.state ∧
      last.state.display.Shows t ((sessionAction t ⟨s, .own, last⟩).apply screen) := by
  obtain ⟨call, reply, after, hnext, -, hserve, rfl⟩ := Session.own_eq_some.mp hstep
  have hevent : machineStep img s.state (.kernel call.event) = some after :=
    Kernel.serve_step hserve
  cases call with
  | fd call =>
      have hdisc : MachineEvent.Disciplined img s.state (.kernel (UserCall.fd call).event) := by
        cases call <;> trivial
      have hafter := hrouted.step hdisc hevent
      obtain ⟨⟨result, last⟩, hcall, heq⟩ := Option.map_eq_some_iff.mp hserve
      obtain ⟨rfl, rfl⟩ := Prod.mk.inj heq
      have hshows := hk.call_shows hwf htypes hrouted.routed hcall hs
      cases hreply : result.reply with
      | none =>
          rw [hreply] at hshows
          refine ⟨hafter, ?_⟩
          simpa [sessionAction, Session.answer, printed] using hshows
      | some reply =>
          rw [hreply] at hshows
          refine ⟨hafter, ?_⟩
          simpa [sessionAction, Session.answer, printed] using hshows
  | getargs nbytes =>
      rw [show (kernelService img t n).serve = Kernel.serve img from rfl] at hserve
      simp only [Kernel.serve, Option.map_eq_some_iff] at hserve
      obtain ⟨⟨result, last⟩, hargs, heq⟩ := hserve
      obtain ⟨-, rfl⟩ := Prod.mk.inj heq
      obtain rfl := Kernel.getargs_same hargs
      cases reply with
      | none => exact ⟨hrouted, by simpa [sessionAction, Session.answer, printed] using hs⟩
      | some reply =>
          exact ⟨hrouted, by simpa [sessionAction, Session.answer, printed, printedBy] using hs⟩
  | execute command regs => exact absurd hnext (hstarts _ command regs)
  | vidmap screenStart =>
      have hdisc : MachineEvent.Disciplined img s.state
          (.kernel (UserCall.vidmap screenStart).event) := trivial
      have hafter := hrouted.step hdisc hevent
      obtain ⟨⟨result, last⟩, hvidmap, heq⟩ := Option.map_eq_some_iff.mp hserve
      obtain ⟨rfl, rfl⟩ := Prod.mk.inj heq
      have hdisplay := Kernel.vidmap_display hrouted.routed (hmaps _ _ hnext) hvidmap
      cases hreply : result.reply with
      | none =>
          refine ⟨hafter, ?_⟩
          simpa [sessionAction, Session.answer, printed, hdisplay] using hs
      | some reply =>
          refine ⟨hafter, ?_⟩
          simpa [sessionAction, Session.answer, printed, printedBy, hdisplay] using hs

/-- Events of a process draw for its terminal at most. -/
theorem drawsFor_process (k : Kernel) {event : MachineEvent} (h : event.ByProcess) :
    drawsFor k event = none ∨ drawsFor k event = some k.currScheduled := by
  cases event with
  | store | fill => exact .inr rfl
  | kernel event =>
      cases event with
      | tick | key | rtc => cases h
      | open_ | close | getargs => exact .inl rfl
      | _ => exact .inr rfl

theorem sessionAction_process {t : Terminal} {event : MachineEvent}
    (h : event.ByProcess) (pre post : UserSession Pos) :
    sessionAction t ⟨pre, .other event, post⟩ = .print [] := by
  cases event with
  | store | fill => rfl
  | kernel event =>
      cases event with
      | tick | key | rtc => cases h
      | _ => rfl

/-- Beside a session its screen changes by keys alone. -/
theorem Attends.other_shows {k after : Kernel} (hk : Attends img t n k)
    (hrouted : RoutedSystem img k) {event : MachineEvent} (hdisc : event.Disciplined img k)
    (hbeside : (kernelService img t n).beside k event = true)
    (hstep : machineStep img k event = some after) {screen : Screen}
    (hs : k.display.Shows t screen) {pre post : UserSession Pos} (hpre : pre.state = k) :
    after.display.Shows t ((sessionAction t ⟨pre, .other event, post⟩).apply screen) := by
  have hidle : event.ByProcess → k.currScheduled ≠ t := by
    intro hprocess hscheduled
    have hruns : k.runs t n := Kernel.runs_iff.mpr ⟨hscheduled, hk.head⟩
    simp [kernelService, hprocess, hruns] at hbeside
  have hquiet : drawsFor k event ≠ some t → sessionAction t ⟨pre, .other event, post⟩ = .print [] →
      after.display.Shows t ((sessionAction t ⟨pre, .other event, post⟩).apply screen) := by
    intro hdraws haction
    rw [haction]
    exact hrouted.shows hdisc hstep hdraws hs
  by_cases hprocess : event.ByProcess
  · -- the running process is on another terminal
    refine hquiet ?_ (sessionAction_process hprocess pre post)
    rcases drawsFor_process k hprocess with hdraws | hdraws
    · simp [hdraws]
    · simpa [hdraws] using hidle hprocess
  cases event with
  | store | fill => exact absurd rfl hprocess
  | kernel event =>
      cases event with
      | tick ebp inner => exact hquiet (by simp [drawsFor]) rfl
      | rtc => exact hquiet (by simp [drawsFor]) rfl
      | key c =>
          by_cases hshown : k.currTerminal = t
          · have haction : sessionAction t ⟨pre, .other (.kernel (.key c)), post⟩ =
                k.keyState.action c := by
              rw [← hpre] at hshown ⊢
              exact if_pos hshown
            obtain rfl := Option.some.inj hstep
            have hacts := Display.ActsOn.key k.keyState c
            rw [haction]
            rw [show k.keyState.display.currTerminal = t from hshown] at hacts
            exact hacts.shows screen hs
          · refine hquiet (by simpa [drawsFor] using hshown) ?_
            rw [← hpre] at hshown
            exact if_neg hshown
      | _ => exact absurd rfl hprocess

/-- The screen of a session's terminal goes through what the program prints and through the
keys that are pressed while it is displayed, in their order. -/
theorem UserSession.shows (hwf : img.WellFormed) (htypes : img.TypesKnown)
    (hstarts : StartsNothing program) (hmaps : MapsInside program)
    (hrun : Run (Session.step program (kernelService img t n)) s history last)
    (hallowed : AllowedMoves img t n history) (hattends : Attends img t n s.state)
    (hrouted : RoutedSystem img s.state) {screen : Screen} (hs : s.state.display.Shows t screen) :
    RoutedSystem img last.state ∧ last.state.display.Shows t (sessionScreen t history screen) := by
  induction hrun with
  | start => exact ⟨hrouted, hs⟩
  | @extend middle next history move prior hstep ih =>
      have hmoves : AllowedMoves img t n history :=
        fun fired hmem => hallowed fired (List.mem_append_left _ hmem)
      obtain ⟨hattentive, hdisc⟩ := hallowed _ (List.mem_append_right _ List.mem_cons_self)
      obtain ⟨hrouted, hs⟩ := ih hmoves
      have hk := UserSession.attends hwf htypes hstarts prior
        (fun fired hmem => (hmoves fired hmem).1) hattends
      rw [sessionScreen_snoc]
      cases move with
      | own =>
          obtain ⟨-, -, -, -, hruns, -, -⟩ := Session.own_eq_some.mp hstep
          exact Displayed.own_shows ⟨hk, hruns, hattentive⟩ hwf htypes hrouted hstarts hmaps hstep
            hs
      | other event =>
          obtain ⟨after, hbeside, hevent, hcases⟩ := Session.other_eq_some hstep
          have hafter : next.state = after := by
            rcases hcases with ⟨call, reply, -, -, rfl⟩ | ⟨-, rfl⟩ <;> rfl
          rw [hafter]
          exact ⟨hrouted.step (hdisc event rfl) hevent,
            hk.other_shows hrouted (hdisc event rfl) hbeside hevent hs rfl⟩

/-- Without keys it shows what was printed. -/
theorem UserSession.screen_keyless (hwf : img.WellFormed) (htypes : img.TypesKnown)
    (hstarts : StartsNothing program)
    (hrun : Run (Session.step program (kernelService img t n)) s history last)
    (hallowed : AllowedMoves img t n history) (hattends : Attends img t n s.state)
    (hnew : s.answered = [])
    (hkeys : ∀ fired ∈ history, ∀ c, fired.event = .other (.kernel (.key c)) →
      fired.pre.state.currTerminal ≠ t) (screen : Screen) :
    sessionScreen t history screen =
      (ScreenAction.print (printed last.answered)).apply screen := by
  induction hrun with
  | start => rw [hnew]; rfl
  | @extend middle next history move prior hstep ih =>
      have hmoves : AllowedMoves img t n history :=
        fun fired hmem => hallowed fired (List.mem_append_left _ hmem)
      have hprior := ih hmoves fun fired hmem => hkeys fired (List.mem_append_left _ hmem)
      have hquiet := hkeys _ (List.mem_append_right _ List.mem_cons_self)
      have hk := UserSession.attends hwf htypes hstarts prior
        (fun fired hmem => (hmoves fired hmem).1) hattends
      rw [sessionScreen_snoc, hprior]
      cases move with
      | own =>
          obtain ⟨call, reply, after, -, -, -, rfl⟩ := Session.own_eq_some.mp hstep
          cases reply with
          | none => simp [sessionAction, Session.answer, printed]
          | some reply =>
              simp [sessionAction, Session.answer, printed, ScreenAction.apply]
      | other event =>
          have hnone : sessionAction t ⟨middle, .other event, next⟩ = .print [] := by
            by_cases hprocess : event.ByProcess
            · exact sessionAction_process hprocess middle next
            · cases event with
              | store | fill => exact absurd rfl hprocess
              | kernel event =>
                  cases event with
                  | key c => exact if_neg (hquiet c rfl)
                  | tick | rtc => rfl
                  | _ => exact absurd rfl hprocess
          rw [hnone, ScreenAction.apply_print_nil]
          obtain ⟨after, -, -, hcases⟩ := Session.other_eq_some hstep
          rcases hcases with ⟨call, reply, -, hdeliver, -⟩ | ⟨-, rfl⟩
          · rw [hk.deliver_none] at hdeliver
            cases hdeliver
          · rfl

theorem UserSession.shows_printed (hwf : img.WellFormed) (htypes : img.TypesKnown)
    (hstarts : StartsNothing program) (hmaps : MapsInside program)
    (hrun : Run (Session.step program (kernelService img t n)) s history last)
    (hallowed : AllowedMoves img t n history) (hattends : Attends img t n s.state)
    (hrouted : RoutedSystem img s.state) (hnew : s.answered = [])
    (hkeys : ∀ fired ∈ history, ∀ c, fired.event = .other (.kernel (.key c)) →
      fired.pre.state.currTerminal ≠ t) {screen : Screen} (hs : s.state.display.Shows t screen) :
    last.state.display.Shows t ((ScreenAction.print (printed last.answered)).apply screen) := by
  have hshows := UserSession.shows hwf htypes hstarts hmaps hrun hallowed hattends hrouted hs
  rw [UserSession.screen_keyless hwf htypes hstarts hrun hallowed hattends hnew hkeys] at hshows
  exact hshows.2

end Sessions

/-! ## A command with an argument -/

/-- `shell shell`, which starts the one program of `threeFiles` with the name of a file. -/
def shellShell : List UInt8 := shellCommand ++ SPACE_CHAR :: shellCommand

theorem threeFiles_commanded_quiet : ∃ k entered, Commanded threeFiles shellShell k entered ∧
    entered.switchFlag = none ∧ entered.kb = (boot zeroMemory).kb ∧ entered.processCount = 4 := by
  obtain ⟨start, k, s, hreach, htotal, hstep, hset, hstacks, hscheduled, hshown, hflag, hkb⟩ :=
    displayed_reaches zeroMemory 0 ⟨0, 0⟩ threeFiles_shell threeFiles_loadable
  have hnext : k.currTerminal = k.currScheduled := hshown.trans hscheduled.symm
  obtain ⟨-, hheld⟩ := argsHeld_run (fun _ _ _ => rfl) hreach htotal (Run.single hstep)
    (by simp [ShortArgs, Disciplined])
  have hcount := hset.processCount_shells hstacks
  have hroom : k.processCount < MAX_PROCESS_COUNT := by
    rw [hcount]
    decide
  have hfind : findProgram threeFiles shellShell = some ⟨0, 0, shellCommand⟩ := by decide +kernel
  obtain ⟨entered, s', hexecute, hlaunched, -⟩ :=
    hset.enters hnext (launching_some_iff.mpr ⟨hroom, hfind⟩) (by decide) threeFiles_loadable ⟨0, 0⟩
  have hslot := (hset.slotSearch_free hroom).1
  obtain ⟨hkept, hquiet⟩ : entered.kb = k.kb ∧ entered.switchFlag = k.switchFlag :=
    Prod.mk.inj hlaunched.input
  refine ⟨k, entered, ⟨⟨start, 0, ⟨0, 0⟩, k, [], ⟨⟨_, hreach⟩, htotal⟩, hstep, .start k, by simp⟩,
    hnext, by decide, by decide, by decide, ?_, ⟨_, _, hexecute⟩⟩, hquiet.trans hflag,
    hkept.trans hkb, by rw [hlaunched.processCount, hcount]; rfl⟩
  intro program hprogram hloads
  rw [hheld.held _ hslot _ (by decide)]
  rfl

theorem threeFiles_commanded : ∃ k entered, Commanded threeFiles shellShell k entered := by
  obtain ⟨k, entered, hcommand, -⟩ := threeFiles_commanded_quiet
  exact ⟨k, entered, hcommand⟩

/-! ## Programs that a command starts -/

end Ece391
