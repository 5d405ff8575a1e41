import Ece391.Lib.Scripts
import Ece391.Shell
import Ece391.Turns

/-! # Programs that are scripts

A user program that makes finitely many calls and starts no other is verified against what
its calls may reply. In an attentive session this only depends on the descriptors that are in
use, so it can be put together from the parts of the program.
-/

namespace Ece391

open Function Transition Sessions Scripts Script

abbrev UserScript := Script UserCall Reply

/-- Calls that start no program and whose pointers lie inside the page of the program. -/
def Tame : UserCall → Prop
  | .execute _ _ => False
  | .vidmap screenStart => screenStart + 4 ≤ USER_VID_ADDR ∨ USER_VID_ADDR ≤ screenStart
  | .fd _ | .getargs _ => True

theorem Tame.fd (call : Call) : Tame (.fd call) := trivial

theorem Tame.vidmap {screenStart : Nat}
    (hout : screenStart + 4 ≤ USER_VID_ADDR ∨ USER_VID_ADDR ≤ screenStart) :
    Tame (.vidmap screenStart) := hout

/-- Scripts of tame calls as user programs. -/
abbrev scriptProgram : UserProgram { s : UserScript Int // s.Asks Tame } := client Tame

theorem scriptProgram_startsNothing : StartsNothing scriptProgram := by
  intro pos command regs hnext
  exact (client_next hnext).1

/-! ## What calls may reply -/

/-- What the calls on descriptors do to those in use. -/
def DescriptorLaw (img : Image) (used : Finset Nat) : UserCall → Reply → Finset Nat → Prop
  | .fd (.open_ filename), reply, next =>
      match filename.bind (readDentryByName img) with
      | none => reply = ⟨-1, []⟩ ∧ next = used
      | some _ =>
          if used.card < MAX_OPEN_FILES then
            ∃ fd : Nat, (STDI_O ≤ fd ∧ fd < MAX_OPEN_FILES ∧ fd ∉ used) ∧ reply = ⟨fd, []⟩ ∧
              next = insert fd used
          else reply = ⟨-1, []⟩ ∧ next = used
  | .fd (.close fd), reply, next =>
      if STDI_O ≤ fd ∧ fd < MAX_OPEN_FILES ∧ fd.toNat ∈ used then
        reply = ⟨0, []⟩ ∧ next = used.erase fd.toNat
      else reply = ⟨-1, []⟩ ∧ next = used
  | .fd (.read fd _ _), reply, next =>
      (fd < 0 ∨ fd ≥ MAX_OPEN_FILES ∨ fd = 1 ∨ fd.toNat ∉ used → reply = ⟨-1, []⟩) ∧ next = used
  | .fd (.write fd _ _), reply, next =>
      (fd < 0 ∨ fd ≥ MAX_OPEN_FILES ∨ fd = 0 ∨ fd.toNat ∉ used → reply = ⟨-1, []⟩) ∧ next = used
  | .vidmap screenStart, reply, next =>
      (screenStart < _128MB ∨ USER_VID_ADDR ≤ screenStart → reply = ⟨-1, []⟩) ∧ next = used
  | .getargs _, _, next => next = used
  | .execute _ _, _, _ => True

/-- What a displayed program that runs is replied. -/
def Replies (img : Image) (used : Finset Nat) (call : UserCall) (reply : Reply)
    (next : Finset Nat) : Prop :=
  Lawful (call, reply) ∧ DescriptorLaw img used call reply next

section Kernel

variable {img : Image} {t : Terminal} {n : Nat} {k after : Kernel}

/-- A descriptor that is not in use. -/
theorem free_of_notMem (hk : k.fds = (k.pcb (getPCB n)).fileArray) {fd : Int}
    (hout : fd.toNat ∉ usedFds (k.pcb (getPCB n))) :
    fd < 0 ∨ fd ≥ MAX_OPEN_FILES ∨ (k.fds fd.toNat).Free := by
  rw [usedFds, SlotTable.mem_used, ← hk] at hout
  by_contra htaken
  simp only [not_or] at htaken
  exact hout ⟨by omega, htaken.2.2⟩

/-- The law of the table, seen on the descriptors in use. -/
theorem CallLaw.descriptors {call : Call} {result : SysReturn} {reply : Reply}
    (hlaw : CallLaw img k result after call) (hreply : result.reply = some reply)
    (hk : k.fds = (k.pcb (getPCB n)).fileArray)
    (hafter : after.fds = (after.pcb (getPCB n)).fileArray) :
    DescriptorLaw img (usedFds (k.pcb (getPCB n))) (.fd call) reply
      (usedFds (after.pcb (getPCB n))) := by
  have hvalue : ∀ value out, result = .returned value out → reply = ⟨value, out⟩ := by
    rintro value out rfl
    exact (Option.some.inj hreply).symm
  have hused : usedFds (k.pcb (getPCB n)) = SlotTable.used FdStruct.Free k.fds MAX_OPEN_FILES := by
    rw [usedFds, hk]
  have hnext : usedFds (after.pcb (getPCB n)) =
      SlotTable.used FdStruct.Free after.fds MAX_OPEN_FILES := by
    rw [usedFds, hafter]
  have hkept : SameTable k after → usedFds (after.pcb (getPCB n)) = usedFds (k.pcb (getPCB n)) := by
    intro hsame
    rw [hnext, hsame.fds, hused]
  -- only `open` and `close` change the table: the other calls move a position at most
  cases call with
  | open_ filename =>
      rw [DescriptorLaw]
      rw [CallLaw] at hlaw
      cases hfind : filename.bind (readDentryByName img) with
      | none =>
          rw [hfind] at hlaw
          exact ⟨hvalue _ _ hlaw.1, hkept hlaw.2⟩
      | some entry =>
          rw [hfind] at hlaw
          dsimp only at hlaw ⊢
          rw [hused]
          rw [Kernel.openFds] at hlaw
          split
          · next hroom =>
            rw [if_pos hroom] at hlaw
            obtain ⟨fd, ⟨⟨hlow, hlt, hslot⟩, -⟩, hresult, hfds⟩ := hlaw
            refine ⟨fd, ⟨hlow, hlt, fun hmem => ?_⟩, hvalue _ _ hresult, ?_⟩
            · exact (SlotTable.mem_used.mp hmem).2 hslot
            · rw [hnext, hfds, SlotTable.used_take hlt (descOf_not_free entry)]
          · next hfull =>
            rw [if_neg hfull] at hlaw
            exact ⟨hvalue _ _ hlaw.1, hused ▸ hkept hlaw.2⟩
  | close fd =>
      rw [DescriptorLaw]
      rw [CallLaw] at hlaw
      split
      · next hopen =>
        have hmem := hopen.2.2
        rw [hused, SlotTable.mem_used] at hmem
        rw [if_pos ⟨hopen.1, hopen.2.1, hmem.2⟩] at hlaw
        refine ⟨hvalue _ _ hlaw.1, ?_⟩
        have hreleased : ({ k.fds fd.toNat with flags := 0 } : FdStruct).Free := rfl
        rw [hnext, hlaw.2, SlotTable.used_release hreleased, hused]
      · next hclosed =>
        rw [if_neg ?_] at hlaw
        · exact ⟨hvalue _ _ hlaw.1, hkept hlaw.2⟩
        rintro ⟨hlow, hlt, htaken⟩
        refine hclosed ⟨hlow, hlt, ?_⟩
        rw [hused, SlotTable.mem_used]
        exact ⟨by omega, htaken⟩
  | read fd buf nbytes =>
      obtain ⟨hrefused, -, fPos, hfds⟩ := hlaw
      refine ⟨fun hbad => hvalue _ _ (hrefused (.inr ?_)), ?_⟩
      · have hout := @free_of_notMem n k hk fd
        tauto
      · rw [hnext, hfds, SlotTable.used_keep, hused]
        exact Iff.rfl
  | write fd buf nbytes =>
      obtain ⟨hrefused, hsame⟩ := hlaw
      refine ⟨fun hbad => hvalue _ _ (hrefused (.inr ?_)), hkept hsame⟩
      have hout := @free_of_notMem n k hk fd
      tauto

/-- The kernel replies what may be replied. -/
theorem Displayed.replies (hk : Displayed img t n k) (hwf : img.WellFormed)
    (htypes : img.TypesKnown) {call : UserCall} {reply : Reply}
    (hserve : k.serve img call = some (some reply, after)) :
    Replies img (usedFds (k.pcb (getPCB n))) call reply (usedFds (after.pcb (getPCB n))) := by
  cases call with
  | fd call =>
      refine ⟨hk.lawful hserve, ?_⟩
      obtain ⟨result, last, hcall, hlaw, -, hruns, -⟩ :=
        hk.toAttends.call hk.runs hk.shown hwf htypes call
      rw [Kernel.serve, hcall, Option.map_some] at hserve
      obtain ⟨hreply, rfl⟩ := Prod.mk.inj (Option.some.inj hserve)
      exact hlaw.descriptors hreply hk.fds (Attends.fds hruns)
  | getargs nbytes =>
      simp only [Kernel.serve, Option.map_eq_some_iff] at hserve
      obtain ⟨⟨result, last⟩, hargs, heq⟩ := hserve
      obtain ⟨-, rfl⟩ := Prod.mk.inj heq
      obtain rfl := Kernel.getargs_same hargs
      exact ⟨trivial, rfl⟩
  | vidmap screenStart =>
      obtain ⟨⟨result, last⟩, hvidmap, heq⟩ := Option.map_eq_some_iff.mp hserve
      obtain ⟨hreply, rfl⟩ := Prod.mk.inj heq
      refine ⟨trivial, fun hrefused => ?_, ?_⟩
      · rw [Kernel.vidmap, if_pos (.inr hrefused)] at hvidmap
        obtain ⟨rfl, -⟩ := Prod.mk.inj (Option.some.inj hvidmap)
        exact (Option.some.inj hreply).symm
      · rw [Kernel.vidmap_pcb hvidmap]
  | execute command regs =>
      obtain ⟨⟨result, last⟩, hexecute, heq⟩ := Option.map_eq_some_iff.mp hserve
      obtain ⟨hreply, -⟩ := Prod.mk.inj heq
      refine ⟨?_, trivial⟩
      cases result with
      | entered eip => cases hreply
      | returned value =>
          obtain rfl := Option.some.inj hreply
          rcases Kernel.execute_value hexecute with rfl | rfl
          · exact .inl rfl
          · exact .inr ⟨0, rfl⟩

/-- A call that waits leaves the descriptors as they are. -/
theorem Displayed.waits (hk : Displayed img t n k) (hwf : img.WellFormed)
    (htypes : img.TypesKnown) {call : UserCall} (htame : Tame call)
    (hserve : k.serve img call = some (none, after)) :
    usedFds (after.pcb (getPCB n)) = usedFds (k.pcb (getPCB n)) := by
  cases call with
  | fd call =>
      obtain ⟨result, last, hcall, hlaw, -, hruns, -⟩ :=
        hk.toAttends.call hk.runs hk.shown hwf htypes call
      rw [Kernel.serve, hcall, Option.map_some] at hserve
      obtain ⟨hreply, rfl⟩ := Prod.mk.inj (Option.some.inj hserve)
      obtain rfl : result = .waiting := by
        cases result with
        | waiting => rfl
        | returned value out => cases hreply
      have hused : ∀ {k : Kernel}, k.runs t n →
          usedFds (k.pcb (getPCB n)) = SlotTable.used FdStruct.Free k.fds MAX_OPEN_FILES := by
        intro k hruns
        rw [usedFds, Attends.fds hruns]
      rw [hused hruns, hused hk.runs]
      cases call with
      | read fd buf nbytes =>
          obtain ⟨-, -, fPos, hfds⟩ := hlaw
          rw [hfds, SlotTable.used_keep]
          exact Iff.rfl
      | write fd buf nbytes => rw [hlaw.2.fds]
      | open_ filename =>
          rw [CallLaw] at hlaw
          split at hlaw
          · cases hlaw.1
          · split at hlaw
            · obtain ⟨fd, -, hresult, -⟩ := hlaw
              cases hresult
            · cases hlaw.1
      | close fd =>
          rw [CallLaw] at hlaw
          split at hlaw
          · cases hlaw.1
          · cases hlaw.1
  | getargs nbytes =>
      simp only [Kernel.serve, Option.map_eq_some_iff] at hserve
      obtain ⟨⟨result, last⟩, hargs, heq⟩ := hserve
      obtain ⟨-, rfl⟩ := Prod.mk.inj heq
      rw [Kernel.getargs_same hargs]
  | vidmap screenStart =>
      obtain ⟨⟨result, last⟩, hvidmap, heq⟩ := Option.map_eq_some_iff.mp hserve
      obtain ⟨-, rfl⟩ := Prod.mk.inj heq
      rw [Kernel.vidmap_pcb hvidmap]
  | execute command regs => exact htame.elim

end Kernel

/-! ## Rules for user scripts -/

/-- What a script knows: the descriptors in use and what was answered. -/
structure UserView where
  used : Finset Nat
  answered : List (UserCall × Reply)

/-- Calls that are answered at once. -/
def AtOnce (used : Finset Nat) : UserCall → Prop
  | .fd (.read fd _ _) => fd < 0 ∨ fd ≥ MAX_OPEN_FILES ∨ fd = 1 ∨ fd.toNat ∉ used
  | .fd _ => True
  | .vidmap screenStart => screenStart < _128MB ∨ USER_VID_ADDR ≤ screenStart
  | .getargs _ | .execute _ _ => False

/-- Besides calls that are answered at once a script may read `lines` lines. -/
def scriptRules (img : Image) (lines : Nat) : Rules UserView UserCall Reply where
  may view call := AtOnce view.used call ∨
    ((linesGiven view.answered).length < lines ∧ ∃ nbytes : Nat, call = .fd (.read 0 true nbytes))
  replies view call reply next := Replies img view.used call reply next.used ∧
    next.answered = view.answered ++ [(call, reply)]

theorem Kernel.fopsWrite_returned {k after : Kernel} {fops : Fops} {buf : Option (Nat → UInt8)}
    {nbytes : Int} {result : SysReturn} (hwrite : (result, after) = k.fopsWrite fops buf nbytes) :
    ∃ value out, result = .returned value out := by
  obtain rfl := congrArg Prod.fst hwrite
  cases fops with
  | file | dir | stdin => exact ⟨_, _, rfl⟩
  | rtc =>
      unfold fopsWrite rtcWrite
      dsimp only
      repeat' split
      all_goals exact ⟨_, _, rfl⟩
  | stdout =>
      unfold fopsWrite terminalWrite
      dsimp only
      repeat' split
      all_goals exact ⟨_, _, rfl⟩

section Sessions

variable {img : Image} {t : Terminal} {n lines : Nat} {post : Int → UserView → Prop}
  {s last : UserSession { s : UserScript Int // s.Asks Tame }}
  {history : List (Fired (UserSession { s : UserScript Int // s.Asks Tame })
    (ClientMove MachineEvent))}

/-- The view of a session. -/
def Kernel.viewOf (n : Nat) (k : Kernel) (answered : List (UserCall × Reply)) : UserView :=
  ⟨usedFds (k.pcb (getPCB n)), answered⟩

/-- What is proved of a script by the rules holds in all its sessions. -/
theorem UserSession.ensures (hwf : img.WellFormed) (htypes : img.TypesKnown)
    (hrun : Run (Session.step scriptProgram (kernelService img t n)) s history last)
    (hallowed : ∀ fired ∈ history, Attentive img t n fired.pre.state fired.event)
    (hattends : Attends img t n s.state)
    (hs : s.pos.1.Ensures (scriptRules img lines) post (s.state.viewOf n s.answered)) :
    Attends img t n last.state ∧
      last.pos.1.Ensures (scriptRules img lines) post (last.state.viewOf n last.answered) := by
  refine UserSession.invariant hwf htypes scriptProgram_startsNothing hrun (fun _ _ => True)
    (fun fired hmem => ⟨hallowed fired hmem, fun _ _ => trivial⟩)
    (fun k pos answered => pos.1.Ensures (scriptRules img lines) post (k.viewOf n answered))
    ?_ ?_ hattends hs
  · intro k pos answered call reply after hholds hown
    have hk : Displayed img t n k := ⟨hown.attends, hown.runs, hown.shown⟩
    obtain ⟨htame, rest, hpos, hrest⟩ := client_next hown.next
    cases reply with
    | none =>
        -- the call waits, and the script stays where it is
        have hused := hk.waits hwf htypes htame hown.served
        change pos.1.Ensures _ post ⟨usedFds (after.pcb (getPCB n)), answered⟩
        rw [hused]
        exact hholds
    | some reply =>
        rw [hpos] at hholds
        change ((client Tame).resume pos reply).1.Ensures _ post _
        rw [hrest]
        exact hholds.2 reply _ ⟨hk.replies hwf htypes hown.served, rfl⟩
  · -- what spares the program leaves its descriptors alone
    intro k pos answered event after hholds _ hother
    change pos.1.Ensures _ post ⟨usedFds (after.pcb (getPCB n)), answered⟩
    rw [usedFds, hother.tables.fileArray]
    exact hholds

/-- The kernel answers at once what the rules say it does. -/
theorem Displayed.answers {k : Kernel} (hk : Displayed img t n k) (hwf : img.WellFormed)
    (htypes : img.TypesKnown) {call : UserCall}
    (hcall : AtOnce (usedFds (k.pcb (getPCB n))) call) :
    ∃ reply after, k.serve img call = some (some reply, after) ∧ Displayed img t n after := by
  cases call with
  | fd call =>
      obtain ⟨result, after, hserved, hlaw, hafter, hruns, hshown⟩ :=
        hk.toAttends.call hk.runs hk.shown hwf htypes call
      obtain ⟨value, out, rfl⟩ : ∃ value out, result = .returned value out := by
        cases call with
        | read fd buf nbytes =>
            have hout := @free_of_notMem n k hk.fds fd
            exact ⟨_, _, hlaw.1 (by unfold AtOnce at hcall; tauto)⟩
        | write fd buf nbytes =>
            rcases Kernel.write_cases hserved with ⟨rfl, -⟩ | ⟨fops, -, heq⟩
            · exact ⟨_, _, rfl⟩
            · exact Kernel.fopsWrite_returned heq
        | open_ filename =>
            rw [CallLaw] at hlaw
            split at hlaw
            · exact ⟨_, _, hlaw.1⟩
            · split at hlaw
              · obtain ⟨fd, -, hresult, -⟩ := hlaw
                exact ⟨_, _, hresult⟩
              · exact ⟨_, _, hlaw.1⟩
        | close fd =>
            rw [CallLaw] at hlaw
            split at hlaw
            · exact ⟨_, _, hlaw.1⟩
            · exact ⟨_, _, hlaw.1⟩
      refine ⟨⟨value, out⟩, after, ?_, ⟨hafter, hruns, hshown⟩⟩
      rw [Kernel.serve, hserved]
      rfl
  | vidmap screenStart =>
      refine ⟨⟨-1, []⟩, k, ?_, hk⟩
      rw [Kernel.serve, Kernel.vidmap, if_pos (.inr hcall)]
      rfl
  | getargs nbytes => exact hcall.elim
  | execute command regs => exact hcall.elim

/-- Once a script has read its lines it comes to its end by its own moves. -/
theorem Displayed.script_ends {k : Kernel} {answered : List (UserCall × Reply)}
    {script : UserScript Int} (hk : Displayed img t n k) (hwf : img.WellFormed)
    (htypes : img.TypesKnown) (hasks : script.Asks Tame)
    (hs : script.Ensures (scriptRules img lines) post (k.viewOf n answered))
    (hgiven : (linesGiven answered).length = lines) :
    ∃ more final value, Run (Session.step scriptProgram (kernelService img t n))
        ⟨k, ⟨script, hasks⟩, answered⟩ more final ∧
      (∀ fired ∈ more, fired.event = .own ∧ fired.pre.state.currTerminal = t) ∧
      final.pos.1 = done value ∧ post value (final.state.viewOf n final.answered) := by
  have hserve : ∀ k answered call,
      Displayed img t n k ∧ lines ≤ (linesGiven answered).length →
      (scriptRules img lines).may (k.viewOf n answered) call →
      k.runs t n ∧ ∃ reply after, k.serve img call = some (some reply, after) ∧
        (scriptRules img lines).replies (k.viewOf n answered) call reply
          (after.viewOf n (answered ++ [(call, reply)])) ∧
        Displayed img t n after ∧ lines ≤ (linesGiven (answered ++ [(call, reply)])).length := by
    rintro k answered call ⟨hk, hgiven⟩ hmay
    rcases hmay with honce | ⟨hlines, -⟩
    · obtain ⟨reply, after, hserve, hafter⟩ := hk.answers hwf htypes honce
      refine ⟨hk.runs, reply, after, hserve, ⟨hk.replies hwf htypes hserve, rfl⟩, hafter, ?_⟩
      rw [linesGiven_append, List.length_append]
      exact hgiven.trans (Nat.le_add_right _ _)
    · -- the lines are read, so that no call is left that waits for the keyboard
      exact absurd hlines (not_lt.mpr hgiven)
  have hgood : Displayed img t n k ∧ lines ≤ (linesGiven answered).length := ⟨hk, hgiven.ge⟩
  obtain ⟨more, final, value, hrun, hown, hend⟩ := Ensures.ends (kernelService img t n)
    (fun k answered => k.viewOf n answered)
    (fun k answered => Displayed img t n k ∧ lines ≤ (linesGiven answered).length)
    hserve hasks hs hgood
  exact ⟨more, final, value, hrun,
    fun fired hmem => ⟨(hown fired hmem).1, (hown fired hmem).2.1.shown⟩, hend⟩

end Sessions

/-! ## What is still to come -/

/-- The terminal's descriptors are in use, and none behind the table. -/
structure InUse (used : Finset Nat) : Prop where
  terminal : ∀ fd < STDI_O, fd ∈ used
  bounded : used ⊆ Finset.range MAX_OPEN_FILES

section InUse

variable {img : Image} {used next : Finset Nat} {call : UserCall} {reply : Reply}

theorem PcbSound.inUse {pcb : Pcb} (hsound : PcbSound img pcb) : InUse (usedFds pcb) where
  terminal := by
    intro fd hfd
    have hcases : fd = 0 ∨ fd = 1 := by
      simp only [STDI_O] at hfd
      omega
    rcases hcases with rfl | rfl <;> rw [usedFds, SlotTable.mem_used]
    · exact ⟨by decide, by rw [hsound.stdin]; decide⟩
    · exact ⟨by decide, by rw [hsound.stdout]; decide⟩
  bounded := Finset.filter_subset _ _

/-- Calls take and free descriptors of the program only. -/
theorem InUse.kept (hused : InUse used) (hcall : Tame call)
    (hreply : DescriptorLaw img used call reply next) : InUse next := by
  cases call with
  | fd call =>
      cases call with
      | open_ filename =>
          rw [DescriptorLaw] at hreply
          split at hreply
          · rwa [hreply.2]
          · split at hreply
            · obtain ⟨fd, ⟨-, hlt, -⟩, -, rfl⟩ := hreply
              refine ⟨fun fd hfd => Finset.mem_insert_of_mem (hused.terminal fd hfd), ?_⟩
              exact Finset.insert_subset (Finset.mem_range.mpr hlt) hused.bounded
            · rwa [hreply.2]
      | close fd =>
          rw [DescriptorLaw] at hreply
          split at hreply
          · next hopen =>
            obtain ⟨-, rfl⟩ := hreply
            refine ⟨fun i hi => Finset.mem_erase.mpr ⟨?_, hused.terminal i hi⟩,
              (Finset.erase_subset _ _).trans hused.bounded⟩
            have hlow := hopen.1
            omega
          · rwa [hreply.2]
      | read fd buf nbytes => rwa [hreply.2]
      | write fd buf nbytes => rwa [hreply.2]
  | vidmap screenStart => rwa [hreply.2]
  | getargs nbytes =>
      obtain rfl : next = used := hreply
      exact hused
  | execute command regs => exact hcall.elim

/-- There is a reply to every call on descriptors. -/
theorem InUse.exists_reply (img : Image) (hused : InUse used) (call : Call) :
    ∃ reply next, Replies img used (.fd call) reply next := by
  cases call with
  | open_ filename =>
      cases hfind : filename.bind (readDentryByName img) with
      | none => exact ⟨⟨-1, []⟩, used, trivial, by rw [DescriptorLaw, hfind]; exact ⟨rfl, rfl⟩⟩
      | some entry =>
          by_cases hroom : used.card < MAX_OPEN_FILES
          · obtain ⟨fd, hfd, hfree⟩ : ∃ fd ∈ Finset.range MAX_OPEN_FILES, fd ∉ used := by
              by_contra hnone
              simp only [not_exists, not_and, not_not] at hnone
              have hle := Finset.card_le_card hnone
              rw [Finset.card_range] at hle
              omega
            -- the slots of the terminal are taken
            have hlow : STDI_O ≤ fd := by
              by_contra hlow
              exact hfree (hused.terminal fd (by omega))
            refine ⟨⟨fd, []⟩, insert fd used, trivial, ?_⟩
            rw [DescriptorLaw, hfind]
            dsimp only
            rw [if_pos hroom]
            exact ⟨fd, ⟨hlow, Finset.mem_range.mp hfd, hfree⟩, rfl, rfl⟩
          · refine ⟨⟨-1, []⟩, used, trivial, ?_⟩
            rw [DescriptorLaw, hfind]
            dsimp only
            rw [if_neg hroom]
            exact ⟨rfl, rfl⟩
  | close fd =>
      by_cases hopen : STDI_O ≤ fd ∧ fd < MAX_OPEN_FILES ∧ fd.toNat ∈ used
      · exact ⟨⟨0, []⟩, used.erase fd.toNat, trivial,
          by rw [DescriptorLaw, if_pos hopen]; exact ⟨rfl, rfl⟩⟩
      · exact ⟨⟨-1, []⟩, used, trivial,
          by rw [DescriptorLaw, if_neg hopen]; exact ⟨rfl, rfl⟩⟩
  | read fd buf nbytes =>
      by_cases hzero : fd = 0
      · subst hzero
        -- an empty line
        refine ⟨⟨0, []⟩, used, ?_, fun hbad => ?_, rfl⟩
        · cases buf with
          | false => trivial
          | true => exact fun hpos => ⟨rfl, hpos⟩
        · rcases hbad with hneg | hbig | hone | hout
          · cases hneg
          · cases hbig
          · cases hone
          · exact absurd (hused.terminal 0 (by decide)) hout
      · refine ⟨⟨-1, []⟩, used, ?_, fun _ => rfl, rfl⟩
        unfold Lawful
        split
        · next heq => exact absurd (Call.read.inj (UserCall.fd.inj (Prod.mk.inj heq).1)).1 hzero
        · next heq => cases (Prod.mk.inj heq).1
        · next heq => cases (Prod.mk.inj heq).1
        · trivial
  | write fd buf nbytes =>
      by_cases hone : fd = 1
      · subst hone
        refine ⟨⟨nbytes + 1, []⟩, used, ?_, fun hbad => ?_, rfl⟩
        · cases buf with
          | none => trivial
          | some buf => exact fun _ => rfl
        · rcases hbad with hneg | hbig | hzero | hout
          · cases hneg
          · cases hbig
          · cases hzero
          · exact absurd (hused.terminal 1 (by decide)) hout
      · refine ⟨⟨-1, []⟩, used, ?_, fun _ => rfl, rfl⟩
        unfold Lawful
        split
        · next heq => cases (Prod.mk.inj heq).1
        · next heq => exact absurd (Call.write.inj (UserCall.fd.inj (Prod.mk.inj heq).1)).1 hone
        · next heq => cases (Prod.mk.inj heq).1
        · trivial

/-- The descriptors of a program that has opened nothing. -/
def terminalFds : Finset Nat := {0, 1}

theorem terminalFds_inUse : InUse terminalFds := ⟨by decide, by decide⟩

theorem InUse.eq_terminalFds (hused : InUse used) (hle : ∀ fd ∈ used, fd < STDI_O) :
    used = terminalFds := by
  ext fd
  have hcases : fd ∈ terminalFds ↔ fd < STDI_O := by
    simp only [terminalFds, Finset.mem_insert, Finset.mem_singleton, STDI_O]
    omega
  rw [hcases]
  exact ⟨hle fd, hused.terminal fd⟩

/-- A program in front of its first call has opened nothing. -/
theorem JustStarted.usedFds_eq {t : Terminal} {n : Nat} {text : List UInt8} {k : Kernel}
    (hstart : JustStarted img t n text k) : usedFds (k.pcb (getPCB n)) = terminalFds := by
  have hused : InUse (usedFds (k.pcb (getPCB n))) := hstart.table.inUse
  have hsubset : terminalFds ⊆ usedFds (k.pcb (getPCB n)) := by
    intro fd hmem
    refine hused.terminal fd ?_
    rw [terminalFds, Finset.mem_insert, Finset.mem_singleton] at hmem
    simp only [STDI_O]
    omega
  exact (Finset.eq_of_subset_of_card_le hsubset hstart.fresh.le).symm

/-- What a script has printed is the front of what it prints to its end. -/
theorem InUse.reaches {α : Type} {script : UserScript α} {lines : Nat} {post : α → UserView → Prop}
    {answered : List (UserCall × Reply)} (hused : InUse used)
    (hs : script.Ensures (scriptRules img lines) post ⟨used, answered⟩) :
    ∃ value last, post value last ∧ answered <+: last.answered := by
  refine hs.reaches (fun view => InUse view.used)
    (fun first last => first.answered <+: last.answered)
    (fun view => List.prefix_refl view.answered)
    (fun first second third hfirst hsecond => List.IsPrefix.trans hfirst hsecond) ?_ hused
  intro view call hgood hmay
  have htame : Tame call ∧ ∃ reply next, Replies img view.used call reply next := by
    rcases hmay with honce | ⟨-, nbytes, rfl⟩
    · cases call with
      | fd call => exact ⟨trivial, hgood.exists_reply img call⟩
      | vidmap screenStart =>
          refine ⟨?_, ⟨-1, []⟩, view.used, trivial, fun _ => rfl, rfl⟩
          rcases honce with hlow | hhigh
          · exact .inl (by simp only [_128MB, USER_VID_ADDR] at hlow ⊢; omega)
          · exact .inr hhigh
      | getargs nbytes => exact honce.elim
      | execute command regs => exact honce.elim
    · exact ⟨trivial, hgood.exists_reply img _⟩
  obtain ⟨htame, reply, next, hreply⟩ := htame
  exact ⟨reply, ⟨next, view.answered ++ [(call, reply)]⟩, ⟨hreply, rfl⟩,
    List.prefix_append _ _, hgood.kept htame hreply.2⟩

end InUse

/-! ## What scripts print -/

/-- Whatever was answered before, the script returns `value`, prints `text`, reads no line and
leaves the descriptors `next` in use. -/
def Says {α : Type} (img : Image) (script : UserScript α) (used : Finset Nat) (value : α)
    (text : List UInt8) (next : Finset Nat) : Prop :=
  ∀ lines answered, script.Ensures (scriptRules img lines)
    (fun result view => result = value ∧ view.used = next ∧
      printed view.answered = printed answered ++ text ∧
      linesGiven view.answered = linesGiven answered) ⟨used, answered⟩

/-- Calls that are refused whatever the kernel does. -/
def Refused (img : Image) (used : Finset Nat) : UserCall → Prop
  | .fd (.open_ filename) => filename.bind (readDentryByName img) = none
  | .fd (.close fd) => ¬ (STDI_O ≤ fd ∧ fd < MAX_OPEN_FILES ∧ fd.toNat ∈ used)
  | .fd (.read fd _ _) => fd < 0 ∨ fd ≥ MAX_OPEN_FILES ∨ fd = 1 ∨ fd.toNat ∉ used
  | .fd (.write fd _ _) => fd < 0 ∨ fd ≥ MAX_OPEN_FILES ∨ fd = 0 ∨ fd.toNat ∉ used
  | .vidmap screenStart => screenStart < _128MB ∨ USER_VID_ADDR ≤ screenStart
  | .getargs _ | .execute _ _ => False

section Says

variable {α β : Type} {img : Image} {used middle next : Finset Nat}

theorem Refused.replies {call : UserCall} {reply : Reply} (hcall : Refused img used call)
    (hreply : DescriptorLaw img used call reply next) : reply = ⟨-1, []⟩ ∧ next = used := by
  cases call with
  | fd call =>
      cases call with
      | open_ filename =>
          rw [DescriptorLaw, show filename.bind (readDentryByName img) = none from hcall] at hreply
          exact hreply
      | close fd =>
          rw [DescriptorLaw, if_neg hcall] at hreply
          exact hreply
      | read fd buf nbytes => exact ⟨hreply.1 hcall, hreply.2⟩
      | write fd buf nbytes => exact ⟨hreply.1 hcall, hreply.2⟩
  | vidmap screenStart => exact ⟨hreply.1 hcall, hreply.2⟩
  | getargs nbytes => exact hcall.elim
  | execute command regs => exact hcall.elim

theorem Refused.atOnce {call : UserCall} (hcall : Refused img used call) : AtOnce used call := by
  cases call with
  | fd call =>
      cases call with
      | read fd buf nbytes => exact hcall
      | open_ | close | write => trivial
  | vidmap screenStart => exact hcall
  | getargs nbytes => exact hcall
  | execute command regs => exact hcall

/-- A refused call prints nothing and is no line. -/
theorem Refused.silent {call : UserCall} (hcall : Refused img used call) :
    printedBy (call, ⟨-1, []⟩) = [] ∧ linesGiven [(call, ⟨-1, []⟩)] = [] := by
  cases call with
  | fd call =>
      cases call with
      | open_ | close => exact ⟨rfl, rfl⟩
      | read fd buf nbytes =>
          refine ⟨if_neg fun h => h.2 rfl, ?_⟩
          unfold linesGiven
          rw [List.filterMap_cons_none, List.filterMap_nil]
          split
          · next heq =>
            obtain rfl := (Prod.mk.inj heq).2
            exact if_neg fun h => h rfl
          · rfl
      | write fd buf nbytes =>
          refine ⟨?_, rfl⟩
          cases buf with
          | none => rfl
          | some buf => exact if_neg fun h => h.2 rfl
  | vidmap screenStart => exact ⟨rfl, rfl⟩
  | getargs nbytes => exact hcall.elim
  | execute command regs => exact hcall.elim

theorem Says.done (value : α) : Says img (pure value) used value [] used := by
  intro lines answered
  exact ⟨rfl, rfl, (List.append_nil _).symm, rfl⟩

theorem Says.bind {script : UserScript α} {rest : α → UserScript β} {value : α} {result : β}
    {text more : List UInt8} (hfirst : Says img script used value text middle)
    (hsecond : Says img (rest value) middle result more next) :
    Says img (script >>= rest) used result (text ++ more) next := by
  intro lines answered
  refine (hfirst lines answered).bind ?_
  rintro _ ⟨_, log⟩ ⟨rfl, rfl, hprinted, hlines⟩
  refine (hsecond lines log).mono ?_
  rintro _ view ⟨rfl, rfl, hprinted', hlines'⟩
  refine ⟨rfl, rfl, ?_, hlines'.trans hlines⟩
  rw [hprinted', hprinted, List.append_assoc]

theorem Says.refused {call : UserCall} (hcall : Refused img used call) :
    Says img (ask call) used ⟨-1, []⟩ [] used := by
  intro lines answered
  refine Ensures.ask (.inl hcall.atOnce) ?_
  rintro reply ⟨left, log⟩ ⟨⟨-, hreply⟩, hlog⟩
  dsimp only at hreply hlog ⊢
  obtain ⟨rfl, rfl⟩ := hcall.replies hreply
  subst hlog
  obtain ⟨hprints, hline⟩ := hcall.silent
  refine ⟨rfl, rfl, ?_, ?_⟩
  · rw [printed_snoc, hprints]
  · rw [linesGiven_append, hline, List.append_nil]

theorem Says.fdputs {text : List UInt8} (htext : NUL ∉ text) :
    Says img (tell (fdputs 1 text)) used ⟨⟩ text used := by
  intro lines answered
  refine Ensures.tell (.inl trivial) ?_
  rintro reply ⟨left, log⟩ ⟨⟨hlawful, -, hleft⟩, hlog⟩
  dsimp only at hleft hlog ⊢
  subst hleft hlog
  refine ⟨rfl, rfl, ?_, ?_⟩
  · -- a write of no bytes may return anything
    rw [printed_snoc]
    rcases List.eq_nil_or_concat text with rfl | ⟨front, c, rfl⟩
    · exact congrArg (printed answered ++ ·) (ite_self _)
    · have hpos : 0 < (front.concat c).length := by simp
      have hvalue : reply.value = (front.concat c).length + 1 := hlawful (by exact_mod_cast hpos)
      rw [printedBy_fdputs htext (by omega)]
  · rw [linesGiven_append]
    exact List.append_nil _

theorem Says.prints {text : List UInt8} (htext : NUL ∉ text) (value : α) :
    Says img (tell (Ece391.fdputs 1 text) >>= fun _ => pure value) used value text used := by
  have hends : Says img (tell (Ece391.fdputs 1 text) >>= fun _ => pure value) used value
      (text ++ []) used := (Says.fdputs htext).bind (.done value)
  rw [List.append_nil] at hends
  exact hends

/-- A call that is refused, in front of the rest. -/
theorem Says.refuses {call : UserCall} (hcall : Refused img used call) {rest : Reply → UserScript β}
    {result : β} {text : List UInt8} (hrest : Says img (rest ⟨-1, []⟩) used result text next) :
    Says img (ask call >>= rest) used result text next :=
  (Says.refused hcall).bind hrest

/-- A loop prints what its rounds print; `inv` is what they keep of the accumulator. -/
theorem Says.loop {ι : Type} {body : β → ι → UserScript β} {text : ι → List UInt8} (inv : β → Prop)
    {rounds : List ι} (hround : ∀ acc, ∀ i ∈ rounds, inv acc →
      ∃ after, inv after ∧ Says img (body acc i) used after (text i) used)
    {acc : β} (hacc : inv acc) :
    ∃ last, inv last ∧ Says img (rounds.foldlM body acc) used last (rounds.flatMap text) used := by
  induction rounds generalizing acc with
  | nil => exact ⟨acc, hacc, .done acc⟩
  | cons i rest ih =>
      obtain ⟨after, hafter, hfirst⟩ := hround acc i List.mem_cons_self hacc
      obtain ⟨last, hlast, hrest⟩ :=
        ih (fun acc j hmem => hround acc j (List.mem_cons_of_mem _ hmem)) hafter
      refine ⟨last, hlast, ?_⟩
      rw [List.foldlM_cons, List.flatMap_cons]
      exact hfirst.bind hrest

/-- A loop whose rounds neither print nor change anything. -/
theorem Says.idle {ι : Type} {body : β → ι → UserScript β} {rounds : List ι} {acc : β}
    (hround : ∀ i ∈ rounds, Says img (body acc i) used acc [] used) :
    Says img (rounds.foldlM body acc) used acc [] used := by
  have hrounds : ∀ start, ∀ i ∈ rounds, start = acc →
      ∃ after, after = acc ∧ Says img (body start i) used after [] used := by
    rintro _ i hmem rfl
    exact ⟨_, rfl, hround i hmem⟩
  obtain ⟨_, rfl, hloop⟩ := Says.loop (· = acc) hrounds rfl
  rwa [List.flatMap_eq_nil_iff.mpr fun _ _ => rfl] at hloop

end Says

end Ece391
