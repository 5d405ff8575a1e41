import Ece391.ProgramLoad
import Ece391.SlotOwners

/-! # Where a load stores

Between two bytes of a load the program page has to stay mapped to the frame of the new slot.
A tick maps the frame of a terminal's head, and the new process becomes the head only after
its load.
-/

namespace Ece391

open Function Transition

/-! ## The property -/

/-- The addresses of the frame of slot `i`. -/
def SlotFrame (i addr : Nat) : Prop := _8MB + i * _4MB ≤ addr ∧ addr < _8MB + (i + 1) * _4MB

/-- A step of a load stores its byte in the frame of its slot and nowhere else. -/
def StoresInSlot (img : Image) (fired : Fired Threads Move) : Prop :=
  ∀ l i pos byte, fired.event = .advance → fired.pre.current = .loading l i pos →
    (l.program.bytes img)[pos]? = some byte →
    ∃ addr, fired.pre.kernel.translate (PROG_LOAD_ADDR + pos) = some (.frame addr) ∧
      SlotFrame i addr ∧
      fired.post.kernel.userByte = update fired.pre.kernel.userByte (.frame addr) byte ∧
      OnlyUserBytes fired.pre.kernel fired.post.kernel

/-- A step of a load leaves the frame of every process alone, its parent's and all others'. -/
def KeepsProcesses (fired : Fired Threads Move) : Prop :=
  ∀ l i pos, fired.event = .advance → fired.pre.current = .loading l i pos →
    ∀ t, ∀ n ∈ fired.pre.processes t, ∀ addr, SlotFrame (n - 1) addr →
      fired.post.kernel.phys addr = fired.pre.kernel.phys addr

/-- A step of a load stores its byte in the frame of a process that has another slot. -/
def OverwritesProcess (img : Image) (fired : Fired Threads Move) : Prop :=
  ∃ l i pos byte, fired.event = .advance ∧ fired.pre.current = .loading l i pos ∧
    (l.program.bytes img)[pos]? = some byte ∧
    ∃ t, ∃ n ∈ fired.pre.processes t, n ≠ i + 1 ∧ ∃ addr, SlotFrame (n - 1) addr ∧
      fired.pre.kernel.translate (PROG_LOAD_ADDR + pos) = some (.frame addr) ∧
      fired.post.kernel.phys addr = byte

/-- The frames of two slots have no address in common. -/
theorem SlotFrame.inj {i j addr : Nat} (hi : SlotFrame i addr) (hj : SlotFrame j addr) : i = j := by
  obtain ⟨hlow, hhigh⟩ := hi
  obtain ⟨hlow', hhigh'⟩ := hj
  simp only [_8MB, _4MB] at hlow hhigh hlow' hhigh'
  omega

namespace Threads

/-- Some bytes of a load are still to be stored. -/
def StillLoading (img : Image) : CallPhase → Prop
  | .loading l _ pos => pos < (l.program.bytes img).length
  | _ => False

/-- No tick comes between the bytes of a load, and no byte of it lies behind the program page. -/
def Unbroken (img : Image) (s : Threads) : Move → Prop
  | .event (.tick _ _) => ¬ StillLoading img s.current
  | .advance => ∀ l i pos, s.current = .loading l i pos →
      pos < (l.program.bytes img).length → PROG_LOAD_ADDR + pos < USER_VID_ADDR
  | .event _ => True

end Threads

/-! ## The mapping during a load -/

/-- Only the scheduled process is in a load, and the frame of its slot is mapped. -/
def LoadMapped (img : Image) (s : Threads) : Prop :=
  ∀ t l i pos, s.phase t = .loading l i pos → pos < (l.program.bytes img).length →
    t = s.scheduled ∧ s.kernel.userPageEntry = userPageOf (i + 1)

/-- A phase in which a call has just mapped its slot or has stored another byte. -/
def LoadsOn (img : Image) (s : Threads) (k : Kernel) (next : CallPhase) : Prop :=
  ∀ l i pos, next = .loading l i pos →
    k.userPageEntry = userPageOf (i + 1) ∨
      ∃ before, s.current = .loading l i before ∧ before < (l.program.bytes img).length ∧
        k.userPageEntry = s.kernel.userPageEntry

theorem LoadsOn.of_not {img : Image} {s : Threads} {k : Kernel} {next : CallPhase}
    (hnext : next.isLoading = false) : LoadsOn img s k next := by
  rintro l i pos rfl
  cases hnext

namespace LoadMapped

variable {img : Image} {s : Threads} {k : Kernel} {next : CallPhase} {list : List Nat}

/-- The scheduled process takes a step. -/
theorem become (hmapped : LoadMapped img s) (hk : k.currScheduled = s.scheduled)
    (hloads : LoadsOn img s k next) : LoadMapped img (s.become k next list) := by
  intro t l i pos hphase hpos
  change update s.phase s.scheduled next t = _ at hphase
  change t = k.currScheduled ∧ k.userPageEntry = _
  rw [hk]
  by_cases ht : t = s.scheduled
  · subst ht
    rw [update_self] at hphase
    refine ⟨rfl, ?_⟩
    rcases hloads l i pos hphase with hentry | ⟨before, hcurrent, hbefore, hentry⟩
    · exact hentry
    · rw [hentry]
      exact (hmapped _ l i before hcurrent hbefore).2
  · rw [update_of_ne ht] at hphase
    exact absurd (hmapped t l i pos hphase hpos).1 ht

/-- An event that leaves the mapping and the scheduled terminal. -/
theorem of_kernel (hmapped : LoadMapped img s) (hk : k.currScheduled = s.scheduled)
    (hentry : k.userPageEntry = s.kernel.userPageEntry) :
    LoadMapped img { s with kernel := k } := by
  intro t l i pos hphase hpos
  change t = k.currScheduled ∧ k.userPageEntry = _
  rw [hk, hentry]
  exact hmapped t l i pos hphase hpos

theorem advance {after : Threads} (hmapped : LoadMapped img s)
    (hadvance : s.advance img = some after) : LoadMapped img after := by
  unfold Threads.advance at hadvance
  generalize hcurrent : s.current = phase at hadvance
  cases phase with
  | away => cases hadvance
  | checked l =>
      obtain rfl := Option.some.inj hadvance
      exact hmapped.become rfl (.of_not rfl)
  | searching l i =>
      rw [Threads.advanceFrom] at hadvance
      split at hadvance
      · obtain rfl := Option.some.inj hadvance
        exact hmapped.become rfl (.of_not rfl)
      · obtain rfl := Option.some.inj hadvance
        exact hmapped.become rfl (.of_not rfl)
  | picked l i =>
      obtain rfl := Option.some.inj hadvance
      exact hmapped.become rfl (.of_not rfl)
  | taken l i pos =>
      rw [Threads.advanceFrom] at hadvance
      split at hadvance
      · obtain ⟨pcbs, -, rfl⟩ := Option.map_eq_some_iff.mp hadvance
        exact hmapped.become rfl (.of_not rfl)
      · obtain rfl := Option.some.inj hadvance
        -- the frame is mapped right before the first byte is stored
        refine hmapped.become (s.kernel.mapProgram_currScheduled i) fun l' i' pos' heq => .inl ?_
        obtain ⟨-, rfl, -⟩ := CallPhase.loading.inj heq
        exact s.kernel.mapProgram_userPageEntry i
  | loading l i pos =>
      rw [Threads.advanceFrom] at hadvance
      split at hadvance
      · next byte hbyte =>
        obtain ⟨k, hstore, rfl⟩ := Option.map_eq_some_iff.mp hadvance
        have hsame := (Kernel.storeUser_same hstore).1
        -- the next byte finds the mapping of the last one
        refine hmapped.become hsame.currScheduled fun l' i' pos' heq => .inr ?_
        obtain ⟨rfl, rfl, -⟩ := CallPhase.loading.inj heq
        exact ⟨pos, hcurrent, (List.getElem?_eq_some_iff.mp hbyte).1, hsame.userPageEntry⟩
      · split at hadvance
        · obtain rfl := Option.some.inj hadvance
          obtain ⟨program, regs, halting⟩ := l
          cases halting with
          | none => exact hmapped.become rfl (.of_not rfl)
          | some halted => exact hmapped.become rfl (.of_not rfl)
        · obtain rfl := Option.some.inj hadvance
          exact hmapped.become rfl (.of_not rfl)
  | loaded l i =>
      obtain rfl := Option.some.inj hadvance
      exact hmapped.become rfl (.of_not rfl)
  | linked l i =>
      obtain rfl := Option.some.inj hadvance
      exact hmapped.become rfl (.of_not rfl)
  | pushed l i =>
      obtain rfl := Option.some.inj hadvance
      exact hmapped.become rfl (.of_not rfl)
  | leaving num status =>
      obtain rfl := Option.some.inj hadvance
      exact hmapped.become rfl (.of_not rfl)

theorem execute (hmapped : LoadMapped img s) (command : Option (List UInt8)) (regs : Regs) :
    LoadMapped img (s.beginExecute img command regs) := by
  unfold Threads.beginExecute
  cases command with
  | none => exact hmapped
  | some command =>
      dsimp only
      split
      · exact hmapped.of_kernel rfl rfl
      split
      · exact hmapped
      · exact hmapped.become rfl (.of_not rfl)

theorem restart {after : Threads} {num : Nat} {status : UInt8} {regs : Regs}
    (hmapped : LoadMapped img s) (hk : k.currScheduled = s.scheduled)
    (hrestart : s.restart img k num status regs = some after) : LoadMapped img after := by
  unfold Threads.restart at hrestart
  dsimp only at hrestart
  split at hrestart
  · obtain rfl := Option.some.inj hrestart
    exact hmapped.become hk (.of_not rfl)
  split at hrestart
  · obtain rfl := Option.some.inj hrestart
    exact hmapped.become hk (.of_not rfl)
  · obtain ⟨copied, hcopied, rfl⟩ := Option.map_eq_some_iff.mp hrestart
    generalize slotSearch k.countProcess.pcbSlots = i at hcopied ⊢
    have hscheduled : copied.currScheduled = s.scheduled := by
      obtain ⟨pcbs, -, rfl⟩ := Option.map_eq_some_iff.mp hcopied
      exact hk
    refine hmapped.become ((copied.mapProgram_currScheduled i).trans hscheduled)
      fun l' i' pos' heq => .inl ?_
    obtain ⟨-, rfl, -⟩ := CallPhase.loading.inj heq
    exact copied.mapProgram_userPageEntry i

theorem halt {after : Threads} {status : UInt8} {regs : Regs} (hmapped : LoadMapped img s)
    (hhalt : s.beginHalt img status regs = some after) : LoadMapped img after := by
  unfold Threads.beginHalt at hhalt
  obtain ⟨released, hrelease, hhalt⟩ := Option.bind_eq_some_iff.mp hhalt
  have hscheduled := (Kernel.release_released hrelease).currScheduled
  split at hhalt
  · obtain ⟨parent, -, rfl⟩ := Option.map_eq_some_iff.mp hhalt
    exact hmapped.become hscheduled (.of_not rfl)
  · obtain ⟨d, -, hreset⟩ := released.resetTerminal_eq
    rw [hreset] at hhalt
    refine hmapped.restart ?_ hhalt
    exact hscheduled

/-- A tick that breaks no load finds none. -/
theorem tick (hmapped : LoadMapped img s) (hnone : ¬ Threads.StillLoading img s.current)
    (k : Kernel) : LoadMapped img { s with kernel := k } := by
  intro t l i pos hphase hpos
  obtain ⟨rfl, -⟩ := hmapped t l i pos hphase hpos
  refine absurd ?_ hnone
  rw [Threads.current]
  exact hphase ▸ hpos

theorem step {after : Threads} {move : Move} (hmapped : LoadMapped img s)
    (hunbroken : s.Unbroken img move) (hstep : Threads.step img s move = some after) :
    LoadMapped img after := by
  cases move with
  | advance => exact hmapped.advance hstep
  | event event =>
      by_cases hquiet : event.Quiet
      · obtain ⟨k, hcarried, rfl⟩ := Threads.step_quiet hquiet hstep
        have hsame := step_same hquiet hcarried
        exact hmapped.of_kernel hsame.currScheduled hsame.userPageEntry
      cases event with
      | tick ebp inner =>
          obtain ⟨k, -, rfl⟩ := Option.map_eq_some_iff.mp hstep
          exact hmapped.tick hunbroken k
      | execute command regs =>
          rw [Threads.step] at hstep
          split at hstep
          · obtain rfl := Option.some.inj hstep
            exact hmapped.execute command regs
          · cases hstep
      | halt status regs =>
          rw [Threads.step] at hstep
          split at hstep
          · exact hmapped.halt hstep
          · cases hstep
      | key | rtc | read | write | open_ | close | getargs | vidmap =>
          exact (hquiet trivial).elim

/-- With the frame of its slot mapped, a load stores there. -/
theorem stores {after : Threads} (hmapped : LoadMapped img s)
    (hunbroken : s.Unbroken img .advance) (hadvance : s.advance img = some after) :
    StoresInSlot img ⟨s, .advance, after⟩ := by
  rintro l i pos byte - hcurrent hbyte
  have hpos := (List.getElem?_eq_some_iff.mp hbyte).1
  have hentry := (hmapped _ l i pos hcurrent hpos).2
  have hinside := hunbroken l i pos hcurrent hpos
  dsimp only at hcurrent
  rw [Threads.advance, hcurrent, Threads.advanceFrom, hbyte] at hadvance
  obtain ⟨k, hstore, rfl⟩ := Option.map_eq_some_iff.mp hadvance
  obtain ⟨target, htarget, hbytes, honly⟩ := Kernel.storeUser_spec hstore
  have hpage : s.kernel.translate (PROG_LOAD_ADDR + pos) =
      some (.frame (frameOf s.kernel.userPageEntry + (PROG_LOAD_ADDR + pos - _128MB))) :=
    if_pos ⟨(by decide : _128MB ≤ PROG_LOAD_ADDR).trans (Nat.le_add_right _ _), hinside⟩
  obtain rfl := Option.some.inj (htarget.symm.trans hpage)
  exact ⟨_, hpage, Kernel.translate_frame hentry hpage, hbytes, honly⟩

end LoadMapped

/-! ## Over runs -/

/-- A byte in the frame of a slot that no process owns is nobody's. -/
theorem StoresInSlot.keepsProcesses {img : Image} {s after : Threads} (howns : OwnsSlots s)
    (hstores : StoresInSlot img ⟨s, .advance, after⟩) (hadvance : s.advance img = some after) :
    KeepsProcesses ⟨s, .advance, after⟩ := by
  rintro l i pos - hcurrent t n hn addr hframe
  dsimp only at hcurrent hn ⊢
  cases hbyte : (l.program.bytes img)[pos]? with
  | none =>
      rw [Threads.advance, hcurrent, Threads.advanceFrom, hbyte] at hadvance
      dsimp only at hadvance
      split at hadvance <;> obtain rfl := Option.some.inj hadvance <;> rfl
  | some byte =>
      obtain ⟨target, -, htarget, hbytes, -⟩ := hstores l i pos byte rfl hcurrent hbyte
      have hne : addr ≠ target := by
        rintro rfl
        have hother : n ≠ i + 1 := by
          rintro rfl
          exact howns.not_mem_processes hcurrent List.mem_cons_self t hn
        have hpos := (howns.range (Holding.mem_owned hn : n ∈ s.ownedBy t)).1
        have hsame := hframe.inj htarget
        omega
      have hkept := congrFun hbytes (.frame addr)
      rwa [update_of_ne fun heq => hne (UserByte.frame.inj heq)] at hkept

/-- A load that no tick breaks stores every byte in the frame of its slot, and, where the slots
are exclusive, in no process's. -/
theorem load_stays_in_slot {img : Image} {start last : Threads}
    {history : List (Fired Threads Move)} (hstart : start.Started img)
    (hrun : Run (Threads.step img) start history last)
    (hunbroken : ∀ fired ∈ history, fired.pre.Unbroken img fired.event) :
    ∀ fired ∈ history, StoresInSlot img fired ∧
      ((∀ fired ∈ history, fired.pre.Guarded fired.event) → KeepsProcesses fired) := by
  have hmapped : LoadMapped img start := by
    intro t l i pos hphase
    rw [hstart.phase] at hphase
    cases hphase
  rintro fired hfired
  obtain ⟨hbefore, hstep⟩ := hrun.invariant_before (LoadMapped img) (Threads.Unbroken img)
    (fun _ _ _ hmapped hunbroken hstep => hmapped.step hunbroken hstep) hunbroken hmapped hfired
  have hallowed := hunbroken fired hfired
  obtain ⟨s, move, after⟩ := fired
  cases move with
  | event event => exact ⟨fun _ _ _ _ hadvance => Move.noConfusion hadvance,
      fun _ _ _ _ hadvance => Move.noConfusion hadvance⟩
  | advance =>
      have hstores := hbefore.stores hallowed hstep
      refine ⟨hstores, fun hguard => ?_⟩
      have howns := (hrun.invariant_before OwnsSlots Threads.Guarded
        (fun _ _ _ howns hguard hstep => howns.step hguard hstep) hguard hstart.ownsSlots hfired).1
      exact hstores.keepsProcesses howns hstep

/-! ## A load with and without ticks -/

theorem Threads.BesideLoads.unbroken {img : Image} {s : Threads} {move : Move}
    (hbeside : s.BesideLoads move) : s.Unbroken img move := by
  cases move with
  | advance =>
      intro l i pos hcurrent
      rw [BesideLoads, hcurrent] at hbeside
      cases hbeside
  | event event =>
      cases event with
      | tick => exact hbeside.elim
      | execute | halt | key | rtc | read | write | open_ | close | getargs | vidmap =>
          exact trivial

/-- After three ticks a process goes on where it was, with the frame of the head mapped. -/
theorem OwnsSlots.three_ticks {s : Threads} (howns : OwnsSlots s) (hlive : ∀ t, s.processes t ≠ [])
    (img : Image) (ebp : Nat) (inner : Regs) :
    ∃ history k, Run (Threads.step img) s history { s with kernel := k } ∧
      k.currScheduled = s.scheduled ∧ k.userPageEntry = userPageOf (s.kernel.head s.scheduled) := by
  obtain ⟨first, htick, hfirst⟩ := howns.tick_completes hlive img ebp inner
  have howns₁ := howns.tick hfirst
  obtain ⟨second, htick', hsecond⟩ := howns₁.tick_completes hlive img ebp inner
  have howns₂ := howns₁.tick hsecond
  obtain ⟨third, htick'', hthird⟩ := howns₂.tick_completes hlive img ebp inner
  have hscheduled : second.currScheduled.next = s.scheduled := by
    rw [hsecond.currScheduled, hfirst.currScheduled, Terminal.next_next_next]
  have hheads : second.highestTerminalProcesses = s.kernel.highestTerminalProcesses :=
    hsecond.heads.trans hfirst.heads
  refine ⟨_, third, ((Run.single htick).extend htick').extend htick'',
    hthird.currScheduled.trans hscheduled, ?_⟩
  rw [hthird.userPageEntry, Kernel.head, hheads]
  exact congrArg (fun t => userPageOf (s.kernel.head t)) hscheduled

/-- The displayed shell executes another one and is in front of its first byte. -/
theorem Threads.load_run :
    ∃ start history loading, start.Started shellImage ∧
      Run (Threads.step shellImage) start history loading ∧
      (∀ fired ∈ history, fired.pre.Unbroken shellImage fired.event ∧
        fired.pre.Guarded fired.event) ∧
      loading.current = .loading ⟨⟨0, 0, []⟩, ⟨0, 0⟩, none⟩ 3 0 ∧
      (∀ t, loading.processes t = [t.num]) ∧ loading.scheduled = .T1 := by
  obtain ⟨start, s, hstart, htick, hphase, hprocesses, hscheduled, -, -, hcount, htaken, hfree⟩ :=
    shells_run
  have hroom : s.kernel.processCount < MAX_PROCESS_COUNT := by
    rw [hcount]
    decide
  have hunclaimed : s.Unclaimed 3 := by
    intro t
    rw [hphase]
    exact ⟨List.not_mem_nil, List.not_mem_nil⟩
  obtain ⟨history, hpicked, hhistory⟩ := pick_run ⟨0, 0⟩ shellImage_shell (hphase _) hroom
    (by decide : 3 < MAX_PROCESS_COUNT) htaken hfree
  -- up to here the search; two more steps take the slot and map its frame
  obtain ⟨l, hl⟩ : ∃ l : Launching, l = ⟨⟨0, 0, []⟩, ⟨0, 0⟩, none⟩ := ⟨_, rfl⟩
  rw [← hl] at hpicked ⊢
  have hmark : Threads.step shellImage (s.goOn s.kernel.countProcess (.picked l 3)) .advance =
      some (s.goOn (s.kernel.countProcess.takeSlot 3) (.taken l 3 0)) := become_step rfl rfl
  obtain ⟨entry, hentry⟩ := (s.kernel.countProcess.takeSlot 3).mapProgram_eq 3
  have hmap : Threads.step shellImage
      (s.goOn (s.kernel.countProcess.takeSlot 3) (.taken l 3 0)) .advance =
      some (s.goOn { s.kernel.countProcess.takeSlot 3 with userPageEntry := entry }
        (.loading l 3 0)) := by
    rw [← hentry, hl]
    exact become_step rfl rfl
  have hpickedGuard : (s.goOn s.kernel.countProcess (.picked l 3)).Guarded .advance :=
    guarded_advance rfl trivial
  have htakenGuard : (s.goOn (s.kernel.countProcess.takeSlot 3) (.taken l 3 0)).Guarded .advance :=
    guarded_advance rfl fun _ => by decide
  have hpickedBeside : (s.goOn s.kernel.countProcess (.picked l 3)).BesideLoads .advance :=
    beside_advance rfl rfl
  have htakenBeside : (s.goOn (s.kernel.countProcess.takeSlot 3) (.taken l 3 0)).BesideLoads
      .advance := beside_advance rfl rfl
  refine ⟨start, _, _, hstart, ((hpicked.extend hmark).extend hmap).cons htick, ?_,
    become_current rfl, fun t => ?_, hscheduled⟩
  · intro fired hmem
    rcases List.mem_cons.mp hmem with rfl | hmem
    · refine ⟨?_, trivial⟩
      change ¬ StillLoading shellImage start.current
      rw [current, hstart.phase]
      exact id
    rcases List.mem_append.mp hmem with hmem | hmem
    · rcases List.mem_append.mp hmem with hmem | hmem
      · obtain ⟨hbeside, hguard⟩ := hhistory fired hmem
        exact ⟨hbeside.unbroken, hguard hunclaimed⟩
      · obtain rfl := List.mem_singleton.mp hmem
        exact ⟨hpickedBeside.unbroken, hpickedGuard⟩
    · obtain rfl := List.mem_singleton.mp hmem
      exact ⟨htakenBeside.unbroken, htakenGuard⟩
  · change update s.processes s.scheduled (s.processes s.scheduled) t = _
    rw [update_eq_self, hprocesses]

/-- The next byte of a load goes to the frame that is mapped. -/
theorem Threads.store_step {s : Threads} {img : Image} {l : Launching} {i pos : Nat} {byte : UInt8}
    (hcurrent : s.current = .loading l i pos) (hbyte : (l.program.bytes img)[pos]? = some byte)
    (hinside : PROG_LOAD_ADDR + pos < USER_VID_ADDR) :
    ∃ addr after, s.kernel.translate (PROG_LOAD_ADDR + pos) = some (.frame addr) ∧
      Threads.step img s .advance = some after ∧ after.kernel.phys addr = byte := by
  have hpage : s.kernel.translate (PROG_LOAD_ADDR + pos) =
      some (.frame (frameOf s.kernel.userPageEntry + (PROG_LOAD_ADDR + pos - _128MB))) :=
    if_pos ⟨(by decide : _128MB ≤ PROG_LOAD_ADDR).trans (Nat.le_add_right _ _), hinside⟩
  generalize frameOf s.kernel.userPageEntry + (PROG_LOAD_ADDR + pos - _128MB) = addr at hpage
  have hstore : s.kernel.storeUser (PROG_LOAD_ADDR + pos) byte =
      some { s.kernel with phys := update s.kernel.phys addr byte } := by
    rw [Kernel.storeUser, hpage]
    rfl
  have hstep : Threads.step img s .advance =
      some (s.goOn { s.kernel with phys := update s.kernel.phys addr byte }
        (.loading l i (pos + 1))) := by
    rw [Threads.step, Threads.advance, hcurrent, Threads.advanceFrom, hbyte]
    dsimp only
    rw [hstore]
    rfl
  refine ⟨addr, _, hpage, hstep, ?_⟩
  change update s.kernel.phys addr byte addr = byte
  rw [update_self]

/-- Wherever ticks break a load, the rest of it can go to the frame of the terminal's head. -/
theorem OwnsSlots.broken_load {s : Threads} {img : Image} {l : Launching} {i pos : Nat}
    {byte : UInt8} (howns : OwnsSlots s) (hlive : ∀ t, s.processes t ≠ [])
    (hcurrent : s.current = .loading l i pos) (hbyte : (l.program.bytes img)[pos]? = some byte)
    (hinside : PROG_LOAD_ADDR + pos < USER_VID_ADDR) :
    ∃ history last, Run (Threads.step img) s history last ∧
      ∃ fired ∈ history, OverwritesProcess img fired ∧ ¬ StoresInSlot img fired := by
  obtain ⟨ticks, k, hticks, hback, hentry⟩ := howns.three_ticks hlive img 0 ⟨0, 0⟩
  obtain ⟨hpos, rest, hlist⟩ : 1 ≤ s.kernel.head s.scheduled ∧
      ∃ rest, s.processes s.scheduled = s.kernel.head s.scheduled :: rest := by
    rcases (howns.holding s.scheduled).head_cases with ⟨hnil, -⟩ | ⟨hpos, -, hrest⟩
    · exact absurd hnil (hlive _)
    · exact ⟨hpos, hrest⟩
  have hmem : s.kernel.head s.scheduled ∈ s.processes s.scheduled := by
    rw [hlist]
    exact List.mem_cons_self
  have hother : s.kernel.head s.scheduled ≠ i + 1 := by
    intro heq
    rw [heq] at hmem
    exact howns.not_mem_processes hcurrent List.mem_cons_self s.scheduled hmem
  obtain ⟨third, hthird⟩ : ∃ third : Threads, third = { s with kernel := k } := ⟨_, rfl⟩
  rw [← hthird] at hticks
  have hkernel : third.kernel = k := congrArg Threads.kernel hthird
  have hphase : third.current = .loading l i pos := by
    rw [Threads.current, Threads.scheduled, hkernel, hback, hthird]
    exact hcurrent
  obtain ⟨addr, last, hpage, hlast, hstored⟩ := Threads.store_step hphase hbyte hinside
  have hframe : SlotFrame (s.kernel.head s.scheduled - 1) addr := by
    have hmapped : third.kernel.userPageEntry =
        userPageOf (s.kernel.head s.scheduled - 1 + 1) := by
      rw [hkernel, hentry, Nat.sub_add_cancel hpos]
    exact Kernel.translate_frame hmapped hpage
  have hmem' : s.kernel.head s.scheduled ∈ third.processes s.scheduled := by
    rw [hthird]
    exact hmem
  refine ⟨_, last, hticks.extend hlast, ⟨third, .advance, last⟩,
    List.mem_append_right _ List.mem_cons_self, ?_, ?_⟩
  · exact ⟨l, i, pos, byte, rfl, hphase, hbyte, s.scheduled, _, hmem', hother, addr, hframe, hpage,
      hstored⟩
  · intro hstores
    obtain ⟨target, hpage', htarget, -⟩ := hstores l i pos byte rfl hphase hbyte
    obtain rfl := UserByte.frame.inj (Option.some.inj (hpage.symm.trans hpage'))
    have hsame := hframe.inj htarget
    omega

theorem shellImage_firstByte :
    (Program.bytes shellImage ⟨0, 0, []⟩)[0]? = some 0x7F := by decide

/-- The first byte of a shell, stored without a tick. -/
theorem load_stays_in_slot_shell :
    ∃ start history last, start.Started shellImage ∧
      Run (Threads.step shellImage) start history last ∧
      (∃ fired ∈ history, ∃ l, fired.event = .advance ∧ fired.pre.current = .loading l 3 0) ∧
      ∀ fired ∈ history, StoresInSlot shellImage fired ∧ KeepsProcesses fired := by
  obtain ⟨start, history, loading, hstart, hrun, hhistory, hcurrent, -, -⟩ := Threads.load_run
  obtain ⟨addr, last, -, hlast, -⟩ :=
    Threads.store_step hcurrent shellImage_firstByte (by decide)
  have hunbroken : loading.Unbroken shellImage .advance := by
    intro l i pos heq _
    rw [hcurrent] at heq
    obtain ⟨-, -, rfl⟩ := CallPhase.loading.inj heq
    decide
  have hguarded : loading.Guarded .advance := by
    rw [Threads.Guarded, hcurrent]
    exact trivial
  have hall : ∀ fired ∈ history ++ [⟨loading, .advance, last⟩],
      fired.pre.Unbroken shellImage fired.event ∧ fired.pre.Guarded fired.event := by
    intro fired hmem
    rcases List.mem_append.mp hmem with hmem | hmem
    · exact hhistory fired hmem
    · obtain rfl := List.mem_singleton.mp hmem
      exact ⟨hunbroken, hguarded⟩
  refine ⟨start, _, last, hstart, hrun.extend hlast,
    ⟨_, List.mem_append_right _ List.mem_cons_self, _, rfl, hcurrent⟩, fun fired hmem => ?_⟩
  obtain ⟨hstores, hkeeps⟩ := load_stays_in_slot hstart (hrun.extend hlast)
    (fun fired hmem => (hall fired hmem).1) fired hmem
  exact ⟨hstores, hkeeps fun fired hmem => (hall fired hmem).2⟩

/-- Three ticks in front of the first byte, and it is stored in the frame of the parent. -/
theorem load_reaches_parent :
    ∃ start history last, start.Started shellImage ∧
      Run (Threads.step shellImage) start history last ∧
      ∃ fired ∈ history, OverwritesProcess shellImage fired ∧ ¬ StoresInSlot shellImage fired := by
  obtain ⟨start, history, loading, hstart, hrun, hhistory, hcurrent, hprocesses, -⟩ :=
    Threads.load_run
  have howns : OwnsSlots loading := hrun.invariant_of_allowed OwnsSlots Threads.Guarded
    (fun _ _ _ howns hguard hstep => howns.step hguard hstep)
    (fun fired hmem => (hhistory fired hmem).2) hstart.ownsSlots
  have hlive : ∀ t, loading.processes t ≠ [] := by
    intro t
    rw [hprocesses]
    exact List.cons_ne_nil _ _
  obtain ⟨rest, last, hrest, fired, hmem, hoverwrites, helsewhere⟩ :=
    howns.broken_load hlive hcurrent shellImage_firstByte (by decide)
  exact ⟨start, _, last, hstart, hrun.append hrest, fired, List.mem_append_right _ hmem,
    hoverwrites, helsewhere⟩

end Ece391
