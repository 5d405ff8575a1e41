import Ece391.Directory

/-! # The rates that processes leave behind

`rtc_write` sets the rate of the scheduled terminal. Neither `rtc_open` nor `rtc_close`
nor `halt` resets it, so a read waits at the rate that was accepted last on its terminal,
whichever process had written it.
-/

namespace Ece391

open Function Transition

/-! ## What changes a rate -/

/-- The rate `rtc_write` takes from a buffer. -/
def acceptedRate (buf : Option (Nat → UInt8)) (nbytes : Int) : Option Int :=
  buf.bind fun buf =>
    let freq := int32 ((buf 0).toNat + 256 * (buf 1).toNat + 256 ^ 2 * (buf 2).toNat +
      256 ^ 3 * (buf 3).toNat)
    if nbytes = 4 ∧ freq ≤ F_1024 ∧ F_2 ≤ freq then some freq else none

/-- A descriptor whose writes reach `rtc_write`. -/
def FdStruct.IsRtc (fd : FdStruct) : Prop :=
  fd.flags ≠ 0 ∧ fd.flags &&& FD_FLAG_FILE = 0 ∧ fd.fopsTable = rtc_table

instance : DecidablePred FdStruct.IsRtc :=
  fun fd => inferInstanceAs (Decidable (_ ∧ _ ∧ fd.fopsTable = rtc_table))

/-- The rate that an event writes for the scheduled terminal. -/
def Kernel.writtenRate (k : Kernel) : Event → Option Int
  | .write fd buf nbytes =>
      if (0 < fd ∧ fd < MAX_OPEN_FILES) ∧ k.displayedPcb < _8MB ∧ (k.lookup fd.toNat).IsRtc then
        acceptedRate buf nbytes
      else none
  | _ => none

theorem Kernel.rtcWrite_eq (k : Kernel) (buf : Option (Nat → UInt8)) (nbytes : Int) :
    k.rtcWrite buf nbytes =
      match acceptedRate buf nbytes with
      | some rate =>
          (.returned 0 [],
            { k with rtc := { k.rtc with rates := update k.rtc.rates k.currScheduled rate } })
      | none => (failed, k) := by
  unfold Kernel.rtcWrite acceptedRate
  cases buf with
  | none => rfl
  | some buf =>
      dsimp only [Option.bind_some]
      split
      · next hcount => rw [if_neg fun h => hcount h.1]
      · next hcount =>
        split
        · rw [if_neg (by omega)]
        · rw [if_pos (by omega)]

theorem Kernel.rtcWrite_rates (k : Kernel) (buf : Option (Nat → UInt8)) (nbytes : Int) :
    (k.rtcWrite buf nbytes).2.rtc.rates =
      match acceptedRate buf nbytes with
      | some rate => update k.rtc.rates k.currScheduled rate
      | none => k.rtc.rates := by
  rw [k.rtcWrite_eq]
  cases acceptedRate buf nbytes <;> rfl

theorem fopsAt_rtc {addr : Nat} : fopsAt addr = some .rtc ↔ addr = rtc_table := by
  constructor
  · intro htable
    unfold fopsAt at htable
    repeat' split at htable
    all_goals first | assumption | simp at htable
  · rintro rfl
    rfl

theorem Kernel.Writes.writtenRate {k : Kernel} {fd : Int} {buf : Option (Nat → UInt8)}
    {fops : Fops} (hwrites : k.Writes fd buf fops) (nbytes : Int) :
    k.writtenRate (.write fd buf nbytes) =
      if fops = .rtc then acceptedRate buf nbytes else none := by
  have hrange := hwrites.notStdin
  have hnonneg := hwrites.nonneg
  have htable : (k.lookup fd.toNat).fopsTable = rtc_table ↔ fops = .rtc := by
    rw [← fopsAt_rtc, hwrites.table, Option.some.injEq]
  have hinUse : (k.lookup fd.toNat).flags ≠ 0 := hwrites.inUse
  unfold Kernel.writtenRate FdStruct.IsRtc
  dsimp only
  simp only [htable, hwrites.mapped, hwrites.lt, hwrites.notFile]
  simp [show 0 < fd by omega, hinUse]

/-- An event that writes a rate is a write that reaches the driver. -/
theorem Kernel.writes_of_writtenRate {k : Kernel} {fd nbytes rate : Int}
    {buf : Option (Nat → UInt8)} (hrate : k.writtenRate (.write fd buf nbytes) = some rate) :
    k.Writes fd buf .rtc ∧ acceptedRate buf nbytes = some rate := by
  unfold Kernel.writtenRate at hrate
  dsimp only at hrate
  split at hrate
  · next hreaches =>
    obtain ⟨⟨hpos, hlt⟩, hmapped, hinUse, hnotFile, htable⟩ := hreaches
    have hbuf : buf ≠ none := by
      rintro rfl
      simp [acceptedRate] at hrate
    exact ⟨⟨hbuf, by omega, hlt, by omega, hmapped, hinUse, hnotFile, fopsAt_rtc.mpr htable⟩, hrate⟩
  · simp at hrate

theorem Kernel.fopsWrite_rtc (k : Kernel) {fops : Fops} (hother : fops ≠ .rtc)
    (buf : Option (Nat → UInt8)) (nbytes : Int) : (k.fopsWrite fops buf nbytes).2.rtc = k.rtc := by
  cases fops with
  | rtc => exact absurd rfl hother
  | file | dir | stdin => rfl
  | stdout => exact k.terminalWrite_rtc buf nbytes

/-- A read sets a counter and no rate. -/
theorem Kernel.read_rates {k after : Kernel} {img : Image} {fd nbytes : Int} {buf : Bool}
    {result : SysReturn} (hread : k.read img fd buf nbytes = some (result, after)) :
    after.rtc.rates = k.rtc.rates := by
  rcases Kernel.read_cases hread with ⟨-, rfl⟩ | ⟨fops, -, hread⟩
  · rfl
  · by_cases hrtc : fops = .rtc
    · subst hrtc
      obtain rfl := congrArg Prod.snd (Option.some.inj hread)
      rfl
    · rw [Kernel.fopsRead_rtc hrtc hread]

theorem Kernel.write_rates {k after : Kernel} {fd nbytes : Int} {buf : Option (Nat → UInt8)}
    {result : SysReturn} (hwrite : k.write fd buf nbytes = some (result, after)) :
    after.rtc.rates =
      match k.writtenRate (.write fd buf nbytes) with
      | some rate => update k.rtc.rates k.currScheduled rate
      | none => k.rtc.rates := by
  cases hrate : k.writtenRate (.write fd buf nbytes) with
  | some rate =>
      obtain ⟨hwrites, haccepted⟩ := Kernel.writes_of_writtenRate hrate
      rw [hwrites.write_eq] at hwrite
      obtain rfl := congrArg Prod.snd (Option.some.inj hwrite)
      have hrates := k.rtcWrite_rates buf nbytes
      rw [haccepted] at hrates
      exact hrates
  | none =>
      rcases Kernel.write_cases hwrite with ⟨-, rfl⟩ | ⟨fops, hwrites, heq⟩
      · rfl
      · obtain rfl := congrArg Prod.snd heq
        rw [hwrites.writtenRate] at hrate
        by_cases hrtc : fops = .rtc
        · subst hrtc
          have hrates := k.rtcWrite_rates buf nbytes
          rw [if_pos rfl] at hrate
          rw [hrate] at hrates
          exact hrates
        · exact congrArg Rtc.rates (k.fopsWrite_rtc hrtc buf nbytes)

/-- Every event leaves the rates alone or writes the one of the scheduled terminal. -/
theorem step_rates {img : Image} {k next : Kernel} {event : Event}
    (hstep : step img k event = some next) :
    next.rtc.rates =
      match k.writtenRate event with
      | some rate => update k.rtc.rates k.currScheduled rate
      | none => k.rtc.rates := by
  have hdevices : ∀ {after : Kernel}, after.devices = k.devices → after.rtc.rates = k.rtc.rates :=
    fun heq => congrArg (fun devices => devices.1.rates) heq
  cases event with
  | tick ebp inner => exact hdevices (Kernel.pitHandler_devices hstep)
  | key c =>
      obtain rfl := Option.some.inj hstep
      rfl
  | rtc =>
      obtain rfl := Option.some.inj hstep
      rfl
  | execute command regs =>
      obtain ⟨⟨result, last⟩, hexecute, rfl⟩ := Option.map_eq_some_iff.mp hstep
      exact hdevices (Kernel.execute_devices hexecute)
  | halt status regs =>
      obtain ⟨⟨result, last⟩, hhalt, rfl⟩ := Option.map_eq_some_iff.mp hstep
      exact congrArg Rtc.rates (Kernel.halt_rtc hhalt)
  | read fd buf nbytes =>
      obtain ⟨⟨result, last⟩, hread, rfl⟩ := Option.map_eq_some_iff.mp hstep
      exact Kernel.read_rates hread
  | write fd buf nbytes =>
      obtain ⟨⟨result, last⟩, hwrite, rfl⟩ := Option.map_eq_some_iff.mp hstep
      exact Kernel.write_rates hwrite
  | open_ filename =>
      obtain ⟨⟨result, last⟩, hopen, rfl⟩ := Option.map_eq_some_iff.mp hstep
      exact congrArg Rtc.rates (Kernel.open_rtc hopen)
  | close fd =>
      obtain ⟨⟨value, last⟩, hclose, rfl⟩ := Option.map_eq_some_iff.mp hstep
      exact hdevices (Kernel.close_devices hclose)
  | getargs buf nbytes =>
      simp only [step, Option.map_eq_some_iff] at hstep
      obtain ⟨⟨result, last⟩, hargs, rfl⟩ := hstep
      obtain rfl := Kernel.getargs_same hargs
      rfl
  | vidmap screenStart =>
      obtain ⟨⟨result, last⟩, hvidmap, rfl⟩ := Option.map_eq_some_iff.mp hstep
      exact congrArg Rtc.rates (Kernel.vidmap_rtc hvidmap)

/-! ## Two runs -/

/-- The rates accepted on a terminal in a run, each with the PCB of its writer. -/
def ratesOn (t : Terminal) (history : List (Fired Kernel Event)) : List (Nat × Int) :=
  history.filterMap fun fired =>
    if fired.pre.currScheduled = t then
      (fired.pre.writtenRate fired.event).map fun rate => (fired.pre.scheduledPcb, rate)
    else none

/-- Those that the process with its PCB at `owner` has written. -/
def ownRates (t : Terminal) (owner : Nat) (history : List (Fired Kernel Event)) : List Int :=
  ((ratesOn t history).filter fun written => written.1 = owner).map Prod.snd

/-- The last rate accepted on the terminal was written by the process itself. -/
def OwnRateLast (t : Terminal) (owner : Nat) (history : List (Fired Kernel Event)) : Prop :=
  ∃ rate, (ratesOn t history).getLast? = some (owner, rate)

/-- The rate in effect behind a run: the last one accepted, or the one left over. -/
def rateInEffect (t : Terminal) (start : Kernel) (history : List (Fired Kernel Event)) : Int :=
  ((ratesOn t history).getLast?.map Prod.snd).getD (start.rtc.rates t)

theorem Run.rates_eq {img : Image} {start last : Kernel} {history : List (Fired Kernel Event)}
    (hrun : Run (step img) start history last) (t : Terminal) :
    last.rtc.rates t = rateInEffect t start history := by
  refine hrun.last_write (fun k => k.rtc.rates t) _ Prod.snd fun fired _ hstep => ?_
  rw [step_rates hstep]
  cases hrate : fired.pre.writtenRate fired.event with
  | none => simp
  | some rate =>
      by_cases ht : fired.pre.currScheduled = t
      · subst ht
        simp
      · simp [ht, update_of_ne (Ne.symm ht)]

/-- The number of interrupts a read of the running process waits for: what `rtc_read` sets
its counter to. -/
def Kernel.rtcWait (k : Kernel) : Int := k.rtcRead.2.rtc.counter k.currScheduled

theorem Kernel.rtcWait_eq (k : Kernel) :
    k.rtcWait = F_1024.tdiv (k.rtc.rates k.currScheduled) := update_self ..

/-- The last rate written by the process is a function of the rates it has written. -/
theorem OwnRateLast.rateInEffect_eq {t : Terminal} {owner : Nat} {start : Kernel}
    {history : List (Fired Kernel Event)} (hlast : OwnRateLast t owner history) :
    (ownRates t owner history).getLast? = some (rateInEffect t start history) := by
  obtain ⟨rate, hrate⟩ := hlast
  obtain ⟨before, hbefore⟩ := List.getLast?_eq_some_iff.mp hrate
  rw [rateInEffect, ownRates, hrate, hbefore, List.filter_append]
  simp

/-- Two runs in which a process has written the same rates since it opened the RTC wait
equally long exactly when the last rate accepted on the terminal was its own in both, or
the rates in effect happen to give the same wait. -/
theorem rtc_wait_own {img : Image} {t : Terminal} {owner owner' : Nat}
    {start last start' last' : Kernel} {history history' : List (Fired Kernel Event)}
    (hrun : Run (step img) start history last) (hrun' : Run (step img) start' history' last')
    (hreader : last.currScheduled = t) (hreader' : last'.currScheduled = t)
    (hown : ownRates t owner history = ownRates t owner' history') :
    last.rtcWait = last'.rtcWait ↔
      (OwnRateLast t owner history ∧ OwnRateLast t owner' history') ∨
        F_1024.tdiv (rateInEffect t start history) =
          F_1024.tdiv (rateInEffect t start' history') := by
  rw [Kernel.rtcWait_eq, Kernel.rtcWait_eq, hreader, hreader', Run.rates_eq hrun,
    Run.rates_eq hrun']
  constructor
  · exact .inr
  · rintro (⟨hlast, hlast'⟩ | heq)
    · have hrate : _ = some (rateInEffect t start history) := hlast.rateInEffect_eq
      have hrate' : _ = some (rateInEffect t start' history') := hlast'.rateInEffect_eq
      rw [hown, hrate'] at hrate
      rw [Option.some.inj hrate]
    · exact heq

/-! ## A rate left to the next process -/

section Left

variable {img : Image} {k : Kernel}

/-- A displayed and running process opens the RTC on a new descriptor. -/
theorem FdsSound.open_rtc (hsound : FdsSound img k) (hwf : img.WellFormed)
    (htypes : img.TypesKnown) (hroom : k.openFds.card < MAX_OPEN_FILES) {filename : List UInt8}
    {entry : Dentry} (hfind : readDentryByName img filename = some entry)
    (htype : entry.fileType = 0) :
    ∃ fd : Nat, ∃ next, k.open_ img (some filename) = some (.returned fd [], next) ∧
      FdsSound img next ∧ SameProcesses k next ∧ next.rtc = k.rtc ∧ next.Reads fd true .rtc ∧
      ∀ buf : Nat → UInt8, next.Writes fd (some buf) .rtc := by
  obtain ⟨fd, next, hopen, hnext, ⟨⟨hlow, hlt, -⟩, -⟩, hfds, -⟩ :=
    hsound.open_found hwf htypes hroom hfind
  have hdesc : (next.pcb next.displayedPcb).fileArray (fd : Int).toNat =
      ⟨rtc_table, 0, 0, FD_FLAG_PRESENT + FD_FLAG_RTC⟩ := by
    rw [hnext.displayed, Int.toNat_natCast]
    change next.fds fd = _
    rw [hfds, update_self]
    simp only [descOf, htype]
  have hmapped : next.displayedPcb < _8MB := hnext.displayed.trans_lt hnext.mapped
  simp only [STDI_O] at hlow
  refine ⟨fd, next, hopen, hnext, Kernel.open_same hopen, Kernel.open_rtc hopen, ?_, fun buf => ?_⟩
  · exact ⟨rfl, by omega, by omega, by omega, hmapped, by rw [hdesc]; decide, by rw [hdesc]; rfl⟩
  · exact ⟨by simp, by omega, by omega, by omega, hmapped, by rw [hdesc]; decide,
      by rw [hdesc]; decide, by rw [hdesc]; rfl⟩

/-- A write of an accepted rate. -/
theorem Kernel.Writes.write_rate {fd : Int} {buf : Option (Nat → UInt8)} {rate : Int}
    (hwrites : k.Writes fd buf .rtc) (haccepted : acceptedRate buf 4 = some rate) :
    k.write fd buf 4 = some (.returned 0 [],
        { k with rtc := { k.rtc with rates := update k.rtc.rates k.currScheduled rate } }) ∧
      k.writtenRate (.write fd buf 4) = some rate := by
  constructor
  · rw [hwrites.write_eq, Kernel.fopsWrite, k.rtcWrite_eq, haccepted]
  · rw [hwrites.writtenRate, if_pos rfl, haccepted]

end Left

/-- A shell that has opened the RTC, with room for one more process. -/
theorem threeFiles_opened_rtc :
    ∃ opened : Kernel, ∃ fd : Nat, FdsSound threeFiles opened ∧
      opened.processCount < MAX_PROCESS_COUNT ∧
      ∀ buf : Nat → UInt8, opened.Writes fd (some buf) .rtc := by
  obtain ⟨-, start, -, -, hsound, hcount, hprocesses⟩ := threeFiles_entered
  obtain ⟨entry, hfind, htype⟩ := threeFiles_rtc
  obtain ⟨fd, opened, -, hopened, hsame, -, -, hwrites⟩ := hsound.open_rtc threeFiles_wellFormed
    threeFiles_typesKnown (by rw [hcount]; decide) hfind htype
  exact ⟨opened, fd, hopened, by rw [hsame.processCount, hprocesses]; decide, hwrites⟩

/-- The four bytes of the rate 256. -/
def rate256 (i : Nat) : UInt8 := if i = 1 then 1 else 0

/-- A run of one write, whose rate is the last one on the terminal. -/
theorem Kernel.Writes.run_write {k : Kernel} {fd : Int} {buf : Option (Nat → UInt8)} {rate : Int}
    (img : Image) (hwrites : k.Writes fd buf .rtc) (haccepted : acceptedRate buf 4 = some rate) :
    ∃ last, Run (step img) k [⟨k, .write fd buf 4, last⟩] last ∧
      last.currScheduled = k.currScheduled ∧
      ratesOn k.currScheduled [⟨k, .write fd buf 4, last⟩] = [(k.scheduledPcb, rate)] := by
  obtain ⟨hwrite, hrate⟩ := hwrites.write_rate haccepted
  have hstep := congrArg (Option.map Prod.snd) hwrite
  exact ⟨_, Run.single hstep, rfl, by simp [ratesOn, hrate]⟩

/-- Writing the same rate, a process waits equally long whatever was left over. -/
theorem rtc_wait_own_write :
    ∃ start last start' last' : Kernel, ∃ history history',
      Run (step threeFiles) start history last ∧ Run (step threeFiles) start' history' last' ∧
      start'.rtc.rates start'.currScheduled = 256 ∧
      history.map Fired.event = history'.map Fired.event ∧ last.rtcWait = last'.rtcWait := by
  obtain ⟨opened, fd, hsound, -, hwrites⟩ := threeFiles_opened_rtc
  let left : Kernel :=
    { opened with
      rtc := { opened.rtc with rates := update opened.rtc.rates opened.currScheduled 256 } }
  have hleft : left.Writes fd (some rate512) .rtc := by
    obtain ⟨hbuf, hnonneg, hlt, hstdin, hmapped, hinUse, hfile, htable⟩ := hwrites rate512
    exact ⟨hbuf, hnonneg, hlt, hstdin, hmapped, hinUse, hfile, htable⟩
  have haccepted : acceptedRate (some rate512) 4 = some 512 := by decide
  obtain ⟨last, hrun, hreader, hrates⟩ := (hwrites rate512).run_write threeFiles haccepted
  obtain ⟨last', hrun', hreader', hrates'⟩ := hleft.run_write threeFiles haccepted
  refine ⟨opened, last, left, last', _, _, hrun, hrun', update_self .., rfl, ?_⟩
  change ratesOn opened.currScheduled _ = [(opened.scheduledPcb, 512)] at hrates'
  have hown : ownRates opened.currScheduled opened.scheduledPcb
        [⟨opened, .write fd (some rate512) 4, last⟩] =
      ownRates opened.currScheduled opened.scheduledPcb
        [⟨left, .write fd (some rate512) 4, last'⟩] := by
    rw [ownRates, ownRates, hrates, hrates']
  refine (rtc_wait_own hrun hrun' hreader hreader' hown).mpr (.inl ⟨⟨512, ?_⟩, 512, ?_⟩)
  · rw [hrates]
    rfl
  · rw [hrates']
    rfl

/-- What a shell executed by a process that has written a rate waits for. -/
def ChildWaits (opened : Kernel) (fd : Nat) (buf : Nat → UInt8) (wait : Int) : Prop :=
  ∃ written child reader : Kernel, ∃ other : Nat,
    opened.write fd (some buf) 4 = some (.returned 0 [], written) ∧
    written.execute threeFiles (some shellCommand) ⟨0, 0⟩ = some (.entered 0, child) ∧
    child.open_ threeFiles (some rtcName) = some (.returned other [], reader) ∧
    reader.read threeFiles other true 4 = some (.waiting, reader.rtcRead.2) ∧
    reader.rtcWait = wait

theorem FdsSound.childWaits {opened : Kernel} {fd : Nat} {buf : Nat → UInt8} {rate : Int}
    (hsound : FdsSound threeFiles opened) (hroom : opened.processCount < MAX_PROCESS_COUNT)
    (hwrites : opened.Writes fd (some buf) .rtc)
    (haccepted : acceptedRate (some buf) 4 = some rate) :
    ChildWaits opened fd buf (F_1024.tdiv rate) := by
  obtain ⟨hwrite, -⟩ := hwrites.write_rate haccepted
  generalize hwritten : ({ opened with rtc := _ } : Kernel) = written at hwrite
  have hsame := Kernel.write_same hwrite
  have hrates : written.rtc.rates opened.currScheduled = rate := by
    rw [← hwritten]
    exact update_self ..
  have hlaunching : written.launching threeFiles (some shellCommand) = some ⟨0, 0, []⟩ := by
    rw [Kernel.launching_eq_some (by rw [hsame.processCount]; exact hroom)]
    exact threeFiles_shell
  obtain ⟨child, hexecute⟩ := Kernel.execute_completes ⟨0, 0⟩ hlaunching rfl threeFiles_loadable
  rcases Kernel.execute_cases hexecute with ⟨-, ⟨value, hvalue⟩, -⟩ | ⟨program, -, -, -, hlaunched⟩
  · simp at hvalue
  have hshown : written.currTerminal = written.currScheduled := by
    rw [hsame.currTerminal, hsame.currScheduled, hsound.shown]
  have hchild := hlaunched.fdsSound threeFiles hshown
  obtain ⟨entry, hfind, htype⟩ := threeFiles_rtc
  obtain ⟨other, reader, hopen, hreader, hopened, hrtc, hreads, -⟩ :=
    hchild.open_rtc threeFiles_wellFormed threeFiles_typesKnown
      (by rw [← hchild.count, hlaunched.fdCount hshown]; decide) hfind htype
  refine ⟨written, child, reader, other, hwrite, hexecute, hopen, hreads.read_eq threeFiles 4, ?_⟩
  have hkept : child.rtc = written.rtc := congrArg Prod.fst (Kernel.execute_devices hexecute)
  rw [Kernel.rtcWait_eq, hrtc, hkept, hopened.currScheduled, hlaunched.currScheduled,
    hsame.currScheduled, hrates]

/-- Two runs that differ in the rate a parent wrote before it started the reader. -/
theorem rtc_rate_left :
    ∃ opened : Kernel, ∃ fd : Nat,
    ChildWaits opened fd rate512 2 ∧ ChildWaits opened fd rate256 4 := by
  obtain ⟨opened, fd, hsound, hroom, hwrites⟩ := threeFiles_opened_rtc
  exact ⟨opened, fd, hsound.childWaits hroom (hwrites rate512) rfl,
    hsound.childWaits hroom (hwrites rate256) rfl⟩

end Ece391
