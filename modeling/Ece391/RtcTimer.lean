import Ece391.Devices
import Ece391.StartUp

/-! # The virtual RTC

Every terminal has a rate and a counter of its own. A reader sets its counter to the
number of interrupts to wait for, and the interrupt counts all three down to zero at the
least. The loop of `rtc_read` runs with interrupts enabled, so its test is an event of
its own here.
-/

namespace Ece391

open Function Transition

/-- Rates are those that `rtc_write` accepts, or the first one; no counter is negative. -/
structure Rtc.Sound (rtc : Rtc) : Prop where
  rate_pos : ∀ t, 1 ≤ rtc.rates t
  rate_le : ∀ t, rtc.rates t ≤ F_1024
  counter_nonneg : ∀ t, 0 ≤ rtc.counter t

/-- The number of interrupts a reader waits for at a rate. -/
theorem wait_eq {rate : Int} : F_1024.tdiv rate = F_1024 / rate :=
  Int.tdiv_eq_ediv_of_nonneg (by decide)

theorem wait_pos {rate : Int} (hpos : 1 ≤ rate) (hle : rate ≤ F_1024) : 1 ≤ F_1024 / rate := by
  apply Int.le_ediv_of_mul_le (by omega)
  omega

/-! ## Calls of the driver -/

/-- `rtc_write` rejects its buffer, or sets the rate of the scheduled terminal. -/
theorem Kernel.rtcWrite_cases (k : Kernel) (buf : Option (Nat → UInt8)) (nbytes : Int) :
    k.rtcWrite buf nbytes = (failed, k) ∨
      ∃ freq : Int, F_2 ≤ freq ∧ freq ≤ F_1024 ∧
        k.rtcWrite buf nbytes = (.returned 0 [],
          { k with rtc := { k.rtc with rates := update k.rtc.rates k.currScheduled freq } }) := by
  unfold Kernel.rtcWrite
  cases buf with
  | none => exact .inl rfl
  | some buf =>
      dsimp only
      split
      · exact .inl rfl
      · split
        · exact .inl rfl
        · refine .inr ⟨_, ?_, ?_, rfl⟩ <;> omega

theorem Rtc.Sound.rtcHandler {rtc : Rtc} (hrtc : rtc.Sound) : (rtcHandler rtc).Sound where
  rate_pos := hrtc.rate_pos
  rate_le := hrtc.rate_le
  counter_nonneg t := by
    unfold Ece391.rtcHandler
    dsimp only
    split <;> omega

theorem Kernel.rtcWrite_sound {k : Kernel} (hrtc : k.rtc.Sound) (buf : Option (Nat → UInt8))
    (nbytes : Int) : (k.rtcWrite buf nbytes).2.rtc.Sound := by
  rcases k.rtcWrite_cases buf nbytes with hfailed | ⟨freq, hlow, hhigh, hset⟩
  · rw [hfailed]
    exact hrtc
  · rw [hset]
    simp only [F_2] at hlow
    refine ⟨fun t => ?_, fun t => ?_, hrtc.counter_nonneg⟩
    all_goals
      by_cases ht : t = k.currScheduled
      · subst ht
        simp only [update_self]
        omega
      · simp only [update_of_ne ht]
        first | exact hrtc.rate_pos t | exact hrtc.rate_le t

theorem Kernel.rtcRead_sound {k : Kernel} (hrtc : k.rtc.Sound) : k.rtcRead.2.rtc.Sound := by
  refine ⟨hrtc.rate_pos, hrtc.rate_le, fun t => ?_⟩
  unfold Kernel.rtcRead
  by_cases ht : t = k.currScheduled
  · subst ht
    have hpos := hrtc.rate_pos k.currScheduled
    have hwait := wait_pos hpos (hrtc.rate_le _)
    simp only [update_self, wait_eq]
    omega
  · simp only [update_of_ne ht]
    exact hrtc.counter_nonneg t

/-! ## Every event -/

theorem Kernel.terminalWrite_rtc (k : Kernel) (buf : Option (Nat → UInt8)) (nbytes : Int) :
    (k.terminalWrite buf nbytes).2.rtc = k.rtc := by
  unfold Kernel.terminalWrite
  cases buf with
  | none => rfl
  | some buf =>
      dsimp only
      split
      · rfl
      · split <;> rfl

/-- Only the driver of the RTC touches it. -/
theorem Kernel.fopsRead_rtc {k after : Kernel} {img : Image} {fops : Fops} {fd nbytes : Int}
    {result : SysReturn} (hother : fops ≠ .rtc)
    (hread : k.fopsRead img fops fd nbytes = some (result, after)) : after.rtc = k.rtc := by
  cases fops with
  | rtc => exact absurd rfl hother
  | file =>
      unfold Kernel.fopsRead Kernel.fileRead at hread
      dsimp only at hread
      split at hread
      · obtain ⟨-, rfl⟩ := Prod.mk.inj (Option.some.inj hread)
        rfl
      · split at hread
        · obtain ⟨-, rfl⟩ := Prod.mk.inj (Option.some.inj hread)
          rfl
        · obtain ⟨pcb, -, heq⟩ := Option.map_eq_some_iff.mp hread
          obtain ⟨-, rfl⟩ := Prod.mk.inj heq
          rfl
  | dir =>
      obtain rfl := congrArg Prod.snd (Option.some.inj hread)
      unfold Kernel.dirRead
      split
      · rfl
      · split <;> rfl
  | stdin =>
      obtain rfl := congrArg Prod.snd (Option.some.inj hread)
      unfold Kernel.terminalRead
      split
      · rfl
      · split <;> rfl
  | stdout =>
      obtain rfl := congrArg Prod.snd (Option.some.inj hread)
      rfl

theorem Kernel.read_rtcSound {k after : Kernel} {img : Image} {fd nbytes : Int} {buf : Bool}
    {result : SysReturn} (hread : k.read img fd buf nbytes = some (result, after))
    (hrtc : k.rtc.Sound) : after.rtc.Sound := by
  rcases Kernel.read_cases hread with ⟨-, rfl⟩ | ⟨fops, -, hread⟩
  · exact hrtc
  · cases fops with
    | rtc =>
        obtain rfl := congrArg Prod.snd (Option.some.inj hread)
        exact Kernel.rtcRead_sound hrtc
    | file | dir | stdin | stdout =>
        rw [Kernel.fopsRead_rtc (by decide) hread]
        exact hrtc

theorem Kernel.write_rtcSound {k after : Kernel} {fd nbytes : Int} {buf : Option (Nat → UInt8)}
    {result : SysReturn} (hwrite : k.write fd buf nbytes = some (result, after))
    (hrtc : k.rtc.Sound) : after.rtc.Sound := by
  rcases Kernel.write_cases hwrite with ⟨-, rfl⟩ | ⟨fops, -, heq⟩
  · exact hrtc
  · obtain rfl := congrArg Prod.snd heq
    cases fops with
    | rtc => exact Kernel.rtcWrite_sound hrtc buf nbytes
    | file | dir | stdin => exact hrtc
    | stdout =>
        rw [show (k.fopsWrite .stdout buf nbytes).2.rtc = k.rtc from k.terminalWrite_rtc buf nbytes]
        exact hrtc

theorem Kernel.open_rtc {k after : Kernel} {img : Image} {filename : Option (List UInt8)}
    {result : SysReturn} (hopen : k.open_ img filename = some (result, after)) :
    after.rtc = k.rtc := by
  rcases Kernel.open_cases hopen with ⟨-, rfl, -⟩ | ⟨entry, fd, fops, -, -, rfl⟩
  · rfl
  · cases fops <;> rfl

theorem Kernel.vidmap_rtc {k after : Kernel} {screenStart : Nat} {result : SysReturn}
    (hvidmap : k.vidmap screenStart = some (result, after)) : after.rtc = k.rtc := by
  unfold Kernel.vidmap at hvidmap
  split at hvidmap
  · obtain ⟨-, rfl⟩ := Prod.mk.inj (Option.some.inj hvidmap)
    rfl
  · obtain ⟨last, hlast, heq⟩ := Option.map_eq_some_iff.mp hvidmap
    obtain ⟨-, rfl⟩ := Prod.mk.inj heq
    exact (congrArg Prod.fst (Kernel.storeUserBytes_devices hlast) :)

theorem step_rtcSound {img : Image} {k after : Kernel} {event : Event} (hrtc : k.rtc.Sound)
    (hstep : step img k event = some after) : after.rtc.Sound := by
  cases event with
  | tick ebp inner =>
      have hkept : after.rtc = k.rtc := congrArg Prod.fst (Kernel.pitHandler_devices hstep)
      rwa [hkept]
  | key c =>
      obtain rfl := Option.some.inj hstep
      exact hrtc
  | rtc =>
      obtain rfl := Option.some.inj hstep
      exact hrtc.rtcHandler
  | execute command regs =>
      obtain ⟨⟨result, last⟩, hexecute, rfl⟩ := Option.map_eq_some_iff.mp hstep
      have hkept : last.rtc = k.rtc := congrArg Prod.fst (Kernel.execute_devices hexecute)
      change last.rtc.Sound
      rwa [hkept]
  | halt status regs =>
      obtain ⟨⟨result, last⟩, hhalt, rfl⟩ := Option.map_eq_some_iff.mp hstep
      change last.rtc.Sound
      rwa [Kernel.halt_rtc hhalt]
  | read fd buf nbytes =>
      obtain ⟨⟨result, last⟩, hread, rfl⟩ := Option.map_eq_some_iff.mp hstep
      exact Kernel.read_rtcSound hread hrtc
  | write fd buf nbytes =>
      obtain ⟨⟨result, last⟩, hwrite, rfl⟩ := Option.map_eq_some_iff.mp hstep
      exact Kernel.write_rtcSound hwrite hrtc
  | open_ filename =>
      obtain ⟨⟨result, last⟩, hopen, rfl⟩ := Option.map_eq_some_iff.mp hstep
      change last.rtc.Sound
      rwa [Kernel.open_rtc hopen]
  | close fd =>
      obtain ⟨⟨value, last⟩, hclose, rfl⟩ := Option.map_eq_some_iff.mp hstep
      have hkept : last.rtc = k.rtc := congrArg Prod.fst (Kernel.close_devices hclose)
      change last.rtc.Sound
      rwa [hkept]
  | getargs buf nbytes =>
      simp only [step, Option.map_eq_some_iff] at hstep
      obtain ⟨⟨result, last⟩, hargs, rfl⟩ := hstep
      obtain rfl := Kernel.getargs_same hargs
      exact hrtc
  | vidmap screenStart =>
      obtain ⟨⟨result, last⟩, hvidmap, rfl⟩ := Option.map_eq_some_iff.mp hstep
      change last.rtc.Sound
      rwa [Kernel.vidmap_rtc hvidmap]

theorem Reachable.rtcSound {img : Image} {m : BootMemory} {k : Kernel}
    (hreach : Reachable (step img) (boot m) k) : k.rtc.Sound := by
  refine hreach.invariant (fun k => k.rtc.Sound) (fun _ _ _ hk hstep => step_rtcSound hk hstep) ?_
  refine ⟨fun t => ?_, fun t => ?_, fun t => ?_⟩
  all_goals
    simp only [boot, F_1024]
    omega

/-! ## Readers that wait -/

/-- A read that has been started: the rate it found, and the interrupts since then. -/
structure RtcWait where
  rate : Int
  interrupts : Nat

structure RtcReaders where
  kernel : Kernel
  waiting : Terminal → Option RtcWait

/-- Interrupts, and the calls and loop tests of the scheduled process. -/
inductive RtcEvent where
  | interrupt
  | tick (ebp : Nat) (inner : Regs)
  | write (buf : Option (Nat → UInt8)) (nbytes : Int)
  | start
  | test

namespace RtcReaders

/-- A process that waits makes no other call; its terminal may be left and come back. -/
def step (img : Image) (s : RtcReaders) : RtcEvent → Option RtcReaders
  | .interrupt =>
      some
        { kernel := { s.kernel with rtc := rtcHandler s.kernel.rtc }
          waiting := fun t => (s.waiting t).map fun wait =>
            { wait with interrupts := wait.interrupts + 1 } }
  | .tick ebp inner => (s.kernel.pitHandler img ebp inner).map fun k => { s with kernel := k }
  | .write buf nbytes =>
      if (s.waiting s.kernel.currScheduled).isNone then
        some { s with kernel := (s.kernel.rtcWrite buf nbytes).2 }
      else none
  | .start =>
      if (s.waiting s.kernel.currScheduled).isNone then
        some
          { kernel := s.kernel.rtcRead.2
            waiting := update s.waiting s.kernel.currScheduled
              (some ⟨s.kernel.rtc.rates s.kernel.currScheduled, 0⟩) }
      else none
  | .test =>
      if (s.waiting s.kernel.currScheduled).isNone then none
      else if 0 < s.kernel.rtc.counter s.kernel.currScheduled then some s
      else some { s with waiting := update s.waiting s.kernel.currScheduled none }

/-- A counter holds what is left of the wait of its terminal's reader. -/
structure Counts (s : RtcReaders) : Prop where
  sound : s.kernel.rtc.Sound
  rate : ∀ t wait, s.waiting t = some wait → 1 ≤ wait.rate ∧ wait.rate ≤ F_1024
  left : ∀ t wait, s.waiting t = some wait →
    s.kernel.rtc.counter t = max 0 (F_1024 / wait.rate - wait.interrupts)

variable {s after : RtcReaders} {img : Image}

theorem Counts.interrupt (hs : s.Counts) (hstep : s.step img .interrupt = some after) :
    after.Counts := by
  obtain rfl := Option.some.inj hstep
  refine ⟨hs.sound.rtcHandler, fun t wait hwait => ?_, fun t wait hwait => ?_⟩
  · obtain ⟨old, hold, rfl⟩ := Option.map_eq_some_iff.mp hwait
    exact hs.rate t old hold
  · obtain ⟨old, hold, rfl⟩ := Option.map_eq_some_iff.mp hwait
    have hleft := hs.left t old hold
    simp only [rtcHandler]
    push_cast
    split <;> omega

theorem Counts.write {buf : Option (Nat → UInt8)} {nbytes : Int} (hs : s.Counts)
    (hstep : s.step img (.write buf nbytes) = some after) : after.Counts := by
  obtain ⟨-, hstep⟩ := Option.ite_none_right_eq_some.mp hstep
  obtain rfl := Option.some.inj hstep
  have hcounter : (s.kernel.rtcWrite buf nbytes).2.rtc.counter = s.kernel.rtc.counter := by
    rcases s.kernel.rtcWrite_cases buf nbytes with hcall | ⟨freq, -, -, hcall⟩ <;> rw [hcall]
  refine ⟨Kernel.rtcWrite_sound hs.sound buf nbytes, hs.rate, fun t wait hwait => ?_⟩
  change (s.kernel.rtcWrite buf nbytes).2.rtc.counter t = _
  rw [hcounter, hs.left t wait hwait]

theorem Counts.start (hs : s.Counts) (hstep : s.step img .start = some after) :
    after.Counts := by
  obtain ⟨-, hstep⟩ := Option.ite_none_right_eq_some.mp hstep
  obtain rfl := Option.some.inj hstep
  have hpos := hs.sound.rate_pos s.kernel.currScheduled
  have hle := hs.sound.rate_le s.kernel.currScheduled
  refine ⟨Kernel.rtcRead_sound hs.sound, fun t wait hwait => ?_, fun t wait hwait => ?_⟩
  all_goals
    dsimp only at hwait
    by_cases ht : t = s.kernel.currScheduled
  · subst ht
    rw [update_self] at hwait
    obtain rfl := Option.some.inj hwait
    exact ⟨hpos, hle⟩
  · rw [update_of_ne ht] at hwait
    exact hs.rate t wait hwait
  · subst ht
    rw [update_self] at hwait
    obtain rfl := Option.some.inj hwait
    have hwaits := wait_pos hpos hle
    simp only [Kernel.rtcRead, update_self, wait_eq]
    omega
  · rw [update_of_ne ht] at hwait
    simp only [Kernel.rtcRead, update_of_ne ht]
    exact hs.left t wait hwait

theorem Counts.test (hs : s.Counts) (hstep : s.step img .test = some after) : after.Counts := by
  simp only [step] at hstep
  split at hstep
  · simp at hstep
  · split at hstep
    · obtain rfl := Option.some.inj hstep
      exact hs
    · obtain rfl := Option.some.inj hstep
      refine ⟨hs.sound, fun t wait hwait => ?_, fun t wait hwait => ?_⟩
      all_goals
        dsimp only at hwait
        by_cases ht : t = s.kernel.currScheduled
      · simp [ht] at hwait
      · rw [update_of_ne ht] at hwait
        exact hs.rate t wait hwait
      · simp [ht] at hwait
      · rw [update_of_ne ht] at hwait
        exact hs.left t wait hwait

theorem Counts.step {event : RtcEvent} (hs : s.Counts) (hstep : s.step img event = some after) :
    after.Counts := by
  cases event with
  | interrupt => exact hs.interrupt hstep
  | tick ebp inner =>
      obtain ⟨k, hk, rfl⟩ := Option.map_eq_some_iff.mp hstep
      have hkept : k.rtc = s.kernel.rtc := congrArg Prod.fst (Kernel.pitHandler_devices hk)
      refine ⟨?_, hs.rate, fun t wait hwait => ?_⟩
      · change k.rtc.Sound
        rw [hkept]
        exact hs.sound
      · change k.rtc.counter t = _
        rw [hkept]
        exact hs.left t wait hwait
  | write buf nbytes => exact hs.write hstep
  | start => exact hs.start hstep
  | test => exact hs.test hstep

end RtcReaders

/-- From any state the machine can be in, whatever the readers and writers of the three
terminals do: the division finds a rate between 1 and 1024 and yields at least 1, no
counter is negative, a loop ends exactly when the interrupts of its wait have come, and a
rejected write changes no rate. -/
theorem rtc_virtualised {m : BootMemory} {img : Image} {k : Kernel} {last : RtcReaders}
    {history : List (Fired RtcReaders RtcEvent)} (hreach : Reachable (step img) (boot m) k)
    (hrun : Run (fun s event => RtcReaders.step img s event) ⟨k, fun _ => none⟩ history last) :
    (∀ t, 1 ≤ last.kernel.rtc.rates t ∧ last.kernel.rtc.rates t ≤ F_1024 ∧
        1 ≤ F_1024.tdiv (last.kernel.rtc.rates t) ∧ 0 ≤ last.kernel.rtc.counter t) ∧
      (∀ fired ∈ history, fired.event = .test →
        ∀ wait, fired.pre.waiting fired.pre.kernel.currScheduled = some wait →
          (¬ 0 < fired.pre.kernel.rtc.counter fired.pre.kernel.currScheduled ↔
            F_1024 / wait.rate ≤ wait.interrupts)) ∧
      ∀ fired ∈ history, ∀ buf nbytes, fired.event = .write buf nbytes →
        (fired.pre.kernel.rtcWrite buf nbytes).1 = failed →
          fired.post.kernel.rtc.rates = fired.pre.kernel.rtc.rates := by
  have hstart : RtcReaders.Counts ⟨k, fun _ => none⟩ :=
    ⟨Reachable.rtcSound hreach, by simp, by simp⟩
  have hcounts : ∀ {s : RtcReaders} {events : List (Fired RtcReaders RtcEvent)},
      Run (fun s event => RtcReaders.step img s event) ⟨k, fun _ => none⟩ events s → s.Counts := by
    intro s events hevents
    exact hevents.invariant RtcReaders.Counts (fun _ _ _ hs hstep => hs.step hstep) hstart
  refine ⟨fun t => ?_, fun fired hfired hevent wait hwait => ?_, ?_⟩
  · have hlast := (hcounts hrun).sound
    rw [wait_eq]
    exact ⟨hlast.rate_pos t, hlast.rate_le t, wait_pos (hlast.rate_pos t) (hlast.rate_le t),
      hlast.counter_nonneg t⟩
  · obtain ⟨index, hindex⟩ := List.mem_iff_getElem?.mp hfired
    have hleft := (hcounts (hrun.before hindex).1).left _ wait hwait
    rw [hleft]
    omega
  · intro fired hfired buf nbytes hevent hfailed
    obtain ⟨index, hindex⟩ := List.mem_iff_getElem?.mp hfired
    have hstep := (hrun.before hindex).2
    rw [hevent] at hstep
    obtain ⟨-, hpost⟩ := Option.ite_none_right_eq_some.mp hstep
    rw [← Option.some.inj hpost]
    rcases fired.pre.kernel.rtcWrite_cases buf nbytes with hcall | ⟨freq, -, -, hcall⟩
    · rw [hcall]
    · rw [hcall] at hfailed
      simp [failed] at hfailed

/-- The four bytes of the rate 512. -/
def rate512 (i : Nat) : UInt8 := if i = 1 then 2 else 0

/-- At the rate 512 a read on the first terminal is over after two interrupts. -/
theorem rtc_virtualised_wait :
    ∃ s last history,
      Run (fun s event => RtcReaders.step shellImage s event) ⟨boot zeroMemory, fun _ => none⟩
        history s ∧
      history.map Fired.event = [.write (some rate512) 4, .start, .interrupt, .interrupt] ∧
      s.step shellImage .test = some last ∧ s.waiting .T1 = some ⟨512, 2⟩ ∧
      ¬ 0 < s.kernel.rtc.counter .T1 := by
  have hrun : Run (fun s event => RtcReaders.step shellImage s event)
      ⟨boot zeroMemory, fun _ => none⟩ _ _ :=
    .extend (.extend (.extend (.extend (.start _)
      (show RtcReaders.step shellImage _ (.write (some rate512) 4) = some _ from rfl))
      (show RtcReaders.step shellImage _ .start = some _ from rfl))
      (show RtcReaders.step shellImage _ .interrupt = some _ from rfl))
      (show RtcReaders.step shellImage _ .interrupt = some _ from rfl)
  have htest := hrun.extend (show RtcReaders.step shellImage _ .test = some _ from rfl)
  refine ⟨_, _, _, hrun, rfl, rfl, rfl, ?_⟩
  exact ((rtc_virtualised (.refl _) htest).2.1 _ List.mem_concat_self rfl ⟨512, 2⟩ rfl).mpr
    (by decide)

end Ece391
