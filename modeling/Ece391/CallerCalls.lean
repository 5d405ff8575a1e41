import Ece391.ExecuteHalt
import Ece391.StartUp
import Mathlib.Data.Nat.Find

/-! # Calls and the process that makes them

The running process is the head of the scheduled terminal's chain, but the calls on
descriptors and `getargs` look up the head of the displayed one. They act on their caller
when the two are the same process, or when they come to no PCB at all.
-/

namespace Ece391

open Function Transition

/-- What the kernel does for the running process with a PCB: the calls on descriptors,
`getargs`, and the loop of `halt` that closes the descriptors. -/
inductive ProcessCall where
  | descriptor (call : Call)
  | getargs (buf : Bool) (nbytes : Int)
  | closing

def ProcessCall.run (img : Image) (k : Kernel) : ProcessCall → Option (SysReturn × Kernel)
  | .descriptor call => k.call img call
  | .getargs buf nbytes => k.getargs buf nbytes
  | .closing => (k.closeEntries k.scheduledPcb).map fun k => (.returned 0 [], k)

/-- A PCB on top of another kernel stack. -/
def Pcb.withStack (pcb stack : Pcb) : Pcb := { pcb with behind := stack.behind }

@[simp] theorem Pcb.withStack_fileArray (pcb stack : Pcb) :
    (pcb.withStack stack).fileArray = pcb.fileArray := rfl

/-- The PCB of the running process among other PCBs and kernel stacks. -/
def Kernel.among (k : Kernel) (pcbs : PcbMemory) : Kernel :=
  { k with
    pcb := update pcbs k.scheduledPcb
      ((k.pcb k.scheduledPcb).withStack (pcbs k.scheduledPcb)) }

/-- Whatever the other PCBs are, the call returns the same and does the same: it changes none
of them, and the new PCB of its caller comes from the old one. -/
def ActsOnCaller (img : Image) (k : Kernel) (call : ProcessCall) : Prop :=
  ∀ pcbs, call.run img (k.among pcbs) =
    (call.run img k).map fun outcome => (outcome.1, outcome.2.among pcbs)

section Among

variable {k : Kernel} {pcbs : PcbMemory}

@[simp] theorem Kernel.among_scheduledPcb : (k.among pcbs).scheduledPcb = k.scheduledPcb := rfl

@[simp] theorem Kernel.among_displayedPcb : (k.among pcbs).displayedPcb = k.displayedPcb := rfl

theorem Kernel.among_own : (k.among pcbs).pcb k.scheduledPcb =
    (k.pcb k.scheduledPcb).withStack (pcbs k.scheduledPcb) := update_self ..

theorem Kernel.among_of_ne {addr : Nat} (hne : addr ≠ k.scheduledPcb) :
    (k.among pcbs).pcb addr = pcbs addr := update_of_ne hne _ _

/-- Nothing changes among the PCBs that are there. -/
theorem Kernel.among_self : k.among k.pcb = k := by
  unfold Kernel.among Pcb.withStack
  rw [update_eq_self]

/-- A store to the caller's PCB. -/
theorem Kernel.among_setPcb (pcb : Pcb) :
    (k.among pcbs).setPcb k.scheduledPcb (pcb.withStack (pcbs k.scheduledPcb)) =
      (k.setPcb k.scheduledPcb pcb).among pcbs := by
  have hown : (k.setPcb k.scheduledPcb pcb).pcb k.scheduledPcb = pcb := update_self ..
  have hsame : (k.setPcb k.scheduledPcb pcb).scheduledPcb = k.scheduledPcb := rfl
  unfold Kernel.among
  rw [hsame, hown]
  unfold Kernel.setPcb
  dsimp only
  rw [update_idem]

/-- The PCB that is looked up is the caller's, or it is not mapped. -/
def Kernel.FindsOwn (k : Kernel) : Prop :=
  k.displayedPcb = k.scheduledPcb ∨ _8MB ≤ k.displayedPcb

theorem Kernel.FindsOwn.eq {pcb : Pcb} (hown : k.FindsOwn)
    (hfound : k.derefPcb k.displayedPcb = some pcb) : k.displayedPcb = k.scheduledPcb :=
  hown.resolve_right (Nat.not_le.mpr (Kernel.derefPcb_eq_some.mp hfound).1)

theorem Kernel.FindsOwn.deref (hown : k.FindsOwn) :
    (k.among pcbs).derefPcb k.displayedPcb =
      (k.derefPcb k.displayedPcb).map fun pcb => pcb.withStack (pcbs k.scheduledPcb) := by
  unfold Kernel.derefPcb
  split
  · next hmapped =>
    rw [Option.map_some, hown.resolve_right (Nat.not_le.mpr hmapped), Kernel.among_own]
  · rfl

end Among

/-- A call that acts on its caller leaves every other PCB. -/
theorem ActsOnCaller.others {img : Image} {k after : Kernel} {call : ProcessCall}
    {result : SysReturn} (hacts : ActsOnCaller img k call)
    (hcall : call.run img k = some (result, after)) (hsame : after.scheduledPcb = k.scheduledPcb) :
    ∀ addr ≠ k.scheduledPcb, after.pcb addr = k.pcb addr := by
  intro addr hne
  have houtcome := hacts k.pcb
  rw [Kernel.among_self, hcall, Option.map_some] at houtcome
  have hafter := (Prod.mk.inj (Option.some.inj houtcome)).2
  rw [hafter, Kernel.among_of_ne (hsame.symm ▸ hne)]

/-! ## Calls on the caller's own descriptors -/

section Own

variable {img : Image} {k : Kernel} {pcbs : PcbMemory}

theorem Kernel.among_fileRead (hown : k.FindsOwn) (fd nbytes : Int) :
    (k.among pcbs).fileRead img fd nbytes =
      (k.fileRead img fd nbytes).map fun outcome => (outcome.1, outcome.2.among pcbs) := by
  unfold Kernel.fileRead
  split
  · rfl
  split
  · rfl
  rw [among_displayedPcb, hown.deref]
  cases hfound : k.derefPcb k.displayedPcb with
  | none => rfl
  | some pcb =>
      rw [hown.eq hfound]
      simp only [Option.map_some, ← among_setPcb]
      rfl

theorem Kernel.among_dirRead (nbytes : Int) :
    (k.among pcbs).dirRead img nbytes =
      ((k.dirRead img nbytes).1, (k.dirRead img nbytes).2.among pcbs) := by
  have hindex : (k.among pcbs).dirIndex = k.dirIndex := rfl
  unfold Kernel.dirRead
  rw [hindex]
  split
  · rfl
  · cases readDentryByIndex img k.dirIndex <;> rfl

theorem Kernel.among_fopsRead (hown : k.FindsOwn) (fops : Fops)
    (fd nbytes : Int) :
    (k.among pcbs).fopsRead img fops fd nbytes =
      (k.fopsRead img fops fd nbytes).map fun outcome => (outcome.1, outcome.2.among pcbs) := by
  cases fops with
  | file => exact among_fileRead hown fd nbytes
  | dir =>
      exact congrArg some (among_dirRead nbytes)
  | rtc | stdout => rfl
  | stdin =>
      simp only [Kernel.fopsRead, Kernel.terminalRead, Option.map_some]
      change some (if nbytes < 0 then _
        else if k.kb.enterFlag ∧ k.currTerminal = k.currScheduled then _ else _) = _
      split
      · rfl
      · split <;> rfl

theorem read_own (hown : k.FindsOwn) (fd : Int) (buf : Bool) (nbytes : Int) :
    ActsOnCaller img k (.descriptor (.read fd buf nbytes)) := by
  intro pcbs
  change (k.among pcbs).read img fd buf nbytes = (k.read img fd buf nbytes).map _
  unfold Kernel.read
  split
  · rfl
  rw [Kernel.among_displayedPcb, hown.deref]
  cases k.derefPcb k.displayedPcb with
  | none => rfl
  | some pcb =>
      rw [Option.map_some, Option.bind_some, Option.bind_some]
      change (if (pcb.fileArray fd.toNat).flags = 0 then _
        else (fopsAt (pcb.fileArray fd.toNat).fopsTable).bind _) = _
      split
      · rfl
      · cases fopsAt (pcb.fileArray fd.toNat).fopsTable with
        | none => rfl
        | some fops => exact Kernel.among_fopsRead hown fops fd nbytes

theorem Kernel.among_fopsWrite (fops : Fops) (buf : Option (Nat → UInt8)) (nbytes : Int) :
    (k.among pcbs).fopsWrite fops buf nbytes =
      ((k.fopsWrite fops buf nbytes).1, (k.fopsWrite fops buf nbytes).2.among pcbs) := by
  cases fops with
  | file | dir | stdin => rfl
  | rtc =>
      unfold Kernel.fopsWrite Kernel.rtcWrite
      cases buf with
      | none => rfl
      | some buf =>
          dsimp only
          split
          · rfl
          · split <;> rfl
  | stdout =>
      unfold Kernel.fopsWrite Kernel.terminalWrite
      cases buf with
      | none => rfl
      | some buf =>
          dsimp only
          split
          · rfl
          · split <;> rfl

theorem write_own (hown : k.FindsOwn) (fd : Int)
    (buf : Option (Nat → UInt8)) (nbytes : Int) :
    ActsOnCaller img k (.descriptor (.write fd buf nbytes)) := by
  intro pcbs
  change (k.among pcbs).write fd buf nbytes = (k.write fd buf nbytes).map _
  unfold Kernel.write
  split
  · rfl
  rw [Kernel.among_displayedPcb, hown.deref]
  cases k.derefPcb k.displayedPcb with
  | none => rfl
  | some pcb =>
      rw [Option.map_some, Option.bind_some, Option.bind_some]
      change (if (pcb.fileArray fd.toNat).flags = 0 then _
        else if (pcb.fileArray fd.toNat).flags &&& FD_FLAG_FILE ≠ 0 then _
        else (fopsAt (pcb.fileArray fd.toNat).fopsTable).map _) = _
      split
      · rfl
      split
      · rfl
      · cases fopsAt (pcb.fileArray fd.toNat).fopsTable with
        | none => rfl
        | some fops => exact congrArg some (Kernel.among_fopsWrite fops buf nbytes)

theorem Kernel.among_fopsOpen (fops : Fops) :
    (k.among pcbs).fopsOpen fops = (k.fopsOpen fops).among pcbs := by
  cases fops <;> rfl

theorem open_own (hown : k.FindsOwn) (filename : Option (List UInt8)) :
    ActsOnCaller img k (.descriptor (.open_ filename)) := by
  intro pcbs
  change (k.among pcbs).open_ img filename = (k.open_ img filename).map _
  unfold Kernel.open_
  cases filename.bind (readDentryByName img) with
  | none => rfl
  | some entry =>
      dsimp only
      rw [Kernel.among_displayedPcb, hown.deref]
      cases hfound : k.derefPcb k.displayedPcb with
      | none => rfl
      | some pcb =>
          rw [Option.map_some, Option.bind_some, Option.bind_some]
          change (if int32 pcb.fileArrSize ≥ MAX_OPEN_FILES then _
            else if Kernel.freeEntry pcb.fileArray (MAX_OPEN_FILES - STDI_O) STDI_O ≥
              MAX_OPEN_FILES then _
            else (fopsAt (Kernel.openedFd entry (pcb.fileArray
              (Kernel.freeEntry pcb.fileArray (MAX_OPEN_FILES - STDI_O) STDI_O))).fopsTable).map
                _) = _
          split
          · rfl
          split
          · rfl
          · cases fopsAt (Kernel.openedFd entry (pcb.fileArray
              (Kernel.freeEntry pcb.fileArray (MAX_OPEN_FILES - STDI_O) STDI_O))).fopsTable with
            | none => rfl
            | some fops =>
                simp only [Option.map_some, hown.eq hfound, ← Kernel.among_fopsOpen,
                  ← Kernel.among_setPcb]
                rfl

theorem Kernel.among_close (hown : k.FindsOwn) (fd : Int) :
    (k.among pcbs).close fd =
      (k.close fd).map fun outcome => (outcome.1, outcome.2.among pcbs) := by
  unfold Kernel.close
  split
  · rfl
  rw [among_displayedPcb, hown.deref]
  cases hfound : k.derefPcb k.displayedPcb with
  | none => rfl
  | some pcb =>
      rw [Option.map_some, Option.map_some, Option.map_some, Option.map_some, hown.eq hfound]
      change some (if (pcb.fileArray fd.toNat).flags = 0 then _ else _) = _
      split
      · rfl
      · rw [← among_setPcb]
        rfl

theorem close_own (hown : k.FindsOwn) (fd : Int) :
    ActsOnCaller img k (.descriptor (.close fd)) := by
  intro pcbs
  change ((k.among pcbs).close fd).map _ = ((k.close fd).map _).map _
  rw [Kernel.among_close hown, Option.map_map, Option.map_map]
  rfl

/-- The end of a turn of the loop of `halt`. -/
def Kernel.clearFlags (k : Kernel) (addr i : Nat) : Kernel :=
  k.setPcb addr
    { k.pcb addr with
      fileArray := update (k.pcb addr).fileArray i { (k.pcb addr).fileArray i with flags := 0 } }

theorem Kernel.closeEntry_eq (k : Kernel) (addr i : Nat) :
    k.closeEntry addr i =
      (if ((k.pcb addr).fileArray i).flags ≠ 0 then
        (fopsAt ((k.pcb addr).fileArray i).fopsTable).bind fun fops => k.fopsClose fops i
      else some k).map fun k => k.clearFlags addr i := rfl

theorem Kernel.among_clearFlags (k : Kernel) (pcbs : PcbMemory) (i : Nat) :
    (k.among pcbs).clearFlags k.scheduledPcb i = (k.clearFlags k.scheduledPcb i).among pcbs := by
  unfold Kernel.clearFlags
  rw [Kernel.among_own, ← Kernel.among_setPcb]
  rfl

/-- A turn of the loop of `halt`, when the driver's close acts on the caller. -/
theorem Kernel.among_closeEntry {i : Nat}
    (hfops : ∀ fops, ((k.pcb k.scheduledPcb).fileArray i).flags ≠ 0 →
      fopsAt ((k.pcb k.scheduledPcb).fileArray i).fopsTable = some fops →
      (k.among pcbs).fopsClose fops i = (k.fopsClose fops i).map (·.among pcbs)) :
    (k.among pcbs).closeEntry k.scheduledPcb i =
      (k.closeEntry k.scheduledPcb i).map (·.among pcbs) := by
  rw [Kernel.closeEntry_eq, Kernel.closeEntry_eq, Kernel.among_own, Pcb.withStack_fileArray]
  by_cases hflags : ((k.pcb k.scheduledPcb).fileArray i).flags ≠ 0
  · rw [if_pos hflags, if_pos hflags]
    cases htable : fopsAt ((k.pcb k.scheduledPcb).fileArray i).fopsTable with
    | none => simp only [Option.bind_none, Option.map_none]
    | some fops =>
        rw [Option.bind_some, Option.bind_some, hfops fops hflags htable]
        cases hclose : k.fopsClose fops i with
        | none => simp only [Option.map_none]
        | some closed =>
            rw [← (Kernel.fopsClose_same hclose).scheduledPcb]
            exact congrArg some (closed.among_clearFlags pcbs i)
  · rw [if_neg hflags, if_neg hflags]
    exact congrArg some (k.among_clearFlags pcbs i)

end Own

/-! ## The loop of `halt` -/

/-- The descriptor is open, and its table is the one given, or none. -/
def FdStruct.UsesTable (fd : FdStruct) (fops : Option Fops) : Prop :=
  fd.flags ≠ 0 ∧ fopsAt fd.fopsTable = fops

/-- A regular file is among the descriptors of the caller that `close` accepts. -/
def Kernel.ClosesFile (k : Kernel) : Prop :=
  ∃ fd, STDI_O ≤ fd ∧ fd < MAX_OPEN_FILES ∧
    ((k.pcb k.scheduledPcb).fileArray fd).UsesTable (some .file)

/-- An open descriptor of the caller leads to no table. -/
def Kernel.HasStray (k : Kernel) : Prop :=
  ∃ fd < MAX_OPEN_FILES, ((k.pcb k.scheduledPcb).fileArray fd).UsesTable none

/-- The closes inside `halt` come to the caller's PCB, to no PCB that is mapped, or do not
happen. -/
def Kernel.ClosesOwn (k : Kernel) : Prop := k.FindsOwn ∨ ¬ k.ClosesFile

/-- Descriptor `i` of some processes is closed, and no other. -/
def ClearsFd (i : Nat) (k after : Kernel) : Prop :=
  ∀ addr fd, (after.pcb addr).fileArray fd = (k.pcb addr).fileArray fd ∨
    fd = i ∧ ((after.pcb addr).fileArray fd).flags = 0

theorem ClearsFd.refl (i : Nat) (k : Kernel) : ClearsFd i k k := fun _ _ => .inl rfl

theorem ClearsFd.trans {i : Nat} {k middle after : Kernel} (hfirst : ClearsFd i k middle)
    (hsecond : ClearsFd i middle after) : ClearsFd i k after := by
  intro addr fd
  rcases hsecond addr fd with hsame | hcleared
  · rw [hsame]
    exact hfirst addr fd
  · exact .inr hcleared

/-- A store of one PCB whose descriptor `i` is closed. -/
theorem ClearsFd.setPcb {i addr : Nat} {k : Kernel} {pcb : Pcb}
    (hfds : pcb.fileArray =
      update (k.pcb addr).fileArray i { (k.pcb addr).fileArray i with flags := 0 }) :
    ClearsFd i k (k.setPcb addr pcb) := by
  intro other fd
  by_cases hother : other = addr
  · subst hother
    have hpcb : (k.setPcb other pcb).pcb other = pcb := update_self ..
    rw [hpcb, hfds]
    by_cases hfd : fd = i
    · subst hfd
      rw [update_self]
      exact .inr ⟨rfl, rfl⟩
    · rw [update_of_ne hfd]
      exact .inl rfl
  · exact .inl (congrArg (fun pcb : Pcb => pcb.fileArray fd) (update_of_ne hother _ _))

theorem Kernel.close_clears {i : Nat} {k after : Kernel} {value : Int}
    (hclose : k.close i = some (value, after)) : ClearsFd i k after := by
  rcases Kernel.close_cases hclose with ⟨-, rfl⟩ | ⟨-, -, -, rfl⟩
  · exact .refl i _
  · exact .setPcb rfl

theorem Kernel.closeEntry_clears {i addr : Nat} {k after : Kernel}
    (hclose : k.closeEntry addr i = some after) : ClearsFd i k after := by
  rw [Kernel.closeEntry_eq] at hclose
  obtain ⟨middle, hmiddle, rfl⟩ := Option.map_eq_some_iff.mp hclose
  refine ClearsFd.trans (?_ : ClearsFd i k middle) (.setPcb rfl)
  split at hmiddle
  · obtain ⟨fops, -, hfops⟩ := Option.bind_eq_some_iff.mp hmiddle
    cases fops with
    | file =>
        obtain ⟨⟨value, last⟩, hlast, rfl⟩ := Option.map_eq_some_iff.mp hfops
        exact Kernel.close_clears hlast
    | dir | rtc | stdin | stdout =>
        obtain rfl := Option.some.inj hfops
        exact .refl i k
  · obtain rfl := Option.some.inj hmiddle
    exact .refl i k

theorem SameProcesses.displayedPcb {k next : Kernel} (hsame : SameProcesses k next) :
    next.displayedPcb = k.displayedPcb := by
  rw [Kernel.displayedPcb, Kernel.head, hsame.heads, hsame.currTerminal]
  rfl

theorem Kernel.ClosesOwn.closeEntry {k after : Kernel} {i : Nat} (hown : k.ClosesOwn)
    (hclose : k.closeEntry k.scheduledPcb i = some after) : after.ClosesOwn := by
  have hsame := Kernel.closeEntry_same hclose
  unfold Kernel.ClosesOwn Kernel.FindsOwn
  rw [hsame.displayedPcb, hsame.scheduledPcb]
  refine hown.imp_right fun hnone => ?_
  rintro ⟨fd, hlow, hlt, hflags, htable⟩
  rw [hsame.scheduledPcb] at hflags htable
  rcases Kernel.closeEntry_clears hclose k.scheduledPcb fd with hfd | ⟨-, hcleared⟩
  · rw [hfd] at hflags htable
    exact hnone ⟨fd, hlow, hlt, hflags, htable⟩
  · exact hflags hcleared

section Closing

variable {img : Image} {k : Kernel} {pcbs : PcbMemory}

theorem Kernel.ClosesOwn.among_fopsClose {i : Nat} (hown : k.ClosesOwn) (hi : i < MAX_OPEN_FILES)
    (fops : Fops) (hflags : ((k.pcb k.scheduledPcb).fileArray i).flags ≠ 0)
    (htable : fopsAt ((k.pcb k.scheduledPcb).fileArray i).fopsTable = some fops) :
    (k.among pcbs).fopsClose fops i = (k.fopsClose fops i).map (·.among pcbs) := by
  cases fops with
  | dir | rtc | stdin | stdout => rfl
  | file =>
      have hclose : (k.among pcbs).close i =
          (k.close i).map fun outcome => (outcome.1, outcome.2.among pcbs) := by
        by_cases hlow : STDI_O ≤ i
        · rcases hown with hown | hnone
          · exact Kernel.among_close hown i
          · exact absurd ⟨i, hlow, hi, hflags, htable⟩ hnone
        · have hrefused : (i : Int) < STDI_O ∨ (i : Int) ≥ MAX_OPEN_FILES := by omega
          unfold Kernel.close
          rw [if_pos hrefused, if_pos hrefused]
          rfl
      unfold Kernel.fopsClose
      rw [hclose, Option.map_map, Option.map_map]
      rfl

/-- The loop, by induction over the descriptors that are left. -/
theorem Kernel.ClosesOwn.among_loop {addr : Nat} {entries : List Nat} {k : Kernel}
    (hown : k.ClosesOwn) (haddr : k.scheduledPcb = addr)
    (hentries : ∀ i ∈ entries, i < MAX_OPEN_FILES) :
    entries.foldlM (fun k i => Kernel.closeEntry k addr i) (k.among pcbs) =
      (entries.foldlM (fun k i => Kernel.closeEntry k addr i) k).map (·.among pcbs) := by
  induction entries generalizing k with
  | nil => rfl
  | cons i rest ih =>
      subst haddr
      have hturn : (k.among pcbs).closeEntry k.scheduledPcb i =
          (k.closeEntry k.scheduledPcb i).map (·.among pcbs) :=
        Kernel.among_closeEntry (hown.among_fopsClose (hentries i List.mem_cons_self))
      rw [List.foldlM_cons, List.foldlM_cons, hturn]
      cases hclose : k.closeEntry k.scheduledPcb i with
      | none => rfl
      | some next =>
          exact ih (hown.closeEntry hclose) (Kernel.closeEntry_same hclose).scheduledPcb
            fun j hj => hentries j (List.mem_cons_of_mem _ hj)

theorem closing_own (hown : k.ClosesOwn) : ActsOnCaller img k .closing := by
  intro pcbs
  have hloop : (k.among pcbs).closeEntries k.scheduledPcb =
      (k.closeEntries k.scheduledPcb).map (·.among pcbs) :=
    hown.among_loop rfl fun i hi => List.mem_range.mp hi
  unfold ProcessCall.run
  rw [Kernel.among_scheduledPcb, hloop, Option.map_map, Option.map_map]
  rfl

/-- At a stray descriptor the loop ends in a fault; the turns before leave the descriptor. -/
theorem Kernel.closeLoop_stray {addr fd : Nat} {entries : List Nat} {k : Kernel}
    (hmem : fd ∈ entries) (hstray : ((k.pcb addr).fileArray fd).UsesTable none) :
    entries.foldlM (fun k i => Kernel.closeEntry k addr i) k = none := by
  induction entries generalizing k with
  | nil => cases hmem
  | cons i rest ih =>
      rw [List.foldlM_cons]
      by_cases hi : fd = i
      · subst hi
        rw [Kernel.closeEntry_eq, if_pos hstray.1, hstray.2, Option.bind_none, Option.map_none]
        rfl
      · cases hclose : k.closeEntry addr i with
        | none => rfl
        | some next =>
            refine ih (List.mem_of_ne_of_mem hi hmem) ?_
            rcases Kernel.closeEntry_clears hclose addr fd with hsame | ⟨heq, -⟩
            · rwa [hsame]
            · exact absurd heq hi

theorem closing_stray (hstray : k.HasStray) : ActsOnCaller img k .closing := by
  intro pcbs
  obtain ⟨fd, hlt, htable⟩ := hstray
  have hmem := List.mem_range.mpr hlt
  have hleft : (k.among pcbs).closeEntries k.scheduledPcb = none :=
    Kernel.closeLoop_stray hmem (by rwa [Kernel.among_own])
  have hright : k.closeEntries k.scheduledPcb = none := Kernel.closeLoop_stray hmem htable
  unfold ProcessCall.run
  rw [Kernel.among_scheduledPcb, hleft, hright]
  rfl

end Closing

/-! ## Calls on the descriptors of another process -/

section Foreign

variable {img : Image} {k : Kernel}

/-- `close` leaves no descriptor open that it accepts. -/
theorem Kernel.close_flags {i : Nat} {after : Kernel} {value : Int} (hlow : STDI_O ≤ i)
    (hlt : i < MAX_OPEN_FILES) (hclose : k.close i = some (value, after)) :
    ((after.pcb k.displayedPcb).fileArray i).flags = 0 := by
  unfold Kernel.close at hclose
  rw [if_neg (by omega)] at hclose
  obtain ⟨pcb, hpcb, heq⟩ := Option.map_eq_some_iff.mp hclose
  obtain ⟨-, rfl⟩ := Kernel.derefPcb_eq_some.mp hpcb
  rw [Int.toNat_natCast] at heq
  split at heq
  · next hfree =>
    obtain ⟨-, rfl⟩ := Prod.mk.inj heq
    exact hfree
  · obtain ⟨-, rfl⟩ := Prod.mk.inj heq
    rw [Kernel.setPcb_pcb_self]
    simp

theorem Kernel.close_completes (hmapped : k.displayedPcb < _8MB) (fd : Int) :
    ∃ value after, k.close fd = some (value, after) := by
  unfold Kernel.close
  split
  · exact ⟨_, _, rfl⟩
  · rw [Kernel.derefPcb, if_pos hmapped]
    exact ⟨_, _, rfl⟩

/-- A turn of the loop without a stray descriptor completes, and closes a file's descriptor
also in the displayed terminal's head. -/
theorem Kernel.closeEntry_foreign {addr i : Nat} (hne : k.displayedPcb ≠ addr)
    (hmapped : k.displayedPcb < _8MB) (hi : i < MAX_OPEN_FILES)
    (htable : ¬ ((k.pcb addr).fileArray i).UsesTable none) :
    ∃ after, k.closeEntry addr i = some after ∧
      (STDI_O ≤ i → ((k.pcb addr).fileArray i).UsesTable (some .file) →
        ((after.pcb k.displayedPcb).fileArray i).flags = 0) := by
  rw [Kernel.closeEntry_eq]
  by_cases hflags : ((k.pcb addr).fileArray i).flags ≠ 0
  · obtain ⟨fops, hfops⟩ : ∃ fops, fopsAt ((k.pcb addr).fileArray i).fopsTable = some fops :=
      Option.ne_none_iff_exists'.mp fun hnone => htable ⟨hflags, hnone⟩
    rw [if_pos hflags, hfops, Option.bind_some]
    cases fops with
    | file =>
        obtain ⟨value, after, hclose⟩ := Kernel.close_completes hmapped (i : Int)
        refine ⟨after.clearFlags addr i, ?_, fun hlow _ => ?_⟩
        · rw [Kernel.fopsClose, hclose, Option.map_some, Option.map_some]
        · have hother : (after.clearFlags addr i).pcb k.displayedPcb = after.pcb k.displayedPcb :=
            update_of_ne hne _ _
          rw [hother]
          exact Kernel.close_flags hlow hi hclose
    | dir | rtc | stdin | stdout =>
        refine ⟨_, rfl, fun _ huses => ?_⟩
        rw [FdStruct.UsesTable, hfops] at huses
        simp at huses
  · rw [if_neg hflags]
    exact ⟨_, rfl, fun _ huses => absurd huses.1 hflags⟩

/-- The state with another PCB for the head of the displayed terminal. -/
def Kernel.withDisplayed (k : Kernel) (pcb : Pcb) : Kernel :=
  k.among (update k.pcb k.displayedPcb pcb)

theorem Kernel.withDisplayed_pcb (hne : k.displayedPcb ≠ k.scheduledPcb) (pcb : Pcb) :
    (k.withDisplayed pcb).pcb k.displayedPcb = pcb :=
  (Kernel.among_of_ne hne).trans (update_self ..)

theorem Kernel.withDisplayed_deref (hne : k.displayedPcb ≠ k.scheduledPcb)
    (hmapped : k.displayedPcb < _8MB) (pcb : Pcb) :
    (k.withDisplayed pcb).derefPcb (k.withDisplayed pcb).displayedPcb = some pcb :=
  (if_pos hmapped).trans (congrArg some (k.withDisplayed_pcb hne pcb))

/-- What a call that acts on its caller returns does not depend on that PCB. -/
theorem ActsOnCaller.result {call : ProcessCall} (hacts : ActsOnCaller img k call)
    (first second : PcbMemory) : (call.run img (k.among first)).map Prod.fst =
      (call.run img (k.among second)).map Prod.fst := by
  rw [hacts first, hacts second, Option.map_map, Option.map_map]
  rfl

/-- A PCB whose descriptors are all the same. -/
def Pcb.uniform (desc : FdStruct) (count : Nat) : Pcb :=
  { fileArray := fun _ => desc
    fileArrSize := count
    processNum := 0
    kStack := 0
    parentTask := 0
    childTask := 0
    eip := 0
    esp := 0
    ebp := 0
    esp0 := 0
    args := fun _ => NUL
    pad := NUL
    ebpScheduler := 0
    behind := fun _ => NUL }

theorem read_foreign (hne : k.displayedPcb ≠ k.scheduledPcb) (hmapped : k.displayedPcb < _8MB)
    {fd : Int} {buf : Bool} {nbytes : Int}
    (hgood : ¬ (!buf ∨ fd ≥ MAX_OPEN_FILES ∨ fd < 0 ∨ fd = 1)) :
    ¬ ActsOnCaller img k (.descriptor (.read fd buf nbytes)) := by
  intro hacts
  have hsame := hacts.result (update k.pcb k.displayedPcb (Pcb.uniform ⟨0, 0, 0, 0⟩ 0))
    (update k.pcb k.displayedPcb (Pcb.uniform ⟨rtc_table, 0, 0, FD_FLAG_PRESENT⟩ 0))
  have hrun : ∀ pcb : Pcb, (ProcessCall.descriptor (.read fd buf nbytes)).run img
      (k.among (update k.pcb k.displayedPcb pcb)) =
        if (pcb.fileArray fd.toNat).flags = 0 then some (failed, k.withDisplayed pcb)
        else (fopsAt (pcb.fileArray fd.toNat).fopsTable).bind fun fops =>
          (k.withDisplayed pcb).fopsRead img fops fd nbytes := by
    intro pcb
    change (k.withDisplayed pcb).read img fd buf nbytes = _
    rw [Kernel.read, if_neg hgood, k.withDisplayed_deref hne hmapped, Option.bind_some]
  rw [hrun, hrun] at hsame
  cases hsame

theorem write_foreign (hne : k.displayedPcb ≠ k.scheduledPcb) (hmapped : k.displayedPcb < _8MB)
    {fd : Int} {buf : Option (Nat → UInt8)} {nbytes : Int}
    (hgood : ¬ (buf.isNone ∨ fd ≥ MAX_OPEN_FILES ∨ fd < 0 ∨ fd = 0)) :
    ¬ ActsOnCaller img k (.descriptor (.write fd buf nbytes)) := by
  intro hacts
  have hsame := hacts.result (update k.pcb k.displayedPcb (Pcb.uniform ⟨0, 0, 0, 0⟩ 0))
    (update k.pcb k.displayedPcb (Pcb.uniform ⟨stdin_table, 0, 0, FD_FLAG_PRESENT⟩ 0))
  have hrun : ∀ pcb : Pcb, (ProcessCall.descriptor (.write fd buf nbytes)).run img
      (k.among (update k.pcb k.displayedPcb pcb)) =
        if (pcb.fileArray fd.toNat).flags = 0 then some (failed, k.withDisplayed pcb)
        else if (pcb.fileArray fd.toNat).flags &&& FD_FLAG_FILE ≠ 0 then
          some (failed, k.withDisplayed pcb)
        else (fopsAt (pcb.fileArray fd.toNat).fopsTable).map fun fops =>
          (k.withDisplayed pcb).fopsWrite fops buf nbytes := by
    intro pcb
    change (k.withDisplayed pcb).write fd buf nbytes = _
    rw [Kernel.write, if_neg hgood, k.withDisplayed_deref hne hmapped, Option.bind_some]
  have hopen : (FD_FLAG_PRESENT : Nat) ≠ 0 ∧ ¬ FD_FLAG_PRESENT &&& FD_FLAG_FILE ≠ 0 := by decide
  have hwritten := (hrun (Pcb.uniform ⟨stdin_table, 0, 0, FD_FLAG_PRESENT⟩ 0)).trans
    ((if_neg hopen.1).trans (if_neg hopen.2))
  rw [(hrun _).trans (if_pos rfl), hwritten] at hsame
  cases hsame

theorem close_foreign (hne : k.displayedPcb ≠ k.scheduledPcb) (hmapped : k.displayedPcb < _8MB)
    {fd : Int} (hgood : ¬ (fd < STDI_O ∨ fd ≥ MAX_OPEN_FILES)) :
    ¬ ActsOnCaller img k (.descriptor (.close fd)) := by
  intro hacts
  have hsame := hacts.result (update k.pcb k.displayedPcb (Pcb.uniform ⟨0, 0, 0, 0⟩ 0))
    (update k.pcb k.displayedPcb (Pcb.uniform ⟨0, 0, 0, FD_FLAG_PRESENT⟩ 0))
  have hrun : ∀ pcb : Pcb, ((ProcessCall.descriptor (.close fd)).run img
      (k.among (update k.pcb k.displayedPcb pcb))).map Prod.fst =
        some (.returned (if (pcb.fileArray fd.toNat).flags = 0 then -1 else 0) []) := by
    intro pcb
    change (((k.withDisplayed pcb).close fd).map _).map Prod.fst = _
    rw [Kernel.close, if_neg hgood, k.withDisplayed_deref hne hmapped, Option.map_some,
      Option.map_some, Option.map_some]
    split <;> rfl
  rw [hrun, hrun] at hsame
  cases hsame

/-- The descriptor that is filled in for an entry has a table, when the old one had. -/
theorem openedFd_table (entry : Dentry) (old : FdStruct) {fops : Fops}
    (htable : fopsAt old.fopsTable = some fops) :
    ∃ fops, fopsAt (Kernel.openedFd entry old).fopsTable = some fops := by
  unfold Kernel.openedFd
  dsimp only
  split
  · exact ⟨.rtc, rfl⟩
  · exact ⟨.dir, rfl⟩
  · exact ⟨.file, rfl⟩
  · exact ⟨fops, htable⟩

theorem open_foreign (hne : k.displayedPcb ≠ k.scheduledPcb) (hmapped : k.displayedPcb < _8MB)
    {filename : Option (List UInt8)} {entry : Dentry}
    (hfound : filename.bind (readDentryByName img) = some entry) :
    ¬ ActsOnCaller img k (.descriptor (.open_ filename)) := by
  intro hacts
  have hsame := hacts.result (update k.pcb k.displayedPcb (Pcb.uniform ⟨0, 0, 0, 0⟩ MAX_OPEN_FILES))
    (update k.pcb k.displayedPcb (Pcb.uniform ⟨rtc_table, 0, 0, 0⟩ 0))
  have hfull : ((ProcessCall.descriptor (.open_ filename)).run img
      (k.among (update k.pcb k.displayedPcb (Pcb.uniform ⟨0, 0, 0, 0⟩ MAX_OPEN_FILES)))).map
        Prod.fst = some failed := by
    change ((k.withDisplayed _).open_ img filename).map Prod.fst = _
    rw [Kernel.open_, hfound]
    dsimp only
    rw [k.withDisplayed_deref hne hmapped, Option.bind_some]
    exact congrArg (Option.map Prod.fst) (if_pos (by decide))
  have hroom : ((ProcessCall.descriptor (.open_ filename)).run img
      (k.among (update k.pcb k.displayedPcb (Pcb.uniform ⟨rtc_table, 0, 0, 0⟩ 0)))).map
        Prod.fst = some (.returned STDI_O []) := by
    change ((k.withDisplayed _).open_ img filename).map Prod.fst = _
    rw [Kernel.open_, hfound]
    dsimp only
    rw [k.withDisplayed_deref hne hmapped, Option.bind_some]
    have hcount : ¬ int32 (Pcb.uniform ⟨rtc_table, 0, 0, 0⟩ 0).fileArrSize ≥ MAX_OPEN_FILES := by
      decide
    have hslot : Kernel.freeEntry (Pcb.uniform ⟨rtc_table, 0, 0, 0⟩ 0).fileArray
        (MAX_OPEN_FILES - STDI_O) STDI_O = STDI_O := rfl
    obtain ⟨fops, hfops⟩ : ∃ fops, fopsAt (Kernel.openedFd entry ⟨rtc_table, 0, 0, 0⟩).fopsTable =
        some fops := openedFd_table entry _ rfl
    rw [if_neg hcount, hslot, if_neg (by decide)]
    dsimp only [Pcb.uniform]
    rw [hfops]
    rfl
  rw [hfull, hroom] at hsame
  cases hsame

/-- Before turn `n` of the loop, descriptor `i` of the displayed terminal's head is closed when
its turn has come, and those of the caller that are still to come are as they were. -/
structure ForeignTurns (k : Kernel) (i n : Nat) (s : Kernel) : Prop where
  displayedPcb : s.displayedPcb = k.displayedPcb
  scheduledPcb : s.scheduledPcb = k.scheduledPcb
  own : ∀ fd, n ≤ fd → (s.pcb k.scheduledPcb).fileArray fd = (k.pcb k.scheduledPcb).fileArray fd
  closed : i < n → ((s.pcb k.displayedPcb).fileArray i).flags = 0

theorem ForeignTurns.turn {i n : Nat} {s : Kernel} (hturns : ForeignTurns k i n s)
    (hne : k.displayedPcb ≠ k.scheduledPcb) (hmapped : k.displayedPcb < _8MB) (hlow : STDI_O ≤ i)
    (huses : ((k.pcb k.scheduledPcb).fileArray i).UsesTable (some .file))
    (hstray : ¬ k.HasStray) (hn : n < MAX_OPEN_FILES) :
    ∃ t, s.closeEntry k.scheduledPcb n = some t ∧ ForeignTurns k i (n + 1) t := by
  obtain ⟨hshown, hsame, hown, hclosed⟩ := hturns
  have hnext := hown n le_rfl
  obtain ⟨t, hturn, hfile⟩ := Kernel.closeEntry_foreign (i := n) (hshown.trans_ne hne)
    (hshown.trans_lt hmapped) hn (by
      rw [hnext]
      exact fun htable => hstray ⟨n, hn, htable⟩)
  have hkept := Kernel.closeEntry_same hturn
  have hclears := Kernel.closeEntry_clears hturn
  rw [hnext, hshown] at hfile
  refine ⟨t, hturn, hkept.displayedPcb.trans hshown, hkept.scheduledPcb.trans hsame,
    fun fd hfd => ?_, fun hi => ?_⟩
  · rcases hclears k.scheduledPcb fd with hfd' | ⟨rfl, -⟩
    · rw [hfd', hown fd (by omega)]
    · omega
  · rcases Nat.lt_succ_iff_lt_or_eq.mp hi with hearlier | rfl
    · rcases hclears k.displayedPcb i with hsame | ⟨-, hcleared⟩
      · rw [hsame, hclosed hearlier]
      · exact hcleared
    · exact hfile hlow huses

theorem closing_foreign (hne : k.displayedPcb ≠ k.scheduledPcb) (hmapped : k.displayedPcb < _8MB)
    (hfile : k.ClosesFile) (hstray : ¬ k.HasStray) : ¬ ActsOnCaller img k .closing := by
  intro hacts
  obtain ⟨i, hlow, hlt, huses⟩ := hfile
  have hown : ((k.withDisplayed (Pcb.uniform ⟨0, 0, 0, FD_FLAG_PRESENT⟩ 0)).pcb
      k.scheduledPcb).fileArray = (k.pcb k.scheduledPcb).fileArray := by
    rw [Kernel.withDisplayed, Kernel.among_own]
    rfl
  have hloop : ∃ last, (k.withDisplayed (Pcb.uniform ⟨0, 0, 0, FD_FLAG_PRESENT⟩ 0)).closeEntries
      k.scheduledPcb = some last ∧ ForeignTurns k i MAX_OPEN_FILES last :=
    CountedLoop.foldlM_range (ForeignTurns k i)
      (fun n hn s hturns => hturns.turn hne hmapped hlow huses hstray hn)
      ⟨rfl, rfl, fun fd _ => congrFun hown fd, fun hi => absurd hi (Nat.not_lt_zero i)⟩
  obtain ⟨last, hlast, -, hscheduled, -, hclosed⟩ := hloop
  have hrun := hacts (update k.pcb k.displayedPcb (Pcb.uniform ⟨0, 0, 0, FD_FLAG_PRESENT⟩ 0))
  change ((k.withDisplayed _).closeEntries k.scheduledPcb).map _ = _ at hrun
  rw [hlast, Option.map_some] at hrun
  obtain ⟨⟨result, left⟩, hleft, heq⟩ := Option.map_eq_some_iff.mp hrun.symm
  obtain ⟨left', hclose, hleft'⟩ := Option.map_eq_some_iff.mp hleft
  obtain ⟨-, rfl⟩ := Prod.mk.inj heq
  obtain ⟨-, rfl⟩ := Prod.mk.inj hleft'
  have hsame := (Kernel.closeEntries_same hclose).scheduledPcb
  have hne' : k.displayedPcb ≠ left'.scheduledPcb := hsame.symm ▸ hne
  rw [Kernel.among_of_ne hne', update_self] at hclosed
  exact absurd (hclosed hlt) (by decide : FD_FLAG_PRESENT ≠ 0)

end Foreign

/-! ## Bytes of PCBs -/

/-- The byte of the kernel page at an address. -/
def byteAt (pcbs : PcbMemory) (addr : Nat) : UInt8 :=
  (pcbs (addr / _8KB * _8KB)).loadByte (addr % _8KB)

/-- The bytes of a `pcb_t`; the kernel stack is behind them. -/
def Pcb.size : Nat := 296

/-- The address is one of the running process's PCB. -/
def Kernel.InOwnPcb (k : Kernel) (addr : Nat) : Prop :=
  k.scheduledPcb ≤ addr ∧ addr < k.scheduledPcb + Pcb.size

/-- The fields of the structure are the caller's. -/
theorem Pcb.loadByte_withStack (pcb stack : Pcb) {offset : Nat} (hlt : offset < Pcb.size) :
    (pcb.withStack stack).loadByte offset = pcb.loadByte offset := by
  unfold Pcb.loadByte
  iterate 13 refine ite_congr rfl (fun _ => rfl) fun _ => ?_
  simp only [Pcb.size] at hlt
  omega

theorem Pcb.loadByte_behind (pcb : Pcb) {offset : Nat} (hle : Pcb.size ≤ offset) :
    pcb.loadByte offset = pcb.behind (offset - Pcb.size) := by
  simp only [Pcb.size] at hle ⊢
  unfold Pcb.loadByte
  iterate 13 rw [if_neg (by omega)]

/-- A word from its four bytes. -/
def wordOf (bytes : Nat → UInt8) (offset : Nat) : Nat :=
  (bytes offset).toNat + 256 * (bytes (offset + 1)).toNat + 256 ^ 2 * (bytes (offset + 2)).toNat +
    256 ^ 3 * (bytes (offset + 3)).toNat

theorem wordByte_wordOf (bytes : Nat → UInt8) (offset : Nat) {index : Nat} (hlt : index < 4) :
    wordByte (wordOf bytes offset) index = bytes (offset + index) := by
  have h0 := (bytes offset).toNat_lt
  have h1 := (bytes (offset + 1)).toNat_lt
  have h2 := (bytes (offset + 2)).toNat_lt
  have h3 := (bytes (offset + 3)).toNat_lt
  have hcases : index = 0 ∨ index = 1 ∨ index = 2 ∨ index = 3 := by omega
  unfold wordByte
  apply UInt8.toNat_inj.mp
  rw [UInt8.toNat_ofNat']
  unfold wordOf
  rcases hcases with rfl | rfl | rfl | rfl
  · rw [Nat.pow_zero, Nat.div_one]
    change _ = (bytes offset).toNat
    omega
  · omega
  · omega
  · omega

def FdStruct.ofBytes (bytes : Nat → UInt8) (offset : Nat) : FdStruct :=
  ⟨wordOf bytes offset, wordOf bytes (offset + 4), wordOf bytes (offset + 8),
    wordOf bytes (offset + 12)⟩

/-- The PCB whose block holds the bytes given. -/
def Pcb.ofBytes (bytes : Nat → UInt8) : Pcb where
  fileArray fd := FdStruct.ofBytes bytes (16 * fd)
  fileArrSize := wordOf bytes 128
  processNum := wordOf bytes 132
  kStack := wordOf bytes 136
  parentTask := wordOf bytes 140
  childTask := wordOf bytes 144
  eip := wordOf bytes 148
  esp := wordOf bytes 152
  ebp := wordOf bytes 156
  esp0 := wordOf bytes 160
  args index := bytes (164 + index)
  pad := bytes 291
  ebpScheduler := wordOf bytes 292
  behind index := bytes (Pcb.size + index)

theorem FdStruct.loadByte_ofBytes (bytes : Nat → UInt8) (start : Nat) {offset : Nat}
    (hlt : offset < 16) :
    (FdStruct.ofBytes bytes start).loadByte offset = bytes (start + offset) := by
  unfold FdStruct.loadByte FdStruct.ofBytes
  split
  · rw [wordByte_wordOf _ _ (by assumption)]
  split
  · rw [wordByte_wordOf _ _ (by omega)]
    exact congrArg bytes (by omega)
  split
  · rw [wordByte_wordOf _ _ (by omega)]
    exact congrArg bytes (by omega)
  · rw [wordByte_wordOf _ _ (by omega)]
    exact congrArg bytes (by omega)

theorem Pcb.loadByte_ofBytes (bytes : Nat → UInt8) (offset : Nat) :
    (Pcb.ofBytes bytes).loadByte offset = bytes offset := by
  have hword : ∀ start, start ≤ offset → offset < start + 4 →
      wordByte (wordOf bytes start) (offset - start) = bytes offset := by
    intro start hle hlt
    rw [wordByte_wordOf _ _ (by omega)]
    exact congrArg bytes (by omega)
  unfold Pcb.loadByte Pcb.ofBytes
  refine ite_eq_iff'.mpr ⟨fun _ => ?_, fun _ => ?_⟩
  · rw [FdStruct.loadByte_ofBytes _ _ (Nat.mod_lt _ (by decide)), Nat.div_add_mod]
  -- the nine words between the descriptors and `args`
  iterate 9 refine ite_eq_iff'.mpr ⟨fun _ => hword _ (by omega) (by omega), fun _ => ?_⟩
  refine ite_eq_iff'.mpr ⟨fun _ => congrArg bytes (by omega), fun _ => ?_⟩
  refine ite_eq_iff'.mpr ⟨fun _ => congrArg bytes (by omega), fun _ => ?_⟩
  refine ite_eq_iff'.mpr ⟨fun _ => hword _ (by omega) (by omega), fun _ => ?_⟩
  exact congrArg bytes (by simp only [Pcb.size]; omega)

/-- The PCBs whose blocks hold the bytes given. -/
def memoryOf (bytes : Nat → UInt8) : PcbMemory :=
  fun base => Pcb.ofBytes fun offset => bytes (base + offset)

section Bytes

variable {k : Kernel} {addr : Nat}

theorem Kernel.ownBlock (hown : k.InOwnPcb addr) :
    addr / _8KB * _8KB = k.scheduledPcb ∧ addr % _8KB < Pcb.size := by
  have hbase : k.scheduledPcb % _8KB = 0 := getPCB_mod _
  unfold Kernel.InOwnPcb at hown
  simp only [_8KB, Pcb.size] at *
  omega

theorem Kernel.byteAt_among (pcbs : PcbMemory) (hown : k.InOwnPcb addr) :
    byteAt (k.among pcbs).pcb addr = byteAt k.pcb addr := by
  obtain ⟨hblock, hoffset⟩ := Kernel.ownBlock hown
  unfold byteAt
  rw [hblock, Kernel.among_own, Pcb.loadByte_withStack _ _ hoffset]

/-- All other bytes are those of the other memory, the caller's kernel stack included. -/
theorem Kernel.byteAt_foreign (bytes : Nat → UInt8) (hforeign : ¬ k.InOwnPcb addr) :
    byteAt (k.among (memoryOf bytes)).pcb addr = bytes addr := by
  have haddr : addr / _8KB * _8KB + addr % _8KB = addr := Nat.div_add_mod' _ _
  have hbytes : ∀ base, (memoryOf bytes base).loadByte (addr % _8KB) = bytes (base + addr % _8KB) :=
    fun base => Pcb.loadByte_ofBytes _ _
  unfold byteAt
  by_cases hblock : addr / _8KB * _8KB = k.scheduledPcb
  · have hbehind : Pcb.size ≤ addr % _8KB := by
      unfold Kernel.InOwnPcb at hforeign
      omega
    rw [hblock] at haddr ⊢
    rw [Kernel.among_own, Pcb.loadByte_behind _ hbehind]
    change (memoryOf bytes k.scheduledPcb).behind _ = _
    rw [← Pcb.loadByte_behind _ hbehind, hbytes, haddr]
  · rw [Kernel.among_of_ne hblock, hbytes, haddr]

end Bytes

/-! ## `getargs` -/

/-- The scan ends at the first NUL. -/
theorem scanNul_eq_some_iff {pcbs : PcbMemory} {remaining addr p : Nat}
    (hmapped : addr + remaining ≤ _8MB) :
    Kernel.scanNul pcbs remaining addr = some p ↔
      p < remaining ∧ byteAt pcbs (addr + p) = NUL ∧ ∀ i < p, byteAt pcbs (addr + i) ≠ NUL := by
  induction remaining generalizing addr p with
  | zero => simp [Kernel.scanNul]
  | succ remaining ih =>
      have hload : loadKernelByte pcbs addr = some (byteAt pcbs addr) := if_pos (by omega)
      rw [Kernel.scanNul, hload, Option.bind_some]
      by_cases hnul : byteAt pcbs addr = NUL
      · rw [if_pos hnul, Option.some_inj]
        constructor
        · rintro rfl
          exact ⟨Nat.succ_pos _, hnul, fun i hi => absurd hi (Nat.not_lt_zero i)⟩
        · rintro ⟨-, -, hfirst⟩
          by_contra hne
          exact hfirst 0 (Nat.pos_of_ne_zero (Ne.symm hne)) hnul
      · rw [if_neg hnul, Option.map_eq_some_iff]
        constructor
        · rintro ⟨q, hq, rfl⟩
          obtain ⟨hlt, hend, hfirst⟩ := (ih (by omega)).mp hq
          refine ⟨by omega, ?_, fun i hi => ?_⟩
          · rw [← Nat.add_assoc, Nat.add_right_comm]
            exact hend
          · cases i with
            | zero => exact hnul
            | succ i =>
                rw [← Nat.add_assoc, Nat.add_right_comm]
                exact hfirst i (by omega)
        · rintro ⟨hlt, hend, hfirst⟩
          cases p with
          | zero => exact absurd hend hnul
          | succ p =>
              rw [← Nat.add_assoc, Nat.add_right_comm] at hend
              refine ⟨p, (ih (by omega)).mpr ⟨by omega, hend, fun i hi => ?_⟩, rfl⟩
              rw [Nat.add_right_comm]
              exact hfirst (i + 1) (by omega)

theorem toU32_pred (nbytes : Int) :
    toU32 (nbytes - 1) = if toU32 nbytes = 0 then 2 ^ 32 - 1 else toU32 nbytes - 1 := by
  unfold toU32
  split <;> omega

/-- What `getargs` looks at: the address of `args` in the displayed terminal's head, and the
bytes from there to 8 MB. -/
def Kernel.argsStart (k : Kernel) : Nat := k.displayedPcb + Pcb.argsOffset

theorem Kernel.argsStart_ne (k : Kernel) : k.argsStart ≠ _8MB := by
  have hbase : k.displayedPcb % _8KB = 0 := getPCB_mod _
  simp only [Kernel.argsStart, Pcb.argsOffset, _8MB, _8KB] at *
  omega

/-- `getargs` acts on its caller when it always faults; when all bytes it returns and a NUL that
ends the scan are the caller's; or when a NUL of the caller makes the store to a NULL buffer
certain. -/
def Kernel.GetargsOwn (k : Kernel) (buf : Bool) (nbytes : Int) : Prop :=
  _8MB < k.argsStart + toU32 nbytes + (if buf then 0 else 1) ∨
    ((∃ addr, k.argsStart ≤ addr ∧ addr < _8MB ∧ k.InOwnPcb addr ∧ byteAt k.pcb addr = NUL) ∧
      ∀ i < toU32 nbytes, k.InOwnPcb (k.argsStart + i)) ∨
    buf = false ∧
      ∃ i < toU32 nbytes, k.InOwnPcb (k.argsStart + i) ∧ byteAt k.pcb (k.argsStart + i) = NUL

section Getargs

variable {img : Image} {k : Kernel} {buf : Bool} {nbytes : Int} {p : Nat}

/-- The first NUL of the arguments. -/
def Kernel.ScanEnds (k : Kernel) (p : Nat) : Prop :=
  p < _8MB - k.argsStart ∧ byteAt k.pcb (k.argsStart + p) = NUL ∧
    ∀ i < p, byteAt k.pcb (k.argsStart + i) ≠ NUL

theorem Kernel.scan_eq_some_iff : Kernel.scanNul k.pcb (_8MB - k.argsStart) k.argsStart = some p ↔
    k.ScanEnds p := by
  by_cases hmapped : k.argsStart ≤ _8MB
  · exact scanNul_eq_some_iff (by omega)
  · have hempty : _8MB - k.argsStart = 0 := by omega
    unfold Kernel.ScanEnds
    rw [hempty]
    simp [Kernel.scanNul]

/-- The bytes `getargs` copies. -/
def Kernel.argsOut (k : Kernel) (count : Nat) : List UInt8 :=
  (List.range count).map fun i => byteAt k.pcb (k.argsStart + i)

/-- The call behind the scan. -/
theorem Kernel.getargs_of_ends (hends : k.ScanEnds p) :
    k.getargs buf nbytes =
      if p > toU32 (nbytes - 1) then some (failed, k)
      else if !buf ∧ toU32 nbytes ≠ 0 then none
      else if k.argsStart + toU32 nbytes ≤ _8MB then
        some (.returned 0 (k.argsOut (toU32 nbytes)), k)
      else none := by
  have hscan := Kernel.scan_eq_some_iff.mpr hends
  unfold Kernel.argsStart at hscan
  unfold Kernel.getargs
  dsimp only
  rw [hscan, Option.bind_some]
  split
  · rfl
  split
  · rfl
  unfold Kernel.loadKernelBytes
  by_cases hfits : k.argsStart + toU32 nbytes ≤ _8MB
  · rw [if_pos hfits]
    exact congrArg (Option.map _) (if_pos hfits)
  · rw [if_neg hfits]
    exact congrArg (Option.map _) (if_neg hfits)

theorem Kernel.getargs_of_endless (hnone : ∀ p, ¬ k.ScanEnds p) : k.getargs buf nbytes = none := by
  have hscan : Kernel.scanNul k.pcb (_8MB - k.argsStart) k.argsStart = none :=
    Option.eq_none_iff_forall_ne_some.mpr fun p hp => hnone p (Kernel.scan_eq_some_iff.mp hp)
  unfold Kernel.argsStart at hscan
  unfold Kernel.getargs
  dsimp only
  rw [hscan, Option.bind_none]

/-- The first NUL of a stretch of bytes. -/
theorem exists_first_nul (bytes : Nat → UInt8) {q : Nat} (hq : bytes q = NUL) :
    ∃ p ≤ q, bytes p = NUL ∧ ∀ i < p, bytes i ≠ NUL := by
  classical
  have hex : ∃ q, bytes q = NUL := ⟨q, hq⟩
  exact ⟨Nat.find hex, Nat.find_min' hex hq, Nat.find_spec hex, fun i hi => Nat.find_min hex hi⟩

theorem Kernel.scanEnds_le {q : Nat} (hlt : k.argsStart + q < _8MB)
    (hq : byteAt k.pcb (k.argsStart + q) = NUL) : ∃ p ≤ q, k.ScanEnds p := by
  obtain ⟨p, hle, hp, hfirst⟩ := exists_first_nul (fun i => byteAt k.pcb (k.argsStart + i)) hq
  exact ⟨p, hle, by omega, hp, hfirst⟩

/-- `getargs` changes nothing, so only its result counts. -/
theorem getargs_acts_iff : ActsOnCaller img k (.getargs buf nbytes) ↔
    ∀ pcbs, ((k.among pcbs).getargs buf nbytes).map Prod.fst =
      (k.getargs buf nbytes).map Prod.fst := by
  have hsame : ∀ s : Kernel, s.getargs buf nbytes =
      ((s.getargs buf nbytes).map Prod.fst).map fun result => (result, s) := by
    intro s
    cases hargs : s.getargs buf nbytes with
    | none => rfl
    | some outcome =>
        obtain ⟨result, after⟩ := outcome
        obtain rfl := Kernel.getargs_same hargs
        rfl
  constructor
  · intro hacts pcbs
    have hrun : (k.among pcbs).getargs buf nbytes = (k.getargs buf nbytes).map _ := hacts pcbs
    rw [hrun, Option.map_map]
    rfl
  · intro hresult pcbs
    change (k.among pcbs).getargs buf nbytes = (k.getargs buf nbytes).map _
    rw [hsame (k.among pcbs), hresult pcbs]
    cases hargs : k.getargs buf nbytes with
    | none => simp only [Option.map_none]
    | some outcome =>
        obtain ⟨result, after⟩ := outcome
        obtain rfl := Kernel.getargs_same hargs
        simp only [Option.map_some]

/-- No memory makes the call succeed. -/
theorem Kernel.getargs_faults
    (hfar : _8MB < k.argsStart + toU32 nbytes + (if buf then 0 else 1)) :
    k.getargs buf nbytes = none := by
  by_cases hends : ∃ p, k.ScanEnds p
  · obtain ⟨p, hscan⟩ := hends
    have hlt := hscan.1
    have hlimit := toU32_pred nbytes
    have hstart := k.argsStart_ne
    rw [Kernel.getargs_of_ends hscan]
    cases buf with
    | true =>
        simp only [if_true] at hfar
        rw [if_neg (by split at hlimit <;> omega), if_neg (by simp), if_neg (by omega)]
    | false =>
        have hsize : toU32 nbytes ≠ 0 := by
          simp only [Bool.false_eq_true, if_false] at hfar
          omega
        simp only [Bool.false_eq_true, if_false] at hfar
        rw [if_neg hsize] at hlimit
        rw [if_neg (by omega), if_pos ⟨rfl, hsize⟩]
  · exact Kernel.getargs_of_endless (not_exists.mp hends)

/-- A scan that ends among the bytes to be returned faults without a buffer. -/
theorem Kernel.getargs_null (hends : k.ScanEnds p) (hlt : p < toU32 nbytes) :
    k.getargs false nbytes = none := by
  have hlimit := toU32_pred nbytes
  rw [if_neg (by omega)] at hlimit
  rw [Kernel.getargs_of_ends hends, if_neg (by omega), if_pos ⟨rfl, by omega⟩]

/-- The call when the bytes it returns are the caller's, and the scan ends. -/
theorem Kernel.getargs_among (pcbs : PcbMemory) {q : Nat}
    (hbytes : ∀ i < toU32 nbytes, k.InOwnPcb (k.argsStart + i)) (hends : k.ScanEnds p)
    (hends' : (k.among pcbs).ScanEnds q) :
    ((k.among pcbs).getargs buf nbytes).map Prod.fst = (k.getargs buf nbytes).map Prod.fst := by
  have hsame : ∀ i < toU32 nbytes, byteAt (k.among pcbs).pcb (k.argsStart + i) =
      byteAt k.pcb (k.argsStart + i) := fun i hi => Kernel.byteAt_among pcbs (hbytes i hi)
  have hout : (k.among pcbs).argsOut (toU32 nbytes) = k.argsOut (toU32 nbytes) :=
    List.map_congr_left fun i hi => hsame i (List.mem_range.mp hi)
  -- the two scans end at the same byte, or both behind the bytes to be returned
  have hlimit : p > toU32 (nbytes - 1) ↔ q > toU32 (nbytes - 1) := by
    obtain ⟨hp, hpnul, hpfirst⟩ := hends
    obtain ⟨hq, hqnul, hqfirst⟩ := hends'
    change q < _8MB - k.argsStart at hq
    change byteAt (k.among pcbs).pcb (k.argsStart + q) = NUL at hqnul
    change ∀ i < q, byteAt (k.among pcbs).pcb (k.argsStart + i) ≠ NUL at hqfirst
    rw [toU32_pred]
    split
    · simp only [_8MB] at hp hq
      omega
    · next hsize =>
      constructor
      · intro hlarge
        by_contra hsmall
        rw [hsame q (by omega)] at hqnul
        exact hpfirst q (by omega) hqnul
      · intro hlarge
        by_contra hsmall
        rw [← hsame p (by omega)] at hpnul
        exact hqfirst p (by omega) hpnul
  rw [Kernel.getargs_of_ends hends, Kernel.getargs_of_ends hends', hout]
  simp only [hlimit]
  split
  · rfl
  split
  · rfl
  change Option.map _ (if k.argsStart + toU32 nbytes ≤ _8MB then _ else _) = _
  split <;> rfl

theorem getargs_own (hown : k.GetargsOwn buf nbytes) :
    ActsOnCaller img k (.getargs buf nbytes) := by
  rw [getargs_acts_iff]
  intro pcbs
  rcases hown with hfar | ⟨⟨addr, hstart, hmapped, howned, hnul⟩, hbytes⟩ |
    ⟨rfl, i, hi, howned, hnul⟩
  · rw [Kernel.getargs_faults hfar, Kernel.getargs_faults (k := k.among pcbs) hfar]
  · obtain ⟨q, rfl⟩ := Nat.exists_eq_add_of_le hstart
    obtain ⟨p, -, hends⟩ := Kernel.scanEnds_le hmapped hnul
    obtain ⟨p', -, hends'⟩ := Kernel.scanEnds_le (k := k.among pcbs) hmapped
      ((Kernel.byteAt_among pcbs howned).trans hnul)
    exact Kernel.getargs_among pcbs hbytes hends hends'
  · by_cases hmapped : k.argsStart + i < _8MB
    · obtain ⟨p, hle, hends⟩ := Kernel.scanEnds_le hmapped hnul
      obtain ⟨p', hle', hends'⟩ := Kernel.scanEnds_le (k := k.among pcbs) hmapped
        ((Kernel.byteAt_among pcbs howned).trans hnul)
      rw [Kernel.getargs_null hends (by omega), Kernel.getargs_null hends' (by omega)]
    · have hfar : _8MB < k.argsStart + toU32 nbytes + (if false then 0 else 1) := by
        simp only [Bool.false_eq_true, if_false]
        omega
      rw [Kernel.getargs_faults hfar, Kernel.getargs_faults (k := k.among pcbs) hfar]

/-- Memory full of letters. -/
def letters : PcbMemory := memoryOf fun _ => 65

/-- Letters but for one NUL. -/
def nulAt (addr : Nat) : PcbMemory := memoryOf fun a => if a = addr then NUL else 65

theorem Kernel.nul_letters {addr : Nat} (hnul : byteAt (k.among letters).pcb addr = NUL) :
    k.InOwnPcb addr ∧ byteAt k.pcb addr = NUL := by
  by_cases hown : k.InOwnPcb addr
  · rw [Kernel.byteAt_among _ hown] at hnul
    exact ⟨hown, hnul⟩
  · rw [letters, Kernel.byteAt_foreign _ hown] at hnul
    exact absurd hnul (by decide)

theorem Kernel.nul_nulAt {addr at_ : Nat} (hnul : byteAt (k.among (nulAt at_)).pcb addr = NUL) :
    addr = at_ ∨ k.InOwnPcb addr ∧ byteAt k.pcb addr = NUL := by
  by_cases hown : k.InOwnPcb addr
  · rw [Kernel.byteAt_among _ hown] at hnul
    exact .inr ⟨hown, hnul⟩
  · rw [nulAt, Kernel.byteAt_foreign _ hown] at hnul
    by_contra hne
    rw [if_neg fun h => hne (.inl h)] at hnul
    exact absurd hnul (by decide)

theorem Kernel.nulAt_self {at_ : Nat} (hforeign : ¬ k.InOwnPcb at_) :
    byteAt (k.among (nulAt at_)).pcb at_ = NUL := by
  rw [nulAt, Kernel.byteAt_foreign _ hforeign, if_pos rfl]

/-- The last byte below 8 MB is one of a kernel stack. -/
theorem Kernel.last_foreign (k : Kernel) : ¬ k.InOwnPcb (_8MB - 1) := by
  have hbase : k.scheduledPcb % _8KB = 0 := getPCB_mod _
  unfold Kernel.InOwnPcb
  simp only [_8KB, _8MB, Pcb.size] at *
  omega

/-- With a NUL behind the bytes to be returned only, the call comes back. -/
theorem Kernel.getargs_last (hend : k.argsStart + toU32 nbytes < _8MB)
    (hfirst : ∀ i < toU32 nbytes, k.InOwnPcb (k.argsStart + i) →
      byteAt k.pcb (k.argsStart + i) ≠ NUL) :
    (k.among (nulAt (_8MB - 1))).getargs buf nbytes ≠ none := by
  have hreach : k.argsStart + (_8MB - 1 - k.argsStart) = _8MB - 1 := by omega
  obtain ⟨p, -, hends⟩ := Kernel.scanEnds_le (k := k.among (nulAt (_8MB - 1)))
    (q := _8MB - 1 - k.argsStart) (hreach.trans_lt (by decide))
    ((congrArg (byteAt _) hreach).trans (Kernel.nulAt_self k.last_foreign))
  have hlimit := toU32_pred nbytes
  obtain ⟨hlt, hnul, -⟩ := id hends
  change p < _8MB - k.argsStart at hlt
  have hlarge : toU32 nbytes ≤ p := by
    by_contra hsmall
    rcases Kernel.nul_nulAt hnul with hlast | ⟨hown, hnul⟩
    · change k.argsStart + p = _8MB - 1 at hlast
      omega
    · exact hfirst p (by omega) hown hnul
  rw [Kernel.getargs_of_ends hends]
  by_cases hsize : toU32 nbytes = 0
  · rw [if_pos hsize] at hlimit
    have hsmall : ¬ p > toU32 (nbytes - 1) := by
      simp only [_8MB] at hlt
      omega
    have hfits : (k.among (nulAt (_8MB - 1))).argsStart + toU32 nbytes ≤ _8MB := hend.le
    rw [if_neg hsmall, if_neg fun hnull => hnull.2 hsize, if_pos hfits]
    exact Option.some_ne_none _
  · rw [if_neg hsize] at hlimit
    rw [if_pos (by omega)]
    exact Option.some_ne_none _

/-- A call that does not fail returns the bytes. -/
theorem Kernel.getargs_buffer (hends : k.ScanEnds p) (hle : ¬ p > toU32 (nbytes - 1))
    (hfits : k.argsStart + toU32 nbytes ≤ _8MB) :
    k.getargs true nbytes = some (.returned 0 (k.argsOut (toU32 nbytes)), k) := by
  rw [Kernel.getargs_of_ends hends, if_neg hle, if_neg (by simp), if_pos hfits]

/-- A byte to be returned that is not the caller's decides what is returned. -/
theorem Kernel.getargs_byte {i : Nat} (hi : i < toU32 nbytes)
    (hfits : k.argsStart + toU32 nbytes ≤ _8MB) (hforeign : ¬ k.InOwnPcb (k.argsStart + i)) :
    ((k.among (nulAt (k.argsStart + i))).getargs true nbytes).map Prod.fst ≠
      ((k.among letters).getargs true nbytes).map Prod.fst := by
  have hlimit := toU32_pred nbytes
  rw [if_neg (by omega)] at hlimit
  obtain ⟨p, hle, hends⟩ := Kernel.scanEnds_le (k := k.among (nulAt (k.argsStart + i))) (q := i)
    (show k.argsStart + i < _8MB by omega) (Kernel.nulAt_self hforeign)
  rw [Kernel.getargs_buffer hends (by omega) hfits, Option.map_some]
  intro hsame
  obtain ⟨⟨result, after⟩, hletters, hresult⟩ := Option.map_eq_some_iff.mp hsame.symm
  dsimp only at hresult
  subst hresult
  obtain ⟨q, hends'⟩ : ∃ q, (k.among letters).ScanEnds q := by
    by_contra hnone
    rw [Kernel.getargs_of_endless (not_exists.mp hnone)] at hletters
    cases hletters
  by_cases hle' : q > toU32 (nbytes - 1)
  · rw [Kernel.getargs_of_ends hends', if_pos hle'] at hletters
    cases hletters
  rw [Kernel.getargs_buffer hends' hle' hfits, Option.some_inj, Prod.mk.injEq,
    SysReturn.returned.injEq] at hletters
  have hbyte := List.map_inj_left.mp hletters.1.2 i (List.mem_range.mpr hi)
  change byteAt (k.among letters).pcb (k.argsStart + i) =
    byteAt (k.among (nulAt (k.argsStart + i))).pcb (k.argsStart + i) at hbyte
  rw [Kernel.nulAt_self hforeign] at hbyte
  exact hforeign (Kernel.nul_letters hbyte).1

theorem getargs_foreign (hforeign : ¬ k.GetargsOwn buf nbytes) :
    ¬ ActsOnCaller img k (.getargs buf nbytes) := by
  rw [getargs_acts_iff]
  intro hresult
  have hsame : ∀ first second, ((k.among first).getargs buf nbytes).map Prod.fst =
      ((k.among second).getargs buf nbytes).map Prod.fst :=
    fun first second => (hresult first).trans (hresult second).symm
  obtain ⟨hnear, hkept, hnull⟩ : k.argsStart + toU32 nbytes + (if buf then 0 else 1) ≤ _8MB ∧ _ :=
    (not_or.mp hforeign).imp Nat.le_of_not_lt not_or.mp
  by_cases hbytes : ∀ i < toU32 nbytes, k.InOwnPcb (k.argsStart + i)
  · -- no NUL of the caller ends the scan: it may find none, or one behind the bytes
    have hnone : ∀ addr, k.argsStart ≤ addr → addr < _8MB → k.InOwnPcb addr →
        byteAt k.pcb addr ≠ NUL :=
      fun addr hle hlt hown hnul => hkept ⟨⟨addr, hle, hlt, hown, hnul⟩, hbytes⟩
    have hend : k.argsStart + toU32 nbytes < _8MB := by
      have hstart := k.argsStart_ne
      rcases Nat.eq_zero_or_pos (toU32 nbytes) with hsize | hsize
      · omega
      · have hlast := hbytes (toU32 nbytes - 1) (by omega)
        have hne : k.argsStart + (toU32 nbytes - 1) ≠ _8MB - 1 := by
          intro heq
          rw [heq] at hlast
          exact k.last_foreign hlast
        omega
    have hletters : (k.among letters).getargs buf nbytes = none := by
      apply Kernel.getargs_of_endless
      rintro p ⟨hlt, hnul, -⟩
      change p < _8MB - k.argsStart at hlt
      obtain ⟨hown, hnul⟩ := Kernel.nul_letters hnul
      exact hnone (k.argsStart + p) (Nat.le_add_right _ _) (by omega) hown hnul
    have hlast := hsame (nulAt (_8MB - 1)) letters
    rw [hletters, Option.map_none, Option.map_eq_none_iff] at hlast
    exact Kernel.getargs_last hend
      (fun i hi hown => hnone _ (Nat.le_add_right _ _) (by omega) hown) hlast
  · obtain ⟨i, hi, hbyte⟩ : ∃ i < toU32 nbytes, ¬ k.InOwnPcb (k.argsStart + i) := by
      simpa using hbytes
    cases buf with
    | true => exact Kernel.getargs_byte hi hnear hbyte (hsame _ _)
    | false =>
        change k.argsStart + toU32 nbytes + 1 ≤ _8MB at hnear
        obtain ⟨p, hle, hends⟩ := Kernel.scanEnds_le (k := k.among (nulAt (k.argsStart + i)))
          (q := i) (show k.argsStart + i < _8MB by omega) (Kernel.nulAt_self hbyte)
        have hfault := Kernel.getargs_null hends (show p < toU32 nbytes by omega)
        have hlast := hsame (nulAt (_8MB - 1)) (nulAt (k.argsStart + i))
        rw [hfault, Option.map_none, Option.map_eq_none_iff] at hlast
        exact Kernel.getargs_last (by omega)
          (fun j hj hown hnul => hnull ⟨rfl, j, hj, hown, hnul⟩) hlast

end Getargs

/-! ## Which calls act on their caller -/

section Refused

variable {img : Image} {k : Kernel}

theorem read_refused {fd : Int} {buf : Bool} {nbytes : Int}
    (hbad : !buf ∨ fd ≥ MAX_OPEN_FILES ∨ fd < 0 ∨ fd = 1) :
    ActsOnCaller img k (.descriptor (.read fd buf nbytes)) := by
  intro pcbs
  have hrefused : ∀ s : Kernel, s.read img fd buf nbytes = some (failed, s) :=
    fun s => if_pos hbad
  change (k.among pcbs).read img fd buf nbytes = (k.read img fd buf nbytes).map _
  rw [hrefused, hrefused, Option.map_some]

theorem write_refused {fd : Int} {buf : Option (Nat → UInt8)} {nbytes : Int}
    (hbad : buf.isNone ∨ fd ≥ MAX_OPEN_FILES ∨ fd < 0 ∨ fd = 0) :
    ActsOnCaller img k (.descriptor (.write fd buf nbytes)) := by
  intro pcbs
  have hrefused : ∀ s : Kernel, s.write fd buf nbytes = some (failed, s) := fun s => if_pos hbad
  change (k.among pcbs).write fd buf nbytes = (k.write fd buf nbytes).map _
  rw [hrefused, hrefused, Option.map_some]

theorem open_refused {filename : Option (List UInt8)}
    (hmissing : filename.bind (readDentryByName img) = none) :
    ActsOnCaller img k (.descriptor (.open_ filename)) := by
  intro pcbs
  have hrefused : ∀ s : Kernel, s.open_ img filename = some (failed, s) := by
    intro s
    unfold Kernel.open_
    rw [hmissing]
  change (k.among pcbs).open_ img filename = (k.open_ img filename).map _
  rw [hrefused, hrefused, Option.map_some]

theorem close_refused {fd : Int} (hbad : fd < STDI_O ∨ fd ≥ MAX_OPEN_FILES) :
    ActsOnCaller img k (.descriptor (.close fd)) := by
  intro pcbs
  have hrefused : ∀ s : Kernel, s.close fd = some (-1, s) := fun s => if_pos hbad
  change ((k.among pcbs).close fd).map _ = ((k.close fd).map _).map _
  rw [hrefused, hrefused, Option.map_some, Option.map_some, Option.map_some]

end Refused

/-- The call finds its caller's PCB, or comes to none: its arguments are refused before one is
looked up. -/
def Kernel.KeepsToCaller (img : Image) (k : Kernel) : ProcessCall → Prop
  | .descriptor (.read fd buf _) =>
      k.FindsOwn ∨ (!buf ∨ fd ≥ MAX_OPEN_FILES ∨ fd < 0 ∨ fd = 1)
  | .descriptor (.write fd buf _) =>
      k.FindsOwn ∨ (buf.isNone ∨ fd ≥ MAX_OPEN_FILES ∨ fd < 0 ∨ fd = 0)
  | .descriptor (.open_ filename) =>
      k.FindsOwn ∨ filename.bind (readDentryByName img) = none
  | .descriptor (.close fd) => k.FindsOwn ∨ (fd < STDI_O ∨ fd ≥ MAX_OPEN_FILES)
  | .getargs buf nbytes => k.GetargsOwn buf nbytes
  | .closing => k.ClosesOwn ∨ k.HasStray

/-- A call acts on its caller exactly when it finds the caller's PCB or comes to none. -/
theorem acts_on_caller_iff (img : Image) (k : Kernel) (call : ProcessCall) :
    ActsOnCaller img k call ↔ k.KeepsToCaller img call := by
  -- otherwise the PCB that is looked up is mapped and another process's
  have hforeign : ¬ k.FindsOwn → k.displayedPcb ≠ k.scheduledPcb ∧ k.displayedPcb < _8MB :=
    fun hstray => (not_or.mp hstray).imp_right Nat.lt_of_not_le
  cases call with
  | descriptor call =>
      cases call with
      | read fd buf nbytes =>
          refine ⟨fun hacts => ?_,
            fun hkeeps => hkeeps.elim (read_own · fd buf nbytes) read_refused⟩
          by_contra hnot
          obtain ⟨hstray, hgood⟩ := not_or.mp hnot
          exact read_foreign (hforeign hstray).1 (hforeign hstray).2 hgood hacts
      | write fd buf nbytes =>
          refine ⟨fun hacts => ?_,
            fun hkeeps => hkeeps.elim (write_own · fd buf nbytes) write_refused⟩
          by_contra hnot
          obtain ⟨hstray, hgood⟩ := not_or.mp hnot
          exact write_foreign (hforeign hstray).1 (hforeign hstray).2 hgood hacts
      | open_ filename =>
          refine ⟨fun hacts => ?_, fun hkeeps => hkeeps.elim (open_own · filename) open_refused⟩
          by_contra hnot
          obtain ⟨hstray, hgood⟩ := not_or.mp hnot
          obtain ⟨entry, hfound⟩ := Option.ne_none_iff_exists'.mp hgood
          exact open_foreign (hforeign hstray).1 (hforeign hstray).2 hfound hacts
      | close fd =>
          refine ⟨fun hacts => ?_, fun hkeeps => hkeeps.elim (close_own · fd) close_refused⟩
          by_contra hnot
          obtain ⟨hstray, hgood⟩ := not_or.mp hnot
          exact close_foreign (hforeign hstray).1 (hforeign hstray).2 hgood hacts
  | getargs buf nbytes =>
      refine ⟨fun hacts => ?_, getargs_own⟩
      by_contra hnot
      exact getargs_foreign hnot hacts
  | closing =>
      refine ⟨fun hacts => ?_, fun hkeeps => hkeeps.elim closing_own closing_stray⟩
      by_contra hnot
      obtain ⟨hcloses, hstray⟩ := not_or.mp hnot
      obtain ⟨hfinds, hfile⟩ := not_or.mp hcloses
      exact closing_foreign (hforeign hfinds).1 (hforeign hfinds).2 (not_not.mp hfile) hstray hacts

/-- With a process on every terminal and a process table in order, a call finds its caller
when the scheduled terminal is the displayed one. -/
theorem Settled.findsOwn_iff {img : Image} {k : Kernel} {s : DisjointStacks Terminal Nat}
    (hset : Settled img k s) : k.FindsOwn ↔ k.currTerminal = k.currScheduled := by
  obtain ⟨hpos, -, restShown, hshown⟩ := hset.head_pos (hset.live k.currTerminal)
  obtain ⟨-, hle, rest, hscheduled⟩ := hset.head_pos (hset.live k.currScheduled)
  constructor
  · rintro (hsame | hunmapped)
    · have hheads : k.head k.currTerminal = k.head k.currScheduled := (getPCB_inj hle).mp hsame
      by_contra hne
      -- one process would be on two terminals
      apply s.disjoint _ _ hne (a := k.head k.currScheduled)
      · rw [hshown, hheads]
        exact List.mem_cons_self
      · rw [hscheduled]
        exact List.mem_cons_self
    · exact absurd (getPCB_lt hpos) (Nat.not_lt.mpr hunmapped)
  · intro hsame
    exact .inl (congrArg (fun t => getPCB (k.head t)) hsame)

/-- After start-up the shell on terminal 3 runs while terminal 1 is displayed. -/
theorem shell_acts_on_another :
    ∃ k, AfterStartUp shellImage k ∧
      ¬ ActsOnCaller shellImage k (.descriptor (.close STDI_O)) := by
  obtain ⟨k, s, hstart, hset, hstacks, hscheduled, hshown, -⟩ := shellImage_startUp
  refine ⟨k, hstart, ?_⟩
  have hfinds : ¬ k.FindsOwn := by
    rw [hset.findsOwn_iff, hscheduled, hshown]
    decide
  obtain ⟨hne, hmapped⟩ := (not_or.mp hfinds).imp_right Nat.lt_of_not_le
  exact close_foreign hne hmapped (by decide)

end Ece391
