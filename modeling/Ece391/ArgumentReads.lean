import Ece391.Arguments

/-! # How much `getargs` copies

`getargs` compares sizes as unsigned words and copies as many bytes as the caller asks for. It
is exact for sizes from one byte to the length of `args`; beyond them it refuses nothing, and
the copy goes on behind the array.
-/

namespace Ece391

open Function Transition

/-- What a call has to do when its PCB holds the text. -/
structure GetargsExact (k : Kernel) (text : List UInt8) (nbytes : Int) : Prop where
  delivered : text.length < nbytes → ∃ out, k.getargs true nbytes = some (.returned 0 out, k) ∧
    text ++ [NUL] <+: out ∧ out.length ≤ nbytes
  rejected : nbytes ≤ text.length → k.getargs true nbytes = some (failed, k)
  /-- States that differ in nothing but other fields of PCBs and kernel stacks get the same. -/
  argsOnly : ∀ pcbs : PcbMemory,
    (∀ j < MAX_ARGS, (pcbs k.displayedPcb).args j = (k.pcb k.displayedPcb).args j) →
      (({ k with pcb := pcbs } : Kernel).getargs true nbytes).map Prod.fst =
        (k.getargs true nbytes).map Prod.fst

/-- The PCBs with another alignment byte behind the array that `getargs` looks at. -/
def Kernel.otherPad (k : Kernel) : PcbMemory :=
  update k.pcb k.displayedPcb
    { k.pcb k.displayedPcb with pad := (k.pcb k.displayedPcb).pad + 1 }

theorem Kernel.otherPad_args (k : Kernel) (j : Nat) :
    (k.otherPad k.displayedPcb).args j = (k.pcb k.displayedPcb).args j := by
  rw [Kernel.otherPad, update_self]

theorem Kernel.otherPad_pad (k : Kernel) :
    (k.otherPad k.displayedPcb).pad ≠ (k.pcb k.displayedPcb).pad := by
  rw [Kernel.otherPad, update_self]
  generalize (k.pcb k.displayedPcb).pad = pad
  intro heq
  simp at heq

/-- As many bytes are copied as are asked for, each from its place behind the PCB's address. -/
theorem loadKernelBytes_eq_some {pcbs : PcbMemory} {addr count : Nat} {out : List UInt8} :
    Kernel.loadKernelBytes pcbs addr count = some out ↔
      addr + count ≤ _8MB ∧ out = (List.range count).map fun i =>
        (pcbs ((addr + i) / _8KB * _8KB)).loadByte ((addr + i) % _8KB) := by
  unfold Kernel.loadKernelBytes
  rw [Option.ite_none_right_eq_some, Option.some_inj, eq_comm (a := out)]

namespace HoldsArgs

variable {k : Kernel} {text : List UInt8} {nbytes : Int}

/-- The same array in another state. -/
theorem of_args (hholds : HoldsArgs k text) {pcbs : PcbMemory}
    (hargs : ∀ j < MAX_ARGS, (pcbs k.displayedPcb).args j = (k.pcb k.displayedPcb).args j) :
    HoldsArgs { k with pcb := pcbs } text where
  displayed := hholds.displayed
  short := hholds.short
  nonNul := hholds.nonNul
  held j hj := (hargs j (lt_of_le_of_lt hj hholds.short)).trans (hholds.held j hj)

/-- Inside the array the copy is of the array. -/
theorem loaded_args (hholds : HoldsArgs k text) {n : Nat} (hle : n ≤ MAX_ARGS) :
    Kernel.loadKernelBytes k.pcb (k.displayedPcb + Pcb.argsOffset) n =
      some ((List.range n).map fun j => (k.pcb k.displayedPcb).args j) := by
  obtain ⟨hbase, hmapped⟩ := hholds.mapped
  rw [loadKernelBytes_eq_some]
  constructor
  · simp only [Pcb.argsOffset, MAX_ARGS, _8KB] at hle hmapped ⊢
    omega
  · apply List.map_congr_left
    intro j hj
    have hlt := List.mem_range.mp hj
    obtain ⟨hblock, hoffset⟩ := argsAddr hbase (show j < MAX_ARGS by omega)
    rw [hblock, hoffset, Pcb.loadByte_args _ (by omega)]

/-- For a size that the array has the call is exact. -/
theorem getargs_exact (hholds : HoldsArgs k text) (hpos : 1 ≤ nbytes) (hle : nbytes ≤ MAX_ARGS) :
    GetargsExact k text nbytes := by
  obtain ⟨n, rfl⟩ := Int.eq_ofNat_of_zero_le (by omega : 0 ≤ nbytes)
  have hn : n < 2 ^ 31 := by
    simp only [MAX_ARGS] at hle
    omega
  have hrefused : (n : Int) ≤ text.length → text.length > toU32 ((n : Int) - 1) := by
    intro hlength
    simp only [toU32]
    omega
  refine ⟨fun hlength => ?_, fun hlength => ?_, fun pcbs hargs => ?_⟩
  · have hload := hholds.loaded_args (by omega : n ≤ MAX_ARGS)
    have hlength' : text.length < n := by omega
    refine ⟨_, (hholds.getargs hlength' hn).trans (by rw [hload]; rfl),
      hholds.loaded hlength' hload, ?_⟩
    rw [List.length_map, List.length_range]
  · rw [hholds.getargs_eq, if_pos (hrefused hlength)]
  · have hother := hholds.of_args hargs
    by_cases hlength : (n : Int) ≤ text.length
    · rw [hholds.getargs_eq, hother.getargs_eq, if_pos (hrefused hlength),
        if_pos (hrefused hlength)]
      rfl
    · have hlength' : text.length < n := by omega
      have hsame : ((List.range n).map fun j => (pcbs k.displayedPcb).args j) =
          (List.range n).map fun j => (k.pcb k.displayedPcb).args j :=
        List.map_congr_left fun j hj => hargs j (by have := List.mem_range.mp hj; omega)
      have hload : Kernel.loadKernelBytes pcbs (k.displayedPcb + Pcb.argsOffset) n = some _ :=
        hother.loaded_args (by omega)
      have hcall : ({ k with pcb := pcbs } : Kernel).getargs true n =
          (Kernel.loadKernelBytes pcbs (k.displayedPcb + Pcb.argsOffset) n).map _ :=
        hother.getargs hlength' hn
      rw [hcall, hholds.getargs hlength' hn, hload, hholds.loaded_args (by omega), ← hsame]
      rfl

/-- Sizes below one pass the unsigned comparison. -/
theorem not_rejected (hholds : HoldsArgs k text) (hlow : -2 ^ 31 ≤ nbytes) (hle : nbytes ≤ 0) :
    k.getargs true nbytes ≠ some (failed, k) := by
  have hshort := hholds.short
  have hbound : ¬ text.length > toU32 (nbytes - 1) := by
    simp only [toU32, MAX_ARGS] at hshort ⊢
    omega
  rw [hholds.getargs_eq, if_neg hbound]
  intro hfailed
  obtain ⟨out, -, heq⟩ := Option.map_eq_some_iff.mp hfailed
  have hresult := (Prod.mk.inj heq).1
  rw [failed, SysReturn.returned.injEq] at hresult
  exact absurd hresult.1 (by decide)

/-- The alignment byte is the first that does not belong to the array. -/
theorem loadByte_pad (pcbs : PcbMemory) {base : Nat} (hbase : base % _8KB = 0) :
    (pcbs ((base + Pcb.argsOffset + MAX_ARGS) / _8KB * _8KB)).loadByte
      ((base + Pcb.argsOffset + MAX_ARGS) % _8KB) = (pcbs base).pad := by
  have haddr : (base + Pcb.argsOffset + MAX_ARGS) / _8KB * _8KB = base ∧
      (base + Pcb.argsOffset + MAX_ARGS) % _8KB = 291 := by
    simp only [_8KB, Pcb.argsOffset, MAX_ARGS] at *
    omega
  rw [haddr.1, haddr.2]
  rfl

/-- A larger size discloses what lies behind the array, if the call returns at all. -/
theorem not_exact (hholds : HoldsArgs k text) (hlt : (MAX_ARGS : Int) < nbytes)
    (hhigh : nbytes < 2 ^ 31) : ¬ GetargsExact k text nbytes := by
  intro hexact
  obtain ⟨n, rfl⟩ := Int.eq_ofNat_of_zero_le (by omega : 0 ≤ nbytes)
  have hshort := hholds.short
  have hlength : text.length < n := by omega
  have hn : n < 2 ^ 31 := by omega
  have hother := hholds.of_args fun j _ => k.otherPad_args j
  obtain ⟨out, hout, -⟩ := hexact.delivered (by omega)
  have hsame := hexact.argsOnly k.otherPad fun j _ => k.otherPad_args j
  rw [hout, Option.map_some, Option.map_eq_some_iff] at hsame
  obtain ⟨⟨result, after⟩, hcall, hresult⟩ := hsame
  obtain rfl : result = .returned 0 out := hresult
  rw [hholds.getargs hlength hn, Option.map_eq_some_iff] at hout
  rw [hother.getargs hlength hn, Option.map_eq_some_iff] at hcall
  obtain ⟨loaded, hload, heq⟩ := hout
  obtain ⟨loaded', hload', heq'⟩ := hcall
  obtain rfl : loaded = out := by simpa using (Prod.mk.inj heq).1
  obtain rfl : loaded' = loaded := by simpa using (Prod.mk.inj heq').1
  have hbytes := (loadKernelBytes_eq_some.mp hload).2.symm.trans
    (loadKernelBytes_eq_some.mp hload').2
  have hpad := List.map_inj_left.mp hbytes MAX_ARGS (List.mem_range.mpr (by omega))
  have hbase := hholds.mapped.1
  rw [loadByte_pad k.pcb hbase] at hpad
  exact k.otherPad_pad (hpad.trans (loadByte_pad k.otherPad hbase)).symm

end HoldsArgs

/-- Exactness is for the sizes from one byte to the length of `args`, whatever the text. -/
theorem getargs_exact_iff {k : Kernel} {text : List UInt8} {nbytes : Int}
    (hholds : HoldsArgs k text) (hlow : -2 ^ 31 ≤ nbytes) (hhigh : nbytes < 2 ^ 31) :
    GetargsExact k text nbytes ↔ 1 ≤ nbytes ∧ nbytes ≤ MAX_ARGS := by
  constructor
  · intro hexact
    constructor
    · by_contra hsmall
      exact hholds.not_rejected hlow (by omega) (hexact.rejected (by omega))
    · by_contra hlarge
      exact hholds.not_exact (by omega) hhigh hexact
  · rintro ⟨hpos, hle⟩
    exact hholds.getargs_exact hpos hle

/-- The first shell holds no text but its NUL. -/
theorem shellImage_holdsArgs :
    ∃ m k, Reachable (step shellImage) (boot m) k ∧ k.currTerminal = k.currScheduled ∧
      HoldsArgs k [] := by
  obtain ⟨start, k, s, hreach, htotal, htick, hset, hshown, hhead⟩ := shellImage_first
  obtain ⟨-, hheld⟩ := argsHeld_run (fun _ _ _ => rfl) hreach htotal (Run.single htick)
    (by simp [ShortArgs, Disciplined])
  have hdisplayed : k.displayedPcb = getPCB 1 := by
    rw [Kernel.displayedPcb, hshown, hhead]
  obtain ⟨history, hrun, -⟩ := hreach
  exact ⟨zeroMemory, k, ⟨_, hrun.extend htick⟩, hshown,
    hheld.holds hdisplayed le_rfl (by decide)⟩

/-- A shell that was started with one letter: it gets it with the largest size there is room
for, and is refused with one byte. -/
theorem getargs_exact_letter :
    ∃ start history last, ReachableVia (step shellImage) StartUpStep (boot zeroMemory) start ∧
      Run (step shellImage) start history last ∧
      history.map Fired.event = [.tick 0 ⟨0, 0⟩, .execute (some longCommand) ⟨1, 2⟩,
        .halt 0 ⟨3, 4⟩, .execute (some shortCommand) ⟨5, 6⟩] ∧
      GetargsExact last [66] MAX_ARGS ∧ GetargsExact last [66] 1 := by
  obtain ⟨start, history, last, hreach, htotal, hrun, hevents, hshort, -, hshown, hhead, hgiven⟩ :=
    shellImage_reused
  obtain ⟨-, hheld⟩ := argsHeld_run (fun _ _ _ => rfl) hreach htotal hrun hshort
  have hdisplayed : last.displayedPcb = getPCB 4 := by
    rw [Kernel.displayedPcb, hshown, hhead]
  have hholds := hheld.holds hdisplayed (by decide) (by decide)
  rw [hgiven] at hholds
  exact ⟨start, history, last, hreach, hrun, hevents,
    (getargs_exact_iff hholds (by decide) (by decide)).mpr (by decide),
    (getargs_exact_iff hholds (by decide) (by decide)).mpr (by decide)⟩

/-- A buffer of 1024 bytes is filled with what lies behind the array. -/
theorem getargs_discloses :
    ∃ m k, Reachable (step shellImage) (boot m) k ∧ k.currTerminal = k.currScheduled ∧
      HoldsArgs k [] ∧ ¬ GetargsExact k [] 1024 := by
  obtain ⟨m, k, hreach, hshown, hholds⟩ := shellImage_holdsArgs
  exact ⟨m, k, hreach, hshown, hholds, hholds.not_exact (by decide) (by decide)⟩

end Ece391
