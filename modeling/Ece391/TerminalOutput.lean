import Ece391.StartUp
import Ece391.FileCalls

/-! # Output to the terminal

`terminal_write` copies the bytes of the buffer behind which it puts a NUL, prints the copy
without its NUL bytes, and returns the length of the copy.
-/

namespace Ece391

open Transition

/-- One byte printed for the running process, on the screen or on the page `video_mem` points
to. -/
def Display.printByte (currScheduled : Terminal) (d : Display) (c : UInt8) : Display :=
  if currScheduled = d.currTerminal then d.putc2 c else d.putc currScheduled c

/-- `putfile` prints the bytes that are not NUL. -/
theorem Display.putfile_eq (d : Display) (currScheduled : Terminal) (s : List UInt8) :
    d.putfile currScheduled s =
      (s.filter fun c => c ≠ NUL).foldl (Display.printByte currScheduled) d := by
  unfold putfile
  induction s generalizing d with
  | nil => rfl
  | cons c rest ih =>
      rw [List.foldl_cons, ih, List.filter_cons]
      by_cases hnul : c = NUL
      · simp [hnul]
      · have hkept : decide (c ≠ NUL) = true := decide_eq_true hnul
        rw [if_neg hnul, if_pos hkept, List.foldl_cons, printByte]

/-- The first `count` bytes of a buffer. -/
def bufferBytes (buf : Nat → UInt8) (count : Nat) : List UInt8 := (List.range count).map buf

/-- A call prints the bytes of its buffer that are not NUL, in their order, and looks at
nothing behind them. -/
structure PrintsAll (k : Kernel) (buf : Nat → UInt8) (nbytes : Int)
    (call : (Nat → UInt8) → SysReturn × Kernel) : Prop where
  printed : (call buf).2.display =
    ((bufferBytes buf nbytes.toNat).filter fun c => c ≠ NUL).foldl
      (Display.printByte k.currScheduled) k.display
  inside : ∀ other, (∀ i < nbytes.toNat, other i = buf i) → call other = call buf

/-- It also returns the number of bytes in the buffer. -/
structure OutputComplete (k : Kernel) (buf : Nat → UInt8) (nbytes : Int)
    (call : (Nat → UInt8) → SysReturn × Kernel) : Prop extends PrintsAll k buf nbytes call where
  returned : (call buf).1 = .returned nbytes []

theorem Kernel.terminalWrite_bytes (k : Kernel) (buf : Nat → UInt8) {nbytes : Int}
    (hpos : 0 < nbytes) :
    k.terminalWrite (some buf) nbytes =
      (.returned (nbytes + 1) [],
        { k with
          display := k.display.putfile k.currScheduled (bufferBytes buf nbytes.toNat ++ [NUL])
          kb := k.kb.clearSaved k.currScheduled }) := by
  unfold Kernel.terminalWrite
  dsimp only
  rw [if_neg (by omega), if_neg (by omega)]
  rfl

/-- What is printed is right for every buffer. -/
theorem Kernel.terminalWrite_prints (k : Kernel) (buf : Nat → UInt8) {nbytes : Int}
    (hnonneg : 0 ≤ nbytes) :
    PrintsAll k buf nbytes fun buf => k.terminalWrite (some buf) nbytes := by
  rcases hnonneg.eq_or_lt with rfl | hpos
  · exact ⟨rfl, fun _ _ => rfl⟩
  · constructor
    · rw [k.terminalWrite_bytes buf hpos]
      dsimp only
      rw [Display.putfile_eq, List.filter_append]
      simp
    · intro other hsame
      have hbytes : bufferBytes other nbytes.toNat = bufferBytes buf nbytes.toNat :=
        List.map_congr_left fun i hi => hsame i (List.mem_range.mp hi)
      rw [k.terminalWrite_bytes other hpos, k.terminalWrite_bytes buf hpos, hbytes]

/-- A descriptor of the displayed terminal's head that `write` takes for the screen. -/
structure StdoutAt (k : Kernel) (fd : Int) : Prop where
  low : 0 < fd
  high : fd < MAX_OPEN_FILES
  mapped : k.displayedPcb < _8MB
  flags : ((k.pcb k.displayedPcb).fileArray fd.toNat).flags ≠ 0
  notFile : ((k.pcb k.displayedPcb).fileArray fd.toNat).flags &&& FD_FLAG_FILE = 0
  table : fopsAt ((k.pcb k.displayedPcb).fileArray fd.toNat).fopsTable = some .stdout

theorem StdoutAt.write_eq {k : Kernel} {fd : Int} (hstdout : StdoutAt k fd) (buf : Nat → UInt8)
    (nbytes : Int) : k.write fd (some buf) nbytes = some (k.terminalWrite (some buf) nbytes) := by
  have hlow := hstdout.low
  have hhigh := hstdout.high
  unfold Kernel.write
  rw [if_neg (by simp; omega), Kernel.derefPcb, if_pos hstdout.mapped, Option.bind_some,
    if_neg hstdout.flags, if_neg (not_not.mpr hstdout.notFile), hstdout.table, Option.map_some]
  rfl

/-- Output is always complete, and counted right when there is nothing to print: otherwise the
NUL behind the copy is counted too. The same goes for `write` on a descriptor of the screen. -/
theorem output_complete_iff (k : Kernel) (buf : Nat → UInt8) {nbytes : Int} (hnonneg : 0 ≤ nbytes) :
    (PrintsAll k buf nbytes fun buf => k.terminalWrite (some buf) nbytes) ∧
      ((OutputComplete k buf nbytes fun buf => k.terminalWrite (some buf) nbytes) ↔ nbytes = 0) ∧
      ∀ fd, StdoutAt k fd →
        ((∃ call, (∀ buf, k.write fd (some buf) nbytes = some (call buf)) ∧
          OutputComplete k buf nbytes call) ↔ nbytes = 0) := by
  have hprints := k.terminalWrite_prints buf hnonneg
  have hcounted : (OutputComplete k buf nbytes fun buf => k.terminalWrite (some buf) nbytes) ↔
      nbytes = 0 := by
    constructor
    · intro hcomplete
      have hreturned := hcomplete.returned
      rcases hnonneg.eq_or_lt with rfl | hpos
      · rfl
      · rw [k.terminalWrite_bytes buf hpos, SysReturn.returned.injEq] at hreturned
        omega
    · rintro rfl
      exact ⟨hprints, rfl⟩
  refine ⟨hprints, hcounted, fun fd hstdout => ?_⟩
  rw [← hcounted]
  constructor
  · rintro ⟨call, hcall, hcomplete⟩
    obtain rfl : call = fun buf => k.terminalWrite (some buf) nbytes := by
      funext buf
      exact Option.some.inj ((hcall buf).symm.trans (hstdout.write_eq buf nbytes))
    exact hcomplete
  · intro hcomplete
    exact ⟨_, fun buf => hstdout.write_eq buf nbytes, hcomplete⟩

/-- A call with nothing to print. -/
theorem output_complete_nothing :
    OutputComplete (boot zeroMemory) (fun _ => 104) 0
      fun buf => (boot zeroMemory).terminalWrite (some buf) 0 :=
  (output_complete_iff (boot zeroMemory) (fun _ => 104) le_rfl).2.1.mpr rfl

/-- A letter that the first shell prints is counted as two bytes. -/
theorem output_miscounted :
    ∃ m k, Reachable (step shellImage) (boot m) k ∧ k.currTerminal = k.currScheduled ∧
      ¬ OutputComplete k (fun _ => 104) 1 fun buf => k.terminalWrite (some buf) 1 := by
  obtain ⟨start, k, s, ⟨⟨m, before, hboot, -⟩, -⟩, htick, -, -, hscheduled, hshown, -⟩ :=
    shellImage_displayed
  refine ⟨m, k, ⟨_, hboot.extend htick⟩, hshown.trans hscheduled.symm, fun hcomplete => ?_⟩
  have hreturned := hcomplete.returned
  rw [k.terminalWrite_bytes _ Int.one_pos, SysReturn.returned.injEq] at hreturned
  omega

end Ece391
