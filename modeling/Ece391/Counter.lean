import Ece391.Numerals
import Ece391.Prompts

/-! # `counter`

`counter` reads a choice and counts up to 100, 10000 or 100000, a number a line. The numbers
are written by `itoa` into the buffer that the choice was read into.
-/

namespace Ece391

open Function Transition Sessions Scripts Script

def enterTestNumber : List UInt8 := ascii
  ['E', 'n', 't', 'e', 'r', ' ', 't', 'h', 'e', ' ', 'T', 'e', 's', 't', ' ', 'N', 'u', 'm', 'b',
    'e', 'r', ':', ' ', '(', '0', ')', ':', ' ', '1', '0', '0', ',', ' ', '(', '1', ')', ':', ' ',
    '1', '0', '0', '0', '0', ',', ' ', '(', '2', ')', ':', ' ', '1', '0', '0', '0', '0', '0', '\n']

def cannotReadNumber : List UInt8 := ascii
  ['C', 'a', 'n', Char.ofNat 39, 't', ' ', 'r', 'e', 'a', 'd', ' ', 't', 'h', 'e', ' ', 'n', 'u',
    'm', 'b', 'e', 'r', ' ', 'f', 'r', 'o', 'm', ' ', 'k', 'e', 'y', 'b', 'o', 'a', 'r', 'd', '.',
    '\n']

def wrongChoice : List UInt8 := ascii
  ['W', 'r', 'o', 'n', 'g', ' ', 'C', 'h', 'o', 'i', 'c', 'e', '!', '\n']

/-- The `switch`, with 0 for `max` where no case applies. -/
def counterMax (c : UInt8) : Nat :=
  if c = 48 then 100 else if c = 49 then 10000 else if c = 50 then 100000 else 0

/-- The body of the loop. The buffer has room for every number, so `itoa` does not leave it. -/
def countNumber (b : Buffer UInt8) (i : Nat) : UserScript (Buffer UInt8) := do
  let b := (itoa (i + 1) b 0 10).getD b
  tell (fdputs 1 (bufferText b.cell lineRoom))
  tell (fdputs 1 [NEWLINE])
  return b

/-- `main` of `ece391counter.c`. -/
def counterMain (buf : UserBuffer) : UserScript Int :=
  prompted enterTestNumber cannotReadNumber 1023 3 fun reply => do
    let buf := lineBuffer buf reply
    let len := (bufferText buf lineRoom).length
    if len > 2 ∨ (len = 2 ∧ (buf 0 < 48 ∨ buf 0 > 50)) then do
      tell (fdputs 1 wrongChoice)
      return 0
    else do
      let _ ← (List.range (counterMax (buf 0))).foldlM countNumber ⟨lineRoom, buf⟩
      return 0

theorem countNumber_tame (b : Buffer UInt8) (i : Nat) : (countNumber b i).Asks Tame :=
  (Asks.tell (.fd _)).bind fun _ => (Asks.tell (.fd _)).bind fun _ => .done _

theorem counterMain_tame (buf : UserBuffer) : (counterMain buf).Asks Tame := by
  have hloop : ∀ rounds : List Nat, ∀ b, (rounds.foldlM countNumber b).Asks Tame :=
    fun rounds b => Asks.foldlM countNumber_tame rounds b
  refine prompted_tame fun reply => ?_
  dsimp only
  generalize bufferText (lineBuffer buf reply) lineRoom = word
  apply Asks.ite
  · exact (Asks.tell (.fd _)).bind fun _ => .done _
  · exact (hloop _ _).bind fun _ => .done _

/-! ## What is counted -/

/-- The numbers from 1 to `max` in decimal, each on its line. -/
def numberLines (max : Nat) : List UInt8 :=
  (List.range max).flatMap fun i => numeral 10 (i + 1) ++ [NEWLINE]

/-- What `counter` shows for a line. A choice is one character, or two with a right first one; a
single wrong character is not refused, it counts to nothing. -/
def counterAnswer (line : List UInt8) : List UInt8 :=
  let word := line.takeWhile fun c => c ≠ NUL
  let choice := word.headD NUL
  if word.length > 2 ∨ (word.length = 2 ∧ (choice < 48 ∨ choice > 50)) then wrongChoice
  else numberLines (counterMax choice)

section Counter

variable {img : Image} {used : Finset Nat}

theorem lineBuffer_zero (buf : UserBuffer) (line : List UInt8) :
    lineBuffer buf ⟨line.length, line⟩ 0 = (line.takeWhile fun c => c ≠ NUL).headD NUL := by
  cases line with
  | nil => rfl
  | cons c rest =>
      have hfirst : lineBuffer buf ⟨(c :: rest).length, c :: rest⟩ 0 = c := by
        have hne : 0 ≠ (c :: rest).length := (Nat.succ_ne_zero _).symm
        rw [lineBuffer, Int.toNat_natCast, update_of_ne hne]
        rfl
      rw [hfirst]
      by_cases hnul : c = NUL
      · rw [List.takeWhile_cons_of_neg (by simpa using hnul)]
        exact hnul
      · rw [List.takeWhile_cons_of_pos (by simpa using hnul)]
        rfl

theorem bufferText_string {b : Buffer UInt8} {text : List UInt8} (hstring : HoldsString b 0 text) :
    bufferText b.cell b.size = text := by
  have hfits := hstring.fits
  rw [Nat.zero_add] at hfits
  have hend := hstring.cell_end
  rw [Nat.zero_add] at hend
  have hfront : ∀ i, (hi : i < text.length) → b.cell i = text[i] := by
    intro i hi
    have hcell := hstring.cell hi
    rwa [Nat.zero_add] at hcell
  rw [bufferText_front hfront hend hfits, List.takeWhile_eq_self_iff]
  intro c hc
  have hne : c ≠ NUL := fun heq => hstring.nul (heq ▸ hc)
  simpa using hne

theorem counterMax_le (c : UInt8) : counterMax c ≤ 100000 := by
  unfold counterMax
  repeat' split
  all_goals decide

/-- A round of the loop prints the next number. -/
theorem says_countNumber {b : Buffer UInt8} (hsize : b.size = lineRoom) {i : Nat}
    (hi : i < 100000) :
    ∃ after : Buffer UInt8, after.size = lineRoom ∧
      Says img (countNumber b i) used after (numeral 10 (i + 1) ++ [NEWLINE]) used := by
  -- 100000 has six digits
  have hlength : (numeral 10 (i + 1)).length ≤ 6 :=
    numeral_length (by decide) (by decide) (by omega)
  have hfits : 0 + (numeral 10 (i + 1)).length < b.size := by
    rw [hsize, lineRoom]
    omega
  obtain ⟨after, hitoa, hstring, hsame⟩ := itoa_eq (by decide) (by decide) (by omega) hfits
  have hafter : after.size = lineRoom := hsame.size.trans hsize
  have htext := bufferText_string hstring
  rw [hafter] at htext
  have hcount : countNumber b i = tell (fdputs 1 (numeral 10 (i + 1))) >>= fun _ =>
      tell (fdputs 1 [NEWLINE]) >>= fun _ => pure after := by
    rw [countNumber, hitoa, Option.getD_some, htext]
  refine ⟨after, hafter, ?_⟩
  rw [hcount]
  exact (Says.fdputs hstring.nul).bind (.prints (by decide) after)

theorem counterMain_ensures (img : Image) (buf : UserBuffer) :
    (counterMain buf).Ensures (scriptRules img 1)
      (fun value view => Told enterTestNumber counterAnswer 1023 value view.answered)
      ⟨terminalFds, []⟩ := by
  refine prompted_ensures (by decide) fun line hroom => ?_
  dsimp only
  rw [lineBuffer_text buf hroom, lineBuffer_zero, counterAnswer]
  split
  · exact .prints (by decide) 0
  · -- `itoa` writes its NUL byte itself: of the buffer only the size is needed
    have hround : ∀ b : Buffer UInt8, ∀ i ∈ List.range (counterMax
        ((line.takeWhile fun c => c ≠ NUL).headD NUL)), b.size = lineRoom →
        ∃ after : Buffer UInt8, after.size = lineRoom ∧
          Says img (countNumber b i) terminalFds after (numeral 10 (i + 1) ++ [NEWLINE])
            terminalFds := by
      intro b i hmem hsize
      exact says_countNumber hsize ((List.mem_range.mp hmem).trans_le (counterMax_le _))
    obtain ⟨last, -, hloop⟩ := Says.loop (fun b : Buffer UInt8 => b.size = lineRoom) hround
      (rfl : (⟨lineRoom, lineBuffer buf ⟨line.length, line⟩⟩ : Buffer UInt8).size = lineRoom)
    rw [← List.append_nil (numberLines _)]
    exact hloop.bind (.done 0)

variable {command : List UInt8} {k entered : Kernel} {buf : UserBuffer}
  {last : UserSession { s : UserScript Int // s.Asks Tame }}
  {history : List (Fired (UserSession { s : UserScript Int // s.Asks Tame })
    (ClientMove MachineEvent))}

/-- In every attentive session, however the other programs, the keyboard and the timers
interleave with `counter`, it counts every number once, in order, up to what was chosen. -/
theorem counter_counts (hwf : img.WellFormed) (htypes : img.TypesKnown)
    (hcommand : Commanded img command k entered)
    (hrun : Run (Session.step scriptProgram (kernelService img k.currScheduled k.newProcess))
      ⟨entered, ⟨counterMain buf, counterMain_tame buf⟩, []⟩ history last)
    (hallowed : ∀ fired ∈ history,
      Attentive img k.currScheduled k.newProcess fired.pre.state fired.event) :
    Telling img k.currScheduled k.newProcess enterTestNumber counterAnswer 1023 last :=
  hcommand.telling hwf htypes (counterMain_ensures img buf) hrun hallowed

/-- The smallest choice, `0`, is typed. -/
theorem counter_counts_hundred :
    ∃ k entered history last, Commanded threeFiles shellShell k entered ∧
      Answered threeFiles k.currScheduled k.newProcess (ascii ['0'])
        ⟨entered, ⟨counterMain fun _ => NUL, counterMain_tame _⟩, []⟩ history last ∧
      printed last.answered = enterTestNumber ++ [NEWLINE] ++ numberLines 100 := by
  obtain ⟨k, entered, hcommand, hempty, -⟩ := threeFiles_lineEmpty
  have hplain : ∀ c ∈ [KEY_ZERO], c ≠ ALT_PRESSED ∧ c ≠ CTRL_PRESSED :=
    List.all_iff_forall_prop.mp rfl
  have hline : (takenLine noModifiers ([KEY_ZERO] ++ [ENTER_PRESS])).line.take 1023 =
      ascii ['0'] := by decide +kernel
  obtain ⟨history, last, hanswered⟩ := hcommand.answers threeFiles_wellFormed threeFiles_typesKnown
    hempty (counterMain_tame fun _ => NUL) (counterMain_ensures _ _) (by decide) (by decide) hplain
  rw [hline] at hanswered
  have hprinted := hanswered.printed (counter_counts threeFiles_wellFormed threeFiles_typesKnown
    hcommand hanswered.run hanswered.attentive)
  exact ⟨k, entered, history, last, hcommand, hanswered, hprinted⟩

end Counter

end Ece391
