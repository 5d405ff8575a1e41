import Ece391.SysCalls
import Ece391.Lib.Buffer
import Mathlib.Data.Nat.Digits.Lemmas
import Mathlib.Data.Bool.AllAny

/-! # Numbers as text

`itoa` stores the digits of a number from the lowest place up, ends them with a NUL and
reverses the string in place. Every access goes through a bounded buffer, so that a
result is also the fact that no access was out of bounds.
-/

namespace Ece391

open Function

/-- The table of `itoa`, with the NUL behind it. -/
def lookupDigits : List UInt8 :=
  ascii ['0', '1', '2', '3', '4', '5', '6', '7', '8', '9', 'A', 'B', 'C', 'D', 'E', 'F', 'G', 'H',
    'I', 'J', 'K', 'L', 'M', 'N', 'O', 'P', 'Q', 'R', 'S', 'T', 'U', 'V', 'W', 'X', 'Y', 'Z'] ++
  [NUL]

/-- The loop of `strlen`; a buffer ends before its size in turns. -/
def strlenLoop (b : Buffer UInt8) (s : Nat) : Nat → Nat → Option Nat
  | 0, _ => none
  | turns + 1, len => do
      let c ← b.load (s + len)
      if c = NUL then some len else strlenLoop b s turns (len + 1)

def strlen (b : Buffer UInt8) (s : Nat) : Option Nat := strlenLoop b s b.size 0

/-- The loop of `strrev`. -/
def strrevLoop (s : Nat) : Nat → Nat → Nat → Buffer UInt8 → Option (Buffer UInt8)
  | turns, beg, end_, b =>
      if beg < end_ then
        match turns with
        | 0 => none
        | turns + 1 => do
            let tmp ← b.load (s + end_)
            let moved ← b.load (s + beg)
            let b ← b.store (s + end_) moved
            let b ← b.store (s + beg) tmp
            strrevLoop s turns (beg + 1) (end_ - 1) b
      else some b

/-- For the empty string `end` is -1, which stops the loop as 0 does. -/
def strrev (b : Buffer UInt8) (s : Nat) : Option (Buffer UInt8) := do
  let len ← strlen b s
  strrevLoop s len 0 (len - 1) b

/-- The loop of `itoa`, which leaves `newbuf` and the buffer. -/
def digitLoop (radix : Nat) : Nat → Nat → Nat → Buffer UInt8 → Option (Nat × Buffer UInt8)
  | turns, newval, newbuf, b =>
      if newval > 0 then
        match turns with
        | 0 => none
        | turns + 1 => do
            let digit ← lookupDigits[newval % radix]?
            let b ← b.store newbuf digit
            digitLoop radix turns (newval / radix) (newbuf + 1) b
      else some (newbuf, b)

/-- A word has 32 digits at the most, so the loop takes 32 turns at the most. -/
def itoa (value : Nat) (b : Buffer UInt8) (buf radix : Nat) : Option (Buffer UInt8) :=
  if value = 0 then do
    let b ← b.store buf 48
    b.store (buf + 1) NUL
  else do
    let (newbuf, b) ← digitLoop radix 32 value buf b
    let b ← b.store newbuf NUL
    strrev b buf

/-! ## Canonical numerals -/

/-- The value of a text, each character counted by its place in the table. -/
def readNumeral (radix : Nat) (text : List UInt8) : Nat :=
  text.foldl (fun value c => value * radix + lookupDigits.idxOf c) 0

/-- A text that writes a value in a radix, as one writes numbers. -/
structure IsNumeral (radix value : Nat) (text : List UInt8) : Prop where
  nonempty : text ≠ []
  digits : ∀ c ∈ text, c ∈ lookupDigits.take radix
  noLeadingZero : text.head? = some 48 → text = [48]
  value : readNumeral radix text = value

/-- The character of a digit. -/
def digitChar (digit : Nat) : UInt8 := lookupDigits.getD digit NUL

def numeral (radix value : Nat) : List UInt8 :=
  if value = 0 then [48] else ((Nat.digits radix value).map digitChar).reverse

theorem lookupDigits_nodup : lookupDigits.Nodup := by decide

theorem lookupDigits_length : lookupDigits.length = 37 := rfl

theorem lookupDigits_get {digit : Nat} (hdigit : digit < 36) :
    lookupDigits[digit]? = some (digitChar digit) := by
  have hlt : digit < lookupDigits.length := by
    rw [lookupDigits_length]
    omega
  rw [digitChar, List.getD_eq_getElem?_getD, List.getElem?_eq_getElem hlt, Option.getD_some]

theorem idxOf_digitChar {digit : Nat} (hdigit : digit < 36) :
    lookupDigits.idxOf (digitChar digit) = digit := by
  obtain ⟨hlt, hget⟩ := List.getElem?_eq_some_iff.mp (lookupDigits_get hdigit)
  rw [← hget]
  exact lookupDigits_nodup.idxOf_getElem digit hlt

theorem digitChar_mem {radix digit : Nat} (hradix : radix ≤ 36) (hdigit : digit < radix) :
    digitChar digit ∈ lookupDigits.take radix := by
  obtain ⟨hlt, hget⟩ := List.getElem?_eq_some_iff.mp (lookupDigits_get (by omega : digit < 36))
  rw [← hget]
  refine List.mem_iff_getElem.mpr ⟨digit, ?_, List.getElem_take⟩
  rw [List.length_take]
  omega

/-- Reading the digits from the highest place down undoes their division. -/
theorem readNumeral_reverse {radix : Nat} (hradix : radix ≤ 36) {digits : List Nat}
    (hdigits : ∀ digit ∈ digits, digit < radix) :
    readNumeral radix (digits.map digitChar).reverse = Nat.ofDigits radix digits := by
  rw [readNumeral, List.foldl_reverse]
  induction digits with
  | nil => rfl
  | cons digit rest ih =>
      have hdigit : digit < 36 := (hdigits digit List.mem_cons_self).trans_le hradix
      rw [List.map_cons, List.foldr_cons, ih fun d hd => hdigits d (List.mem_cons_of_mem _ hd),
        idxOf_digitChar hdigit, Nat.ofDigits_cons, Nat.mul_comm, Nat.add_comm]

theorem numeral_isNumeral {radix : Nat} (hlow : 2 ≤ radix) (hhigh : radix ≤ 36) (value : Nat) :
    IsNumeral radix value (numeral radix value) := by
  by_cases hzero : value = 0
  · subst hzero
    rw [numeral, if_pos rfl]
    refine ⟨List.cons_ne_nil _ _, fun c hc => ?_, fun _ => rfl, ?_⟩
    · obtain rfl := List.mem_singleton.mp hc
      exact digitChar_mem hhigh (by omega : 0 < radix)
    · rw [readNumeral, List.foldl_cons, Nat.zero_mul]
      rfl
  · have hdigits : ∀ digit ∈ Nat.digits radix value, digit < radix :=
      fun digit hdigit => Nat.digits_lt_base (by omega) hdigit
    have hne : Nat.digits radix value ≠ [] := Nat.digits_ne_nil_iff_ne_zero.mpr hzero
    rw [numeral, if_neg hzero]
    refine ⟨by simp [hne], fun c hc => ?_, fun hlead => ?_, ?_⟩
    · obtain ⟨digit, hdigit, rfl⟩ := List.mem_map.mp (List.mem_reverse.mp hc)
      exact digitChar_mem hhigh (hdigits digit hdigit)
    · -- the character in front is the digit of the highest place, which is not zero
      rw [List.head?_reverse, List.getLast?_map, List.getLast?_eq_getLast_of_ne_nil hne] at hlead
      have hplace := idxOf_digitChar ((hdigits _ (List.getLast_mem hne)).trans_le hhigh)
      rw [Option.some.inj hlead] at hplace
      exact absurd hplace.symm (Nat.getLast_digit_ne_zero radix hzero)
    · rw [readNumeral_reverse hhigh hdigits, Nat.ofDigits_digits]

theorem IsNumeral.nul_notMem {radix value : Nat} {text : List UInt8} (hhigh : radix ≤ 36)
    (hnumeral : IsNumeral radix value text) : NUL ∉ text := by
  intro hnul
  have hmem := hnumeral.digits NUL hnul
  have hfront : lookupDigits.take radix <+: lookupDigits.take 36 :=
    List.take_prefix_take_left hhigh
  exact absurd (hfront.subset hmem) (by decide)

/-! ## The loops -/

/-- A text and the NUL that ends it. -/
structure HoldsString (b : Buffer UInt8) (s : Nat) (text : List UInt8) : Prop where
  holds : b.Holds s (text ++ [NUL])
  nul : NUL ∉ text

namespace HoldsString

variable {b : Buffer UInt8} {s : Nat} {text : List UInt8}

theorem fits (hstring : HoldsString b s text) : s + text.length < b.size := by
  have hfits := hstring.holds.fits
  rw [List.length_append, List.length_singleton] at hfits
  omega

theorem cell (hstring : HoldsString b s text) {i : Nat} (hi : i < text.length) :
    b.cell (s + i) = text[i] := by
  have hlt : i < (text ++ [NUL]).length := by
    rw [List.length_append]
    omega
  rw [hstring.holds.cell i hlt, List.getElem_append_left hi]

theorem cell_end (hstring : HoldsString b s text) : b.cell (s + text.length) = NUL := by
  have hlt : text.length < (text ++ [NUL]).length := by
    rw [List.length_append, List.length_singleton]
    omega
  rw [hstring.holds.cell _ hlt, List.getElem_concat_length rfl]

theorem load (hstring : HoldsString b s text) {i : Nat} (hi : i < text.length) :
    b.load (s + i) = some text[i] := by
  have hfits := hstring.fits
  rw [Buffer.load_of_lt (by omega), hstring.cell hi]

theorem load_end (hstring : HoldsString b s text) : b.load (s + text.length) = some NUL := by
  rw [Buffer.load_of_lt hstring.fits, hstring.cell_end]

theorem get_ne (hstring : HoldsString b s text) {i : Nat} (hi : i < text.length) :
    text[i] ≠ NUL := fun heq => hstring.nul (heq ▸ List.getElem_mem hi)

/-- The scan stops at the NUL behind the text. -/
theorem strlenLoop_eq (hstring : HoldsString b s text) {turns len : Nat}
    (hlen : len ≤ text.length) (hturns : text.length < len + turns) :
    strlenLoop b s turns len = some text.length := by
  induction turns generalizing len with
  | zero => omega
  | succ turns ih =>
      rw [strlenLoop]
      rcases Nat.lt_or_eq_of_le hlen with hlt | rfl
      · rw [hstring.load hlt, Option.bind_eq_bind, Option.bind_some, if_neg (hstring.get_ne hlt)]
        exact ih hlt (by omega)
      · rw [hstring.load_end, Option.bind_eq_bind, Option.bind_some, if_pos rfl]

theorem strlen_eq (hstring : HoldsString b s text) : strlen b s = some text.length :=
  hstring.strlenLoop_eq (Nat.zero_le _) (by have := hstring.fits; omega)

end HoldsString

/-- The two indices meet with everything between them turned around. -/
theorem strrevLoop_cells {s turns beg end_ : Nat} {b : Buffer UInt8} (hend : s + end_ < b.size)
    (hturns : end_ ≤ beg + turns) :
    ∃ after, strrevLoop s turns beg end_ b = some after ∧ after.size = b.size ∧
      ∀ i, after.cell i =
        if s + beg ≤ i ∧ i ≤ s + end_ then b.cell (s + beg + (s + end_) - i) else b.cell i := by
  induction turns generalizing beg end_ b with
  | zero =>
      rw [strrevLoop, if_neg (by omega)]
      refine ⟨b, rfl, rfl, fun i => ?_⟩
      split
      · next hrange => rw [show s + beg + (s + end_) - i = i by omega]
      · rfl
  | succ turns ih =>
      rw [strrevLoop]
      by_cases hmeet : beg < end_
      · rw [if_pos hmeet]
        have hbeg : s + beg < b.size := by omega
        have hinner : s + (end_ - 1) < (b.swap (s + end_) (s + beg)).size := by
          change _ < b.size
          omega
        obtain ⟨after, hrest, hsize, hcells⟩ := ih hinner (by omega : end_ - 1 ≤ beg + 1 + turns)
        refine ⟨after, ?_, hsize, fun i => ?_⟩
        · simp only [Buffer.load_of_lt hend, Buffer.load_of_lt hbeg, Option.bind_eq_bind,
            Option.bind_some]
          rw [← Option.bind_assoc, Buffer.store_swap hend hbeg, Option.bind_some]
          exact hrest
        · -- the rest of the loop turns around what lies between the two cells swapped here
          rw [hcells]
          by_cases hfirst : i = s + end_
          · subst hfirst
            rw [if_neg (by omega), if_pos (by omega), Buffer.swap_first]
            congr 1
            omega
          · by_cases hsecond : i = s + beg
            · subst hsecond
              rw [if_neg (by omega), if_pos (by omega), Buffer.swap_second]
              congr 1
              omega
            · rw [Buffer.swap_of_ne _ hfirst hsecond]
              by_cases hinside : s + beg ≤ i ∧ i ≤ s + end_
              · rw [if_pos (by omega), if_pos hinside, Buffer.swap_of_ne _ (by omega) (by omega)]
                congr 1
                omega
              · rw [if_neg (by omega), if_neg hinside]
      · rw [if_neg hmeet]
        refine ⟨b, rfl, rfl, fun i => ?_⟩
        split
        · next hrange => rw [show s + beg + (s + end_) - i = i by omega]
        · rfl

/-- `strrev` turns a string around and leaves its NUL and everything beside it. -/
theorem strrev_eq {b : Buffer UInt8} {s : Nat} {text : List UInt8}
    (hstring : HoldsString b s text) :
    ∃ after, strrev b s = some after ∧ HoldsString after s text.reverse ∧
      b.SameOutside after s text.length := by
  have hfits := hstring.fits
  have hlast : s + (text.length - 1) < b.size := by omega
  obtain ⟨after, hloop, hsize, hcells⟩ :=
    strrevLoop_cells hlast (by omega : text.length - 1 ≤ 0 + text.length)
  have hbeside : ∀ i, i < s ∨ s + text.length ≤ i → after.cell i = b.cell i := by
    intro i hi
    rw [hcells]
    split
    · congr 1
      omega
    · rfl
  refine ⟨after, ?_, ⟨⟨?_, fun i hi => ?_⟩, fun hmem => hstring.nul (List.mem_reverse.mp hmem)⟩,
    hsize, hbeside⟩
  · rw [strrev, hstring.strlen_eq]
    exact hloop
  · rw [List.length_append, List.length_reverse, List.length_singleton, hsize]
    omega
  · rw [List.length_append, List.length_reverse, List.length_singleton] at hi
    rcases Nat.lt_or_ge i text.length with hlt | hge
    · rw [hcells, if_pos (by omega), List.getElem_append_left (by rwa [List.length_reverse]),
        List.getElem_reverse, ← hstring.cell (by omega : text.length - 1 - i < text.length)]
      congr 1
      omega
    · obtain rfl : i = text.length := by omega
      rw [hbeside _ (.inr le_rfl), hstring.cell_end,
        List.getElem_concat_length text.length_reverse.symm]

/-- The loop of `itoa` stores the digits from the lowest place up. -/
theorem digitLoop_eq {radix turns newval newbuf : Nat} {b : Buffer UInt8} (hlow : 2 ≤ radix)
    (hhigh : radix ≤ 36) (hturns : newval < radix ^ turns)
    (hfits : newbuf + (Nat.digits radix newval).length ≤ b.size) :
    ∃ after, digitLoop radix turns newval newbuf b =
        some (newbuf + (Nat.digits radix newval).length, after) ∧
      after.Holds newbuf ((Nat.digits radix newval).map digitChar) ∧
      b.SameOutside after newbuf (Nat.digits radix newval).length := by
  induction turns generalizing newval newbuf b with
  | zero =>
      obtain rfl : newval = 0 := by rwa [pow_zero, Nat.lt_one_iff] at hturns
      rw [Nat.digits_zero] at hfits ⊢
      exact ⟨b, rfl, Buffer.Holds.nil hfits, Buffer.SameOutside.refl ..⟩
  | succ turns ih =>
      rcases Nat.eq_zero_or_pos newval with rfl | hpos
      · rw [Nat.digits_zero] at hfits ⊢
        exact ⟨b, rfl, Buffer.Holds.nil hfits, Buffer.SameOutside.refl ..⟩
      · rw [Nat.digits_def' hlow hpos, List.length_cons] at hfits ⊢
        have hdigit : newval % radix < 36 := (Nat.mod_lt _ (by omega)).trans_le hhigh
        obtain ⟨stored, hstore, hholds, hsame⟩ :=
          Buffer.store_holds (by omega : newbuf < b.size) (digitChar (newval % radix))
        have hnext : newval / radix < radix ^ turns :=
          Nat.div_lt_of_lt_mul (by rwa [← pow_succ'])
        have hroom : newbuf + 1 + (Nat.digits radix (newval / radix)).length ≤ stored.size := by
          rw [hsame.size]
          omega
        obtain ⟨after, hrest, hdigits, hbeside⟩ := ih hnext hroom
        refine ⟨after, ?_, ?_, ?_⟩
        · rw [digitLoop, if_pos hpos]
          simp only [lookupDigits_get hdigit, hstore, Option.bind_eq_bind, Option.bind_some]
          rw [hrest, Nat.add_right_comm, ← Nat.add_assoc]
        · rw [List.map_cons, Buffer.Holds.cons_iff]
          refine ⟨?_, ?_, hdigits⟩
          · rw [hbeside.cell newbuf (.inl (Nat.lt_succ_self _))]
            exact hholds.cell 0 Nat.one_pos
          · rw [hbeside.size, hsame.size]
            omega
        · exact (hsame.widen le_rfl (by omega)).trans (hbeside.widen (by omega) (by omega))

theorem numeral_length {radix value : Nat} (hlow : 2 ≤ radix) {count : Nat} (hcount : 0 < count)
    (hvalue : value < radix ^ count) : (numeral radix value).length ≤ count := by
  rw [numeral]
  split
  · exact hcount
  · rw [List.length_reverse, List.length_map, Nat.digits_length_le_iff hlow]
    exact hvalue

/-- `itoa` leaves the numeral of a word in the buffer and nothing else behind. -/
theorem itoa_eq {radix value s : Nat} {b : Buffer UInt8} (hlow : 2 ≤ radix) (hhigh : radix ≤ 36)
    (hvalue : value < 2 ^ 32) (hfits : s + (numeral radix value).length < b.size) :
    ∃ after, itoa value b s radix = some after ∧ HoldsString after s (numeral radix value) ∧
      b.SameOutside after s ((numeral radix value).length + 1) := by
  have hnul := (numeral_isNumeral hlow hhigh value).nul_notMem hhigh
  by_cases hzero : value = 0
  · have htext : numeral radix value = [48] := if_pos hzero
    rw [htext] at hfits hnul ⊢
    obtain ⟨first, hfirst, hdigit, hsame⟩ := Buffer.store_holds (by omega : s < b.size) 48
    obtain ⟨after, hsecond, hend, hbeside⟩ :=
      Buffer.store_holds (by rw [hsame.size]; exact hfits : s + 1 < first.size) NUL
    refine ⟨after, ?_, ⟨?_, hnul⟩, ?_⟩
    · rw [itoa, if_pos hzero, hfirst]
      exact hsecond
    · exact Buffer.Holds.append_iff.mpr ⟨hbeside.holds hdigit (.inl le_rfl), hend⟩
    · exact (hsame.widen le_rfl (Nat.le_succ _)).trans (hbeside.widen (Nat.le_succ _) le_rfl)
  · have htext : numeral radix value = ((Nat.digits radix value).map digitChar).reverse :=
      if_neg hzero
    have hlength : (numeral radix value).length = (Nat.digits radix value).length := by
      rw [htext, List.length_reverse, List.length_map]
    have hturns : value < radix ^ 32 := hvalue.trans_le (Nat.pow_le_pow_left hlow 32)
    obtain ⟨digits, hloop, hdigits, hsame⟩ := digitLoop_eq (b := b) hlow hhigh hturns
      (by omega : s + (Nat.digits radix value).length ≤ b.size)
    obtain ⟨ended, hstore, hend, hbeside⟩ := Buffer.store_holds
      (by rw [hsame.size]; omega : s + (Nat.digits radix value).length < digits.size) NUL
    have hstring : HoldsString ended s ((Nat.digits radix value).map digitChar) := by
      refine ⟨Buffer.Holds.append_iff.mpr ⟨hbeside.holds hdigits (.inl ?_), ?_⟩,
        fun hmem => hnul ?_⟩
      · rw [List.length_map]
      · rw [List.length_map]
        exact hend
      · rw [htext]
        exact List.mem_reverse.mpr hmem
    obtain ⟨after, hrev, hreversed, hturned⟩ := strrev_eq hstring
    rw [List.length_map] at hturned
    refine ⟨after, ?_, htext ▸ hreversed, ?_⟩
    · rw [itoa, if_neg hzero, hloop]
      exact (congrArg (fun b => b.bind fun b => strrev b s) hstore).trans hrev
    · rw [hlength]
      exact ((hsame.widen le_rfl (by omega)).trans (hbeside.widen (by omega) (by omega))).trans
        (hturned.widen le_rfl (by omega))

end Ece391
