import Ece391.Numerals

/-! # The number conversions of `printf`

`%x`, `%u` and `%d` write a word into a buffer on the stack and print the string they find
there. `%#x` writes the digits from index 8 on and zeros in front of them, and starts to
print so far to the left of index 8 as there are digits missing.
-/

namespace Ece391

open Function

section

variable {σ : Type} (putc : σ → UInt8 → σ)

/-- The loop of `puts` and `puts2`, which print with `putc` and `putc2`. -/
def putsLoop (load : Nat → Option UInt8) (s : Nat) : Nat → Nat → σ → Option (Nat × σ)
  | 0, _, _ => none
  | turns + 1, index, out => do
      let c ← load (s + index)
      if c = NUL then some (index, out) else putsLoop load s turns (index + 1) (putc out c)

/-- `puts` and `puts2` of a string that ends in fewer than `turns` characters. -/
def puts (load : Nat → Option UInt8) (turns s : Nat) (out : σ) : Option (Nat × σ) :=
  putsLoop putc load s turns 0 out

/-- A string on the stack, which ends before the buffer does. -/
def putsBuffer (b : Buffer UInt8) (s : Nat) (out : σ) : Option σ :=
  (puts putc b.load b.size s out).map Prod.snd

/-- What a buffer on the stack holds before it is written is of no use. -/
def convBuf (junk : Nat → UInt8) (size : Nat) : Buffer UInt8 := ⟨size, junk⟩

/-- The case `'x'`. -/
def convertX (junk : Nat → UInt8) (alternate : Bool) (word : Nat) (out : σ) : Option σ :=
  if alternate then do
    let b ← itoa word (convBuf junk 64) 8 16
    let startingIndex ← strlen b 8
    let b ← (List.range' startingIndex (8 - startingIndex)).foldlM (fun b i => b.store i 48) b
    putsBuffer putc b startingIndex out
  else do
    let b ← itoa word (convBuf junk 64) 0 16
    putsBuffer putc b 0 out

/-- The case `'u'`. -/
def convertU (junk : Nat → UInt8) (word : Nat) (out : σ) : Option σ := do
  let b ← itoa word (convBuf junk 36) 0 10
  putsBuffer putc b 0 out

/-- The case `'d'`; the most negative value is its own negation. -/
def convertD (junk : Nat → UInt8) (word : Nat) (out : σ) : Option σ := do
  let value := int32 word
  let b ←
    if value < 0 then do
      let b ← (convBuf junk 36).store 0 45
      itoa (toU32 (-value)) b 1 10
    else itoa (toU32 value) (convBuf junk 36) 0 10
  putsBuffer putc b 0 out

end

/-! ## Printing a string -/

/-- A NUL-terminated text at an address. -/
structure Reads (load : Nat → Option UInt8) (s : Nat) (text : List UInt8) : Prop where
  char : ∀ i (hi : i < text.length), load (s + i) = some text[i]
  ends : load (s + text.length) = some NUL
  nul : NUL ∉ text

theorem HoldsString.reads {b : Buffer UInt8} {s : Nat} {text : List UInt8}
    (hstring : HoldsString b s text) : Reads b.load s text :=
  ⟨fun _ hi => hstring.load hi, hstring.load_end, hstring.nul⟩

/-- Behind its first character a text goes on. -/
theorem Reads.tail {load : Nat → Option UInt8} {s : Nat} {c : UInt8} {rest : List UInt8}
    (hreads : Reads load s (c :: rest)) : Reads load (s + 1) rest := by
  refine ⟨fun i hi => ?_, ?_, fun hmem => hreads.nul (List.mem_cons_of_mem _ hmem)⟩
  · rw [Nat.add_assoc, Nat.add_comm 1]
    exact hreads.char (i + 1) (Nat.succ_lt_succ hi)
  · rw [Nat.add_assoc, Nat.add_comm 1]
    exact hreads.ends

section

variable {σ : Type} (putc : σ → UInt8 → σ)

/-- From an index on, the rest of the text is printed. -/
theorem putsLoop_eq {load : Nat → Option UInt8} {s : Nat} {text : List UInt8}
    (hreads : Reads load s text) {turns index : Nat} (hindex : index ≤ text.length)
    (hturns : text.length < index + turns) (out : σ) :
    putsLoop putc load s turns index out =
      some (text.length, (text.drop index).foldl putc out) := by
  induction turns generalizing index out with
  | zero => omega
  | succ turns ih =>
      rw [putsLoop]
      rcases Nat.lt_or_eq_of_le hindex with hlt | rfl
      · have hchar : text[index] ≠ NUL := fun heq => hreads.nul (heq ▸ List.getElem_mem hlt)
        rw [hreads.char index hlt, Option.bind_eq_bind, Option.bind_some, if_neg hchar,
          ih hlt (by omega), List.drop_eq_getElem_cons hlt, List.foldl_cons]
      · rw [hreads.ends, Option.bind_eq_bind, Option.bind_some, if_pos rfl, List.drop_length]
        rfl

theorem puts_eq {load : Nat → Option UInt8} {s : Nat} {text : List UInt8}
    (hreads : Reads load s text) {turns : Nat} (hturns : text.length < turns) (out : σ) :
    puts putc load turns s out = some (text.length, text.foldl putc out) :=
  putsLoop_eq putc hreads (Nat.zero_le _) (by omega) out

theorem putsBuffer_eq {b : Buffer UInt8} {s : Nat} {text : List UInt8}
    (hstring : HoldsString b s text) (out : σ) :
    putsBuffer putc b s out = some (text.foldl putc out) := by
  have hfits := hstring.fits
  rw [putsBuffer, puts_eq putc hstring.reads (by omega)]
  rfl

end

/-! ## What the conversions print -/

/-- A signed value in decimal. -/
def signedNumeral (value : Int) : List UInt8 :=
  if value < 0 then 45 :: numeral 10 value.natAbs else numeral 10 value.natAbs

/-- A word in hexadecimal, filled up to eight digits. -/
def paddedHex (word : Nat) : List UInt8 :=
  List.replicate (8 - (numeral 16 word).length) 48 ++ numeral 16 word

/-- A text that writes a signed value in decimal. -/
def IsSignedNumeral (value : Int) (text : List UInt8) : Prop :=
  if value < 0 then ∃ digits, text = 45 :: digits ∧ IsNumeral 10 value.natAbs digits
  else IsNumeral 10 value.natAbs text

theorem signedNumeral_isSignedNumeral (value : Int) :
    IsSignedNumeral value (signedNumeral value) := by
  have hnumeral := numeral_isNumeral (by omega : 2 ≤ 10) (by omega) value.natAbs
  unfold IsSignedNumeral signedNumeral
  split
  · exact ⟨_, rfl, hnumeral⟩
  · exact hnumeral

/-- Zeros in front do not change a value. -/
theorem readNumeral_zeros (radix count : Nat) (text : List UInt8) :
    readNumeral radix (List.replicate count 48 ++ text) = readNumeral radix text := by
  induction count with
  | zero => rfl
  | succ count ih =>
      rw [List.replicate_succ, List.cons_append, readNumeral, List.foldl_cons, Nat.zero_mul]
      exact ih

theorem paddedHex_spec {word : Nat} (hword : word < 2 ^ 32) :
    (paddedHex word).length = 8 ∧ (∀ c ∈ paddedHex word, c ∈ lookupDigits.take 16) ∧
      readNumeral 16 (paddedHex word) = word := by
  have hnumeral := numeral_isNumeral (by omega : 2 ≤ 16) (by omega) word
  have hlength : (numeral 16 word).length ≤ 8 := numeral_length (by omega) (by omega) hword
  refine ⟨?_, fun c hc => ?_, ?_⟩
  · rw [paddedHex, List.length_append, List.length_replicate]
    omega
  · rcases List.mem_append.mp hc with hzero | hdigit
    · rw [List.eq_of_mem_replicate hzero]
      decide
    · exact hnumeral.digits c hdigit
  · rw [paddedHex, readNumeral_zeros, hnumeral.value]

section

variable {σ : Type} (putc : σ → UInt8 → σ) (junk : Nat → UInt8) (out : σ)

theorem convertU_eq {word : Nat} (hword : word < 2 ^ 32) :
    convertU putc junk word out = some ((numeral 10 word).foldl putc out) := by
  have hlength : (numeral 10 word).length ≤ 10 :=
    numeral_length (by omega) (by omega) (hword.trans (by decide))
  obtain ⟨after, hitoa, hstring, -⟩ := itoa_eq (b := convBuf junk 36) (s := 0) (by omega : 2 ≤ 10)
    (by omega) hword (by change _ < 36; omega)
  rw [convertU, hitoa]
  exact putsBuffer_eq putc hstring out

theorem convertX_plain {word : Nat} (hword : word < 2 ^ 32) :
    convertX putc junk false word out = some ((numeral 16 word).foldl putc out) := by
  have hlength : (numeral 16 word).length ≤ 8 := numeral_length (by omega) (by omega) hword
  obtain ⟨after, hitoa, hstring, -⟩ := itoa_eq (b := convBuf junk 64) (s := 0) (by omega : 2 ≤ 16)
    (by omega) hword (by change _ < 64; omega)
  rw [convertX, if_neg Bool.false_ne_true, hitoa]
  exact putsBuffer_eq putc hstring out

/-- The sign of a negative value stands in front of the digits of its magnitude. -/
theorem convertD_eq {word : Nat} (hword : word < 2 ^ 32) :
    convertD putc junk word out = some ((signedNumeral (int32 word)).foldl putc out) := by
  have hmagnitude : (int32 word).natAbs < 2 ^ 32 := by
    unfold int32
    split <;> omega
  have hlength : (numeral 10 (int32 word).natAbs).length ≤ 10 :=
    numeral_length (by omega) (by omega) (hmagnitude.trans (by decide))
  rw [convertD, signedNumeral]
  dsimp only
  by_cases hneg : int32 word < 0
  · have hvalue : toU32 (-int32 word) = (int32 word).natAbs := by
      unfold toU32
      omega
    obtain ⟨signed, hstore, hsign, hsame⟩ :=
      Buffer.store_holds (by change 0 < 36; omega : 0 < (convBuf junk 36).size) 45
    obtain ⟨after, hitoa, hstring, hbeside⟩ := itoa_eq (b := signed) (s := 1) (by omega : 2 ≤ 10)
      (by omega) hmagnitude (by rw [hsame.size]; change _ < 36; omega)
    rw [if_pos hneg, if_pos hneg, hstore, hvalue, Option.bind_eq_bind, Option.bind_some, hitoa]
    refine putsBuffer_eq putc (s := 0) ⟨?_, ?_⟩ out
    · rw [List.cons_append, ← List.singleton_append, Buffer.Holds.append_iff]
      exact ⟨hbeside.holds hsign (.inl le_rfl), hstring.holds⟩
    · exact List.not_mem_cons_of_ne_of_not_mem (by decide) hstring.nul
  · have hvalue : toU32 (int32 word) = (int32 word).natAbs := by
      unfold toU32
      omega
    obtain ⟨after, hitoa, hstring, -⟩ := itoa_eq (b := convBuf junk 36) (s := 0)
      (by omega : 2 ≤ 10) (by omega) hmagnitude (by change _ < 36; omega)
    rw [if_neg hneg, if_neg hneg, hvalue, hitoa]
    exact putsBuffer_eq putc hstring out

/-- The zeros end where the digits start, at index 8. -/
theorem convertX_alternate {word : Nat} (hword : word < 2 ^ 32) :
    convertX putc junk true word out = some ((paddedHex word).foldl putc out) := by
  have hlength : (numeral 16 word).length ≤ 8 := numeral_length (by omega) (by omega) hword
  obtain ⟨digits, hitoa, hstring, -⟩ := itoa_eq (b := convBuf junk 64) (s := 8) (by omega : 2 ≤ 16)
    (by omega) hword (by change _ < 64; omega)
  have hfits := hstring.fits
  obtain ⟨after, hfill, hzeros, hsame⟩ := Buffer.foldlM_store (b := digits)
    (by omega : (numeral 16 word).length + (8 - (numeral 16 word).length) ≤ digits.size) 48
  have hpadded : HoldsString after (numeral 16 word).length (paddedHex word) := by
    refine ⟨?_, ?_⟩
    · rw [paddedHex, List.append_assoc, Buffer.Holds.append_iff, List.length_replicate]
      refine ⟨hzeros, ?_⟩
      rw [Nat.add_sub_cancel' hlength]
      exact hsame.holds hstring.holds (.inr (by omega))
    · rw [paddedHex, List.mem_append]
      rintro (hzero | hdigit)
      · exact absurd (List.eq_of_mem_replicate hzero) (by decide)
      · exact hstring.nul hdigit
  rw [convertX, if_pos rfl, hitoa]
  simp only [Option.bind_eq_bind, Option.bind_some, hstring.strlen_eq, hfill]
  exact putsBuffer_eq putc hpadded out

/-- Every word is written as its canonical numeral, by `itoa` in any radix and by the
conversions in theirs, and no access is outside of the buffer written to. -/
theorem numbers_rendered {radix value : Nat} (hlow : 2 ≤ radix) (hhigh : radix ≤ 36)
    (hvalue : value < 2 ^ 32) :
    (∃ text, IsNumeral radix value text ∧ ∀ (b : Buffer UInt8) (buf : Nat),
      buf + text.length < b.size → ∃ after, itoa value b buf radix = some after ∧
        HoldsString after buf text ∧ b.SameOutside after buf (text.length + 1)) ∧
    (∃ text, convertU putc junk value out = some (text.foldl putc out) ∧
      IsNumeral 10 value text) ∧
    (∃ text, convertD putc junk value out = some (text.foldl putc out) ∧
      IsSignedNumeral (int32 value) text) ∧
    (∃ text, convertX putc junk true value out = some (text.foldl putc out) ∧
      text.length = 8 ∧ (∀ c ∈ text, c ∈ lookupDigits.take 16) ∧ readNumeral 16 text = value) :=
  ⟨⟨_, numeral_isNumeral hlow hhigh value, fun _ _ => itoa_eq hlow hhigh hvalue⟩,
    ⟨_, convertU_eq putc junk out hvalue, numeral_isNumeral (by omega) (by omega) value⟩,
    ⟨_, convertD_eq putc junk out hvalue, signedNumeral_isSignedNumeral _⟩,
    ⟨_, convertX_alternate putc junk out hvalue, paddedHex_spec hvalue⟩⟩

end

/-- The word of the most negative value, in radix 36 and as a signed value. -/
theorem numbers_rendered_lowest :
    (∃ text, IsNumeral 36 0x80000000 text ∧ ∀ (b : Buffer UInt8) (buf : Nat),
      buf + text.length < b.size → ∃ after, itoa 0x80000000 b buf 36 = some after ∧
        HoldsString after buf text ∧ b.SameOutside after buf (text.length + 1)) ∧
      ∃ text, convertD (fun out c => out ++ [c]) (fun _ => 0) 0x80000000 ([] : List UInt8) =
          some (text.foldl (fun out c => out ++ [c]) []) ∧ IsSignedNumeral (-2147483648) text := by
  have hrendered := numbers_rendered (fun out c => out ++ [c]) (fun _ => 0) ([] : List UInt8)
    (by decide : 2 ≤ 36) (by decide) (by decide : 0x80000000 < 2 ^ 32)
  exact ⟨hrendered.1, hrendered.2.2.1⟩

end Ece391
