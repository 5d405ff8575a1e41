import Ece391.Conversions
import Ece391.StartUp

/-! # `printf` and `printf2`

Both are one interpreter of a format string with a `putc` of their own. It has a loop that
ends at a NUL and, inside, a switch on the byte behind a `%` that goes back to itself at
a `#`; both move one pointer on.
-/

namespace Ece391

/-! ## The interpreter -/

/-- The cases of the inner switch, but `'#'`. -/
inductive Specifier where
  | percent
  | x
  | u
  | d
  | c
  | s
  | unknown
  deriving DecidableEq

def specifierOf (c : UInt8) : Specifier :=
  if c = 37 then .percent
  else if c = 120 then .x
  else if c = 117 then .u
  else if c = 100 then .d
  else if c = 99 then .c
  else if c = 115 then .s
  else .unknown

/-- Where the interpreter stands: at the head of its loop, or at `format_char_switch`. -/
inductive FormatMode where
  | text
  | conversion (alternate : Bool)
  deriving DecidableEq

/-- What a call finds: memory, the words behind the format on the stack, and what is left in
the place of `conv_buf`. -/
structure FormatCall where
  mem : Nat → UInt8
  words : List UInt32
  junk : Nat → UInt8

/-- The pointer into the format, the number of words passed by `esp`, what has been printed, and
the addresses at which the format has been looked at. -/
structure FormatState (σ : Type) where
  buf : Nat
  esp : Nat
  out : σ
  inspected : List Nat

namespace FormatState

variable {σ : Type} (state : FormatState σ)

/-- `*buf` is looked at. -/
def inspect : FormatState σ := { state with inspected := state.inspected ++ [state.buf] }

/-- `buf++`. -/
def next : FormatState σ := { state with buf := state.buf + 1 }

/-- A case that prints the word at `esp` and steps over it. -/
def take (words : List UInt32) (print : Nat → σ → Option σ) : Option (FormatState σ) := do
  let word ← words[state.esp]?
  let out ← print word.toNat state.out
  some { state with esp := state.esp + 1, out := out }

end FormatState

section

variable {σ : Type} (putc : σ → UInt8 → σ) (call : FormatCall)

/-- The case `'c'`. -/
def convertC (word : Nat) (out : σ) : Option σ := some (putc out (UInt8.ofNat word))

/-- The case `'s'`; `turns` bounds the string. -/
def convertS (turns word : Nat) (out : σ) : Option σ :=
  (puts putc (fun addr => some (call.mem addr)) turns word out).map Prod.snd

/-- The inner switch. -/
def convert (turns : Nat) (alternate : Bool) (specifier : Specifier) (state : FormatState σ) :
    Option (FormatState σ) :=
  match specifier with
  | .percent => some { state with out := putc state.out 37 }
  | .x => state.take call.words (convertX putc call.junk alternate)
  | .u => state.take call.words (convertU putc call.junk)
  | .d => state.take call.words (convertD putc call.junk)
  | .c => state.take call.words (convertC putc)
  | .s => state.take call.words (convertS putc call turns)
  | .unknown => some state

/-- The loop with its switches; each turn looks at one byte of the format. -/
def formatLoop (turns : Nat) : Nat → FormatMode → FormatState σ → Option (FormatState σ)
  | 0, _, _ => none
  | left + 1, .text, state =>
      if call.mem state.buf = NUL then some state.inspect
      else if call.mem state.buf = 37 then
        formatLoop turns left (.conversion false) state.inspect.next
      else
        let printed := { state.inspect with out := putc state.out (call.mem state.buf) }
        formatLoop turns left .text printed.next
  | left + 1, .conversion alternate, state =>
      if call.mem state.buf = 35 then
        formatLoop turns left (.conversion true) state.inspect.next
      else do
        let converted ←
          convert putc call turns alternate (specifierOf (call.mem state.buf)) state.inspect
        formatLoop turns left .text converted.next

/-- The value returned is `buf - format`. -/
def formatted (turns format : Nat) (out : σ) : Option (Nat × FormatState σ) :=
  (formatLoop putc call turns turns .text ⟨format, 0, out, []⟩).map fun last =>
    (last.buf - format, last)

end

/-- Output for the running process. -/
def printf (currScheduled : Terminal) (call : FormatCall) (turns format : Nat) (d : Display) :
    Option (Nat × FormatState Display) :=
  formatted (fun d c => d.putc currScheduled c) call turns format d

/-- Output for the displayed terminal. -/
def printf2 (call : FormatCall) (turns format : Nat) (d : Display) :
    Option (Nat × FormatState Display) :=
  formatted Display.putc2 call turns format d

/-! ## The reference -/

/-- A piece of a format. -/
inductive Directive where
  | literal (c : UInt8)
  | conversion (alternate : Bool) (specifier : Specifier)
  deriving DecidableEq

/-- The pieces of a format from a place inside it on. -/
def directives : FormatMode → List UInt8 → List Directive
  | _, [] => []
  | .text, c :: rest =>
      if c = 37 then directives (.conversion false) rest
      else .literal c :: directives .text rest
  | .conversion alternate, c :: rest =>
      if c = 35 then directives (.conversion true) rest
      else .conversion alternate (specifierOf c) :: directives .text rest

/-- The words a piece takes. -/
def Directive.takes : Directive → Nat
  | .literal _ => 0
  | .conversion _ .percent => 0
  | .conversion _ .unknown => 0
  | .conversion _ _ => 1

def wordsTaken (pieces : List Directive) : Nat := (pieces.map Directive.takes).sum

theorem wordsTaken_cons (piece : Directive) (pieces : List Directive) :
    wordsTaken (piece :: pieces) = piece.takes + wordsTaken pieces := by
  rw [wordsTaken, List.map_cons, List.sum_cons]
  rfl

/-- Every piece with the word it takes, if it takes one. -/
def withWords : List Directive → List UInt32 → List (Directive × UInt32)
  | [], _ => []
  | piece :: rest, words => (piece, words.headD 0) :: withWords rest (words.drop piece.takes)

/-- What a piece stands for; `strings` are the texts that pointers lead to. -/
def Directive.expand (strings : Nat → List UInt8) (word : UInt32) : Directive → List UInt8
  | .literal c => [c]
  | .conversion _ .percent => [37]
  | .conversion alternate .x => if alternate then paddedHex word.toNat else numeral 16 word.toNat
  | .conversion _ .u => numeral 10 word.toNat
  | .conversion _ .d => signedNumeral (int32 word.toNat)
  | .conversion _ .c => [UInt8.ofNat word.toNat]
  | .conversion _ .s => strings word.toNat
  | .conversion _ .unknown => []

/-- What a format stands for. -/
def expansion (strings : Nat → List UInt8) (format : List UInt8) (words : List UInt32) :
    List UInt8 :=
  (withWords (directives .text format) words).flatMap fun piece =>
    piece.1.expand strings piece.2

/-- Where the interpreter stands behind a text. -/
def modeAfter : FormatMode → List UInt8 → FormatMode
  | mode, [] => mode
  | .text, c :: rest => if c = 37 then modeAfter (.conversion false) rest else modeAfter .text rest
  | .conversion _, c :: rest =>
      if c = 35 then modeAfter (.conversion true) rest else modeAfter .text rest

/-- A format that does not end inside a conversion. -/
def CompleteFormat (format : List UInt8) : Prop := modeAfter .text format = .text

instance : DecidablePred CompleteFormat :=
  fun format => inferInstanceAs (Decidable (modeAfter .text format = .text))

/-- The strings a format prints end, and `strings` names them. -/
def StringsRead (call : FormatCall) (strings : Nat → List UInt8) (format : List UInt8) : Prop :=
  ∀ piece ∈ withWords (directives .text format) call.words,
    (∃ alternate, piece.1 = .conversion alternate .s) →
      Reads (fun addr => some (call.mem addr)) piece.2.toNat (strings piece.2.toNat)

/-- A call completes, looks at no byte behind the NUL of its format, takes the words of its
conversions, returns the length of the format, and prints its expansion. -/
def Interprets {σ : Type} (call : FormatCall) (strings : Nat → List UInt8) (start : Nat)
    (format : List UInt8) (putc : σ → UInt8 → σ) (out : σ)
    (run : Nat → Option (Nat × FormatState σ)) : Prop :=
  ∃ last, (∃ enough, ∀ turns ≥ enough, run turns = some (format.length, last)) ∧
    (∀ addr ∈ last.inspected, addr ≤ start + format.length) ∧
    last.esp = wordsTaken (directives .text format) ∧
    last.out = (expansion strings format call.words).foldl putc out

/-! ## Formats that end outside of a conversion -/

section

variable {σ : Type} (putc : σ → UInt8 → σ) {call : FormatCall} {strings : Nat → List UInt8}

/-- A case that takes a word. -/
theorem FormatState.take_eq {state : FormatState σ} {words : List UInt32}
    (hroom : state.esp < words.length) (print : Nat → σ → Option σ) (text : List UInt8)
    (hprint : print ((words.drop state.esp).headD 0).toNat state.out =
      some (text.foldl putc state.out)) :
    state.take words print =
      some { state with esp := state.esp + 1, out := text.foldl putc state.out } := by
  rw [List.drop_eq_getElem_cons hroom, List.headD_cons] at hprint
  rw [FormatState.take, List.getElem?_eq_getElem hroom, Option.bind_eq_bind, Option.bind_some,
    hprint]
  rfl

/-- The inner switch prints what its piece stands for. -/
theorem convert_eq {turns : Nat} {alternate : Bool} {specifier : Specifier}
    {state : FormatState σ} {word : UInt32} (hword : (call.words.drop state.esp).headD 0 = word)
    (hroom : state.esp + (Directive.conversion alternate specifier).takes ≤ call.words.length)
    (hstring : specifier = .s →
      Reads (fun addr => some (call.mem addr)) word.toNat (strings word.toNat) ∧
        (strings word.toNat).length < turns) :
    convert putc call turns alternate specifier state =
      some { state with
        esp := state.esp + (Directive.conversion alternate specifier).takes
        out := ((Directive.conversion alternate specifier).expand strings word).foldl putc
          state.out } := by
  have hlt : word.toNat < 2 ^ 32 := word.toNat_lt
  subst hword
  cases specifier with
  | percent => rfl
  | unknown => rfl
  | x =>
      cases alternate with
      | false => exact FormatState.take_eq putc hroom _ _ (convertX_plain putc _ _ hlt)
      | true => exact FormatState.take_eq putc hroom _ _ (convertX_alternate putc _ _ hlt)
  | u => exact FormatState.take_eq putc hroom _ _ (convertU_eq putc _ _ hlt)
  | d => exact FormatState.take_eq putc hroom _ _ (convertD_eq putc _ _ hlt)
  | c => exact FormatState.take_eq putc hroom (convertC putc) [_] rfl
  | s =>
      obtain ⟨hreads, hturns⟩ := hstring rfl
      refine FormatState.take_eq putc hroom (convertS putc call turns) _ ?_
      rw [convertS, puts_eq putc hreads hturns]
      rfl

/-- The words and the strings that are left of a format are there. -/
structure Supplied (call : FormatCall) (strings : Nat → List UInt8) (turns : Nat)
    (pieces : List Directive) (state : FormatState σ) : Prop where
  room : state.esp + wordsTaken pieces ≤ call.words.length
  strings : ∀ piece ∈ withWords pieces (call.words.drop state.esp),
    (∃ alternate, piece.1 = .conversion alternate .s) →
      Reads (fun addr => some (call.mem addr)) piece.2.toNat (strings piece.2.toNat) ∧
        (strings piece.2.toNat).length < turns

/-- What the loop has done when it has come to the end of a format. -/
structure Finished (call : FormatCall) (strings : Nat → List UInt8) (pieces : List Directive)
    (length : Nat) (state last : FormatState σ) : Prop where
  buf : last.buf = state.buf + length
  esp : last.esp = state.esp + wordsTaken pieces
  out : last.out = ((withWords pieces (call.words.drop state.esp)).flatMap
    fun piece => piece.1.expand strings piece.2).foldl putc state.out
  inspected : last.inspected = state.inspected ++ List.range' state.buf (length + 1)

/-- The state behind a byte that completes a piece. -/
def FormatState.printed (state : FormatState σ) (call : FormatCall)
    (strings : Nat → List UInt8) (piece : Directive) : FormatState σ :=
  { state.inspect.next with
    esp := state.esp + piece.takes
    out := (piece.expand strings ((call.words.drop state.esp).headD 0)).foldl putc state.out }

variable {putc} {turns length : Nat} {piece : Directive} {pieces : List Directive}
  {state last : FormatState σ}

variable (putc) in
theorem Supplied.rest (hsupplied : Supplied call strings turns (piece :: pieces) state) :
    Supplied call strings turns pieces (state.printed putc call strings piece) := by
  have hroom := hsupplied.room
  rw [wordsTaken_cons] at hroom
  refine ⟨by change state.esp + piece.takes + _ ≤ _; omega, fun other hother hstring => ?_⟩
  refine hsupplied.strings other (List.mem_cons_of_mem _ ?_) hstring
  rwa [List.drop_drop]

/-- Two states at the end of the same format are the same. -/
theorem Finished.unique {other : FormatState σ}
    (hlast : Finished putc call strings pieces length state last)
    (hother : Finished putc call strings pieces length state other) : last = other := by
  cases last
  cases other
  obtain rfl := hlast.buf.trans hother.buf.symm
  obtain rfl := hlast.esp.trans hother.esp.symm
  obtain rfl := hlast.out.trans hother.out.symm
  obtain rfl := hlast.inspected.trans hother.inspected.symm
  rfl

/-- A byte inside a conversion prints nothing. -/
theorem Finished.skip
    (hfinished : Finished putc call strings pieces length state.inspect.next last) :
    Finished putc call strings pieces (length + 1) state last where
  buf := hfinished.buf.trans (Nat.add_right_comm ..)
  esp := hfinished.esp
  out := hfinished.out
  inspected := hfinished.inspected.trans (List.append_assoc ..)

/-- A byte that completes a piece prints what the piece stands for. -/
theorem Finished.print
    (hfinished : Finished putc call strings pieces length (state.printed putc call strings piece)
      last) : Finished putc call strings (piece :: pieces) (length + 1) state last where
  buf := hfinished.buf.trans (Nat.add_right_comm ..)
  esp := by
    rw [hfinished.esp, wordsTaken_cons, ← Nat.add_assoc]
    rfl
  out := by
    rw [hfinished.out, withWords, List.flatMap_cons, List.foldl_append, List.drop_drop]
    rfl
  inspected := hfinished.inspected.trans (List.append_assoc ..)

/-- From a place inside a format on, the loop prints what is left of it and stops at its NUL. -/
theorem formatLoop_eq {left : Nat} {mode : FormatMode} {format : List UInt8}
    (hreads : Reads (fun addr => some (call.mem addr)) state.buf format)
    (hcomplete : modeAfter mode format = .text) (hleft : format.length < left)
    (hsupplied : Supplied call strings turns (directives mode format) state) :
    ∃ last, formatLoop putc call turns left mode state = some last ∧
      Finished putc call strings (directives mode format) format.length state last := by
  -- one turn of the loop for each byte; the mode says whether a conversion is open
  induction format generalizing left mode state with
  | nil =>
      obtain rfl : mode = .text := hcomplete
      obtain ⟨left, rfl⟩ := Nat.exists_eq_succ_of_ne_zero (by omega : left ≠ 0)
      have hends : call.mem state.buf = NUL := Option.some.inj hreads.ends
      exact ⟨state.inspect, by rw [formatLoop, if_pos hends], rfl, rfl, rfl, rfl⟩
  | cons c rest ih =>
      obtain ⟨left, rfl⟩ := Nat.exists_eq_succ_of_ne_zero (by omega : left ≠ 0)
      have hchar : call.mem state.buf = c := Option.some.inj (hreads.char 0 (Nat.succ_pos _))
      have hless : rest.length < left := Nat.lt_of_succ_lt_succ hleft
      cases mode with
      | text =>
          have hnul : c ≠ NUL := fun heq => hreads.nul (heq ▸ List.mem_cons_self)
          rw [formatLoop, hchar, if_neg hnul]
          rw [modeAfter] at hcomplete
          rw [directives] at hsupplied ⊢
          by_cases hpercent : c = 37
          · rw [if_pos hpercent] at hcomplete hsupplied ⊢
            rw [if_pos hpercent]
            have hnext : Supplied call strings turns (directives (.conversion false) rest)
                state.inspect.next := ⟨hsupplied.room, hsupplied.strings⟩
            obtain ⟨last, hloop, hlast⟩ := ih hreads.tail hcomplete hless hnext
            exact ⟨last, hloop, hlast.skip⟩
          · rw [if_neg hpercent] at hcomplete hsupplied ⊢
            rw [if_neg hpercent]
            obtain ⟨last, hloop, hlast⟩ := ih hreads.tail hcomplete hless (hsupplied.rest putc)
            exact ⟨last, hloop, hlast.print⟩
      | conversion alternate =>
          rw [formatLoop, hchar]
          rw [modeAfter] at hcomplete
          rw [directives] at hsupplied ⊢
          by_cases hhash : c = 35
          · rw [if_pos hhash] at hcomplete hsupplied ⊢
            rw [if_pos hhash]
            have hnext : Supplied call strings turns (directives (.conversion true) rest)
                state.inspect.next := ⟨hsupplied.room, hsupplied.strings⟩
            obtain ⟨last, hloop, hlast⟩ := ih hreads.tail hcomplete hless hnext
            exact ⟨last, hloop, hlast.skip⟩
          · rw [if_neg hhash] at hcomplete hsupplied ⊢
            rw [if_neg hhash]
            obtain ⟨last, hloop, hlast⟩ := ih hreads.tail hcomplete hless (hsupplied.rest putc)
            have hroom := hsupplied.room
            rw [wordsTaken_cons] at hroom
            have hroom' : state.inspect.esp +
                (Directive.conversion alternate (specifierOf c)).takes ≤ call.words.length := by
              change state.esp + _ ≤ _
              omega
            have hstring := fun heq : specifierOf c = .s =>
              hsupplied.strings _ List.mem_cons_self ⟨alternate, congrArg _ heq⟩
            rw [convert_eq putc rfl hroom' hstring]
            exact ⟨last, hloop, hlast.print⟩

/-! ## Formats that end inside a conversion -/

theorem FormatState.take_keeps {words : List UInt32} {print : Nat → σ → Option σ}
    (htake : state.take words print = some last) :
    last.buf = state.buf ∧ last.inspected = state.inspected := by
  obtain ⟨word, -, htake⟩ := Option.bind_eq_some_iff.mp htake
  obtain ⟨out, -, htake⟩ := Option.bind_eq_some_iff.mp htake
  obtain rfl := Option.some.inj htake
  exact ⟨rfl, rfl⟩

/-- The inner switch looks at no byte but the one it switches on. -/
theorem convert_keeps {alternate : Bool} {specifier : Specifier}
    (hconvert : convert putc call turns alternate specifier state = some last) :
    last.buf = state.buf ∧ last.inspected = state.inspected := by
  cases specifier with
  | percent | unknown =>
      obtain rfl := Option.some.inj hconvert
      exact ⟨rfl, rfl⟩
  | x | u | d | c | s => exact FormatState.take_keeps hconvert

/-- The loop looks at the byte it stands at, whatever it does then. -/
theorem formatLoop_looks {left : Nat} {mode : FormatMode}
    (hloop : formatLoop putc call turns left mode state = some last) :
    ∀ addr ∈ state.inspected ++ [state.buf], addr ∈ last.inspected := by
  induction left generalizing mode state with
  | zero => simp [formatLoop] at hloop
  | succ left ih =>
      intro addr haddr
      cases mode with
      | text =>
          rw [formatLoop] at hloop
          split at hloop
          · obtain rfl := Option.some.inj hloop
            exact haddr
          · split at hloop <;> exact ih hloop addr (List.mem_append_left _ haddr)
      | conversion alternate =>
          rw [formatLoop] at hloop
          split at hloop
          · exact ih hloop addr (List.mem_append_left _ haddr)
          · obtain ⟨converted, hconvert, hloop⟩ := Option.bind_eq_some_iff.mp hloop
            refine ih hloop addr (List.mem_append_left _ ?_)
            change addr ∈ converted.inspected
            rw [(convert_keeps hconvert).2]
            exact haddr

/-- At the NUL inside a conversion the pointer moves on, and the loop looks at what is behind. -/
theorem formatLoop_past {left : Nat} {mode : FormatMode} {alternate : Bool} {format : List UInt8}
    (hreads : Reads (fun addr => some (call.mem addr)) state.buf format)
    (hinside : modeAfter mode format = .conversion alternate)
    (hloop : formatLoop putc call turns left mode state = some last) :
    state.buf + format.length + 1 ∈ last.inspected := by
  induction format generalizing left mode state with
  | nil =>
      obtain rfl : mode = .conversion alternate := hinside
      cases left with
      | zero => simp [formatLoop] at hloop
      | succ left =>
          have hends : call.mem state.buf = NUL := Option.some.inj hreads.ends
          rw [formatLoop, hends, if_neg (by decide)] at hloop
          exact formatLoop_looks hloop _ (List.mem_append_right _ (List.mem_singleton_self _))
  | cons c rest ih =>
      have hchar : call.mem state.buf = c := Option.some.inj (hreads.char 0 (Nat.succ_pos _))
      rw [List.length_cons, Nat.add_comm rest.length, ← Nat.add_assoc]
      cases left with
      | zero => simp [formatLoop] at hloop
      | succ left =>
          cases mode with
          | text =>
              have hnul : c ≠ NUL := fun heq => hreads.nul (heq ▸ List.mem_cons_self)
              rw [formatLoop, hchar, if_neg hnul] at hloop
              rw [modeAfter] at hinside
              split at hloop
              · next hpercent =>
                rw [if_pos hpercent] at hinside
                exact ih hreads.tail hinside hloop
              · next hpercent =>
                rw [if_neg hpercent] at hinside
                exact ih hreads.tail hinside hloop
          | conversion current =>
              rw [formatLoop, hchar] at hloop
              rw [modeAfter] at hinside
              split at hloop
              · next hhash =>
                rw [if_pos hhash] at hinside
                exact ih hreads.tail hinside hloop
              · next hhash =>
                rw [if_neg hhash] at hinside
                obtain ⟨converted, hconvert, hloop⟩ := Option.bind_eq_some_iff.mp hloop
                have hbuf : converted.next.buf = state.buf + 1 :=
                  congrArg (· + 1) (convert_keeps hconvert).1
                have hpast := ih (hbuf ▸ hreads.tail) hinside hloop
                rwa [hbuf] at hpast

end

/-! ## Both functions -/

section

variable {σ : Type} {putc : σ → UInt8 → σ} {call : FormatCall} {strings : Nat → List UInt8}
  {start : Nat} {format : List UInt8} {out : σ}

variable (strings) in
/-- An expansion is as long as each of its pieces at the least. -/
theorem expand_length_le {piece : Directive × UInt32}
    (hpiece : piece ∈ withWords (directives .text format) call.words) :
    (piece.1.expand strings piece.2).length ≤ (expansion strings format call.words).length := by
  obtain ⟨front, back, hpieces⟩ := List.append_of_mem hpiece
  rw [expansion, hpieces, List.flatMap_append, List.flatMap_cons, List.length_append,
    List.length_append]
  omega

theorem formatted_interprets (hcomplete : CompleteFormat format)
    (hreads : Reads (fun addr => some (call.mem addr)) start format)
    (hwords : wordsTaken (directives .text format) ≤ call.words.length)
    (hstrings : StringsRead call strings format) :
    Interprets call strings start format putc out
      (fun turns => formatted putc call turns start out) := by
  have hloop : ∀ turns > format.length + (expansion strings format call.words).length,
      ∃ last, formatLoop putc call turns turns .text ⟨start, 0, out, []⟩ = some last ∧
        Finished putc call strings (directives .text format) format.length
          ⟨start, 0, out, []⟩ last := by
    intro turns hturns
    have hless : format.length < turns := by omega
    have hroom : 0 + wordsTaken (directives .text format) ≤ call.words.length := by
      rwa [Nat.zero_add]
    apply formatLoop_eq hreads hcomplete hless
    refine ⟨hroom, ?_⟩
    rintro ⟨piece, word⟩ hpiece ⟨alternate, rfl⟩
    have hlength := expand_length_le strings hpiece
    refine ⟨hstrings _ hpiece ⟨alternate, rfl⟩, ?_⟩
    change (strings word.toNat).length ≤ _ at hlength
    change (strings word.toNat).length < turns
    omega
  obtain ⟨last, -, hlast⟩ := hloop _ (Nat.lt_succ_self _)
  refine ⟨last, ⟨format.length + (expansion strings format call.words).length + 1,
    fun turns hturns => ?_⟩, fun addr haddr => ?_, ?_, hlast.out⟩
  · obtain ⟨other, hother, hfinished⟩ := hloop turns hturns
    have hvalue : other.buf - start = format.length := by
      rw [hfinished.buf]
      exact Nat.add_sub_cancel_left ..
    change formatted putc call turns start out = _
    rw [formatted, hother, Option.map_some, hvalue, hfinished.unique hlast]
  · rw [hlast.inspected, List.nil_append, List.mem_range'_1] at haddr
    change start ≤ addr ∧ addr < start + (format.length + 1) at haddr
    omega
  · exact hlast.esp.trans (Nat.zero_add _)

theorem not_interprets (hincomplete : ¬ CompleteFormat format)
    (hreads : Reads (fun addr => some (call.mem addr)) start format) :
    ¬ Interprets call strings start format putc out
      (fun turns => formatted putc call turns start out) := by
  rintro ⟨last, ⟨enough, hrun⟩, hinspected, -⟩
  obtain ⟨alternate, hinside⟩ : ∃ alternate, modeAfter .text format = .conversion alternate := by
    cases hmode : modeAfter .text format with
    | text => exact absurd hmode hincomplete
    | conversion alternate => exact ⟨alternate, rfl⟩
  obtain ⟨loop, hloop, heq⟩ := Option.map_eq_some_iff.mp (hrun enough le_rfl)
  obtain rfl : loop = last := congrArg Prod.snd heq
  have hpast : start + format.length + 1 ∈ loop.inspected := formatLoop_past hreads hinside hloop
  have hbound := hinspected _ hpast
  omega

end

/-- The pieces of a text without a `%` are its characters. -/
theorem directives_plain (hplain : 37 ∉ format) :
    CompleteFormat format ∧ directives .text format = format.map .literal := by
  induction format with
  | nil => exact ⟨rfl, rfl⟩
  | cons c rest ih =>
      have hc : c ≠ 37 := fun heq => hplain (heq ▸ List.mem_cons_self)
      obtain ⟨hcomplete, hrest⟩ := ih fun hmem => hplain (List.mem_cons_of_mem _ hmem)
      rw [CompleteFormat, modeAfter, directives, if_neg hc, if_neg hc, hrest]
      exact ⟨hcomplete, rfl⟩

theorem withWords_literal (text : List UInt8) (words : List UInt32) :
    withWords (text.map .literal) words = text.map fun c => (.literal c, words.headD 0) := by
  induction text with
  | nil => rfl
  | cons c rest ih =>
      rw [List.map_cons, withWords, List.map_cons, ← ih]
      rfl

theorem wordsTaken_literal (text : List UInt8) : wordsTaken (text.map .literal) = 0 := by
  induction text with
  | nil => rfl
  | cons c rest ih => rw [List.map_cons, wordsTaken_cons, ih, Directive.takes]

/-- A text without a `%` is printed character by character, as `Display.printf` has it. -/
theorem printf_plain {currScheduled : Terminal} {d : Display} (hplain : 37 ∉ format)
    (hreads : Reads (fun addr => some (call.mem addr)) start format) :
    ∃ last, (∃ enough, ∀ turns ≥ enough,
      printf currScheduled call turns start d = some (format.length, last)) ∧
      last.out = d.printf currScheduled format := by
  obtain ⟨hcomplete, hpieces⟩ := directives_plain hplain
  have hstrings : StringsRead call (fun _ => []) format := by
    rintro piece hpiece ⟨alternate, hstring⟩
    rw [hpieces, withWords_literal] at hpiece
    obtain ⟨c, -, rfl⟩ := List.mem_map.mp hpiece
    simp at hstring
  have hwords : wordsTaken (directives .text format) ≤ call.words.length := by
    rw [hpieces, wordsTaken_literal]
    exact Nat.zero_le _
  have hinterprets : Interprets call (fun _ => []) start format
      (fun d c => d.putc currScheduled c) d
      (fun turns => printf currScheduled call turns start d) :=
    formatted_interprets hcomplete hreads hwords hstrings
  obtain ⟨last, hrun, -, -, hout⟩ := hinterprets
  refine ⟨last, hrun, hout.trans ?_⟩
  have hexpansion : expansion (fun _ => []) format call.words = format := by
    rw [expansion, hpieces, withWords_literal, List.flatMap_map]
    exact List.flatMap_singleton' format
  rw [hexpansion]
  rfl

/-- For every format, words and display, `printf` and `printf2` interpret the format exactly when
it does not end inside a conversion. -/
theorem formats_interpreted_iff {call : FormatCall} {strings : Nat → List UInt8} {start : Nat}
    {format : List UInt8} (hreads : Reads (fun addr => some (call.mem addr)) start format)
    (hwords : wordsTaken (directives .text format) ≤ call.words.length)
    (hstrings : StringsRead call strings format) (currScheduled : Terminal) (d : Display) :
    (Interprets call strings start format (fun d c => d.putc currScheduled c) d
        (fun turns => printf currScheduled call turns start d) ∧
      Interprets call strings start format Display.putc2 d
        (fun turns => printf2 call turns start d)) ↔ CompleteFormat format := by
  constructor
  · rintro ⟨hprintf, -⟩
    by_contra hincomplete
    exact not_interprets hincomplete hreads hprintf
  · intro hcomplete
    exact ⟨formatted_interprets hcomplete hreads hwords hstrings,
      formatted_interprets hcomplete hreads hwords hstrings⟩

/-- A string and a number behind a literal. -/
theorem formats_interpreted_string :
    CompleteFormat (ascii ['a', '%', 's', '%', '#', 'x']) ∧
      ∀ d : Display, Interprets
        ⟨cstring (ascii ['a', '%', 's', '%', '#', 'x']), [5, 11], fun _ => 0⟩
        (fun _ => ascii ['x']) 0 (ascii ['a', '%', 's', '%', '#', 'x']) Display.putc2 d
        (fun turns => printf2 ⟨cstring (ascii ['a', '%', 's', '%', '#', 'x']), [5, 11], fun _ => 0⟩
          turns 0 d) := by
  have hcomplete : CompleteFormat (ascii ['a', '%', 's', '%', '#', 'x']) := by decide
  refine ⟨hcomplete, fun d => ((formats_interpreted_iff ⟨?_, ?_, ?_⟩ ?_ ?_ .T1 d).mpr hcomplete).2⟩
  · decide
  · decide
  · decide
  · decide
  · -- the string that the first word points at is the last byte of the format
    have hpieces : withWords (directives .text (ascii ['a', '%', 's', '%', '#', 'x'])) [5, 11] =
        [(.literal 97, 5), (.conversion false .s, 5), (.conversion true .x, 11)] := by decide
    intro piece hpiece hstring
    change piece ∈ withWords _ [5, 11] at hpiece
    rw [hpieces] at hpiece
    obtain ⟨alternate, hpiece'⟩ := hstring
    have hword : piece.2 = 5 := by
      simp only [List.mem_cons, List.not_mem_nil, or_false] at hpiece
      rcases hpiece with rfl | rfl | rfl
      · simp at hpiece'
      · rfl
      · simp at hpiece'
    rw [hword]
    exact ⟨by decide, by decide, by decide⟩

/-- The format `%` is followed by its NUL, and that by a text of its own: the text is printed
and counted. -/
theorem formats_run_on :
    ∃ last, printf .T1 ⟨cstring [37, 0, 65], [], fun _ => 0⟩ 4 0 (boot zeroMemory).display =
        some (3, last) ∧ last.out = (boot zeroMemory).display.putc .T1 65 ∧ 2 ∈ last.inspected ∧
      ¬ (Interprets ⟨cstring [37, 0, 65], [], fun _ => 0⟩ (fun _ => []) 0 [37]
          (fun d c => d.putc .T1 c) (boot zeroMemory).display
          (fun turns => printf .T1 ⟨cstring [37, 0, 65], [], fun _ => 0⟩ turns 0
            (boot zeroMemory).display)) := by
  refine ⟨_, rfl, rfl, by decide, not_interprets (by decide) ⟨?_, ?_, ?_⟩⟩
  · decide
  · decide
  · decide

end Ece391
