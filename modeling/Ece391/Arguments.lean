import Ece391.Descriptors
import Mathlib.Data.List.TakeWhile

/-! # Arguments and the slots that are used again

`execute` copies the arguments into the PCB without the byte that ends them, so what
`getargs` finds behind them is what the slot held before. `halt` clears the arguments of
its process, and the slots are empty at boot: a free slot never holds a byte.
-/

namespace Ece391

open Function Transition

/-! ## Events that leave the arguments alone -/

theorem Kernel.read_args {k after : Kernel} {img : Image} {fd nbytes : Int} {buf : Bool}
    {result : SysReturn} (hread : k.read img fd buf nbytes = some (result, after)) :
    SameArgs k after := by
  rcases Kernel.read_cases hread with ⟨-, rfl⟩ | ⟨fops, -, hread⟩
  · exact .refl _
  · by_cases hfile : fops = .file
    · subst hfile
      unfold Kernel.fopsRead Kernel.fileRead at hread
      dsimp only at hread
      split at hread
      · obtain ⟨-, rfl⟩ := Prod.mk.inj (Option.some.inj hread)
        exact .refl _
      · split at hread
        · obtain ⟨-, rfl⟩ := Prod.mk.inj (Option.some.inj hread)
          exact .refl _
        · obtain ⟨pcb, hpcb, heq⟩ := Option.map_eq_some_iff.mp hread
          obtain ⟨-, rfl⟩ := Kernel.derefPcb_eq_some.mp hpcb
          obtain ⟨-, rfl⟩ := Prod.mk.inj heq
          exact .update rfl rfl
    · obtain ⟨result', next, heq, hpcb⟩ := k.fopsRead_pcb img fd nbytes hfile
      rw [heq] at hread
      obtain ⟨-, rfl⟩ := Prod.mk.inj (Option.some.inj hread)
      exact .of_pcb hpcb

/-- Quiet events leave the arguments alone. -/
theorem step_args {img : Image} {k after : Kernel} {event : Event} (hquiet : event.Quiet)
    (hstep : step img k event = some after) : SameArgs k after := by
  cases event with
  | tick | execute | halt => exact hquiet.elim
  | key c =>
      obtain rfl := Option.some.inj hstep
      exact .of_pcb rfl
  | rtc =>
      obtain rfl := Option.some.inj hstep
      exact .of_pcb rfl
  | read fd buf nbytes =>
      obtain ⟨⟨result, last⟩, hread, rfl⟩ := Option.map_eq_some_iff.mp hstep
      exact Kernel.read_args hread
  | write fd buf nbytes =>
      obtain ⟨⟨result, last⟩, hwrite, rfl⟩ := Option.map_eq_some_iff.mp hstep
      rcases Kernel.write_cases hwrite with ⟨-, rfl⟩ | ⟨fops, -, heq⟩
      · exact .refl _
      · obtain rfl := congrArg Prod.snd heq
        exact .of_pcb (k.fopsWrite_pcb buf nbytes)
  | open_ filename =>
      obtain ⟨⟨result, last⟩, hopen, rfl⟩ := Option.map_eq_some_iff.mp hstep
      rcases Kernel.open_cases hopen with ⟨-, rfl, -⟩ | ⟨entry, fd, fops, -, -, rfl⟩
      · exact .refl _
      · cases fops <;> exact .update rfl rfl
  | close fd =>
      obtain ⟨⟨value, last⟩, hclose, rfl⟩ := Option.map_eq_some_iff.mp hstep
      exact Kernel.close_args hclose
  | getargs buf nbytes =>
      simp only [step, Option.map_eq_some_iff] at hstep
      obtain ⟨⟨result, last⟩, hargs, rfl⟩ := hstep
      obtain rfl := Kernel.getargs_same hargs
      exact .refl _
  | vidmap screenStart =>
      obtain ⟨⟨result, last⟩, hvidmap, rfl⟩ := Option.map_eq_some_iff.mp hstep
      exact .of_pcb (Kernel.vidmap_pcb hvidmap)

/-- A shell is executed without arguments. -/
theorem Kernel.execute_shell_args {k after : Kernel} {img : Image} {regs : Regs}
    {result : ExecReturn}
    (hexecute : k.execute img (some shellCommand) regs = some (result, after)) :
    SameArgs k after ∧ ∀ i, after.pcbSlots i = 0 → k.pcbSlots i = 0 := by
  rcases Kernel.execute_cases hexecute with ⟨-, -, hsame, hpcb, -⟩ | hstarted
  · exact ⟨.of_pcb hpcb, fun i => by rw [hsame.pcbSlots]; exact id⟩
  · obtain ⟨program, hlaunching, hcount, -, hlaunched⟩ := hstarted
    rw [Kernel.launching_eq_some hcount] at hlaunching
    obtain ⟨pcbs, hstore, hafter⟩ := hlaunched.copied
    rw [findProgram_args hlaunching] at hstore
    obtain rfl := Option.some.inj hstore
    refine ⟨hafter, fun i hfree => ?_⟩
    rw [hlaunched.pcbSlots] at hfree
    by_cases hi : i = slotSearch k.pcbSlots
    · subst hi
      rw [update_self] at hfree
      omega
    · rwa [update_of_ne hi] at hfree

/-- `halt` clears the arguments of its process and frees its slot only. -/
theorem Kernel.halt_args {k after : Kernel} {img : Image} {status : UInt8} {regs : Regs}
    {result : HaltReturn} (hhalt : k.halt img status regs = some (result, after)) :
    (∀ i, after.pcbSlots i = 0 → i = k.head k.currScheduled - 1 ∨ k.pcbSlots i = 0) ∧
      (∀ addr ≠ k.scheduledPcb, (after.pcb addr).args = (k.pcb addr).args) ∧
      ∀ j < MAX_ARGS, (after.pcb k.scheduledPcb).args j = NUL := by
  obtain ⟨released, hreleased, hcases⟩ := Kernel.halt_cases hhalt
  have hfreed : ∀ i, released.pcbSlots i = 0 →
      i = k.head k.currScheduled - 1 ∨ k.pcbSlots i = 0 := by
    intro i hfree
    rw [hreleased.pcbSlots] at hfree
    by_cases hi : i = k.head k.currScheduled - 1
    · exact .inl hi
    · rw [update_of_ne hi] at hfree
      exact .inr hfree
  rcases hcases with ⟨-, -, -, rfl⟩ | ⟨-, executed, hexecuted, rfl⟩
  · exact ⟨hfreed, hreleased.others, hreleased.cleared⟩
  · obtain ⟨hargs, hslots⟩ := Kernel.execute_shell_args hexecuted
    refine ⟨fun i hfree => hfreed i (hslots i hfree), fun addr haddr => ?_, fun j hj => ?_⟩
    · rw [hargs]
      exact hreleased.others addr haddr
    · rw [hargs]
      exact hreleased.cleared j hj

/-! ## The copy into a slot -/

theorem Pcb.storeByte_args (pcb : Pcb) {j : Nat} (hlt : j < MAX_ARGS) (byte : UInt8) :
    pcb.storeByte (Pcb.argsOffset + j) byte = { pcb with args := update pcb.args j byte } := by
  simp only [MAX_ARGS] at hlt
  simp only [Pcb.argsOffset]
  unfold Pcb.storeByte
  iterate 10 rw [if_neg (by omega)]
  rw [if_pos (by omega), Nat.add_sub_cancel_left]

theorem Pcb.loadByte_args (pcb : Pcb) {j : Nat} (hlt : j < MAX_ARGS) :
    pcb.loadByte (Pcb.argsOffset + j) = pcb.args j := by
  simp only [MAX_ARGS] at hlt
  simp only [Pcb.argsOffset]
  unfold Pcb.loadByte
  iterate 10 rw [if_neg (by omega)]
  rw [if_pos (by omega), Nat.add_sub_cancel_left]

/-- An address among the arguments of a PCB. -/
theorem argsAddr {base j : Nat} (hbase : base % _8KB = 0) (hlt : j < MAX_ARGS) :
    (base + Pcb.argsOffset + j) / _8KB * _8KB = base ∧
      (base + Pcb.argsOffset + j) % _8KB = Pcb.argsOffset + j := by
  simp only [_8KB, Pcb.argsOffset, MAX_ARGS] at *
  omega

/-- An array with bytes copied to an offset. -/
def argsWith (args : Nat → UInt8) (offset : Nat) (bytes : List UInt8) (j : Nat) : UInt8 :=
  if offset ≤ j ∧ j < offset + bytes.length then bytes.getD (j - offset) NUL else args j

theorem argsWith_nil (args : Nat → UInt8) (offset : Nat) : argsWith args offset [] = args := by
  funext j
  exact if_neg (by simp only [List.length_nil]; omega)

theorem argsWith_cons (args : Nat → UInt8) (offset : Nat) (byte : UInt8) (rest : List UInt8) :
    argsWith args offset (byte :: rest) = argsWith (update args offset byte) (offset + 1) rest := by
  funext j
  simp only [argsWith, List.length_cons]
  by_cases hfirst : j = offset
  · subst hfirst
    rw [if_pos (by omega), if_neg (by omega), update_self, Nat.sub_self]
    rfl
  · rw [update_of_ne hfirst]
    by_cases hrange : offset + 1 ≤ j ∧ j < offset + 1 + rest.length
    · obtain ⟨d, rfl⟩ := Nat.exists_eq_add_of_le hrange.1
      rw [if_pos hrange, if_pos (by omega), Nat.add_sub_cancel_left,
        show offset + 1 + d - offset = d + 1 by omega]
      rfl
    · rw [if_neg hrange, if_neg (by omega)]

/-- Bytes copied into the arguments of one PCB change nothing else. -/
theorem storeKernelBytes_eq {pcbs after : PcbMemory} {base offset : Nat} {bytes : List UInt8}
    (hbase : base % _8KB = 0) (hfits : offset + bytes.length ≤ MAX_ARGS)
    (hstore : storeKernelBytes pcbs (base + Pcb.argsOffset + offset) bytes = some after) :
    after = update pcbs base
      { pcbs base with args := argsWith (pcbs base).args offset bytes } := by
  induction bytes generalizing pcbs offset with
  | nil =>
      obtain rfl := Option.some.inj hstore
      rw [argsWith_nil, update_eq_self]
  | cons byte rest ih =>
      simp only [storeKernelBytes, Option.bind_eq_some_iff] at hstore
      obtain ⟨middle, hbyte, hrest⟩ := hstore
      simp only [List.length_cons] at hfits
      change storeKernelBytes middle (base + Pcb.argsOffset + (offset + 1)) rest =
          some after at hrest
      have hafter := ih (by omega) hrest
      unfold storeKernelByte at hbyte
      obtain ⟨-, hbyte⟩ := Option.ite_none_right_eq_some.mp hbyte
      dsimp only at hbyte
      obtain ⟨hblock, hoffset⟩ := argsAddr hbase (by omega : offset < MAX_ARGS)
      rw [hblock, hoffset, Pcb.storeByte_args _ (by omega)] at hbyte
      obtain rfl := Option.some.inj hbyte
      rw [hafter, update_self, update_idem, argsWith_cons]

theorem storeKernelBytes_args {pcbs after : PcbMemory} {base offset : Nat} {bytes : List UInt8}
    (hbase : base % _8KB = 0) (hfits : offset + bytes.length ≤ MAX_ARGS)
    (hstore : storeKernelBytes pcbs (base + Pcb.argsOffset + offset) bytes = some after) :
    (∀ addr ≠ base, after addr = pcbs addr) ∧
      (after base).args = argsWith (pcbs base).args offset bytes := by
  obtain rfl := storeKernelBytes_eq hbase hfits hstore
  exact ⟨fun addr haddr => update_of_ne haddr _ _, by rw [update_self]⟩

/-! ## What a slot was given -/

/-- The arguments in a command: what follows its first word and the spaces behind it. -/
def argumentPart (command : List UInt8) : List UInt8 :=
  ((command.dropWhile fun c => c ≠ NUL ∧ c ≠ SPACE_CHAR).dropWhile
    fun c => c = SPACE_CHAR).takeWhile fun c => c ≠ NUL

/-- The word fills `filename` at the most, and the arguments and a NUL byte fit into
`args`. -/
def ShortCommand (command : List UInt8) : Prop :=
  (command.takeWhile fun c => c ≠ NUL ∧ c ≠ SPACE_CHAR).length ≤ 32 ∧
    (argumentPart command).length < MAX_ARGS

theorem commandArgs_of_word {command : List UInt8}
    (hword : (command.takeWhile fun c => c ≠ NUL ∧ c ≠ SPACE_CHAR).length ≤ 32) :
    commandArgs command = argumentPart command := by
  unfold commandArgs argumentPart commandWord
  have hdrop : command.drop (command.takeWhile fun c => c ≠ NUL ∧ c ≠ SPACE_CHAR).length =
      command.dropWhile fun c => c ≠ NUL ∧ c ≠ SPACE_CHAR := by
    calc command.drop (command.takeWhile fun c => c ≠ NUL ∧ c ≠ SPACE_CHAR).length
        = ((command.takeWhile fun c => c ≠ NUL ∧ c ≠ SPACE_CHAR) ++
            command.dropWhile fun c => c ≠ NUL ∧ c ≠ SPACE_CHAR).drop
              (command.takeWhile fun c => c ≠ NUL ∧ c ≠ SPACE_CHAR).length := by
          rw [List.takeWhile_append_dropWhile]
      _ = command.dropWhile fun c => c ≠ NUL ∧ c ≠ SPACE_CHAR := List.drop_left
  rw [List.take_of_length_le hword, hdrop]

theorem commandArgs_eq {command : List UInt8} (hshort : ShortCommand command) :
    commandArgs command = argumentPart command := commandArgs_of_word hshort.1

/-- The slots' arguments after an event: `execute` gives a slot those of its command, and a
process that halts leaves none. -/
def givenArgs (img : Image) (k : Kernel) (given : Nat → List UInt8) : Event → Nat → List UInt8
  | .execute command _ =>
      match k.launching img command with
      | some _ => update given (slotSearch k.pcbSlots) (argumentPart (command.getD []))
      | none => given
  | .halt _ _ => update given (k.head k.currScheduled - 1) []
  | _ => given

theorem getD_behind {text : List UInt8} {j : Nat} (hle : text.length ≤ j) :
    text.getD j NUL = NUL := by
  rw [List.getD_eq_getElem?_getD, List.getElem?_eq_none hle]
  rfl

/-- Every slot holds what it was given and nothing behind it, and a free one nothing. -/
structure ArgsHeld (k : Kernel) (given : Nat → List UInt8) : Prop where
  short : ∀ i, (given i).length < MAX_ARGS
  text : ∀ i, NUL ∉ given i
  free : ∀ i < MAX_PROCESS_COUNT, k.pcbSlots i = 0 → given i = []
  held : ∀ i < MAX_PROCESS_COUNT, ∀ j < MAX_ARGS,
    (k.pcb (getPCB (i + 1))).args j = (given i).getD j NUL

namespace ArgsHeld

variable {k after : Kernel} {given : Nat → List UInt8}

theorem same (hheld : ArgsHeld k given) (hslots : after.pcbSlots = k.pcbSlots)
    (hargs : SameArgs k after) : ArgsHeld after given where
  short := hheld.short
  text := hheld.text
  free := by
    rw [hslots]
    exact hheld.free
  held i hi j hj := by rw [hargs, hheld.held i hi j hj]

/-- A program that is started finds its slot empty. -/
theorem launched {args : List UInt8} {regs : Regs} {i : Nat} (hheld : ArgsHeld k given)
    (hslot : i < MAX_PROCESS_COUNT) (hfree : k.pcbSlots i = 0)
    (hlaunched : Launched k i args regs after) (hshort : args.length < MAX_ARGS)
    (htext : NUL ∉ args) : ArgsHeld after (update given i args) := by
  obtain ⟨pcbs, hstore, hafter⟩ := hlaunched.copied
  change storeKernelBytes k.pcb (getPCB (i + 1) + Pcb.argsOffset + 0) args = some pcbs at hstore
  obtain ⟨hothers, hargs⟩ := storeKernelBytes_args (getPCB_mod (i + 1)) (by omega) hstore
  refine ⟨fun other => ?_, fun other => ?_, fun other hother hnone => ?_,
    fun other hother j hj => ?_⟩
  · by_cases heq : other = i
    · subst heq
      rwa [update_self]
    · rw [update_of_ne heq]
      exact hheld.short other
  · by_cases heq : other = i
    · subst heq
      rwa [update_self]
    · rw [update_of_ne heq]
      exact hheld.text other
  · rw [hlaunched.pcbSlots] at hnone
    by_cases heq : other = i
    · subst heq
      rw [update_self] at hnone
      omega
    · rw [update_of_ne heq] at hnone ⊢
      exact hheld.free other hother hnone
  · rw [hafter]
    by_cases heq : other = i
    · subst heq
      rw [hargs, update_self, argsWith]
      by_cases hin : j < args.length
      · rw [if_pos (by omega), Nat.sub_zero]
      · rw [if_neg (by omega), hheld.held other hother j hj, hheld.free other hother hfree,
          getD_behind (Nat.zero_le j), getD_behind (by omega)]
    · have hne : getPCB (other + 1) ≠ getPCB (i + 1) := by
        rw [Ne, getPCB_inj (by omega)]
        omega
      rw [hothers _ hne, update_of_ne heq, hheld.held other hother j hj]

/-- Freeing a slot whose arguments are cleared. -/
theorem released {n : Nat} (hheld : ArgsHeld k given) (hslots : ∀ i, after.pcbSlots i = 0 →
      i = n ∨ k.pcbSlots i = 0)
    (hothers : ∀ i < MAX_PROCESS_COUNT, i ≠ n → (after.pcb (getPCB (i + 1))).args =
      (k.pcb (getPCB (i + 1))).args)
    (hcleared : ∀ j < MAX_ARGS, (after.pcb (getPCB (n + 1))).args j = NUL) :
    ArgsHeld after (update given n []) := by
  refine ⟨fun other => ?_, fun other => ?_, fun other hother hnone => ?_,
    fun other hother j hj => ?_⟩
  all_goals
    by_cases heq : other = n
  · subst heq
    rw [update_self]
    decide
  · rw [update_of_ne heq]
    exact hheld.short other
  · subst heq
    rw [update_self]
    exact List.not_mem_nil
  · rw [update_of_ne heq]
    exact hheld.text other
  · subst heq
    rw [update_self]
  · rw [update_of_ne heq]
    exact hheld.free other hother ((hslots other hnone).resolve_left heq)
  · subst heq
    rw [hcleared j hj, update_self]
    rfl
  · rw [update_of_ne heq, hothers other hother heq, hheld.held other hother j hj]

end ArgsHeld

/-! ## Reading them -/

theorem loadKernelByte_args {pcbs : PcbMemory} {base j : Nat} (hbase : base % _8KB = 0)
    (hmapped : base + _8KB ≤ _8MB) (hlt : j < MAX_ARGS) :
    loadKernelByte pcbs (base + Pcb.argsOffset + j) = some ((pcbs base).args j) := by
  obtain ⟨hblock, hoffset⟩ := argsAddr hbase hlt
  have hpage : base + Pcb.argsOffset + j < _8MB := by
    simp only [_8KB, _8MB, Pcb.argsOffset, MAX_ARGS] at *
    omega
  rw [loadKernelByte, if_pos hpage, hblock, hoffset, Pcb.loadByte_args _ hlt]

/-- The search for the end of the text that starts at an address. -/
theorem scanNul_eq {pcbs : PcbMemory} {base length offset remaining : Nat} (hbase : base % _8KB = 0)
    (hmapped : base + _8KB ≤ _8MB) (hlength : offset + length < MAX_ARGS)
    (htext : ∀ j, offset ≤ j → j < offset + length → (pcbs base).args j ≠ NUL)
    (hend : (pcbs base).args (offset + length) = NUL) (hremaining : length < remaining) :
    Kernel.scanNul pcbs remaining (base + Pcb.argsOffset + offset) = some length := by
  induction length generalizing offset remaining with
  | zero =>
      obtain ⟨rest, rfl⟩ := Nat.exists_eq_add_of_lt hremaining
      rw [Nat.add_zero] at hend hlength
      have hfirst : loadKernelByte pcbs (base + Pcb.argsOffset + offset) = _ :=
        loadKernelByte_args hbase hmapped hlength
      rw [Nat.zero_add, Kernel.scanNul, hfirst, Option.bind_some]
      exact if_pos hend
  | succ length ih =>
      obtain ⟨rest, rfl⟩ := Nat.exists_eq_add_of_lt hremaining
      have hrest : Kernel.scanNul pcbs (length + 1 + rest) (base + Pcb.argsOffset + (offset + 1)) =
          some length :=
        ih (by omega) (fun j hle hlt => htext j (by omega) (by omega))
          (by rw [← hend]; congr 1; omega) (by omega)
      rw [Kernel.scanNul, loadKernelByte_args hbase hmapped (by omega), Option.bind_some,
        if_neg (htext offset le_rfl (by omega))]
      change (Kernel.scanNul pcbs _ (base + Pcb.argsOffset + (offset + 1))).map (· + 1) = _
      rw [hrest]
      rfl

/-- The PCB that `getargs` looks at holds a text and the NUL byte that ends it. -/
structure HoldsArgs (k : Kernel) (text : List UInt8) : Prop where
  displayed : ∃ p, 1 ≤ p ∧ p ≤ MAX_PROCESS_COUNT ∧ k.displayedPcb = getPCB p
  short : text.length < MAX_ARGS
  nonNul : NUL ∉ text
  held : ∀ j ≤ text.length, (k.pcb k.displayedPcb).args j = text.getD j NUL

theorem ArgsHeld.holds {k : Kernel} {given : Nat → List UInt8} {p : Nat} (hheld : ArgsHeld k given)
    (hshown : k.displayedPcb = getPCB p) (hpos : 1 ≤ p) (hle : p ≤ MAX_PROCESS_COUNT) :
    HoldsArgs k (given (p - 1)) where
  displayed := ⟨p, hpos, hle, hshown⟩
  short := hheld.short (p - 1)
  nonNul := hheld.text (p - 1)
  held j hj := by
    have hargs := hheld.held (p - 1) (by omega) j (lt_of_le_of_lt hj (hheld.short (p - 1)))
    rw [Nat.sub_add_cancel hpos] at hargs
    rw [hshown, hargs]

namespace HoldsArgs

variable {k : Kernel} {text out : List UInt8} {n : Nat}

theorem mapped (hholds : HoldsArgs k text) :
    k.displayedPcb % _8KB = 0 ∧ k.displayedPcb + _8KB ≤ _8MB := by
  obtain ⟨p, hpos, hle, hshown⟩ := hholds.displayed
  rw [hshown]
  refine ⟨getPCB_mod p, ?_⟩
  simp only [getPCB, _8MB, _8KB, MAX_PROCESS_COUNT] at hle ⊢
  omega

/-- The end of the text is found, and what follows depends on the size asked for. -/
theorem getargs_eq (hholds : HoldsArgs k text) (nbytes : Int) :
    k.getargs true nbytes =
      if text.length > toU32 (nbytes - 1) then some (failed, k)
      else (Kernel.loadKernelBytes k.pcb (k.displayedPcb + Pcb.argsOffset) (toU32 nbytes)).map
        fun out => (.returned 0 out, k) := by
  obtain ⟨hbase, hmapped⟩ := hholds.mapped
  have hshort := hholds.short
  have hscan : Kernel.scanNul k.pcb (_8MB - (k.displayedPcb + Pcb.argsOffset))
      (k.displayedPcb + Pcb.argsOffset + 0) = some text.length := by
    apply scanNul_eq hbase hmapped
    · omega
    · intro j _ hj
      rw [Nat.zero_add] at hj
      rw [hholds.held j hj.le, List.getD_eq_getElem?_getD, List.getElem?_eq_getElem hj,
        Option.getD_some]
      intro hnul
      exact hholds.nonNul (hnul ▸ List.getElem_mem hj)
    · rw [Nat.zero_add, hholds.held _ le_rfl, getD_behind le_rfl]
    · simp only [Pcb.argsOffset, MAX_ARGS, _8KB] at hshort hmapped ⊢
      omega
  unfold Kernel.getargs
  dsimp only
  rw [Nat.add_zero] at hscan
  rw [hscan, Option.bind_some, if_neg (show ¬ ((!true) = true ∧ toU32 nbytes ≠ 0) by simp)]

/-- With room for the text what is in memory from the arguments on is delivered, when all that
is copied is mapped. -/
theorem getargs (hholds : HoldsArgs k text) (hlength : text.length < n) (hn : n < 2 ^ 31) :
    k.getargs true n =
      (Kernel.loadKernelBytes k.pcb (k.displayedPcb + Pcb.argsOffset) n).map fun out =>
        (.returned 0 out, k) := by
  have hcount : toU32 (n : Int) = n := toU32_natCast (by omega)
  have hbound : ¬ text.length > toU32 ((n : Int) - 1) := by
    simp only [toU32]
    omega
  rw [hholds.getargs_eq, if_neg hbound, hcount]

/-- What is copied starts with the text and the NUL byte behind it. -/
theorem loaded (hholds : HoldsArgs k text) (hlength : text.length < n)
    (hload : Kernel.loadKernelBytes k.pcb (k.displayedPcb + Pcb.argsOffset) n = some out) :
    text ++ [NUL] <+: out := by
  have hshort := hholds.short
  obtain ⟨-, hload⟩ := Option.ite_none_right_eq_some.mp hload
  obtain rfl := Option.some.inj hload
  rw [List.prefix_iff_eq_take, ← List.map_take, List.take_range]
  apply List.ext_getElem
  · simp only [List.length_append, List.length_map, List.length_range, List.length_singleton]
    omega
  · intro j hj hj'
    rw [List.length_append, List.length_singleton] at hj
    obtain ⟨hblock, hoffset⟩ := argsAddr hholds.mapped.1 (show j < MAX_ARGS by omega)
    rw [List.getElem_map, List.getElem_range, hblock, hoffset, Pcb.loadByte_args _ (by omega),
      hholds.held j (by omega)]
    by_cases hin : j < text.length
    · rw [List.getElem_append_left hin, List.getD_eq_getElem?_getD, List.getElem?_eq_getElem hin,
        Option.getD_some]
    · rw [List.getElem_append_right (by omega), getD_behind (by omega)]
      simp

end HoldsArgs

/-! ## Every run -/

/-- The launches and exits of the runs in question. -/
def ShortArgs (img : Image) (k : Kernel) : Event → Prop
  | .execute command regs =>
      Disciplined img k (.execute command regs) ∧ ∀ text ∈ command, ShortCommand text
  | event => Disciplined img k event

/-- What the slots have been given in a run. -/
def givenIn (img : Image) (history : List (Fired Kernel Event)) : Nat → List UInt8 :=
  history.foldl (fun given fired => givenArgs img fired.pre given fired.event) fun _ => []

theorem Settled.argsHeld {img : Image} {k after : Kernel} {s : DisjointStacks Terminal Nat}
    {event : Event} {given : Nat → List UInt8} (hset : Settled img k s)
    (hallowed : ShortArgs img k event) (hheld : ArgsHeld k given)
    (hstep : Ece391.step img k event = some after) :
    ArgsHeld after (givenArgs img k given event) := by
  by_cases hquiet : event.Quiet
  · have hgiven : givenArgs img k given event = given := by
      cases event with
      | tick | execute | halt => exact hquiet.elim
      | key | rtc | read | write | open_ | close | getargs | vidmap => rfl
    rw [hgiven]
    exact hheld.same (step_same hquiet hstep).pcbSlots (step_args hquiet hstep)
  cases event with
  | tick ebp inner =>
      have hrunning : 3 < k.totalTerminal := by
        rw [hset.totalTerminal]
        decide
      have hrotated := Kernel.pitHandler_rotated hrunning hstep
      exact hheld.same hrotated.pcbSlots (.update hrotated.pcb rfl)
  | execute command regs =>
      obtain ⟨⟨result, last⟩, hexecute, rfl⟩ := Option.map_eq_some_iff.mp hstep
      change ArgsHeld last _
      unfold givenArgs
      dsimp only
      rcases Kernel.execute_cases hexecute with ⟨hrefused, -, hsame, hpcb, -⟩ | hstarted
      · rw [hrefused]
        exact hheld.same hsame.pcbSlots (.of_pcb hpcb)
      · obtain ⟨program, hlaunching, hcount, -, hlaunched⟩ := hstarted
        obtain ⟨hslot, hfree⟩ := hset.slotSearch_free hcount
        rw [hlaunching]
        -- a short command ends in the buffer, so that what is copied is what was given
        have hlaunching' := hlaunching
        rw [Kernel.launching_eq_some hcount] at hlaunching'
        obtain ⟨text, rfl, hfind⟩ := Option.bind_eq_some_iff.mp hlaunching'
        have hshort := hallowed.2 text rfl
        have hargs : program.args = argumentPart text := by
          rw [findProgram_args hfind, commandArgs_eq hshort]
        rw [Option.getD_some, ← hargs]
        refine hheld.launched hslot hfree hlaunched ?_ ?_
        · rw [hargs]
          exact hshort.2
        · rw [hargs]
          intro hnul
          simpa using List.mem_takeWhile_imp hnul
  | halt status regs =>
      obtain ⟨⟨result, last⟩, hhalt, rfl⟩ := Option.map_eq_some_iff.mp hstep
      obtain ⟨hpos, hle, -⟩ := hset.head_pos (hset.live k.currScheduled)
      have hown : getPCB (k.head k.currScheduled - 1 + 1) = k.scheduledPcb := by
        rw [Nat.sub_add_cancel hpos, Kernel.scheduledPcb]
      obtain ⟨hslots, hothers, hcleared⟩ := Kernel.halt_args hhalt
      refine hheld.released hslots (fun i hi hne => hothers _ ?_) fun j hj => ?_
      · rw [← hown, Ne, getPCB_inj (by omega)]
        omega
      · rw [hown, hcleared j hj]
  | key | rtc | read | write | open_ | close | getargs | vidmap => exact (hquiet trivial).elim

/-- A tick leaves the arguments alone: the shells are started without any. -/
theorem Kernel.pitHandler_args {k after : Kernel} {img : Image} {ebp : Nat} {inner : Regs}
    (htick : k.pitHandler img ebp inner = some after) : SameArgs k after := by
  rcases Nat.lt_trichotomy k.totalTerminal 3 with hmissing | hlast | hrunning
  · obtain ⟨left, result, hleft, hexecute⟩ := Kernel.pitHandler_shell hmissing htick
    refine SameArgs.trans ?_ (Kernel.execute_shell_args hexecute).1
    have hpcb := hleft.pcb
    split at hpcb
    · exact .of_pcb hpcb
    · exact .update hpcb rfl
  · exact .of_pcb (Kernel.pitHandler_finish hlast htick).2.1
  · exact .update (Kernel.pitHandler_rotated hrunning htick).pcb rfl

/-- The start-up leaves them as they were at boot. -/
theorem startUp_args {img : Image} {m : BootMemory} {k : Kernel}
    (hreach : ReachableVia (step img) StartUpStep (boot m) k) : SameArgs (boot m) k := by
  refine hreach.invariant (SameArgs (boot m)) (fun t event next ht hallowed hstep => ?_) (.refl _)
  by_cases hquiet : event.Quiet
  · exact ht.trans (step_args hquiet hstep)
  · cases event with
    | tick ebp inner => exact ht.trans (Kernel.pitHandler_args hstep)
    | execute | halt => exact hallowed.elim
    | key | rtc | read | write | open_ | close | getargs | vidmap => exact (hquiet trivial).elim

section Runs

variable {img : Image} {m : BootMemory} {start last : Kernel} {history : List (Fired Kernel Event)}

/-- In every such run from boot the slots hold what they were given. -/
theorem argsHeld_run (hzero : ∀ addr, ∀ j < MAX_ARGS, (m.pcb addr).args j = NUL)
    (hstart : ReachableVia (step img) StartUpStep (boot m) start)
    (htotal : start.totalTerminal = 4) (hrun : Run (step img) start history last)
    (hallowed : ∀ fired ∈ history, ShortArgs img fired.pre fired.event) :
    (∃ s, Settled img last s) ∧ ArgsHeld last (givenIn img history) := by
  obtain ⟨s, hset, -⟩ := AfterStartUp.settled ⟨⟨m, hstart⟩, htotal⟩
  induction hrun with
  | start =>
      refine ⟨⟨s, hset⟩, ⟨fun _ => (by decide : 0 < MAX_ARGS), fun _ => List.not_mem_nil,
        fun _ _ _ => rfl, ?_⟩⟩
      intro i _ j hj
      rw [startUp_args hstart]
      exact hzero _ j hj
  | @extend t next history event prior hstep ih =>
      obtain ⟨⟨s', hset'⟩, hheld⟩ :=
        ih fun fired hmem => hallowed fired (List.mem_append_left _ hmem)
      have hlast := hallowed _ (List.mem_append_right _ (List.mem_singleton_self _))
      have hdisc : Disciplined img t event := by
        cases event with
        | execute command regs => exact hlast.1
        | tick | key | rtc | halt | read | write | open_ | close | getargs | vidmap => exact hlast
      obtain ⟨s'', hset'', -⟩ := hset'.step hdisc hstep
      refine ⟨⟨s'', hset''⟩, ?_⟩
      rw [givenIn, List.foldl_append, ← givenIn]
      exact hset'.argsHeld hlast hheld hstep

end Runs

/-! ## A slot that is used again -/

section Reuse

variable {img : Image} {k : Kernel} {s : DisjointStacks Terminal Nat} {command : List UInt8}
  {program : Program}

/-- A command with short arguments is carried out. -/
theorem Settled.enters (hset : Settled img k s) (hshown : k.currTerminal = k.currScheduled)
    (hlaunching : k.launching img (some command) = some program)
    (hshort : program.args.length < MAX_ARGS) (hload : Loadable img program.inode) (regs : Regs) :
    ∃ entered s', k.execute img (some command) regs = some (.entered program.eip, entered) ∧
      Launched k (slotSearch k.pcbSlots) program.args regs entered ∧ Settled img entered s' := by
  have hslot := (hset.slotSearch_free (launching_some_iff.mp hlaunching).1).1
  obtain ⟨pcbs, hcopy⟩ : ∃ pcbs, storeKernelBytes k.pcb
      (getPCB (slotSearch k.pcbSlots + 1) + Pcb.argsOffset) program.args = some pcbs := by
    refine storeKernelBytes_completes _ ?_
    simp only [getPCB, Pcb.argsOffset, _8MB, _8KB, MAX_ARGS, MAX_PROCESS_COUNT] at hshort hslot ⊢
    omega
  obtain ⟨entered, hexecute⟩ : ∃ entered, k.execute img (some command) regs =
      some (.entered program.eip, entered) := by
    obtain ⟨phys, hexecute⟩ := Kernel.execute_eq regs hlaunching hcopy hload
    exact ⟨_, hexecute⟩
  have hdisc : Disciplined img k (.execute (some command) regs) := by
    intro program' hprogram
    obtain rfl := Option.some.inj (hlaunching.symm.trans hprogram)
    refine ⟨hshown, hshort.le.trans ?_⟩
    decide
  obtain ⟨s', hset', -⟩ := hset.execute hdisc hexecute
  rcases Kernel.execute_cases hexecute with ⟨-, ⟨value, hvalue⟩, -⟩ |
      ⟨program', hprogram, -, -, hlaunched⟩
  · cases hvalue
  obtain rfl := Option.some.inj (hlaunching.symm.trans hprogram)
  exact ⟨entered, s', hexecute, hlaunched, hset'⟩

/-- A caller that is displayed may start a program with short arguments. -/
theorem ShortArgs.execute (hshown : k.currTerminal = k.currScheduled)
    (hcommand : ShortCommand command) (regs : Regs) :
    ShortArgs img k (.execute (some command) regs) := by
  refine ⟨fun program hprogram => ⟨hshown, ?_⟩, fun text htext => ?_⟩
  · rw [findProgram_args (launching_some_iff.mp hprogram).2, commandArgs_eq hcommand]
    exact hcommand.2.le.trans (by decide)
  · obtain rfl := Option.some.inj htext
    exact hcommand

/-- A program that was just started can halt, and its slot is free again. -/
theorem Settled.frees {entered : Kernel} {s' : DisjointStacks Terminal Nat} {i : Nat}
    {args : List UInt8} {regs : Regs} (hset : Settled img k s) (hset' : Settled img entered s')
    (hshown : k.currTerminal = k.currScheduled) (hfree : k.pcbSlots i = 0)
    (hlaunched : Launched k i args regs entered) (status : UInt8) (haltRegs : Regs) :
    ∃ result freed s'', entered.halt img status haltRegs = some (result, freed) ∧
      Settled img freed s'' ∧ freed.pcbSlots = k.pcbSlots ∧
      freed.processCount = k.processCount ∧ freed.currScheduled = k.currScheduled ∧
      freed.currTerminal = k.currTerminal ∧ entered.hasParent ∧
      freed.head k.currScheduled = k.head k.currScheduled := by
  obtain ⟨hpos, hle, rest, htop⟩ := hset.head_pos (hset.live k.currScheduled)
  have haddr := hlaunched.scheduledPcb hshown
  have hhead : entered.head entered.currScheduled = i + 1 := by
    rw [Kernel.head, hlaunched.heads, hlaunched.currScheduled, hshown, update_self]
  have hparentTask : (entered.pcb entered.scheduledPcb).parentTask =
      getPCB (k.head k.currScheduled) := by
    rw [haddr, hlaunched.parentTask, hshown, if_pos (by omega)]
  have hmapped : (entered.pcb entered.scheduledPcb).parentTask < _8MB := by
    rw [hparentTask]
    exact getPCB_lt hpos
  have hparent : entered.hasParent := by
    rw [Kernel.hasParent, hparentTask, NULL]
    exact (getPCB_pos hle).ne'
  have honly : entered.TerminalOnly entered.scheduledPcb := by
    rw [haddr]
    exact hlaunched.terminalOnly
  obtain ⟨result, freed, hhalt⟩ := honly.halt_completes (haddr.trans_lt (getPCB_lt i.succ_pos))
    hparent hmapped img status haltRegs
  have hdisc : Disciplined img entered (.halt status haltRegs) := fun hroot => absurd hparent hroot
  obtain ⟨s'', hset'', -⟩ := hset'.halt hdisc hhalt
  obtain ⟨released, hreleased, ⟨-, -, -, rfl⟩ | ⟨hroot, -⟩⟩ := Kernel.halt_cases hhalt
  · refine ⟨result, _, s'', hhalt, hset'', ?_, ?_, ?_, ?_, hparent, ?_⟩
    · change released.pcbSlots = k.pcbSlots
      rw [hreleased.pcbSlots, hhead, Nat.add_sub_cancel, hlaunched.pcbSlots, update_idem, ← hfree,
        update_eq_self]
    · change released.processCount = k.processCount
      rw [hreleased.processCount, hlaunched.processCount, add_sub_cancel_right]
    · exact hreleased.currScheduled.trans hlaunched.currScheduled
    · exact hreleased.currTerminal.trans hlaunched.currTerminal
    · -- the parent is on the stack below its child, so that its PCB has its number
      have hholds : s'.Holds (k.head k.currScheduled) := by
        have hslot : k.pcbSlots (k.head k.currScheduled - 1) = 1 :=
          ((hset.owner _).mp ⟨k.currScheduled, by simp [htop]⟩).2.2
        refine (hset'.owner _).mpr ⟨hpos, hle, ?_⟩
        rw [hlaunched.pcbSlots, update_apply]
        split
        · rfl
        · exact hslot
      change update released.highestTerminalProcesses released.currScheduled
        (released.pcb (entered.pcb entered.scheduledPcb).parentTask).processNum k.currScheduled = _
      rw [hreleased.currScheduled, hlaunched.currScheduled, update_self, hparentTask,
        (hreleased.context _).processNum, hset'.numbered _ hholds]
  · exact absurd hparent hroot

end Reuse

/-- Two shells with arguments. -/
def longCommand : List UInt8 := shellCommand ++ SPACE_CHAR :: List.replicate 4 65

def shortCommand : List UInt8 := shellCommand ++ [SPACE_CHAR, 66]

/-- A shell was started with four letters and has ended; the slot it had is the next one. -/
theorem shellImage_freed : ∃ start history freed s,
    ReachableVia (step shellImage) StartUpStep (boot zeroMemory) start ∧ start.totalTerminal = 4 ∧
      Run (step shellImage) start history freed ∧
      history.map Fired.event =
        [.tick 0 ⟨0, 0⟩, .execute (some longCommand) ⟨1, 2⟩, .halt 0 ⟨3, 4⟩] ∧
      (∀ fired ∈ history, ShortArgs shellImage fired.pre fired.event) ∧
      (∀ fired ∈ history, ∀ command regs, fired.event = .execute command regs →
        slotSearch fired.pre.pcbSlots = 3) ∧
      Settled shellImage freed s ∧ freed.currTerminal = freed.currScheduled ∧
      freed.processCount = 3 ∧ slotSearch freed.pcbSlots = 3 := by
  obtain ⟨start, first, s, hreach, htotal, htick, hset₁, hstacks, hscheduled, hshown, -⟩ :=
    displayed_reaches zeroMemory 0 ⟨0, 0⟩ shellImage_shell shellImage_loadable
  have hshown₁ : first.currTerminal = first.currScheduled := hshown.trans hscheduled.symm
  have hshells : ∀ t, s.stack t = if t.num ≤ 3 then [t.num] else [] := by
    intro t
    have hnum : t.num ≤ 3 := by cases t <;> decide
    rw [if_pos hnum, hstacks]
  obtain ⟨-, hcount, hslot⟩ := hset₁.slots_of_shells hshells (by decide)
  have hroom : first.processCount < MAX_PROCESS_COUNT := by
    rw [hcount]
    decide
  have hlaunching : first.launching shellImage (some longCommand) =
      some ⟨0, 0, List.replicate 4 65⟩ :=
    launching_some_iff.mpr ⟨hroom, by decide +kernel⟩
  obtain ⟨entered, s₂, hexecute, hlaunched, hset₂⟩ :=
    hset₁.enters hshown₁ hlaunching (by decide) shellImage_loadable ⟨1, 2⟩
  have hfree := (hset₁.slotSearch_free hroom).2
  obtain ⟨result, freed, s₃, hhalt, hset₃, hslots, hcount₃, hscheduled₃, hshown₃, hparent, -⟩ :=
    hset₁.frees hset₂ hshown₁ hfree hlaunched 0 ⟨3, 4⟩
  have hstep : step shellImage first (.execute (some longCommand) ⟨1, 2⟩) = some entered := by
    simp only [step, hexecute, Option.map_some]
  have hback : step shellImage entered (.halt 0 ⟨3, 4⟩) = some freed := by
    simp only [step, hhalt, Option.map_some]
  refine ⟨start, _, freed, s₃, hreach, htotal,
    ((Run.single htick).extend hstep).extend hback, rfl, ?_, ?_, hset₃, ?_, ?_, ?_⟩
  · intro fired hmem
    simp only [List.cons_append, List.nil_append, List.mem_cons, List.not_mem_nil, or_false] at hmem
    rcases hmem with rfl | rfl | rfl
    · exact trivial
    · exact .execute hshown₁ ⟨by decide, by decide⟩ ⟨1, 2⟩
    · exact fun hroot => absurd hparent hroot
  · intro fired hmem command regs heq
    simp only [List.cons_append, List.nil_append, List.mem_cons, List.not_mem_nil, or_false] at hmem
    rcases hmem with rfl | rfl | rfl
    · cases heq
    · exact hslot
    · cases heq
  · rw [hshown₃, hscheduled₃, hshown₁]
  · rw [hcount₃, hcount]
    rfl
  · rw [hslots, hslot]

/-- A shell with one letter in the slot that the one with four letters had. -/
theorem shellImage_reused : ∃ start history last,
    ReachableVia (step shellImage) StartUpStep (boot zeroMemory) start ∧ start.totalTerminal = 4 ∧
      Run (step shellImage) start history last ∧
      history.map Fired.event = [.tick 0 ⟨0, 0⟩, .execute (some longCommand) ⟨1, 2⟩,
        .halt 0 ⟨3, 4⟩, .execute (some shortCommand) ⟨5, 6⟩] ∧
      (∀ fired ∈ history, ShortArgs shellImage fired.pre fired.event) ∧
      (∀ fired ∈ history, ∀ command regs, fired.event = .execute command regs →
        slotSearch fired.pre.pcbSlots = 3) ∧
      last.currTerminal = last.currScheduled ∧ last.head last.currScheduled = 4 ∧
      givenIn shellImage history 3 = [66] := by
  obtain ⟨start, history, freed, s, hreach, htotal, hrun, hevents, hshort, hslots, hset, hshown,
    hcount, hslot⟩ := shellImage_freed
  have hlaunching : freed.launching shellImage (some shortCommand) = some ⟨0, 0, [66]⟩ :=
    launching_some_iff.mpr ⟨by rw [hcount]; decide, by decide +kernel⟩
  obtain ⟨last, s', hexecute, hlaunched, -⟩ :=
    hset.enters hshown hlaunching (by decide) shellImage_loadable ⟨5, 6⟩
  have hstep : step shellImage freed (.execute (some shortCommand) ⟨5, 6⟩) = some last := by
    simp only [step, hexecute, Option.map_some]
  rw [hslot] at hlaunched
  refine ⟨start, _, last, hreach, htotal, hrun.extend hstep, ?_, ?_, ?_, ?_, ?_, ?_⟩
  · rw [List.map_append, hevents]
    rfl
  · intro fired hmem
    rcases List.mem_append.mp hmem with hmem | hmem
    · exact hshort fired hmem
    · obtain rfl := List.mem_singleton.mp hmem
      exact .execute hshown ⟨by decide, by decide⟩ ⟨5, 6⟩
  · intro fired hmem command regs heq
    rcases List.mem_append.mp hmem with hmem | hmem
    · exact hslots fired hmem command regs heq
    · obtain rfl := List.mem_singleton.mp hmem
      exact hslot
  · rw [hlaunched.currTerminal, hlaunched.currScheduled, hshown]
  · rw [Kernel.head, hlaunched.heads, hlaunched.currScheduled, hshown, update_self]
  · rw [givenIn, List.foldl_append, ← givenIn, List.foldl_cons, List.foldl_nil, givenArgs]
    dsimp only
    rw [hlaunching, hslot]
    exact (update_self _ _ _).trans (by decide)

/-- A first shell that is displayed and running, with all memory zero at boot. -/
theorem shellImage_first :
    ∃ start k s, ReachableVia (step shellImage) StartUpStep (boot zeroMemory) start ∧
      start.totalTerminal = 4 ∧ step shellImage start (.tick 0 ⟨0, 0⟩) = some k ∧
      Settled shellImage k s ∧ k.currTerminal = k.currScheduled ∧ k.head k.currScheduled = 1 := by
  obtain ⟨start, k, s, hreach, htotal, htick, hset, hstacks, hscheduled, hshown, -⟩ :=
    displayed_reaches zeroMemory 0 ⟨0, 0⟩ shellImage_shell shellImage_loadable
  refine ⟨start, k, s, hreach, htotal, htick, hset, hshown.trans hscheduled.symm, ?_⟩
  rw [hscheduled]
  exact hset.head_eq (hstacks .T1)

/-! ## What is promised -/

section Kept

variable {img : Image} {m : BootMemory} {start last : Kernel} {history : List (Fired Kernel Event)}

/-- Free slots hold no arguments, and the displayed and running process gets exactly the
arguments it was launched with as long as the bytes it asks for lie below 8 MB. -/
theorem arguments_kept (hzero : ∀ addr, ∀ j < MAX_ARGS, (m.pcb addr).args j = NUL)
    (hstart : ReachableVia (step img) StartUpStep (boot m) start)
    (htotal : start.totalTerminal = 4) (hrun : Run (step img) start history last)
    (hallowed : ∀ fired ∈ history, ShortArgs img fired.pre fired.event) :
    (∀ i < MAX_PROCESS_COUNT, last.pcbSlots i = 0 →
        ∀ j < MAX_ARGS, (last.pcb (getPCB (i + 1))).args j = NUL) ∧
      (last.currTerminal = last.currScheduled → ∀ n : Nat, n < 2 ^ 31 →
        (givenIn img history (last.head last.currScheduled - 1)).length < n →
          ((∃ out, last.getargs true n = some (.returned 0 out, last) ∧
              givenIn img history (last.head last.currScheduled - 1) ++ [NUL] <+: out) ↔
            n + Pcb.argsOffset ≤ last.head last.currScheduled * _8KB)) := by
  obtain ⟨⟨s, hset⟩, hheld⟩ := argsHeld_run hzero hstart htotal hrun hallowed
  refine ⟨fun i hi hfree j hj => ?_, fun hshown n hn hlength => ?_⟩
  · rw [hheld.held i hi j hj, hheld.free i hi hfree]
    rfl
  · obtain ⟨hpos, hle, -⟩ := hset.head_pos (hset.live last.currScheduled)
    have hdisplayed : last.displayedPcb = getPCB (last.head last.currScheduled) :=
      congrArg (fun t => getPCB (last.head t)) hshown
    have hholds := hheld.holds hdisplayed hpos hle
    rw [hholds.getargs hlength hn]
    have hmapped : last.displayedPcb + Pcb.argsOffset + n ≤ _8MB ↔
        n + Pcb.argsOffset ≤ last.head last.currScheduled * _8KB := by
      rw [hdisplayed]
      simp only [getPCB, _8MB, _8KB, MAX_PROCESS_COUNT] at hle ⊢
      omega
    rw [← hmapped]
    constructor
    · rintro ⟨out, hout, -⟩
      obtain ⟨loaded, hload, -⟩ := Option.map_eq_some_iff.mp hout
      exact (Option.ite_none_right_eq_some.mp hload).1
    · intro hfits
      obtain ⟨out, hload⟩ : ∃ out, Kernel.loadKernelBytes last.pcb
          (last.displayedPcb + Pcb.argsOffset) n = some out := ⟨_, if_pos hfits⟩
      exact ⟨out, by rw [hload]; rfl, hholds.loaded hlength hload⟩

end Kept

/-- A process in the slot of one with longer arguments gets its own. -/
theorem arguments_kept_reused : ∃ start history last out,
    ReachableVia (step shellImage) StartUpStep (boot zeroMemory) start ∧
      Run (step shellImage) start history last ∧
      history.map Fired.event = [.tick 0 ⟨0, 0⟩, .execute (some longCommand) ⟨1, 2⟩,
        .halt 0 ⟨3, 4⟩, .execute (some shortCommand) ⟨5, 6⟩] ∧
      (∀ fired ∈ history, ∀ command regs, fired.event = .execute command regs →
        slotSearch fired.pre.pcbSlots = 3) ∧
      last.head last.currScheduled = 4 ∧
      last.getargs true (5 : Nat) = some (.returned 0 out, last) ∧ [66, NUL] <+: out := by
  obtain ⟨start, history, last, hreach, htotal, hrun, hevents, hshort, hslots, hshown, hhead,
    hgiven⟩ := shellImage_reused
  have hgets := (arguments_kept (fun _ _ _ => rfl) hreach htotal hrun hshort).2 hshown 5 (by decide)
  rw [hhead, hgiven] at hgets
  obtain ⟨out, hout, hprefix⟩ := (hgets (by decide)).mpr (by decide)
  exact ⟨start, history, last, out, hreach, hrun, hevents, hslots, hhead, hout, hprefix⟩

/-- With a buffer that is larger than what is left of its block the call faults. -/
theorem arguments_fault :
    ∃ start k : Kernel, ReachableVia (step shellImage) StartUpStep (boot zeroMemory) start ∧
      start.totalTerminal = 4 ∧ step shellImage start (.tick 0 ⟨0, 0⟩) = some k ∧
      k.currTerminal = k.currScheduled ∧ k.head k.currScheduled = 1 ∧
      k.getargs true (8029 : Nat) = none := by
  obtain ⟨start, k, s, hreach, htotal, htick, hset, hshown, hhead⟩ := shellImage_first
  obtain ⟨-, hheld⟩ := argsHeld_run (fun _ _ _ => rfl) hreach htotal (Run.single htick)
    (by simp [ShortArgs, Disciplined])
  have hdisplayed : k.displayedPcb = getPCB 1 := by
    rw [Kernel.displayedPcb, hshown, hhead]
  refine ⟨start, k, hreach, htotal, htick, hshown, hhead, ?_⟩
  rw [(hheld.holds hdisplayed le_rfl (by decide)).getargs (by decide : 0 < 8029) (by decide),
    hdisplayed]
  rfl

end Ece391
