import Ece391.Lookup
import Ece391.ProgramLoad

/-! # The command line of `execute`

The first loop stops behind 32 bytes of the word, so that a longer word is looked up by its
first 32 bytes and the rest of it becomes arguments; the third copies the arguments without a
bound, and no NUL behind them.
-/

namespace Ece391

open Function Transition

/-! ## The parts of a command -/

/-- What stands in front of the first space. -/
def commandName (command : List UInt8) : List UInt8 := command.takeWhile fun c => c ≠ SPACE_CHAR

/-- What follows the name and the spaces behind it. -/
def commandRest (command : List UInt8) : List UInt8 :=
  (command.dropWhile fun c => c ≠ SPACE_CHAR).dropWhile fun c => c = SPACE_CHAR

section Parts

variable {command : List UInt8}

/-- In a command without NUL bytes the test for the end of the word is one for a space. -/
theorem takeWhile_word (hnul : NUL ∉ command) :
    (command.takeWhile fun c => c ≠ NUL ∧ c ≠ SPACE_CHAR) = commandName command := by
  unfold commandName
  induction command with
  | nil => rfl
  | cons c rest ih =>
      obtain ⟨hc, hrest⟩ := not_or.mp (mt List.mem_cons.mpr hnul)
      by_cases hspace : c = SPACE_CHAR
      · rw [List.takeWhile_cons_of_neg (by simp [hspace]),
          List.takeWhile_cons_of_neg (by simp [hspace])]
      · rw [List.takeWhile_cons_of_pos (by simp [hspace, Ne.symm hc]),
          List.takeWhile_cons_of_pos (by simp [hspace]), ih hrest]

theorem dropWhile_word (hnul : NUL ∉ command) :
    (command.dropWhile fun c => c ≠ NUL ∧ c ≠ SPACE_CHAR) =
      command.dropWhile fun c => c ≠ SPACE_CHAR := by
  have hword : (command.takeWhile fun c => c ≠ NUL ∧ c ≠ SPACE_CHAR) ++
      (command.dropWhile fun c => c ≠ NUL ∧ c ≠ SPACE_CHAR) = command :=
    List.takeWhile_append_dropWhile
  have hname : commandName command ++ (command.dropWhile fun c => c ≠ SPACE_CHAR) = command :=
    List.takeWhile_append_dropWhile
  rw [takeWhile_word hnul] at hword
  exact List.append_cancel_left (hword.trans hname.symm)

theorem commandWord_eq (hnul : NUL ∉ command) :
    commandWord command = (commandName command).take FILE_NAME_SIZE := by
  rw [commandWord, takeWhile_word hnul]
  rfl

theorem nul_notMem_name (hnul : NUL ∉ command) : NUL ∉ commandName command :=
  fun hmem => hnul ((List.takeWhile_prefix _).subset hmem)

theorem nul_notMem_rest (hnul : NUL ∉ command) : NUL ∉ commandRest command := by
  intro hmem
  have hbehind : commandRest command <:+ command :=
    (List.dropWhile_suffix _).trans (List.dropWhile_suffix _)
  exact hnul (hbehind.subset hmem)

/-- Behind a name that fits, the arguments are what is left. -/
theorem commandArgs_rest (hnul : NUL ∉ command)
    (hname : (commandName command).length ≤ FILE_NAME_SIZE) :
    commandArgs command = commandRest command := by
  have hshort : (command.takeWhile fun c => c ≠ NUL ∧ c ≠ SPACE_CHAR).length ≤ 32 := by
    rw [takeWhile_word hnul]
    exact hname
  rw [commandArgs_of_word hshort, argumentPart, dropWhile_word hnul, ← commandRest,
    List.takeWhile_eq_self_iff]
  intro c hmem
  have hne : c ≠ NUL := fun heq => nul_notMem_rest hnul (heq ▸ hmem)
  simpa using hne

end Parts

/-! ## The program of a name -/

/-- The first entry with a name leads to an inode with the magic bytes. -/
def ExecutableNamed (img : Image) (name : List UInt8) (inode : Nat) : Prop :=
  ∃ i < img.amtDentrys, (img.entry i).name = name ∧ (∀ j < i, (img.entry j).name ≠ name) ∧
    (img.entry i).inodeNum = inode ∧
    (List.range 4).map (fun b => (readData img inode 0 32).2.getD b NUL) = executableMagic

/-- A name that fits the field is looked up as a whole. -/
theorem findProgram_named {img : Image} (hcount : img.amtDentrys ≤ 63) {command : List UInt8}
    (hnul : NUL ∉ command) (hname : (commandName command).length ≤ FILE_NAME_SIZE) {inode : Nat} :
    (∃ program, findProgram img command = some program ∧ program.inode = inode) ↔
      ExecutableNamed img (commandName command) inode := by
  have hword : commandWord command = commandName command := by
    rw [commandWord_eq hnul, List.take_of_length_le hname]
  have hlookup : ∀ entry, readDentryByName img (commandName command) = some entry ↔ _ :=
    fun entry => readDentryByName_eq_some hcount (nul_notMem_name hnul)
  rw [List.take_of_length_le hname] at hlookup
  constructor
  · rintro ⟨program, hfind, rfl⟩
    obtain ⟨dentry, hdentry, hinode, hmagic, -⟩ := findProgram_eq_some hfind
    rw [hword] at hdentry
    obtain ⟨i, hlt, rfl, hentry, hfirst⟩ := (hlookup dentry).mp hdentry
    rw [← hinode] at hmagic
    exact ⟨i, hlt, hentry, hfirst, hinode.symm, hmagic⟩
  · rintro ⟨i, hlt, hentry, hfirst, rfl, hmagic⟩
    have hdentry := (hlookup (img.entry i)).mpr ⟨i, hlt, rfl, hentry, hfirst⟩
    unfold findProgram
    rw [hword, hdentry, Option.bind_some]
    dsimp only
    rw [if_neg (not_not.mpr hmagic)]
    exact ⟨_, rfl, rfl⟩

theorem ExecutableNamed.length_le {img : Image} {name : List UInt8} {inode : Nat}
    (hnamed : ExecutableNamed img name inode) : name.length ≤ FILE_NAME_SIZE := by
  obtain ⟨i, -, rfl, -⟩ := hnamed
  exact Dentry.name_length_le img i

/-! ## Programs that load -/

/-- Every address the program is copied to is mapped. -/
def Kernel.Loads (k : Kernel) (img : Image) (inode : Nat) : Prop :=
  ∀ pos < (readData img inode 0 (fileSize img inode)).2.length,
    (k.translate (PROG_LOAD_ADDR + pos)).isSome

theorem Kernel.storeUserBytes_isSome {bytes : List UInt8} {k : Kernel} {vaddr : Nat} :
    (k.storeUserBytes vaddr bytes).isSome ↔
      ∀ i < bytes.length, (k.translate (vaddr + i)).isSome := by
  constructor
  · intro hstored i hi
    obtain ⟨after, hafter⟩ := Option.isSome_iff_exists.mp hstored
    obtain ⟨honly, hbytes, -⟩ := Kernel.storeUserBytes_spec hafter
    obtain ⟨target, htarget, -⟩ := Option.map_eq_some_iff.mp (hbytes i hi)
    rw [← honly.translate, htarget]
    rfl
  · intro hmapped
    induction bytes generalizing k vaddr with
    | nil => rfl
    | cons byte rest ih =>
        obtain ⟨target, htarget⟩ := Option.isSome_iff_exists.mp (hmapped 0 (Nat.succ_pos _))
        rw [Nat.add_zero] at htarget
        obtain ⟨middle, hbyte⟩ : ∃ middle, k.storeUser vaddr byte = some middle := by
          unfold Kernel.storeUser
          rw [htarget]
          exact ⟨_, rfl⟩
        obtain ⟨-, -, -, honly⟩ := Kernel.storeUser_spec hbyte
        rw [Kernel.storeUserBytes, hbyte, Option.bind_some]
        refine ih fun i hi => ?_
        have haddr : vaddr + 1 + i = vaddr + (i + 1) := by omega
        rw [honly.translate, haddr]
        exact hmapped (i + 1) (Nat.succ_lt_succ hi)

/-- Which addresses are mapped does not depend on the frame of the program page. -/
theorem Kernel.translate_isSome_of_map (k : Kernel) (entry vaddr : Nat) :
    (({ k with userPageEntry := entry } : Kernel).translate vaddr).isSome =
      (k.translate vaddr).isSome := by
  unfold Kernel.translate
  by_cases hprogram : _128MB ≤ vaddr ∧ vaddr < USER_VID_ADDR
  · rw [if_pos hprogram, if_pos hprogram, Option.isSome_some, Option.isSome_some]
  · rw [if_neg hprogram, if_neg hprogram]

/-- The load comes through exactly when the program loads in the state before the call. -/
theorem Kernel.loadProgram_isSome {k copied : Kernel} {img : Image} {i inode : Nat}
    {args : List UInt8} (hcopied : (k.countProcess.takeSlot i).copyArgs i args = some copied) :
    ((copied.mapProgram i).loadProgram img inode).isSome ↔ k.Loads img inode := by
  have hsame : ∀ vaddr, ((copied.mapProgram i).translate vaddr).isSome =
      (k.translate vaddr).isSome := by
    intro vaddr
    rw [Kernel.mapProgram, Kernel.translate_isSome_of_map]
    obtain ⟨pcbs, -, rfl⟩ := Option.map_eq_some_iff.mp hcopied
    rfl
  unfold Kernel.loadProgram Kernel.Loads
  simp only [Kernel.storeUserBytes_isSome, hsame]

/-! ## The parsing as a whole -/

/-- What `execute` has to make of a command. -/
structure CommandParsed (img : Image) (k : Kernel) (command : List UInt8) (regs : Regs) : Prop where
  /-- The program that is started is the one that the whole name names. -/
  lookup : ∀ inode,
    (∃ program, k.launching img (some command) = some program ∧ program.inode = inode) ↔
      k.processCount < MAX_PROCESS_COUNT ∧ ExecutableNamed img (commandName command) inode
  args : ∀ eip entered, k.execute img (some command) regs = some (.entered eip, entered) →
    ∀ j ≤ (commandRest command).length,
      (entered.pcb (getPCB (slotSearch k.pcbSlots + 1))).args j = (commandRest command).getD j NUL
  /-- Nothing but `args` of the new PCB is copied to. -/
  written : ∀ program copied, k.launching img (some command) = some program →
    (k.countProcess.takeSlot (slotSearch k.pcbSlots)).copyArgs (slotSearch k.pcbSlots)
      program.args = some copied →
    ∃ args, copied.pcb = update k.pcb (getPCB (slotSearch k.pcbSlots + 1))
      { k.pcb (getPCB (slotSearch k.pcbSlots + 1)) with args := args }
  rejected : FILE_NAME_SIZE < (commandName command).length ∨
      MAX_ARGS ≤ (commandRest command).length →
    k.execute img (some command) regs = some (.returned (-1), k)

/-- The byte behind the arguments in the slot that a launch takes. -/
def Kernel.ArgsEnded (k : Kernel) (img : Image) (command : List UInt8) : Prop :=
  ∀ program, k.launching img (some command) = some program → k.Loads img program.inode →
    (k.pcb (getPCB (slotSearch k.pcbSlots + 1))).args (commandRest command).length = NUL

section Parsed

variable {img : Image} {k : Kernel} {command : List UInt8} {regs : Regs}

/-- The stages of an `execute` that enters, when the arguments fit. -/
theorem entered_args (hnul : NUL ∉ command)
    (hname : (commandName command).length ≤ FILE_NAME_SIZE)
    (hrest : (commandRest command).length < MAX_ARGS) {eip : Nat} {entered : Kernel}
    (hexecute : k.execute img (some command) regs = some (.entered eip, entered)) :
    ∃ program, k.launching img (some command) = some program ∧ k.Loads img program.inode ∧
      (entered.pcb (getPCB (slotSearch k.pcbSlots + 1))).args =
        argsWith (k.pcb (getPCB (slotSearch k.pcbSlots + 1))).args 0 (commandRest command) := by
  obtain ⟨text, program, copied, loaded, htext, hcount, hfind, -, hcopied, hload, -⟩ :=
    Kernel.execute_stages hexecute
  obtain rfl := Option.some.inj htext
  have hlaunching := launching_some_iff.mpr ⟨hcount, hfind⟩
  refine ⟨program, hlaunching, ?_, ?_⟩
  · rw [← Kernel.loadProgram_isSome hcopied, hload]
    rfl
  · rcases Kernel.execute_cases hexecute with ⟨hrefused, -⟩ | ⟨program', hprogram', -, -, hlaunched⟩
    · rw [hlaunching] at hrefused
      cases hrefused
    · obtain rfl := Option.some.inj (hlaunching.symm.trans hprogram')
      obtain ⟨pcbs, hstore, hafter⟩ := hlaunched.copied
      rw [findProgram_args hfind, commandArgs_rest hnul hname] at hstore
      have hfits : 0 + (commandRest command).length ≤ MAX_ARGS := by omega
      rw [hafter, (storeKernelBytes_args (getPCB_mod _) hfits hstore).2]

/-- A command whose parts fit is parsed right but for the NUL behind the arguments. -/
theorem parsed_of_fits (hcount : img.amtDentrys ≤ 63) (hnul : NUL ∉ command)
    (hname : (commandName command).length ≤ FILE_NAME_SIZE)
    (hrest : (commandRest command).length < MAX_ARGS) :
    CommandParsed img k command regs ↔ k.ArgsEnded img command := by
  constructor
  · intro hparsed program hlaunching hloads
    have hargs : program.args = commandRest command := by
      rw [findProgram_args (launching_some_iff.mp hlaunching).2, commandArgs_rest hnul hname]
    obtain ⟨copied, hcopied⟩ : ∃ copied, (k.countProcess.takeSlot (slotSearch k.pcbSlots)).copyArgs
        (slotSearch k.pcbSlots) program.args = some copied := by
      have hroom : getPCB (slotSearch k.pcbSlots + 1) + Pcb.argsOffset + program.args.length ≤
          _8MB := by
        rw [hargs]
        simp only [getPCB, Pcb.argsOffset, _8MB, _8KB, MAX_ARGS] at hrest ⊢
        omega
      obtain ⟨pcbs, hstore⟩ := storeKernelBytes_completes k.pcb hroom
      exact ⟨_, Option.map_eq_some_iff.mpr ⟨pcbs, hstore, rfl⟩⟩
    obtain ⟨loaded, hload⟩ :=
      Option.isSome_iff_exists.mp ((Kernel.loadProgram_isSome hcopied).mpr hloads)
    have hexecute := Kernel.execute_enters regs hlaunching hcopied hload
    obtain ⟨-, -, -, hentered⟩ := entered_args hnul hname hrest hexecute
    have hend := hparsed.args _ _ hexecute _ le_rfl
    rwa [hentered, getD_behind le_rfl, argsWith, if_neg (by omega)] at hend
  · intro hended
    refine ⟨fun inode => ?_, fun eip entered hexecute j hj => ?_,
      fun program copied hlaunching hcopied => ?_, fun hlong => ?_⟩
    · rw [← findProgram_named hcount hnul hname]
      constructor
      · rintro ⟨program, hlaunching, hinode⟩
        obtain ⟨hroom, hfind⟩ := launching_some_iff.mp hlaunching
        exact ⟨hroom, program, hfind, hinode⟩
      · rintro ⟨hroom, program, hfind, hinode⟩
        exact ⟨program, launching_some_iff.mpr ⟨hroom, hfind⟩, hinode⟩
    · obtain ⟨program, hlaunching, hloads, hargs⟩ := entered_args hnul hname hrest hexecute
      rw [hargs, argsWith]
      rcases Nat.lt_or_eq_of_le hj with hlt | rfl
      · rw [if_pos (by omega), Nat.sub_zero]
      · rw [if_neg (by omega), hended program hlaunching hloads, getD_behind le_rfl]
    · obtain ⟨hroom, hfind⟩ := launching_some_iff.mp hlaunching
      rw [findProgram_args hfind, commandArgs_rest hnul hname] at hcopied
      obtain ⟨pcbs, hstore, rfl⟩ := Option.map_eq_some_iff.mp hcopied
      have hfits : 0 + (commandRest command).length ≤ MAX_ARGS := by omega
      exact ⟨_, storeKernelBytes_eq (getPCB_mod _) hfits hstore⟩
    · omega

/-- A name or arguments that are too long are refused when the lookup fails for another
reason. -/
theorem parsed_of_long (hcount : img.amtDentrys ≤ 63) (hnul : NUL ∉ command)
    (hlong : FILE_NAME_SIZE < (commandName command).length ∨
      MAX_ARGS ≤ (commandRest command).length) :
    CommandParsed img k command regs ↔
      k.processCount < MAX_PROCESS_COUNT ∧ findProgram img command = none := by
  constructor
  · intro hparsed
    have hexecute := hparsed.rejected hlong
    have hroom : ¬ k.processCount ≥ MAX_PROCESS_COUNT := by
      intro hfull
      simp only [Kernel.execute, if_pos hfull, Option.some.injEq, Prod.mk.injEq,
        ExecReturn.returned.injEq] at hexecute
      exact absurd hexecute.1 (by decide)
    rcases Kernel.execute_cases hexecute with ⟨hrefused, -⟩ | ⟨program, -, -, hentered, -⟩
    · rw [Kernel.launching, if_neg hroom] at hrefused
      exact ⟨by omega, hrefused⟩
    · cases hentered
  · rintro ⟨hroom, hfind⟩
    have hexecute : k.execute img (some command) regs = some (.returned (-1), k) :=
      execute_unknown hroom hfind
    have hnone : ∀ program, k.launching img (some command) ≠ some program := by
      intro program hlaunching
      rw [(launching_some_iff.mp hlaunching).2] at hfind
      cases hfind
    refine ⟨fun inode => ?_, fun eip entered hentered => ?_, fun program _ hlaunching => ?_,
      fun _ => hexecute⟩
    · constructor
      · rintro ⟨program, hlaunching, -⟩
        exact absurd hlaunching (hnone program)
      · rintro ⟨-, hnamed⟩
        obtain ⟨program, hsome, -⟩ := (findProgram_named hcount hnul hnamed.length_le).mpr hnamed
        rw [hsome] at hfind
        cases hfind
    · rw [hexecute] at hentered
      cases hentered
    · exact absurd hlaunching (hnone program)

/-- The parsing is right for a name and arguments that fit when the byte behind the arguments
is NUL already, and otherwise only when there is no program to start. -/
theorem command_parsed_iff (hcount : img.amtDentrys ≤ 63) (hnul : NUL ∉ command) :
    CommandParsed img k command regs ↔
      ((commandName command).length ≤ FILE_NAME_SIZE ∧ (commandRest command).length < MAX_ARGS ∧
        k.ArgsEnded img command) ∨
      (k.processCount < MAX_PROCESS_COUNT ∧ findProgram img command = none) := by
  by_cases hfits : (commandName command).length ≤ FILE_NAME_SIZE ∧
      (commandRest command).length < MAX_ARGS
  · rw [parsed_of_fits hcount hnul hfits.1 hfits.2]
    constructor
    · intro hended
      exact .inl ⟨hfits.1, hfits.2, hended⟩
    · rintro (⟨-, -, hended⟩ | ⟨-, hfind⟩)
      · exact hended
      · intro program hlaunching
        rw [(launching_some_iff.mp hlaunching).2] at hfind
        cases hfind
  · have hlong : FILE_NAME_SIZE < (commandName command).length ∨
        MAX_ARGS ≤ (commandRest command).length := by omega
    rw [parsed_of_long hcount hnul hlong]
    constructor
    · exact .inr
    · rintro (⟨hname, hrest, -⟩ | hunknown)
      · exact absurd ⟨hname, hrest⟩ hfits
      · exact hunknown

end Parsed

/-- A shell with one letter is parsed right for a slot that a shell with four has left. -/
theorem command_parsed_reused :
    ∃ start history freed, ReachableVia (step shellImage) StartUpStep (boot zeroMemory) start ∧
      Run (step shellImage) start history freed ∧
      history.map Fired.event =
        [.tick 0 ⟨0, 0⟩, .execute (some longCommand) ⟨1, 2⟩, .halt 0 ⟨3, 4⟩] ∧
      slotSearch freed.pcbSlots = 3 ∧ commandRest shortCommand = [66] ∧
      CommandParsed shellImage freed shortCommand ⟨5, 6⟩ := by
  obtain ⟨start, history, freed, s, hreach, htotal, hrun, hevents, hshort, -, hset, -, hcount,
    hslot⟩ := shellImage_freed
  obtain ⟨-, hheld⟩ := argsHeld_run (fun _ _ _ => rfl) hreach htotal hrun hshort
  have hfree : freed.pcbSlots 3 = 0 := by
    rw [← hslot]
    exact (hset.slotSearch_free (by rw [hcount]; decide)).2
  have hrest : commandRest shortCommand = [66] := by decide
  have hended : freed.ArgsEnded shellImage shortCommand := by
    intro program _ _
    rw [hslot, hrest, hheld.held 3 (by decide) _ (by decide), hheld.free 3 (by decide) hfree]
    rfl
  exact ⟨start, history, freed, hreach, hrun, hevents, hslot, hrest,
    (command_parsed_iff (by decide +kernel) (by decide)).mpr
      (.inl ⟨by decide, by decide, hended⟩)⟩

/-- A shell with 127 letters behind it. -/
def fullArgs : List UInt8 := shellCommand ++ SPACE_CHAR :: List.replicate MAX_ARGS 65

/-- The letters leave no room for the NUL in `args`, and the command is not refused. -/
theorem fullArgs_accepted :
    ∃ m k, Reachable (step shellImage) (boot m) k ∧ NUL ∉ fullArgs ∧
      ¬ CommandParsed shellImage k fullArgs ⟨1, 2⟩ := by
  obtain ⟨start, k, s, ⟨⟨m, before, hboot, -⟩, -⟩, htick, hset, hstacks, -⟩ := shellImage_displayed
  have hnul : NUL ∉ fullArgs := by decide +kernel
  have hfind : findProgram shellImage fullArgs = some ⟨0, 0, List.replicate MAX_ARGS 65⟩ :=
    findProgram_letters (by decide) fun c hmem => List.eq_of_mem_replicate hmem
  have hlong : MAX_ARGS ≤ (commandRest fullArgs).length := by decide +kernel
  refine ⟨m, k, ⟨_, hboot.extend htick⟩, hnul, fun hparsed => ?_⟩
  have hunknown := (parsed_of_long (by decide +kernel) hnul (.inr hlong)).mp hparsed
  rw [hfind] at hunknown
  cases hunknown.2

end Ece391
