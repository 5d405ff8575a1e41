import Ece391.ArgumentReads
import Ece391.UserCalls

/-! # What a program gets and what it prints

The calls as a program finds them that runs and is displayed: its arguments, its files, and
the screen behind descriptor 1. What it has printed is read off its answered calls.
-/

namespace Ece391

open Function Transition Sessions

/-! ## Output -/

/-- What an answered call leaves on the screen: the bytes written to descriptor 1 without the
NUL bytes, and the new line behind a line that was read. -/
def printedBy : UserCall × Reply → List UInt8
  | (.fd (.write fd (some buf) nbytes), reply) =>
      if fd = 1 ∧ reply.value ≠ -1 then (bufferBytes buf nbytes.toNat).filter fun c => c ≠ NUL
      else []
  | (.fd (.read fd _ _), reply) => if fd = 0 ∧ reply.value ≠ -1 then [NEWLINE] else []
  | _ => []

def printed (answered : List (UserCall × Reply)) : List UInt8 := answered.flatMap printedBy

theorem printed_snoc (answered : List (UserCall × Reply)) (call : UserCall) (reply : Reply) :
    printed (answered ++ [(call, reply)]) = printed answered ++ printedBy (call, reply) := by
  rw [printed, List.flatMap_append, List.flatMap_singleton, printed]

theorem printedBy_write (buf : UserBuffer) (count : Nat) {reply : Reply}
    (hdone : reply.value ≠ -1) :
    printedBy (.fd (.write 1 (some buf) count), reply) =
      (bufferBytes buf count).filter fun c => c ≠ NUL := if_pos ⟨rfl, hdone⟩

/-- A read on a descriptor that `open` returned prints nothing. -/
theorem printedBy_read {fd : Nat} (hlow : STDI_O ≤ fd) (buf : Bool) (nbytes : Int) (reply : Reply) :
    printedBy (.fd (.read fd buf nbytes), reply) = [] := by
  refine if_neg fun h => ?_
  have hzero := h.1
  simp only [STDI_O] at hlow
  omega

/-! ## The text in a buffer -/

theorem bufferBytes_length (buf : UserBuffer) (count : Nat) :
    (bufferBytes buf count).length = count := by simp [bufferBytes]

theorem bufferBytes_getElem (buf : UserBuffer) (count : Nat) {i : Nat}
    (hi : i < (bufferBytes buf count).length) : (bufferBytes buf count)[i] = buf i := by
  simp only [bufferBytes, List.getElem_map, List.getElem_range]

/-- A buffer whose front holds a text is the text. -/
theorem bufferBytes_eq {buf : UserBuffer} {text : List UInt8}
    (hfront : ∀ i, (hi : i < text.length) → buf i = text[i]) :
    bufferBytes buf text.length = text := by
  apply List.ext_getElem (bufferBytes_length buf _)
  intro i hi hi'
  rw [bufferBytes_getElem, hfront i hi']

theorem storedAt_front (buf : UserBuffer) {out : List UInt8} {i : Nat} (hi : i < out.length) :
    storedAt buf out i = out[i] := by
  rw [storedAt, List.getD_eq_getElem?_getD, List.getElem?_eq_getElem hi, Option.getD_some]

/-- A text that is ended in the buffer is the text there, up to its own first NUL byte. -/
theorem bufferText_front {buf : UserBuffer} {text : List UInt8} {size : Nat}
    (hfront : ∀ i, (hi : i < text.length) → buf i = text[i]) (hend : buf text.length = NUL)
    (hsize : text.length < size) :
    bufferText buf size = text.takeWhile fun c => c ≠ NUL := by
  obtain ⟨more, rfl⟩ := Nat.exists_eq_add_of_lt hsize
  have hsplit : bufferBytes buf (text.length + more + 1) = text ++
      NUL :: (List.range more).map fun i => buf (text.length + (i + 1)) := by
    rw [Nat.add_assoc, bufferBytes, List.range_add, List.map_append, List.map_map,
      List.range_succ_eq_map, List.map_cons, List.map_map, ← bufferBytes, bufferBytes_eq hfront,
      comp_apply, Nat.add_zero, hend]
    rfl
  rw [bufferText, hsplit, List.takeWhile_append]
  split
  · next hall =>
    have hwhole := List.IsPrefix.eq_of_length (List.takeWhile_prefix _) hall
    rw [hwhole, List.takeWhile_cons_of_neg (by simp), List.append_nil]
  · rfl

/-- A text that is delivered with its NUL byte is the text in the buffer. -/
theorem bufferText_storedAt {buf : UserBuffer} {text out : List UInt8} {size : Nat}
    (hfront : text ++ [NUL] <+: out) (hnul : NUL ∉ text) (hsize : text.length < size) :
    bufferText (storedAt buf out) size = text := by
  obtain ⟨rest, rfl⟩ := hfront
  have hstored : ∀ i, (hi : i < text.length) →
      storedAt buf (text ++ [NUL] ++ rest) i = text[i] := by
    intro i hi
    rw [storedAt_front buf (by simp; omega), List.getElem_append_left (by simp; omega),
      List.getElem_append_left hi]
  have hend : storedAt buf (text ++ [NUL] ++ rest) text.length = NUL := by
    rw [storedAt_front buf (by simp), List.getElem_append_left (by simp),
      List.getElem_append_right (le_refl _)]
    simp
  rw [bufferText_front hstored hend hsize, List.takeWhile_eq_self_iff]
  intro c hc
  have hne : c ≠ NUL := fun heq => hnul (heq ▸ hc)
  simpa using hne

/-- What a read has stored is in front. -/
theorem bufferBytes_storedAt (buf : UserBuffer) (out : List UInt8) :
    bufferBytes (storedAt buf out) out.length = out :=
  bufferBytes_eq fun _ hi => storedAt_front buf hi

/-- `fdputs` writes the text. -/
theorem bufferBytes_getD (text : List UInt8) :
    bufferBytes (fun i => text.getD i NUL) text.length = text :=
  bufferBytes_eq fun i hi => by
    rw [List.getD_eq_getElem?_getD, List.getElem?_eq_getElem hi, Option.getD_some]

/-! ## Calls of a displayed process -/

/-- The PCB holds a text as its arguments. -/
structure PcbArgs (pcb : Pcb) (text : List UInt8) : Prop where
  short : text.length < MAX_ARGS
  nonNul : NUL ∉ text
  held : ∀ j ≤ text.length, pcb.args j = text.getD j NUL

theorem PcbArgs.same {first second : Pcb} {text : List UInt8} (hargs : PcbArgs first text)
    (hsame : Pcb.SameTables first second) : PcbArgs second text where
  short := hargs.short
  nonNul := hargs.nonNul
  held j hj := by rw [hsame.args, hargs.held j hj]

/-- A descriptor of a regular file at a position. -/
structure OpenFile (pcb : Pcb) (fd inode pos : Nat) : Prop where
  low : STDI_O ≤ fd
  high : fd < MAX_OPEN_FILES
  flags : (pcb.fileArray fd).flags ≠ 0
  table : (pcb.fileArray fd).fopsTable = file_table
  inode : (pcb.fileArray fd).inode = inode
  position : (pcb.fileArray fd).fPos = pos

theorem OpenFile.same {first second : Pcb} {fd inode pos : Nat}
    (hfile : OpenFile first fd inode pos)
    (hsame : second.fileArray = first.fileArray) : OpenFile second fd inode pos := by
  refine ⟨hfile.low, hfile.high, ?_, ?_, ?_, ?_⟩ <;> rw [hsame]
  exacts [hfile.flags, hfile.table, hfile.inode, hfile.position]

/-- The descriptors in use. -/
def usedFds (pcb : Pcb) : Finset Nat := SlotTable.used FdStruct.Free pcb.fileArray MAX_OPEN_FILES

/-- A name that is not there. -/
theorem Kernel.serve_unknown {img : Image} (k : Kernel) {filename : List UInt8}
    (hfind : readDentryByName img filename = none) :
    k.serve img (.fd (.open_ (some filename))) = some (some ⟨-1, []⟩, k) := by
  have hopen : k.open_ img (some filename) = some (failed, k) := by
    unfold Kernel.open_
    rw [Option.bind_some, hfind]
  rw [Kernel.serve, Kernel.call, hopen]
  rfl

section Calls

variable {img : Image} {t : Terminal} {n : Nat} {k : Kernel}

/-- Process `n` runs on terminal `t`, which is displayed. -/
structure Displayed (img : Image) (t : Terminal) (n : Nat) (k : Kernel) : Prop
    extends Attends img t n k where
  runs : k.runs t n
  shown : k.currTerminal = t

namespace Displayed

theorem scheduledPcb (hk : Displayed img t n k) : k.scheduledPcb = getPCB n :=
  Kernel.runs_scheduledPcb hk.runs

theorem fdsSound (hk : Displayed img t n k) : FdsSound img k :=
  hk.toAttends.fdsSound hk.runs hk.shown

theorem displayedPcb (hk : Displayed img t n k) : k.displayedPcb = getPCB n :=
  hk.fdsSound.displayed.trans hk.scheduledPcb

theorem fds (hk : Displayed img t n k) : k.fds = (k.pcb (getPCB n)).fileArray :=
  Attends.fds hk.runs

/-- After a call on descriptors the process is still there. -/
theorem of_sound {after : Kernel} (hk : Displayed img t n k) (hsame : SameProcesses k after)
    (hsound : FdsSound img after) : Displayed img t n after := by
  obtain ⟨hattends, hruns, hshown⟩ := hk.toAttends.of_fdsSound hk.runs hsame hsound
  exact ⟨hattends, hruns, hshown.trans hk.shown⟩

theorem holdsArgs (hk : Displayed img t n k) {text : List UInt8}
    (hargs : PcbArgs (k.pcb (getPCB n)) text) : HoldsArgs k text where
  displayed := ⟨n, hk.hosted.head.1, hk.hosted.head.2, hk.displayedPcb⟩
  short := hargs.short
  nonNul := hargs.nonNul
  held := by
    rw [hk.displayedPcb]
    exact hargs.held

/-- `getargs` delivers the arguments to a buffer that has room for them and for the rest of
what is copied. -/
theorem getargs (hk : Displayed img t n k) {text : List UInt8}
    (hargs : PcbArgs (k.pcb (getPCB n)) text) {size : Nat} (hsize : MAX_ARGS ≤ size)
    (hle : size ≤ 4096) :
    ∃ out, k.serve img (.getargs size) = some (some ⟨0, out⟩, k) ∧ text ++ [NUL] <+: out ∧
      out.length = size := by
  have hholds := hk.holdsArgs hargs
  have hlength : text.length < size := by
    have := hargs.short
    omega
  have hroom : k.displayedPcb + Pcb.argsOffset + size ≤ _8MB := by
    obtain ⟨hbase, hmapped⟩ := hholds.mapped
    simp only [Pcb.argsOffset, _8KB, _8MB] at hmapped ⊢
    omega
  obtain ⟨out, hload⟩ : ∃ out,
      Kernel.loadKernelBytes k.pcb (k.displayedPcb + Pcb.argsOffset) size = some out :=
    ⟨_, loadKernelBytes_eq_some.mpr ⟨hroom, rfl⟩⟩
  refine ⟨out, ?_, hholds.loaded hlength hload, ?_⟩
  · rw [Kernel.serve, hholds.getargs hlength (by omega), hload]
    rfl
  · obtain ⟨-, rfl⟩ := loadKernelBytes_eq_some.mp hload
    simp

/-- A regular file is opened at its start. -/
theorem open_file (hk : Displayed img t n k) (hwf : img.WellFormed) (htypes : img.TypesKnown)
    (hroom : (usedFds (k.pcb (getPCB n))).card < MAX_OPEN_FILES) {filename : List UInt8}
    {entry : Dentry} (hfind : readDentryByName img filename = some entry)
    (hregular : entry.fileType = 2) :
    ∃ fd : Nat, ∃ after, k.serve img (.fd (.open_ (some filename))) = some (some ⟨fd, []⟩, after) ∧
      Displayed img t n after ∧ OpenFile (after.pcb (getPCB n)) fd entry.inodeNum 0 := by
  have hfds := hk.fds
  have hopenFds : k.openFds = usedFds (k.pcb (getPCB n)) := by rw [Kernel.openFds, hfds, usedFds]
  obtain ⟨fd, after, hopen, hsound, ⟨⟨hlow, hhigh, -⟩, -⟩, hstored, -⟩ :=
    hk.fdsSound.open_found hwf htypes (hopenFds ▸ hroom) hfind
  have hafter := hk.of_sound (Kernel.open_same hopen) hsound
  refine ⟨fd, after, ?_, hafter, ?_⟩
  · rw [Kernel.serve, Kernel.call, hopen]
    rfl
  · have hdesc : (after.pcb (getPCB n)).fileArray fd =
        ⟨file_table, entry.inodeNum, 0, FD_FLAG_PRESENT + FD_FLAG_FILE⟩ := by
      rw [← hafter.fds, hstored, update_self, descOf, hregular]
      rfl
    refine ⟨hlow, hhigh, ?_, ?_, ?_, ?_⟩ <;> rw [hdesc]
    exact (by decide : FD_FLAG_PRESENT + FD_FLAG_FILE ≠ 0)

theorem fileAt (hk : Displayed img t n k) {fd inode pos : Nat}
    (hfile : OpenFile (k.pcb (getPCB n)) fd inode pos) : FileAt k fd inode pos := by
  have haddr := hk.scheduledPcb
  refine ⟨hk.fdsSound.shown, hk.fdsSound.mapped, hfile.low, hfile.high, ?_, ?_, ?_, ?_⟩ <;>
    rw [haddr]
  exacts [hfile.flags, hfile.table, hfile.inode, hfile.position]

/-- A read on a file reports what `read_data` does, and moves the position by it. -/
theorem read_file (hk : Displayed img t n k) (hwf : img.WellFormed) (htypes : img.TypesKnown)
    {fd inode pos size : Nat} (hfile : OpenFile (k.pcb (getPCB n)) fd inode pos) (hpos : 0 < size)
    (hlt : size < 2 ^ 31) :
    ∃ after, k.serve img (.fd (.read fd true size)) =
        some (some ⟨int32 (readData img inode pos size).1, (readData img inode pos size).2⟩,
          after) ∧
      Displayed img t n after ∧
      OpenFile (after.pcb (getPCB n)) fd inode (u32 (pos + (readData img inode pos size).1)) := by
  obtain ⟨after, hread, hnext⟩ := (hk.fileAt hfile).read img hpos hlt
  obtain ⟨result, last, hread', -, hsound⟩ := hk.fdsSound.read hwf htypes fd true size
  obtain ⟨-, rfl⟩ := Prod.mk.inj (Option.some.inj (hread.symm.trans hread'))
  have hafter := hk.of_sound (Kernel.read_same hread) hsound
  have haddr := hafter.scheduledPcb
  refine ⟨after, ?_, hafter, hnext.low, hnext.high, ?_, ?_, ?_, ?_⟩
  · rw [Kernel.serve, Kernel.call, hread]
    rfl
  all_goals rw [← haddr]
  exacts [hnext.flags, hnext.table, hnext.inode, hnext.position]

theorem stdoutAt (hk : Displayed img t n k) : StdoutAt k 1 := by
  have hsound := hk.fdsSound
  have hdesc : (k.pcb k.displayedPcb).fileArray (1 : Int).toNat = stdoutFd := by
    rw [hsound.displayed]
    exact hsound.stdout
  refine ⟨by decide, by decide, ?_, ?_, ?_, ?_⟩
  · rw [hsound.displayed]
    exact hsound.mapped
  all_goals rw [hdesc]; decide

/-- A read on descriptor 0 is one on the terminal. -/
theorem read_stdin (hk : Displayed img t n k) (nbytes : Int) :
    k.read img 0 true nbytes = some (k.terminalRead nbytes) := by
  have hsound := hk.fdsSound
  have hdesc : (k.pcb k.displayedPcb).fileArray (0 : Int).toNat = stdinFd := by
    rw [hsound.displayed]
    exact hsound.stdin
  have hreads : k.Reads 0 true .stdin := by
    refine ⟨rfl, by decide, by decide, by decide, ?_, ?_, ?_⟩
    · rw [hsound.displayed]
      exact hsound.mapped
    all_goals rw [hdesc]; decide
  exact hreads.read_eq img nbytes

/-- What is written to descriptor 1 is printed. Every descriptor stays, and of the input a saved
line is emptied. -/
theorem write_stdout (hk : Displayed img t n k) (hwf : img.WellFormed) (htypes : img.TypesKnown)
    (buf : UserBuffer) {count : Nat} (hpos : 0 < count) :
    ∃ after, k.serve img (.fd (.write 1 (some buf) count)) =
        some (some ⟨count + 1, []⟩, after) ∧
      Displayed img t n after ∧ after.pcb = k.pcb ∧
      after.input = (k.kb.clearSaved k.currScheduled, k.switchFlag) := by
  have hsound := hk.fdsSound
  have hwrite := hk.stdoutAt.write_eq buf (count : Int)
  rw [k.terminalWrite_bytes buf (by omega)] at hwrite
  obtain ⟨result, last, hwrite', -, hlast⟩ := hsound.write hwf htypes 1 (some buf) count
  obtain ⟨rfl, rfl⟩ := Prod.mk.inj (Option.some.inj (hwrite.symm.trans hwrite'))
  refine ⟨_, ?_, hk.of_sound (Kernel.write_same hwrite) hlast, rfl, rfl⟩
  rw [Kernel.serve, Kernel.call, hwrite]
  rfl

end Displayed

end Calls

/-! ## Programs whose calls are answered at once -/

section Goes

variable {img : Image} {t : Terminal} {n : Nat} {Pos : Type} {program : UserProgram Pos}
  {holds : Kernel → Pos → List (UserCall × Reply) → Prop}
  {s last : UserSession Pos} {history : List (Fired (UserSession Pos) (ClientMove MachineEvent))}

/-- The next call is answered, and what holds at the calls holds behind it. -/
def Goes (img : Image) (t : Terminal) (n : Nat) (program : UserProgram Pos)
    (holds : Kernel → Pos → List (UserCall × Reply) → Prop) (k : Kernel) (pos : Pos)
    (answered : List (UserCall × Reply)) : Prop :=
  ∃ call reply after, program.next pos = .inl call ∧
    k.serve img call = some (some reply, after) ∧ Displayed img t n after ∧
    holds after (program.resume pos reply) (answered ++ [(call, reply)])

/-- A displayed program that runs has ended or goes on. -/
def AlwaysGoes (img : Image) (t : Terminal) (n : Nat) (program : UserProgram Pos)
    (holds : Kernel → Pos → List (UserCall × Reply) → Prop) : Prop :=
  ∀ k pos answered, Displayed img t n k → holds k pos answered →
    (∃ value, program.next pos = .inr value) ∨ Goes img t n program holds k pos answered

/-- What holds at the calls holds in every session, when it only speaks about the PCB of the
process and what the others leave. -/
theorem UserSession.holds_run (hwf : img.WellFormed) (htypes : img.TypesKnown)
    (hstarts : StartsNothing program) (hgoes : AlwaysGoes img t n program holds)
    (leaves : Kernel → MachineEvent → Prop)
    (hkept : ∀ k pos answered event after, holds k pos answered → leaves k event →
      OtherEvent img t n k event after → holds after pos answered)
    (hrun : Run (Session.step program (kernelService img t n)) s history last)
    (hallowed : ∀ fired ∈ history, Attentive img t n fired.pre.state fired.event ∧
      ∀ event, fired.event = .other event → leaves fired.pre.state event)
    (hattends : Attends img t n s.state) (hstart : holds s.state s.pos s.answered) :
    Attends img t n last.state ∧ holds last.state last.pos last.answered := by
  refine UserSession.invariant hwf htypes hstarts hrun leaves hallowed holds ?_ hkept
    hattends hstart
  intro k pos answered call reply after hholds hown
  rcases hgoes k pos answered ⟨hown.attends, hown.runs, hown.shown⟩ hholds with
    ⟨value, hvalue⟩ | ⟨call', reply', after', hnext, hserve, -, hafter⟩
  · rw [hown.next] at hvalue
    cases hvalue
  · obtain rfl := Sum.inl.inj (hnext.symm.trans hown.next)
    obtain ⟨rfl, rfl⟩ := Prod.mk.inj (Option.some.inj (hserve.symm.trans hown.served))
    exact hafter

/-- Where the number of calls is bounded, a displayed program that runs comes to its end by its
own moves. -/
theorem UserSession.ends (hgoes : AlwaysGoes img t n program holds) (bound : Nat)
    (hbound : ∀ k pos answered, holds k pos answered → answered.length ≤ bound)
    (hk : Displayed img t n s.state) (hholds : holds s.state s.pos s.answered) :
    ∃ history last value, Run (Session.step program (kernelService img t n)) s history last ∧
      (∀ fired ∈ history, fired.event = .own ∧ fired.pre.state.currTerminal = t) ∧
      holds last.state last.pos last.answered ∧ program.next last.pos = .inr value := by
  have hnext : ∀ s : UserSession Pos, Displayed img t n s.state ∧ holds s.state s.pos s.answered →
      (∃ value, program.next s.pos = .inr value) ∨
        ∃ next, s.step program (kernelService img t n) .own = some next ∧
          (Displayed img t n next.state ∧ holds next.state next.pos next.answered) ∧
          next.answered.length = s.answered.length + 1 := by
    rintro s ⟨hs, hholds⟩
    rcases hgoes _ _ _ hs hholds with hended | ⟨call, reply, after, hnext, hserve, hafter, hheld⟩
    · exact .inl hended
    · refine .inr ⟨_, Session.own_eq_some.mpr
        ⟨call, some reply, after, hnext, hs.runs, hserve, rfl⟩, ⟨hafter, hheld⟩, ?_⟩
      rw [Session.answer, List.length_append, List.length_singleton]
  obtain ⟨history, last, value, hrun, hown, ⟨-, hlast⟩, hvalue⟩ :=
    Session.completes _ bound (fun s hs => hbound _ _ _ hs.2) hnext ⟨hk, hholds⟩
  exact ⟨history, last, value, hrun,
    fun fired hmem => ⟨(hown fired hmem).1, (hown fired hmem).2.1.shown⟩, hlast, hvalue⟩

end Goes

end Ece391
