import Ece391.Directory
import Ece391.ProgramScreens

/-! # `ls`

`ls` reads the directory into a buffer of 33 bytes, one name a read, and prints each name with
a new line until a read returns 0. As `dir_index` is shared it is right when the others leave
the directory alone meanwhile; it ends early at an entry without a name.
-/

namespace Ece391

open Function Transition Sessions

def directoryOpenFailed : List UInt8 := ascii
  ['d', 'i', 'r', 'e', 'c', 't', 'o', 'r', 'y', ' ', 'o', 'p', 'e', 'n', ' ', 'f', 'a',
    'i', 'l', 'e', 'd', '\n']

def entryReadFailed : List UInt8 := ascii
  ['d', 'i', 'r', 'e', 'c', 't', 'o', 'r', 'y', ' ', 'e', 'n', 't', 'r', 'y', ' ', 'r',
    'e', 'a', 'd', ' ', 'f', 'a', 'i', 'l', 'e', 'd', '\n']

/-- The calls of `main` with the variables that are used behind them. -/
inductive Ls where
  | open_ (buf : UserBuffer)
  | read (fd : Int) (buf : UserBuffer)
  | write (fd cnt : Int) (buf : UserBuffer)
  | puts (text : List UInt8) (value : Int)
  | returned (value : Int)

namespace Ls

def next : Ls → UserCall ⊕ Int
  | open_ _ => .inl (.fd (.open_ (some (ascii ['.']))))
  | read fd _ => .inl (.fd (.read fd true 32))
  | write _ cnt buf => .inl (.fd (.write 1 (some buf) (cnt + 1)))
  | puts text _ => .inl (fdputs 1 text)
  | returned value => .inr value

def resume : Ls → Reply → Ls
  | open_ buf, reply =>
      if -1 = reply.value then puts directoryOpenFailed 2 else read reply.value buf
  | read fd buf, reply =>
      if 0 = reply.value then returned 0
      else if -1 = reply.value then puts entryReadFailed 3
      else write fd reply.value (update (storedAt buf reply.out) reply.value.toNat NEWLINE)
  | write fd _ buf, reply => if -1 = reply.value then returned 3 else read fd buf
  | puts _ value, _ => returned value
  | returned value, _ => returned value

/-- `main` of `ece391ls.c`. -/
def main : UserProgram Ls := ⟨next, resume⟩

theorem main_resume : main.resume = resume := rfl

theorem startsNothing : StartsNothing main := by
  intro pos command regs
  cases pos <;> simp [main, next, fdputs]

theorem mapsInside : MapsInside main := by
  intro pos screenStart
  cases pos <;> simp [main, next, fdputs]

end Ls

/-! ## What has to come out -/

/-- The names that `ls` comes to: an entry without one ends the listing. -/
def lsNames (img : Image) : List (List UInt8) :=
  ((List.range img.amtDentrys).map fun index => (img.entry index).name).takeWhile fun name =>
    name ≠ []

def lsLines (names : List (List UInt8)) : List UInt8 := names.flatMap fun name => name ++ [NEWLINE]

/-- The directory is found under its name. -/
def Image.listed (img : Image) : Bool := (readDentryByName img (ascii ['.'])).isSome

def lsText (img : Image) : List UInt8 :=
  if img.listed then lsLines (lsNames img) else directoryOpenFailed

def lsValue (img : Image) : Int := if img.listed then 0 else 2

/-- The number of calls. -/
def lsCalls (img : Image) : Nat := if img.listed then 2 + 2 * (lsNames img).length else 2

section Names

variable {img : Image} {index : Nat}

theorem lsNames_front (img : Image) :
    lsNames img <+: (List.range img.amtDentrys).map fun index => (img.entry index).name :=
  List.takeWhile_prefix _

theorem lsNames_length_le (img : Image) : (lsNames img).length ≤ img.amtDentrys := by
  have hle := (lsNames_front img).length_le
  rwa [List.length_map, List.length_range] at hle

/-- In front of the end the listing goes on with the name of the entry. -/
theorem lsNames_getElem (hlt : index < (lsNames img).length) :
    (lsNames img)[index] = (img.entry index).name ∧ (img.entry index).name ≠ [] := by
  have hname : (lsNames img)[index] = (img.entry index).name := by
    rw [(lsNames_front img).getElem hlt, List.getElem_map, List.getElem_range]
  have hsome := List.mem_takeWhile_imp (List.getElem_mem hlt)
  rw [← hname]
  exact ⟨rfl, by simpa using hsome⟩

/-- It ends behind the last entry or at one without a name. -/
theorem lsNames_end (hlt : (lsNames img).length < img.amtDentrys) :
    (img.entry (lsNames img).length).name = [] := by
  let names := (List.range img.amtDentrys).map fun index => (img.entry index).name
  have hend : (lsNames img).length = names.findIdx fun name => !decide (name ≠ []) := by
    rw [lsNames, List.takeWhile_eq_take_findIdx_not, List.length_take]
    exact Nat.min_eq_left List.findIdx_le_length
  have hinside : (names.findIdx fun name => !decide (name ≠ [])) < names.length := by
    rw [← hend, List.length_map, List.length_range]
    exact hlt
  have hempty := List.findIdx_getElem (w := hinside)
  simp only [← hend, names, List.getElem_map, List.getElem_range] at hempty
  simpa using hempty

/-- A name with a new line behind it is printed as it is. -/
theorem line_filter (entry : Dentry) :
    (entry.name ++ [NEWLINE]).filter (fun c => c ≠ NUL) = entry.name ++ [NEWLINE] := by
  rw [List.filter_eq_self]
  intro c hmem
  rcases List.mem_append.mp hmem with hname | hnew
  · have hsome := List.mem_takeWhile_imp hname
    simpa using hsome
  · obtain rfl := List.mem_singleton.mp hnew
    decide

/-- The new line is stored behind the name. -/
theorem bufferBytes_line (buf : UserBuffer) {name out : List UInt8} (hfront : name <+: out) :
    bufferBytes (update (storedAt buf out) name.length NEWLINE) (name.length + 1) =
      name ++ [NEWLINE] := by
  obtain ⟨rest, rfl⟩ := hfront
  have hline : (name ++ [NEWLINE]).length = name.length + 1 := by
    rw [List.length_append, List.length_singleton]
  rw [← hline]
  refine bufferBytes_eq fun i hi => ?_
  rcases (Nat.lt_succ_iff.mp (hline ▸ hi)).lt_or_eq with hlt | rfl
  · rw [update_of_ne hlt.ne, storedAt_front buf (by rw [List.length_append]; omega),
      List.getElem_append_left hlt, List.getElem_append_left hlt]
  · rw [update_self, List.getElem_append_right (le_refl _)]
    simp

theorem lsLines_take (names : List (List UInt8)) (hlt : index < names.length) :
    lsLines (names.take (index + 1)) =
      lsLines (names.take index) ++ (names[index] ++ [NEWLINE]) := by
  rw [List.take_succ_eq_append_getElem hlt, lsLines, List.flatMap_append, List.flatMap_singleton,
    ← lsLines]

end Names

/-! ## The directory as a displayed process finds it -/

/-- A descriptor that `open` returned for the directory. -/
structure OpenDirectory (pcb : Pcb) (fd : Nat) : Prop where
  low : STDI_O ≤ fd
  high : fd < MAX_OPEN_FILES
  directory : (pcb.fileArray fd).IsDirectory

/-- The others leave `dir_index` alone. -/
def KeepsDirectory (img : Image) (k : Kernel) : MachineEvent → Prop
  | .kernel event => dirEffect img k event = .keep
  | .fill buf call => dirEffect img k (call.event buf) = .keep
  | .store _ _ => True

theorem KeepsDirectory.dirIndex {img : Image} {k after : Kernel} {event : MachineEvent}
    (hkeeps : KeepsDirectory img k event) (hwf : img.WellFormed)
    (hstep : machineStep img k event = some after) : after.dirIndex = k.dirIndex := by
  cases event with
  | kernel event =>
      rw [step_dirIndex hwf hstep, show dirEffect img k event = .keep from hkeeps]
      rfl
  | fill buf call =>
      obtain ⟨next, bytes, hcall, hstore⟩ := machineStep_fill hstep
      obtain ⟨⟨hkernel, -⟩, -, -⟩ := Kernel.storeUserBytes_spec hstore
      rw [hkernel, step_dirIndex hwf hcall,
        show dirEffect img k (call.event buf) = .keep from hkeeps]
      rfl
  | store vaddr byte =>
      have hstore : k.storeUser vaddr byte = some after := hstep
      unfold Kernel.storeUser at hstore
      obtain ⟨target, -, rfl⟩ := Option.map_eq_some_iff.mp hstore
      cases target <;> rfl

section Calls

variable {img : Image} {t : Terminal} {n : Nat} {k : Kernel}

theorem Displayed.readsDirectory (hk : Displayed img t n k) {fd : Nat}
    (hdir : OpenDirectory (k.pcb (getPCB n)) fd) : k.ReadsDirectory fd true := by
  have hne : fd ≠ 1 := by
    have hlow := hdir.low
    simp only [STDI_O] at hlow
    omega
  rw [hk.fdsSound.readsDirectory_iff, hk.fds]
  exact ⟨hdir.high, hne, hdir.directory⟩

/-- The directory is opened at its start. -/
theorem Displayed.open_directory (hk : Displayed img t n k) (hwf : img.WellFormed)
    (htypes : img.TypesKnown) (hroom : (usedFds (k.pcb (getPCB n))).card < MAX_OPEN_FILES)
    {filename : List UInt8} {entry : Dentry} (hfind : readDentryByName img filename = some entry)
    (htype : entry.fileType = 1) :
    ∃ fd : Nat, ∃ after, k.serve img (.fd (.open_ (some filename))) = some (some ⟨fd, []⟩, after) ∧
      Displayed img t n after ∧ OpenDirectory (after.pcb (getPCB n)) fd ∧ after.dirIndex = 0 := by
  have hopenFds : k.openFds = usedFds (k.pcb (getPCB n)) := by
    rw [Kernel.openFds, hk.fds, usedFds]
  obtain ⟨fd, after, hopen, hsound, ⟨⟨hlow, hhigh, -⟩, -⟩, hstored, -⟩ :=
    hk.fdsSound.open_found hwf htypes (hopenFds ▸ hroom) hfind
  obtain ⟨fd', after', hopen', -, -, hindex, -⟩ :=
    hk.fdsSound.open_directory hwf htypes (hopenFds ▸ hroom) hfind htype
  obtain ⟨-, rfl⟩ := Prod.mk.inj (Option.some.inj (hopen.symm.trans hopen'))
  have hafter := hk.of_sound (Kernel.open_same hopen) hsound
  refine ⟨fd, after, ?_, hafter, ⟨hlow, hhigh, ?_⟩, hindex⟩
  · rw [Kernel.serve, Kernel.call, hopen]
    rfl
  · rw [← hafter.fds, hstored, update_self, descOf, htype]
    exact ⟨(by decide : FD_FLAG_PRESENT + FD_FLAG_DIRECTORY ≠ 0), rfl⟩

/-- A read of 32 bytes on the directory reports the length of a name and stores the name. -/
theorem Displayed.read_directory (hk : Displayed img t n k) (hwf : img.WellFormed) {fd : Nat}
    (hdir : OpenDirectory (k.pcb (getPCB n)) fd) (hmore : k.dirIndex < img.amtDentrys) :
    ∃ out after, k.serve img (.fd (.read fd true 32)) =
        some (some ⟨(img.entry k.dirIndex).name.length, out⟩, after) ∧
      Displayed img t n after ∧ after.pcb = k.pcb ∧ after.dirIndex = k.dirIndex + 1 ∧
      (img.entry k.dirIndex).name <+: out ∧ out.length ≤ 33 := by
  have hreads := hk.readsDirectory hdir
  obtain ⟨after, hread, hsound, hindex, -⟩ := hk.fdsSound.read_directory hwf hreads 32
  have hafter := hk.of_sound (Kernel.read_same hread) hsound
  have hlength := img.entry_length k.dirIndex
  have hcopied : (if (32 : Int) > FILE_NAME_SIZE then FILE_NAME_SIZE else toU32 32 % 256) =
      FILE_NAME_SIZE := by decide
  have hdata := k.dirRead_entry hwf 32 hmore
  rw [hcopied, nameStop_eq hlength] at hdata
  have hresult := congrArg Prod.fst hdata
  have hpcb : after.pcb = k.pcb := by
    rw [(Kernel.readsDirectory_iff.mp hreads).read_eq] at hread
    obtain rfl := congrArg Prod.snd (Option.some.inj hread)
    exact k.dirRead_pcb img 32
  rw [hresult] at hread
  refine ⟨(List.range ((img.entry k.dirIndex).name.length + 1)).map (img.entry k.dirIndex).byte,
    after, ?_, hafter, hpcb, ?_, ?_, ?_⟩
  · rw [Kernel.serve, Kernel.call, hread]
    rfl
  · rw [hindex, DirEffect.apply, if_pos hmore]
  · rw [List.range_succ, List.map_append, (img.entry k.dirIndex).map_byte_name hlength]
    exact List.prefix_append _ _
  · have hle : (img.entry k.dirIndex).name.length ≤ FILE_NAME_SIZE := by
      rw [← hlength]
      exact (List.takeWhile_prefix _).length_le
    rw [List.length_map, List.length_range]
    simp only [FILE_NAME_SIZE] at hle
    omega

/-- Behind the last entry it reports 0. -/
theorem Displayed.read_directory_end (hk : Displayed img t n k) (hwf : img.WellFormed) {fd : Nat}
    (hdir : OpenDirectory (k.pcb (getPCB n)) fd) (hend : img.amtDentrys ≤ k.dirIndex) :
    k.serve img (.fd (.read fd true 32)) = some (some ⟨0, []⟩, k) := by
  have hread := (Kernel.readsDirectory_iff.mp (hk.readsDirectory hdir)).read_eq img 32
  rw [Kernel.fopsRead, k.dirRead_end hwf 32 hend] at hread
  rw [Kernel.serve, Kernel.call, hread]
  rfl

end Calls

/-! ## The loop -/

/-- What has been printed behind `m` entries. -/
def lsFront (img : Image) (m : Nat) : List UInt8 := lsLines ((lsNames img).take m)

/-- What holds at each call: `dir_index` stands behind the entries that were read. -/
def Ls.Holds (img : Image) (n : Nat) (k : Kernel) : Ls → List (UserCall × Reply) → Prop
  | .open_ _, answered => answered = [] ∧ (usedFds (k.pcb (getPCB n))).card < MAX_OPEN_FILES
  | .read fd _, answered => ∃ (desc m : Nat), fd = desc ∧ img.listed ∧
      OpenDirectory (k.pcb (getPCB n)) desc ∧ k.dirIndex = m ∧ m ≤ (lsNames img).length ∧
      answered.length = 1 + 2 * m ∧ printed answered = lsFront img m
  | .write fd cnt buf, answered => ∃ (desc m : Nat), fd = desc ∧ img.listed ∧
      OpenDirectory (k.pcb (getPCB n)) desc ∧ k.dirIndex = m + 1 ∧ m < (lsNames img).length ∧
      answered.length = 2 + 2 * m ∧ printed answered = lsFront img m ∧
      cnt = (img.entry m).name.length ∧
      bufferBytes buf ((img.entry m).name.length + 1) = (img.entry m).name ++ [NEWLINE]
  | .puts text value, answered => img.listed = false ∧ text = directoryOpenFailed ∧ value = 2 ∧
      answered.length = 1 ∧ printed answered = []
  | .returned value, answered => value = lsValue img ∧ answered.length = lsCalls img ∧
      printed answered = lsText img

/-- What `ls` finds at its calls. -/
abbrev Ls.Finds (img : Image) (n : Nat) (k : Kernel) (pos : Ls)
    (answered : List (UserCall × Reply)) : Prop := pos.Holds img n k answered

section Loop

variable {img : Image} {t : Terminal} {n : Nat} {k : Kernel} {answered : List (UserCall × Reply)}

/-- Beside the PCB the others could disturb `dir_index`. -/
theorem Ls.Holds.same {after : Kernel} {pos : Ls} (hholds : pos.Holds img n k answered)
    (hsame : Pcb.SameTables (k.pcb (getPCB n)) (after.pcb (getPCB n)))
    (hindex : after.dirIndex = k.dirIndex) : pos.Holds img n after answered := by
  have hdirectory : ∀ {fd}, OpenDirectory (k.pcb (getPCB n)) fd →
      OpenDirectory (after.pcb (getPCB n)) fd := by
    intro fd hdir
    exact ⟨hdir.low, hdir.high, hsame.fileArray ▸ hdir.directory⟩
  cases pos with
  | open_ buf =>
      obtain ⟨hnil, hroom⟩ := hholds
      refine ⟨hnil, ?_⟩
      rwa [usedFds, hsame.fileArray, ← usedFds]
  | read fd buf =>
      obtain ⟨desc, m, hfd, hlisted, hdir, hat, hrest⟩ := hholds
      exact ⟨desc, m, hfd, hlisted, hdirectory hdir, hindex.trans hat, hrest⟩
  | write fd cnt buf =>
      obtain ⟨desc, m, hfd, hlisted, hdir, hat, hrest⟩ := hholds
      exact ⟨desc, m, hfd, hlisted, hdirectory hdir, hindex.trans hat, hrest⟩
  | puts text value => exact hholds
  | returned value => exact hholds

theorem Ls.goes_open (hk : Displayed img t n k) (hwf : img.WellFormed) (htypes : img.TypesKnown)
    (hdir : ∀ entry, readDentryByName img (ascii ['.']) = some entry → entry.fileType = 1)
    {buf : UserBuffer} (hholds : (Ls.open_ buf).Holds img n k answered) :
    Goes img t n Ls.main (Ls.Finds img n) k (.open_ buf) answered := by
  obtain ⟨rfl, hroom⟩ := hholds
  cases hfind : readDentryByName img (ascii ['.']) with
  | none =>
      refine ⟨_, _, k, rfl, k.serve_unknown hfind, hk, ?_, rfl, rfl, rfl, rfl⟩
      rw [Image.listed, hfind]
      rfl
  | some entry =>
      obtain ⟨fd, after, hserve, hafter, hopen, hindex⟩ :=
        hk.open_directory hwf htypes hroom hfind (hdir entry hfind)
      refine ⟨_, _, after, rfl, hserve, hafter, ?_⟩
      rw [Ls.main_resume, Ls.resume, if_neg (by dsimp only; omega)]
      refine ⟨fd, 0, rfl, ?_, hopen, hindex, Nat.zero_le _, rfl, rfl⟩
      rw [Image.listed, hfind]
      rfl

/-- A read behind the listing ends it. -/
theorem Ls.goes_end (hk : Displayed img t n k) (hwf : img.WellFormed) {desc : Nat}
    (hlisted : img.listed) (hdir : OpenDirectory (k.pcb (getPCB n)) desc)
    (hat : k.dirIndex = (lsNames img).length) {buf : UserBuffer}
    (hlength : answered.length = 1 + 2 * (lsNames img).length)
    (hprinted : printed answered = lsFront img (lsNames img).length) :
    Goes img t n Ls.main (Ls.Finds img n) k (.read desc buf) answered := by
  have hanswer : ∃ out after, k.serve img (.fd (.read desc true 32)) =
      some (some ⟨0, out⟩, after) ∧ Displayed img t n after := by
    rcases (lsNames_length_le img).lt_or_eq with hmore | hend
    · obtain ⟨out, after, hserve, hafter, -⟩ := hk.read_directory hwf hdir (hat.trans_lt hmore)
      rw [hat, lsNames_end hmore] at hserve
      exact ⟨out, after, hserve, hafter⟩
    · exact ⟨[], k, hk.read_directory_end hwf hdir (hat.trans hend).ge, hk⟩
  obtain ⟨out, after, hserve, hafter⟩ := hanswer
  refine ⟨_, _, after, rfl, hserve, hafter, ?_⟩
  rw [Ls.main_resume, Ls.resume, if_pos rfl]
  refine ⟨?_, ?_, ?_⟩
  · rw [lsValue, if_pos hlisted]
  · rw [lsCalls, if_pos hlisted, List.length_append, hlength, List.length_singleton]
    omega
  · rw [printed_snoc, printedBy_read hdir.low, List.append_nil, hprinted, lsText, if_pos hlisted,
      lsFront, List.take_length]

theorem Ls.goes_read (hk : Displayed img t n k) (hwf : img.WellFormed) {fd : Int} {buf : UserBuffer}
    (hholds : (Ls.read fd buf).Holds img n k answered) :
    Goes img t n Ls.main (Ls.Finds img n) k (.read fd buf) answered := by
  obtain ⟨desc, m, rfl, hlisted, hdir, hat, hle, hlength, hprinted⟩ := hholds
  rcases hle.lt_or_eq with hm | rfl
  · obtain ⟨-, hsome⟩ := lsNames_getElem hm
    have hmore : k.dirIndex < img.amtDentrys := by
      have hbound := lsNames_length_le img
      omega
    obtain ⟨out, after, hserve, hafter, hpcb, hindex, hfront, -⟩ := hk.read_directory hwf hdir hmore
    rw [hat] at hserve hindex hfront
    have hpos := List.length_pos_iff.mpr hsome
    refine ⟨_, _, after, rfl, hserve, hafter, ?_⟩
    rw [Ls.main_resume, Ls.resume, if_neg (by dsimp only; omega), if_neg (by dsimp only; omega)]
    refine ⟨desc, m, rfl, hlisted, by rwa [hpcb], hindex, hm, ?_, ?_, rfl, ?_⟩
    · rw [List.length_append, hlength, List.length_singleton]
      omega
    · rw [printed_snoc, printedBy_read hdir.low, List.append_nil, hprinted]
    · rw [Int.toNat_natCast]
      exact bufferBytes_line buf hfront
  · exact Ls.goes_end hk hwf hlisted hdir hat hlength hprinted

theorem Ls.goes_write (hk : Displayed img t n k) (hwf : img.WellFormed) (htypes : img.TypesKnown)
    {fd cnt : Int} {buf : UserBuffer} (hholds : (Ls.write fd cnt buf).Holds img n k answered) :
    Goes img t n Ls.main (Ls.Finds img n) k (.write fd cnt buf) answered := by
  obtain ⟨desc, m, rfl, hlisted, hdir, hat, hm, hlength, hprinted, rfl, hbuf⟩ := hholds
  obtain ⟨after, hserve, hafter, hpcb, -⟩ :=
    hk.write_stdout hwf htypes buf (Nat.succ_pos (img.entry m).name.length)
  have hindex : after.dirIndex = k.dirIndex := step_dirIndex hwf (Kernel.serve_step hserve)
  refine ⟨_, _, after, rfl, hserve, hafter, ?_⟩
  rw [Ls.main_resume, Ls.resume, if_neg (by dsimp only; omega)]
  refine ⟨desc, m + 1, rfl, hlisted, by rwa [hpcb], hindex.trans hat, hm, ?_, ?_⟩
  · rw [List.length_append, hlength, List.length_singleton]
    omega
  · have hdone : (((img.entry m).name.length + 1 : Nat) : Int) + 1 ≠ -1 := by omega
    have hprints : printedBy (.fd (.write 1 (some buf) ((img.entry m).name.length + 1 : Nat)),
        ⟨((img.entry m).name.length + 1 : Nat) + 1, []⟩) = (img.entry m).name ++ [NEWLINE] := by
      rw [printedBy_write buf _ hdone, hbuf, line_filter]
    rw [printed_snoc, hprinted, lsFront, lsFront, lsLines_take _ hm, (lsNames_getElem hm).1]
    exact congrArg _ hprints

theorem Ls.goes_puts (hk : Displayed img t n k) (hwf : img.WellFormed) (htypes : img.TypesKnown)
    {text : List UInt8} {value : Int} (hholds : (Ls.puts text value).Holds img n k answered) :
    Goes img t n Ls.main (Ls.Finds img n) k (.puts text value) answered := by
  obtain ⟨hlisted, rfl, rfl, hlength, hprinted⟩ := hholds
  obtain ⟨after, hserve, hafter, -⟩ := hk.write_stdout hwf htypes
    (fun i => directoryOpenFailed.getD i NUL) (by decide : 0 < directoryOpenFailed.length)
  have hnot : ¬ img.listed = true := by simp [hlisted]
  refine ⟨_, _, after, rfl, hserve, hafter, ?_, ?_, ?_⟩
  · rw [lsValue, if_neg hnot]
  · rw [lsCalls, if_neg hnot, List.length_append, List.length_singleton, hlength]
  · have hdone : ((directoryOpenFailed.length : Int) + 1) ≠ -1 := by omega
    rw [printed_snoc, hprinted, fdputs, printedBy_write _ _ hdone, bufferBytes_getD, lsText,
      if_neg hnot]
    change (directoryOpenFailed.filter fun c => c ≠ NUL) = directoryOpenFailed
    decide

theorem Ls.goes (hwf : img.WellFormed) (htypes : img.TypesKnown)
    (hdir : ∀ entry, readDentryByName img (ascii ['.']) = some entry → entry.fileType = 1) :
    AlwaysGoes img t n Ls.main (Ls.Finds img n) := by
  intro k pos answered hk hholds
  cases pos with
  | open_ buf => exact .inr (Ls.goes_open hk hwf htypes hdir hholds)
  | read fd buf => exact .inr (Ls.goes_read hk hwf hholds)
  | write fd cnt buf => exact .inr (Ls.goes_write hk hwf htypes hholds)
  | puts text value => exact .inr (Ls.goes_puts hk hwf htypes hholds)
  | returned value => exact .inl ⟨value, rfl⟩

/-- At any call whole lines have been printed, the first of the listing. -/
theorem Ls.Holds.printed_front {pos : Ls} (hholds : pos.Holds img n k answered) :
    printed answered <+: lsText img ∧ answered.length ≤ lsCalls img := by
  have hfront : ∀ {m}, img.listed → lsFront img m <+: lsText img := by
    intro m hlisted
    obtain ⟨rest, hrest⟩ := List.take_prefix m (lsNames img)
    rw [lsText, if_pos hlisted]
    conv => rhs; rw [← hrest]
    rw [lsFront, lsLines, lsLines, List.flatMap_append]
    exact List.prefix_append _ _
  have hcalls : 2 ≤ lsCalls img := by
    unfold lsCalls
    split <;> omega
  cases pos with
  | open_ buf =>
      obtain ⟨rfl, -⟩ := hholds
      exact ⟨List.nil_prefix, Nat.zero_le _⟩
  | read fd buf =>
      obtain ⟨desc, m, -, hlisted, -, -, hle, hlength, hprinted⟩ := hholds
      rw [hprinted, lsCalls, if_pos hlisted]
      exact ⟨hfront hlisted, by omega⟩
  | write fd cnt buf =>
      obtain ⟨desc, m, -, hlisted, -, -, hlt, hlength, hprinted, -⟩ := hholds
      rw [hprinted, lsCalls, if_pos hlisted]
      exact ⟨hfront hlisted, by omega⟩
  | puts text value =>
      obtain ⟨-, -, -, hlength, hprinted⟩ := hholds
      rw [hprinted]
      exact ⟨List.nil_prefix, by omega⟩
  | returned value =>
      obtain ⟨-, hlength, hprinted⟩ := hholds
      rw [hprinted, hlength]
      exact ⟨List.prefix_refl _, le_refl _⟩

/-! ## Sessions of `ls` -/

variable {s last : UserSession Ls}
  {history : List (Fired (UserSession Ls) (ClientMove MachineEvent))}

theorem Ls.holds_run (hwf : img.WellFormed) (htypes : img.TypesKnown)
    (hdir : ∀ entry, readDentryByName img (ascii ['.']) = some entry → entry.fileType = 1)
    (hrun : Run (Session.step Ls.main (kernelService img t n)) s history last)
    (hallowed : AllowedMoves img t n history)
    (hleft : ∀ fired ∈ history, ∀ event, fired.event = .other event →
      KeepsDirectory img fired.pre.state event)
    (hattends : Attends img t n s.state) (hholds : s.pos.Holds img n s.state s.answered) :
    Attends img t n last.state ∧ last.pos.Holds img n last.state last.answered := by
  refine UserSession.holds_run hwf htypes Ls.startsNothing (Ls.goes hwf htypes hdir)
    (KeepsDirectory img) ?_ hrun (fun fired hmem => ⟨(hallowed fired hmem).1, hleft fired hmem⟩)
    hattends hholds
  intro k pos answered event after hholds hkeeps hother
  exact hholds.same hother.tables (hkeeps.dirIndex hwf hother.stepped)

/-- From wherever it runs and is displayed `ls` ends by its own moves. -/
theorem Ls.ends (hwf : img.WellFormed) (htypes : img.TypesKnown)
    (hdir : ∀ entry, readDentryByName img (ascii ['.']) = some entry → entry.fileType = 1)
    (hk : Displayed img t n s.state) (hholds : s.pos.Holds img n s.state s.answered) :
    ∃ history last, Run (Session.step Ls.main (kernelService img t n)) s history last ∧
      (∀ fired ∈ history, fired.event = .own ∧ fired.pre.state.currTerminal = t) ∧
      last.pos = .returned (lsValue img) ∧ printed last.answered = lsText img := by
  obtain ⟨history, last, value, hrun, hown, hlast, hvalue⟩ :=
    UserSession.ends (Ls.goes hwf htypes hdir) (lsCalls img)
      (fun k pos answered hholds => hholds.printed_front.2) hk hholds
  refine ⟨history, last, hrun, hown, ?_⟩
  cases hpos : last.pos with
  | returned result =>
      rw [hpos] at hlast
      obtain ⟨rfl, -, hprinted⟩ := hlast
      exact ⟨rfl, hprinted⟩
  | _ =>
      rw [hpos] at hvalue
      cases hvalue

end Loop

/-! ## `ls` as a command -/

section Command

variable {img : Image} {command : List UInt8} {k entered : Kernel} {buf : UserBuffer}
  {last : UserSession Ls} {history : List (Fired (UserSession Ls) (ClientMove MachineEvent))}

end Command

end Ece391
