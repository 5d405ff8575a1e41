import Ece391.ProgramScreens

/-! # `cat`

`cat` prints its file in chunks of 1024 bytes until a read returns 0. Each read reports the
length of the file cut to 1024, wherever it starts, so the loop runs once more behind the end:
what is printed is the file and, behind it, as much as one more chunk holds.
-/

namespace Ece391

open Function Transition Sessions

def couldNotReadArguments : List UInt8 := ascii
  ['c', 'o', 'u', 'l', 'd', ' ', 'n', 'o', 't', ' ', 'r', 'e', 'a', 'd', ' ', 'a', 'r',
    'g', 'u', 'm', 'e', 'n', 't', 's', '\n']

def fileNotFound : List UInt8 := ascii
  ['f', 'i', 'l', 'e', ' ', 'n', 'o', 't', ' ', 'f', 'o', 'u', 'n', 'd', '\n']

def fileReadFailed : List UInt8 := ascii
  ['f', 'i', 'l', 'e', ' ', 'r', 'e', 'a', 'd', ' ', 'f', 'a', 'i', 'l', 'e', 'd', '\n']

/-- The calls of `main` with the variables that are used behind them. -/
inductive Cat where
  | getargs (buf : UserBuffer)
  | open_ (buf : UserBuffer)
  | read (fd : Int) (buf : UserBuffer)
  | write (fd cnt : Int) (buf : UserBuffer)
  | puts (text : List UInt8) (value : Int)
  | returned (value : Int)

namespace Cat

def next : Cat → UserCall ⊕ Int
  | getargs _ => .inl (.getargs 1024)
  | open_ buf => .inl (.fd (.open_ (some (bufferText buf 1024))))
  | read fd _ => .inl (.fd (.read fd true 1024))
  | write _ cnt buf => .inl (.fd (.write 1 (some buf) cnt))
  | puts text _ => .inl (fdputs 1 text)
  | returned value => .inr value

def resume : Cat → Reply → Cat
  | getargs buf, reply =>
      if 0 ≠ reply.value then puts couldNotReadArguments 3 else open_ (storedAt buf reply.out)
  | open_ buf, reply => if -1 = reply.value then puts fileNotFound 2 else read reply.value buf
  | read fd buf, reply =>
      if 0 = reply.value then returned 0
      else if -1 = reply.value then puts fileReadFailed 3
      else write fd reply.value (storedAt buf reply.out)
  | write fd _ buf, reply => if -1 = reply.value then returned 3 else read fd buf
  | puts _ value, _ => returned value
  | returned value, _ => returned value

/-- `main` of `ece391cat.c`. -/
def main : UserProgram Cat := ⟨next, resume⟩

theorem main_resume : main.resume = resume := rfl

theorem startsNothing : StartsNothing main := by
  intro pos command regs
  cases pos <;> simp [main, next, fdputs]

theorem mapsInside : MapsInside main := by
  intro pos screenStart
  cases pos <;> simp [main, next, fdputs]

end Cat

/-! ## What has to come out -/

/-- What one read of `cat` reports, in front of the end. -/
def catChunk (length : Nat) : Nat := min length 1024

/-- The number of reads that report something. -/
def catChunks (length : Nat) : Nat := if length = 0 then 0 else length / catChunk length + 1

def catText (img : Image) (name : List UInt8) : List UInt8 :=
  match readDentryByName img name with
  | none => fileNotFound
  | some entry =>
      let length := fileSize img entry.inodeNum
      (img.fileBytes entry.inodeNum (catChunks length * catChunk length)).filter fun c => c ≠ NUL

def catValue (img : Image) (name : List UInt8) : Int :=
  match readDentryByName img name with
  | none => 2
  | some _ => 0

/-- The number of calls. -/
def catCalls (img : Image) (name : List UInt8) : Nat :=
  match readDentryByName img name with
  | none => 3
  | some entry => 3 + 2 * catChunks (fileSize img entry.inodeNum)

section Lengths

variable {length m : Nat}

/-- The reads that report something start at the end of the file at the latest. -/
theorem catChunks_spec (hpos : 0 < length) :
    m < catChunks length ↔ m * catChunk length ≤ length := by
  have hchunk : 0 < catChunk length := by
    unfold catChunk
    omega
  rw [catChunks, if_neg (by omega), Nat.lt_succ_iff, Nat.le_div_iff_mul_le hchunk]

/-- The whole file is read, and at the most one chunk behind it: a whole one when the length is
at most 1024 or a multiple of it. -/
theorem catChunks_covers : length ≤ catChunks length * catChunk length ∧
    catChunks length * catChunk length ≤ length + catChunk length := by
  by_cases hzero : length = 0
  · subst hzero
    exact ⟨Nat.zero_le _, Nat.zero_le _⟩
  have hpos : 0 < length := Nat.pos_of_ne_zero hzero
  have hlast : ¬ catChunks length < catChunks length := lt_irrefl _
  rw [catChunks_spec hpos] at hlast
  refine ⟨by omega, ?_⟩
  obtain ⟨before, hbefore⟩ : ∃ before, catChunks length = before + 1 := by
    rw [catChunks, if_neg hzero]
    exact ⟨_, rfl⟩
  have hfirst : before < catChunks length := by omega
  rw [catChunks_spec hpos] at hfirst
  rw [hbefore, Nat.add_mul, Nat.one_mul]
  omega

end Lengths

/-! ## The loop -/

/-- The front of a file that has been read in `m` chunks. -/
def catFront (img : Image) (inode m : Nat) : List UInt8 :=
  img.fileBytes inode (m * catChunk (fileSize img inode))

/-- What holds at each call. The descriptor stands behind what was read, and all of it but the
chunk that is about to be written has been printed. -/
def Cat.Holds (img : Image) (n : Nat) (name : List UInt8) (k : Kernel) :
    Cat → List (UserCall × Reply) → Prop
  | .getargs _, answered => answered = [] ∧ PcbArgs (k.pcb (getPCB n)) name ∧
      (usedFds (k.pcb (getPCB n))).card < MAX_OPEN_FILES
  | .open_ buf, answered => bufferText buf 1024 = name ∧ answered.length = 1 ∧
      printed answered = [] ∧ (usedFds (k.pcb (getPCB n))).card < MAX_OPEN_FILES
  | .read fd _, answered => ∃ (desc : Nat) (entry : Dentry) (m : Nat), fd = desc ∧
      readDentryByName img name = some entry ∧
      OpenFile (k.pcb (getPCB n)) desc entry.inodeNum (m * catChunk (fileSize img entry.inodeNum)) ∧
      m ≤ catChunks (fileSize img entry.inodeNum) ∧ answered.length = 2 + 2 * m ∧
      printed answered = (catFront img entry.inodeNum m).filter fun c => c ≠ NUL
  | .write fd cnt buf, answered => ∃ (desc : Nat) (entry : Dentry) (m : Nat), fd = desc ∧
      readDentryByName img name = some entry ∧
      OpenFile (k.pcb (getPCB n)) desc entry.inodeNum
        ((m + 1) * catChunk (fileSize img entry.inodeNum)) ∧
      m < catChunks (fileSize img entry.inodeNum) ∧ 0 < fileSize img entry.inodeNum ∧
      answered.length = 3 + 2 * m ∧
      printed answered = (catFront img entry.inodeNum m).filter (fun c => c ≠ NUL) ∧
      cnt = catChunk (fileSize img entry.inodeNum) ∧
      catFront img entry.inodeNum (m + 1) =
        catFront img entry.inodeNum m ++ bufferBytes buf (catChunk (fileSize img entry.inodeNum))
  | .puts text value, answered => readDentryByName img name = none ∧ text = fileNotFound ∧
      value = 2 ∧ answered.length = 2 ∧ printed answered = []
  | .returned value, answered => value = catValue img name ∧
      answered.length = catCalls img name ∧ printed answered = catText img name

section Loop

variable {img : Image} {t : Terminal} {n : Nat} {name : List UInt8} {k : Kernel}
  {answered : List (UserCall × Reply)}

/-- The PCB is all that the others could disturb. -/
theorem Cat.Holds.same {after : Kernel} {pos : Cat} (hholds : pos.Holds img n name k answered)
    (hsame : Pcb.SameTables (k.pcb (getPCB n)) (after.pcb (getPCB n))) :
    pos.Holds img n name after answered := by
  have hused : usedFds (after.pcb (getPCB n)) = usedFds (k.pcb (getPCB n)) := by
    rw [usedFds, hsame.fileArray, usedFds]
  cases pos with
  | getargs buf =>
      obtain ⟨hnil, hargs, hroom⟩ := hholds
      exact ⟨hnil, hargs.same hsame, by rwa [hused]⟩
  | open_ buf =>
      obtain ⟨hname, hlength, hprinted, hroom⟩ := hholds
      exact ⟨hname, hlength, hprinted, by rwa [hused]⟩
  | read fd buf =>
      obtain ⟨desc, entry, m, hfd, hfind, hfile, hrest⟩ := hholds
      exact ⟨desc, entry, m, hfd, hfind, hfile.same hsame.fileArray, hrest⟩
  | write fd cnt buf =>
      obtain ⟨desc, entry, m, hfd, hfind, hfile, hrest⟩ := hholds
      exact ⟨desc, entry, m, hfd, hfind, hfile.same hsame.fileArray, hrest⟩
  | puts text value => exact hholds
  | returned value => exact hholds

/-- What `cat` finds at its calls. -/
abbrev Cat.Finds (img : Image) (n : Nat) (name : List UInt8) (k : Kernel) (pos : Cat)
    (answered : List (UserCall × Reply)) : Prop := pos.Holds img n name k answered

theorem Cat.goes_getargs (hk : Displayed img t n k) {buf : UserBuffer}
    (hholds : (Cat.getargs buf).Holds img n name k answered) :
    Goes img t n Cat.main (Cat.Finds img n name) k (.getargs buf) answered := by
  obtain ⟨rfl, hargs, hroom⟩ := hholds
  obtain ⟨out, hserve, hfront, -⟩ :=
    hk.getargs hargs (by decide : MAX_ARGS ≤ 1024) (by decide)
  have hshort : name.length < 1024 := Nat.lt_of_lt_of_le hargs.short (by decide)
  exact ⟨_, _, k, rfl, hserve, hk, bufferText_storedAt hfront hargs.nonNul hshort, rfl, rfl, hroom⟩

theorem Cat.goes_open (hk : Displayed img t n k) (hwf : img.WellFormed) (htypes : img.TypesKnown)
    (hregular : ∀ entry, readDentryByName img name = some entry → entry.fileType = 2)
    {buf : UserBuffer} (hholds : (Cat.open_ buf).Holds img n name k answered) :
    Goes img t n Cat.main (Cat.Finds img n name) k (.open_ buf) answered := by
  obtain ⟨hname, hlength, hprinted, hroom⟩ := hholds
  cases hfind : readDentryByName img name with
  | none =>
      refine ⟨_, _, k, by rw [← hname]; rfl, k.serve_unknown hfind, hk, ?_⟩
      refine ⟨hfind, rfl, rfl, ?_, ?_⟩
      · simp [hlength]
      · rw [printed_snoc, hprinted]
        rfl
  | some entry =>
      obtain ⟨fd, after, hserve, hafter, hfile⟩ :=
        hk.open_file hwf htypes hroom hfind (hregular entry hfind)
      refine ⟨_, _, after, by rw [← hname]; rfl, hserve, hafter, ?_⟩
      rw [Cat.main_resume, Cat.resume, if_neg (by dsimp only; omega)]
      refine ⟨fd, entry, 0, rfl, hfind, by simpa using hfile, Nat.zero_le _, ?_, ?_⟩
      · simp [hlength]
      · rw [printed_snoc, hprinted, catFront, Nat.zero_mul]
        rfl

/-- A read in front of the end delivers a chunk. -/
theorem Cat.read_chunk (hwf : img.WellFormed) {inode m : Nat}
    (hlength : fileSize img inode ≤ 1023 * MEM_SIZE_4kB) (hm : m < catChunks (fileSize img inode)) :
    0 < fileSize img inode ∧
      readData img inode (m * catChunk (fileSize img inode)) 1024 =
        (catChunk (fileSize img inode), (List.range (catChunk (fileSize img inode))).map fun i =>
          img.fileByte inode (m * catChunk (fileSize img inode) + i)) ∧
      (m + 1) * catChunk (fileSize img inode) < 2 ^ 32 := by
  have hpos : 0 < fileSize img inode := by
    by_contra hzero
    rw [catChunks, if_pos (by omega)] at hm
    omega
  have hstart := (catChunks_spec hpos).mp hm
  have hdata := readData_eq hwf.aligned inode (m * catChunk (fileSize img inode)) 1024
  rw [if_neg (by omega)] at hdata
  refine ⟨hpos, hdata, ?_⟩
  rw [Nat.add_mul, Nat.one_mul]
  simp only [MEM_SIZE_4kB, catChunk] at hlength hstart ⊢
  omega

/-- The read behind the last chunk reports nothing. -/
theorem Cat.read_end (hwf : img.WellFormed) (inode : Nat) :
    readData img inode (catChunks (fileSize img inode) * catChunk (fileSize img inode)) 1024 =
      (0, []) := by
  have hdata := readData_eq hwf.aligned inode
    (catChunks (fileSize img inode) * catChunk (fileSize img inode)) 1024
  by_cases hzero : fileSize img inode = 0
  · rw [hdata, hzero, catChunks, if_pos rfl, Nat.zero_mul, if_neg (lt_irrefl _), Nat.zero_min]
    rfl
  · have hlast := (catChunks_spec (Nat.pos_of_ne_zero hzero)).not.mp (lt_irrefl _)
    rw [hdata, if_pos (by omega)]

theorem Cat.goes_read (hk : Displayed img t n k) (hwf : img.WellFormed) (htypes : img.TypesKnown)
    (hregular : ∀ entry, readDentryByName img name = some entry → entry.fileType = 2)
    {fd : Int} {buf : UserBuffer} (hholds : (Cat.read fd buf).Holds img n name k answered) :
    Goes img t n Cat.main (Cat.Finds img n name) k (.read fd buf) answered := by
  obtain ⟨desc, entry, m, rfl, hfind, hfile, hle, hlength, hprinted⟩ := hholds
  have hbound := hwf.regular_length hfind (hregular entry hfind)
  obtain ⟨after, hserve, hafter, hnext⟩ :=
    hk.read_file hwf htypes hfile (by decide : 0 < 1024) (by decide)
  refine ⟨_, _, after, rfl, hserve, hafter, ?_⟩
  rw [Cat.main_resume, Cat.resume]
  dsimp only
  rcases hle.lt_or_eq with hm | rfl
  · obtain ⟨hpos, hdata, hsmall⟩ := Cat.read_chunk hwf hbound hm
    rw [hdata] at hnext ⊢
    dsimp only at hnext ⊢
    have hchunk : 0 < catChunk (fileSize img entry.inodeNum) ∧
        catChunk (fileSize img entry.inodeNum) ≤ 1024 := by
      unfold catChunk
      omega
    have hvalue : int32 (catChunk (fileSize img entry.inodeNum)) =
        catChunk (fileSize img entry.inodeNum) := by
      rw [int32, if_pos (by omega)]
    rw [hvalue, if_neg (by omega), if_neg (by omega)]
    rw [← Nat.succ_mul, Nat.succ_eq_add_one, u32_of_lt hsmall] at hnext
    refine ⟨desc, entry, m, rfl, hfind, hnext, hm, hpos, ?_, ?_, rfl, ?_⟩
    · rw [List.length_append, List.length_singleton, hlength]
      omega
    · rw [printed_snoc, hprinted, printedBy_read hfile.low, List.append_nil]
    · have hstored := bufferBytes_storedAt buf
        ((List.range (catChunk (fileSize img entry.inodeNum))).map fun i =>
          img.fileByte entry.inodeNum (m * catChunk (fileSize img entry.inodeNum) + i))
      rw [List.length_map, List.length_range] at hstored
      rw [hstored, catFront, Image.fileBytes, Nat.succ_mul, List.range_add, List.map_append,
        List.map_map, ← Image.fileBytes, ← catFront]
      rfl
  · rw [Cat.read_end hwf] at hnext ⊢
    rw [if_pos (by decide)]
    refine ⟨?_, ?_, ?_⟩
    · rw [catValue, hfind]
    · rw [catCalls, hfind, List.length_append, List.length_singleton, hlength]
      dsimp only
      omega
    · rw [printed_snoc, hprinted, printedBy_read hfile.low, List.append_nil, catText, hfind]
      rfl

theorem Cat.goes_write (hk : Displayed img t n k) (hwf : img.WellFormed) (htypes : img.TypesKnown)
    {fd cnt : Int} {buf : UserBuffer}
    (hholds : (Cat.write fd cnt buf).Holds img n name k answered) :
    Goes img t n Cat.main (Cat.Finds img n name) k (.write fd cnt buf) answered := by
  obtain ⟨desc, entry, m, rfl, hfind, hfile, hm, hpos, hlength, hprinted, rfl, hfront⟩ := hholds
  have hchunk : 0 < catChunk (fileSize img entry.inodeNum) := by
    unfold catChunk
    omega
  obtain ⟨after, hserve, hafter, hpcb, -⟩ := hk.write_stdout hwf htypes buf hchunk
  refine ⟨_, _, after, rfl, hserve, hafter, ?_⟩
  rw [Cat.main_resume, Cat.resume, if_neg (by dsimp only; omega)]
  refine ⟨desc, entry, m + 1, rfl, hfind, by rwa [hpcb], hm, ?_, ?_⟩
  · rw [List.length_append, List.length_singleton, hlength]
    omega
  · rw [printed_snoc, hprinted, printedBy_write buf _ (by dsimp only; omega), hfront,
      List.filter_append]

theorem Cat.goes_puts (hk : Displayed img t n k) (hwf : img.WellFormed) (htypes : img.TypesKnown)
    {text : List UInt8} {value : Int} (hholds : (Cat.puts text value).Holds img n name k answered) :
    Goes img t n Cat.main (Cat.Finds img n name) k (.puts text value) answered := by
  obtain ⟨hfind, rfl, rfl, hlength, hprinted⟩ := hholds
  obtain ⟨after, hserve, hafter, -⟩ := hk.write_stdout hwf htypes
    (fun i => fileNotFound.getD i NUL) (by decide : 0 < fileNotFound.length)
  refine ⟨_, _, after, rfl, hserve, hafter, ?_, ?_, ?_⟩
  · rw [catValue, hfind]
  · rw [catCalls, hfind, List.length_append, List.length_singleton, hlength]
  · have hdone : ((fileNotFound.length : Int) + 1) ≠ -1 := by omega
    rw [printed_snoc, hprinted, fdputs, printedBy_write _ _ hdone, bufferBytes_getD, catText, hfind]
    change (fileNotFound.filter fun c => c ≠ NUL) = fileNotFound
    decide

/-- Wherever `cat` stands while it runs and is displayed, it has ended or its next call is
answered and leads on. -/
theorem Cat.goes (hwf : img.WellFormed) (htypes : img.TypesKnown)
    (hregular : ∀ entry, readDentryByName img name = some entry → entry.fileType = 2) :
    AlwaysGoes img t n Cat.main (Cat.Finds img n name) := by
  intro k pos answered hk hholds
  cases pos with
  | getargs buf => exact .inr (Cat.goes_getargs hk hholds)
  | open_ buf => exact .inr (Cat.goes_open hk hwf htypes hregular hholds)
  | read fd buf => exact .inr (Cat.goes_read hk hwf htypes hregular hholds)
  | write fd cnt buf => exact .inr (Cat.goes_write hk hwf htypes hholds)
  | puts text value => exact .inr (Cat.goes_puts hk hwf htypes hholds)
  | returned value => exact .inl ⟨value, rfl⟩

/-- What has been printed at any call is the front of what will have been printed. -/
theorem Cat.Holds.printed_front {pos : Cat} (hholds : pos.Holds img n name k answered) :
    printed answered <+: catText img name ∧ answered.length ≤ catCalls img name := by
  have hcalls : 3 ≤ catCalls img name := by
    unfold catCalls
    split <;> omega
  have hfront : ∀ {entry m}, readDentryByName img name = some entry →
      m ≤ catChunks (fileSize img entry.inodeNum) →
      ((catFront img entry.inodeNum m).filter fun c => c ≠ NUL) <+: catText img name := by
    intro entry m hfind hle
    rw [catText, hfind]
    refine List.IsPrefix.filter _ ?_
    obtain ⟨more, hmore⟩ := Nat.exists_eq_add_of_le hle
    rw [catFront, hmore, Nat.add_mul, Image.fileBytes, Image.fileBytes, List.range_add,
      List.map_append]
    exact List.prefix_append _ _
  cases pos with
  | getargs buf =>
      obtain ⟨rfl, -⟩ := hholds
      exact ⟨List.nil_prefix, Nat.zero_le _⟩
  | open_ buf =>
      obtain ⟨-, hlength, hprinted, -⟩ := hholds
      rw [hprinted]
      exact ⟨List.nil_prefix, by omega⟩
  | read fd buf =>
      obtain ⟨desc, entry, m, -, hfind, -, hle, hlength, hprinted⟩ := hholds
      rw [hprinted, catCalls, hfind]
      exact ⟨hfront hfind hle, by dsimp only; omega⟩
  | write fd cnt buf =>
      obtain ⟨desc, entry, m, -, hfind, -, hlt, -, hlength, hprinted, -⟩ := hholds
      rw [hprinted, catCalls, hfind]
      exact ⟨hfront hfind hlt.le, by dsimp only; omega⟩
  | puts text value =>
      obtain ⟨-, -, -, hlength, hprinted⟩ := hholds
      rw [hprinted]
      exact ⟨List.nil_prefix, by omega⟩
  | returned value =>
      obtain ⟨-, hlength, hprinted⟩ := hholds
      rw [hprinted, hlength]
      exact ⟨List.prefix_refl _, le_refl _⟩

/-! ## Sessions of `cat` -/

variable {s last : UserSession Cat}
  {history : List (Fired (UserSession Cat) (ClientMove MachineEvent))}

theorem Cat.holds_run (hwf : img.WellFormed) (htypes : img.TypesKnown)
    (hregular : ∀ entry, readDentryByName img name = some entry → entry.fileType = 2)
    (hrun : Run (Session.step Cat.main (kernelService img t n)) s history last)
    (hallowed : AllowedMoves img t n history) (hattends : Attends img t n s.state)
    (hholds : s.pos.Holds img n name s.state s.answered) :
    Attends img t n last.state ∧ last.pos.Holds img n name last.state last.answered := by
  refine UserSession.holds_run hwf htypes Cat.startsNothing
    (Cat.goes hwf htypes hregular) (fun _ _ => True) ?_ hrun
    (fun fired hmem => ⟨(hallowed fired hmem).1, fun _ _ => trivial⟩) hattends hholds
  intro k pos answered event after hholds _ hother
  exact hholds.same hother.tables

/-- From wherever it runs and is displayed `cat` ends by its own moves. -/
theorem Cat.ends (hwf : img.WellFormed) (htypes : img.TypesKnown)
    (hregular : ∀ entry, readDentryByName img name = some entry → entry.fileType = 2)
    (hk : Displayed img t n s.state) (hholds : s.pos.Holds img n name s.state s.answered) :
    ∃ history last, Run (Session.step Cat.main (kernelService img t n)) s history last ∧
      (∀ fired ∈ history, fired.event = .own ∧ fired.pre.state.currTerminal = t) ∧
      last.pos = .returned (catValue img name) ∧ printed last.answered = catText img name := by
  obtain ⟨history, last, value, hrun, hown, hlast, hvalue⟩ :=
    UserSession.ends (Cat.goes hwf htypes hregular) (catCalls img name)
      (fun k pos answered hholds => hholds.printed_front.2) hk hholds
  refine ⟨history, last, hrun, hown, ?_⟩
  cases hpos : last.pos with
  | returned result =>
      rw [hpos] at hlast
      obtain ⟨rfl, -, hprinted⟩ := hlast
      exact ⟨rfl, hprinted⟩
  | _ =>
      rw [hpos] at hvalue
      cases hvalue

end Loop

/-! ## `cat` as a command -/

theorem threeFiles_regular : ∀ entry,
    readDentryByName threeFiles (commandRest shellShell) = some entry → entry.fileType = 2 := by
  intro entry hfind
  have hshell : readDentryByName threeFiles (commandRest shellShell) =
      some (threeFiles.loadDentry 0x4100C0) := by decide +kernel
  obtain rfl := Option.some.inj (hshell.symm.trans hfind)
  decide +kernel

section Command

variable {img : Image} {command : List UInt8} {k entered : Kernel} {buf : UserBuffer}
  {last : UserSession Cat} {history : List (Fired (UserSession Cat) (ClientMove MachineEvent))}

theorem JustStarted.cat {t : Terminal} {n : Nat} {name : List UInt8}
    (hstart : JustStarted img t n name k) : (Cat.getargs buf).Holds img n name k [] := by
  refine ⟨rfl, hstart.args, ?_⟩
  rw [hstart.fresh]
  decide

/-- The text is the one of the file when what lies behind its end is, and otherwise not. -/
theorem catText_eq_iff {name : List UInt8} {entry : Dentry}
    (hfind : readDentryByName img name = some entry) :
    catText img name =
        (img.fileBytes entry.inodeNum (fileSize img entry.inodeNum)).filter (fun c => c ≠ NUL) ↔
      ∀ pos, fileSize img entry.inodeNum ≤ pos →
        pos < catChunks (fileSize img entry.inodeNum) * catChunk (fileSize img entry.inodeNum) →
        img.fileByte entry.inodeNum pos = NUL := by
  have hcovers : fileSize img entry.inodeNum ≤
      catChunks (fileSize img entry.inodeNum) * catChunk (fileSize img entry.inodeNum) :=
    catChunks_covers.1
  obtain ⟨more, hmore⟩ := Nat.exists_eq_add_of_le hcovers
  rw [catText, hfind]
  dsimp only
  rw [hmore, Image.fileBytes, List.range_add, List.map_append, List.filter_append,
    ← Image.fileBytes, List.append_right_eq_self, List.filter_eq_nil_iff]
  constructor
  · intro hnul pos hle hlt
    obtain ⟨i, rfl⟩ := Nat.exists_eq_add_of_le hle
    have hmem := hnul (img.fileByte entry.inodeNum (fileSize img entry.inodeNum + i)) (by
      rw [List.map_map, List.mem_map]
      exact ⟨i, List.mem_range.mpr (by omega), rfl⟩)
    simpa using hmem
  · intro hnul c hmem
    rw [List.map_map, List.mem_map] at hmem
    obtain ⟨i, hi, rfl⟩ := hmem
    have hzero := hnul (fileSize img entry.inodeNum + i) (by omega)
      (by have := List.mem_range.mp hi; omega)
    simpa using hzero

/-- `cat` behind the command that started it, in every session of allowed moves: it has printed
the front of its text, at its end all of it, and it ends when it is left alone. Without keys the
text is what its screen gets. -/
theorem cat_prints (hwf : img.WellFormed) (htypes : img.TypesKnown)
    (hregular : ∀ entry, readDentryByName img (commandRest command) = some entry →
      entry.fileType = 2)
    (hcommand : Commanded img command k entered)
    (hrun : Run (Session.step Cat.main (kernelService img k.currScheduled k.newProcess))
      ⟨entered, .getargs buf, []⟩ history last)
    (hallowed : AllowedMoves img k.currScheduled k.newProcess history) :
    printed last.answered <+: catText img (commandRest command) ∧
    (∀ value, last.pos = .returned value → value = catValue img (commandRest command) ∧
      last.answered.length = catCalls img (commandRest command) ∧
      printed last.answered = catText img (commandRest command) ∧
      ((∀ fired ∈ history, ∀ c, fired.event = .other (.kernel (.key c)) →
        fired.pre.state.currTerminal ≠ k.currScheduled) → ∀ screen,
        entered.display.Shows k.currScheduled screen → last.state.display.Shows k.currScheduled
          ((ScreenAction.print (catText img (commandRest command))).apply screen))) ∧
    (last.state.runs k.currScheduled k.newProcess →
      last.state.currTerminal = k.currScheduled → ∃ more final,
        Run (Session.step Cat.main (kernelService img k.currScheduled k.newProcess)) last more
          final ∧
        (∀ fired ∈ more, fired.event = .own ∧ fired.pre.state.currTerminal = k.currScheduled) ∧
        final.pos = .returned (catValue img (commandRest command)) ∧
        printed final.answered = catText img (commandRest command)) := by
  have hstart := hcommand.justStarted
  obtain ⟨hattends, hholds⟩ :=
    Cat.holds_run hwf htypes hregular hrun hallowed hstart.toAttends hstart.cat
  refine ⟨hholds.printed_front.1, fun value hvalue => ?_, fun hruns hshown => ?_⟩
  · rw [hvalue] at hholds
    obtain ⟨hresult, hcalls, hprinted⟩ := hholds
    refine ⟨hresult, hcalls, hprinted, fun hkeys screen hs => ?_⟩
    rw [← hprinted]
    exact UserSession.shows_printed hwf htypes Cat.startsNothing Cat.mapsInside hrun hallowed
      hstart.toAttends hstart.routed rfl hkeys hs
  · exact Cat.ends hwf htypes hregular ⟨hattends, hruns, hshown⟩ hholds

/-- A finished run of `cat` on the file of the shell. -/
theorem threeFiles_cat (buf : UserBuffer) : ∃ k entered history last,
    Commanded threeFiles shellShell k entered ∧
      Run (Session.step Cat.main (kernelService threeFiles k.currScheduled k.newProcess))
        ⟨entered, .getargs buf, []⟩ history last ∧
      AllowedMoves threeFiles k.currScheduled k.newProcess history ∧ last.pos = .returned 0 := by
  obtain ⟨k, entered, hcommand⟩ := threeFiles_commanded
  have hstart := hcommand.justStarted
  obtain ⟨history, last, hrun, hown, hpos, -⟩ := Cat.ends (s := ⟨entered, .getargs buf, []⟩)
    threeFiles_wellFormed threeFiles_typesKnown threeFiles_regular hstart.toDisplayed hstart.cat
  exact ⟨k, entered, history, last, hcommand, hrun, .of_own hown, hpos⟩

/-- The four bytes of the shell are printed. -/
theorem cat_prints_shell : ∃ k entered last, Commanded threeFiles shellShell k entered ∧
    ∃ history, Run (Session.step Cat.main (kernelService threeFiles k.currScheduled k.newProcess))
        ⟨entered, .getargs fun _ => NUL, []⟩ history last ∧
      printed last.answered = [0x7F, 0x45, 0x4C, 0x46] := by
  obtain ⟨k, entered, history, last, hcommand, hrun, hallowed, hpos⟩ := threeFiles_cat fun _ => NUL
  obtain ⟨-, hend, -⟩ := cat_prints threeFiles_wellFormed threeFiles_typesKnown threeFiles_regular
    hcommand hrun hallowed
  obtain ⟨-, -, hprinted, -⟩ := hend 0 hpos
  exact ⟨k, entered, last, hcommand, history, hrun, hprinted.trans (by decide +kernel)⟩

/-- Of a regular file `cat` prints exactly the text, unless what it reads behind the end holds
something else than NUL bytes. -/
theorem cat_exact_iff (hwf : img.WellFormed) (htypes : img.TypesKnown)
    (hregular : ∀ entry, readDentryByName img (commandRest command) = some entry →
      entry.fileType = 2)
    (hcommand : Commanded img command k entered)
    (hrun : Run (Session.step Cat.main (kernelService img k.currScheduled k.newProcess))
      ⟨entered, .getargs buf, []⟩ history last)
    (hallowed : AllowedMoves img k.currScheduled k.newProcess history) {entry : Dentry}
    (hfind : readDentryByName img (commandRest command) = some entry) {value : Int}
    (hend : last.pos = .returned value) :
    printed last.answered =
        (img.fileBytes entry.inodeNum (fileSize img entry.inodeNum)).filter (fun c => c ≠ NUL) ↔
      ∀ pos, fileSize img entry.inodeNum ≤ pos →
        pos < catChunks (fileSize img entry.inodeNum) * catChunk (fileSize img entry.inodeNum) →
        img.fileByte entry.inodeNum pos = NUL := by
  have hstart := hcommand.justStarted
  obtain ⟨-, hholds⟩ :=
    Cat.holds_run hwf htypes hregular hrun hallowed hstart.toAttends hstart.cat
  rw [hend] at hholds
  rw [hholds.2.2, catText_eq_iff hfind]

/-- Behind the four bytes of the shell the block is empty. -/
theorem cat_exact_iff_shell : ∃ k entered last, Commanded threeFiles shellShell k entered ∧
    ∃ history, Run (Session.step Cat.main (kernelService threeFiles k.currScheduled k.newProcess))
        ⟨entered, .getargs fun _ => NUL, []⟩ history last ∧
      printed last.answered = (threeFiles.fileBytes 0 4).filter (fun c => c ≠ NUL) := by
  obtain ⟨k, entered, history, last, hcommand, hrun, hallowed, hpos⟩ := threeFiles_cat fun _ => NUL
  have hshell : readDentryByName threeFiles (commandRest shellShell) =
      some (threeFiles.loadDentry 0x4100C0) := by decide +kernel
  have hinode : (threeFiles.loadDentry 0x4100C0).inodeNum = 0 := by decide +kernel
  have hsize : fileSize threeFiles 0 = 4 := by decide +kernel
  have hbehind : ∀ pos < 8, 4 ≤ pos → threeFiles.fileByte 0 pos = NUL := by decide +kernel
  have hexact := cat_exact_iff threeFiles_wellFormed threeFiles_typesKnown threeFiles_regular
    hcommand hrun hallowed hshell hpos
  rw [hinode, hsize] at hexact
  exact ⟨k, entered, last, hcommand, history, hrun,
    hexact.mpr fun pos hle hlt => hbehind pos hlt hle⟩

end Command

end Ece391
