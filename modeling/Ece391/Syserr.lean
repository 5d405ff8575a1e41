import Ece391.SystemCallGate
import Ece391.Prompts

/-! # `syserr`

The tests of the system calls with arguments that they have to refuse, which the repository
keeps as a user program. Every test passes in an attentive session.
-/

namespace Ece391

open Function Transition Sessions Scripts Script WordMemory

/-! ## The tests -/

def NEG_FD : Int := -1073741823
def BIG_FD : Int := 1073741823
def BIG_NUM : Int := 1073741823
def NEG_NUM : Int := -1073741823

def passText : List UInt8 := ascii [':', ' ', 'P', 'A', 'S', 'S', '\n']

def failText : List UInt8 := ascii [':', ' ', 'F', 'A', 'I', 'L', '\n']

/-- The branch of a call that does not fail: its text, and `fail` is 2. -/
def mustFail (value : Int) (text : List UInt8) (fail : Int) : UserScript Int :=
  if -1 ≠ value then do
    tell (fdputs 1 text)
    return 2
  else return fail

/-- What a test says at its end. -/
def verdict (name : List UInt8) (fail : Int) : UserScript Int := do
  if fail ≠ 0 then tell (fdputs 1 (name ++ failText)) else tell (fdputs 1 (name ++ passText))
  return fail

def readFail : List UInt8 := ascii ['r', 'e', 'a', 'd', ' ', 'f', 'a', 'i', 'l', '\n']

def writeFail : List UInt8 := ascii ['w', 'r', 'i', 't', 'e', ' ', 'f', 'a', 'i', 'l', '\n']

def closeFail : List UInt8 := ascii ['c', 'l', 'o', 's', 'e', ' ', 'f', 'a', 'i', 'l', '\n']

/-- `err_neg_fd` and `err_big_fd` differ in the descriptor. -/
def errFd (name : List UInt8) (fd : Int) (buf : UserBuffer) : UserScript Int := do
  let reply ← ask (.fd (.read fd true 31))
  let fail ← mustFail reply.value readFail 0
  let written ← ask (.fd (.write fd (some (storedAt buf reply.out)) 31))
  let fail ← mustFail written.value writeFail fail
  let closed ← ask (.fd (.close fd))
  let fail ← mustFail closed.value closeFail fail
  verdict name fail

def errNegFdName : List UInt8 := ascii ['e', 'r', 'r', '_', 'n', 'e', 'g', '_', 'f', 'd']

def errBigFdName : List UInt8 := ascii ['e', 'r', 'r', '_', 'b', 'i', 'g', '_', 'f', 'd']

def errNegFd (buf : UserBuffer) : UserScript Int := errFd errNegFdName NEG_FD buf

def errBigFd (buf : UserBuffer) : UserScript Int := errFd errBigFdName BIG_FD buf

def directoryName : List UInt8 := ascii ['.']

def errOpenLotsName : List UInt8 := ascii
  ['e', 'r', 'r', '_', 'o', 'p', 'e', 'n', '_', 'l', 'o', 't', 's']

/-- `err_open_lots`: of seven opens the last one fails. -/
def errOpenLots : UserScript Int := do
  let cnt : Int ← (List.range 7).foldlM (fun cnt _ => do
    let reply ← ask (.fd (.open_ (some directoryName)))
    return if -1 = reply.value then cnt + 1 else cnt) 0
  (List.range' 2 6).foldlM (fun _ (i : Nat) => tell (.fd (.close i))) ⟨⟩
  if cnt = 1 then do
    tell (fdputs 1 (errOpenLotsName ++ passText))
    return 0
  else do
    tell (fdputs 1 (errOpenLotsName ++ failText))
    return 2

def hellooName : List UInt8 := ascii ['h', 'e', 'l', 'l', 'o', 'o']

def shelName : List UInt8 := ascii ['s', 'h', 'e', 'l']

def hellooFail : List UInt8 := ascii
  [Char.ofNat 39, 'h', 'e', 'l', 'l', 'o', 'o', Char.ofNat 39, ' ', 'f', 'a', 'i', 'l', '\n']

def shelFail : List UInt8 := ascii
  [Char.ofNat 39, 's', 'h', 'e', 'l', Char.ofNat 39, ' ', 'f', 'a', 'i', 'l', '\n']

def emptyFail : List UInt8 := ascii
  ['e', 'm', 'p', 't', 'y', ' ', 's', 't', 'r', 'i', 'n', 'g', ' ', 'f', 'a', 'i', 'l', '\n']

def errOpenName : List UInt8 := ascii ['e', 'r', 'r', '_', 'o', 'p', 'e', 'n']

def errOpen : UserScript Int := do
  let reply ← ask (.fd (.open_ (some hellooName)))
  let fail ← mustFail reply.value hellooFail 0
  let reply ← ask (.fd (.open_ (some shelName)))
  let fail ← mustFail reply.value shelFail fail
  let reply ← ask (.fd (.open_ (some [])))
  let fail ← mustFail reply.value emptyFail fail
  verdict errOpenName fail

def closeUnopenedFail : List UInt8 := ascii
  ['c', 'l', 'o', 's', 'e', ' ', 'u', 'n', 'o', 'p', 'e', 'n', 'e', 'd', ' ', 'o', 'r', ' ', 'i',
    'n', 'v', 'a', 'l', 'i', 'd', ' ', 'f', 'd', ' ', 'f', 'a', 'i', 'l', '\n']

def readUnopenedFail : List UInt8 := ascii
  ['r', 'e', 'a', 'd', ' ', 'f', 'r', 'o', 'm', ' ', 'u', 'n', 'o', 'p', 'e', 'n', 'e', 'd', ' ',
    'f', 'd', ' ', 'f', 'a', 'i', 'l', '\n']

def writeUnopenedFail : List UInt8 := ascii
  ['w', 'r', 'i', 't', 'e', ' ', 't', 'o', ' ', 'u', 'n', 'o', 'p', 'e', 'n', 'e', 'd', ' ', 'f',
    'd', ' ', 'f', 'a', 'i', 'l', '\n']

def errUnopenedName : List UInt8 := ascii
  ['e', 'r', 'r', '_', 'u', 'n', 'o', 'p', 'e', 'n', 'e', 'd']

def errUnopened (buf : UserBuffer) : UserScript Int := do
  let fail ← (List.range 8).foldlM (fun fail (i : Nat) => do
    let reply ← ask (.fd (.close i))
    mustFail reply.value closeUnopenedFail fail) 0
  let read ← (List.range' 2 6).foldlM (fun (s : Int × UserBuffer) (i : Nat) => do
    let reply ← ask (.fd (.read i true 31))
    let fail ← mustFail reply.value readUnopenedFail s.1
    return (fail, storedAt s.2 reply.out)) (fail, buf)
  let fail ← (List.range' 2 6).foldlM (fun fail (i : Nat) => do
    let reply ← ask (.fd (.write i (some read.2) 31))
    mustFail reply.value writeUnopenedFail fail) read.1
  verdict errUnopenedName fail

def nullPointerFail : List UInt8 := ascii
  ['N', 'u', 'l', 'l', ' ', 'p', 'o', 'i', 'n', 't', 'e', 'r', ' ', 'f', 'a', 'i', 'l', '\n']

def kernelPointerFail : List UInt8 := ascii
  ['K', 'e', 'r', 'n', 'e', 'l', ' ', 'p', 'o', 'i', 'n', 't', 'e', 'r', ' ', 'f', 'a', 'i', 'l',
    ' ', 'f', 'a', 'i', 'l', '\n']

def errVidmapName : List UInt8 := ascii ['e', 'r', 'r', '_', 'v', 'i', 'd', 'm', 'a', 'p']

def errVidmap : UserScript Int := do
  let reply ← ask (.vidmap 0x0)
  let fail ← mustFail reply.value nullPointerFail 0
  let reply ← ask (.vidmap 0x400000)
  let fail ← mustFail reply.value kernelPointerFail fail
  verdict errVidmapName fail

def writeStdinFail : List UInt8 := ascii
  ['w', 'r', 'i', 't', 'e', ' ', 't', 'o', ' ', 's', 't', 'd', 'i', 'n', ' ', 'f', 'a', 'i', 'l',
    '\n']

def readStdoutFail : List UInt8 := ascii
  ['r', 'e', 'a', 'd', ' ', 'f', 'r', 'o', 'm', ' ', 's', 't', 'd', 'o', 'u', 't', ' ', 'f', 'a',
    'i', 'l', '\n']

def errStdinOutName : List UInt8 := ascii
  ['e', 'r', 'r', '_', 's', 't', 'd', 'i', 'n', '_', 'o', 'u', 't']

def errStdinOut (buf : UserBuffer) : UserScript Int := do
  let reply ← ask (.fd (.write 0 (some buf) 31))
  let fail ← mustFail reply.value writeStdinFail 0
  let reply ← ask (.fd (.read 1 true 31))
  let fail ← mustFail reply.value readStdoutFail fail
  verdict errStdinOutName fail

/-- `call_sys`, with the registers at `INT`. -/
def callSys (gate : Cpu → Cpu) (registers : Int → Cpu) (num : Int) : Int :=
  (gate { registers num with eax := BitVec.ofInt 32 num }).eax.toInt

def syscall0Fail : List UInt8 := ascii
  ['s', 'y', 's', 'c', 'a', 'l', 'l', ' ', '0', ' ', 'f', 'a', 'i', 'l', '\n']

def bigNumFail : List UInt8 := ascii
  ['b', 'i', 'g', ' ', 'n', 'u', 'm', ' ', 's', 'y', 's', 'c', 'a', 'l', 'l', ' ', 'f', 'a', 'i',
    'l', '\n']

def negNumFail : List UInt8 := ascii
  ['n', 'e', 'g', ' ', 'n', 'u', 'm', ' ', 's', 'y', 's', 'c', 'a', 'l', 'l', ' ', 'f', 'a', 'i',
    'l', '\n']

def errSyscallNumName : List UInt8 := ascii
  ['e', 'r', 'r', '_', 's', 'y', 's', 'c', 'a', 'l', 'l', '_', 'n', 'u', 'm']

def errSyscallNum (gate : Cpu → Cpu) (registers : Int → Cpu) : UserScript Int := do
  let fail ← mustFail (callSys gate registers 0) syscall0Fail 0
  let fail ← mustFail (callSys gate registers BIG_NUM) bigNumFail fail
  let fail ← mustFail (callSys gate registers NEG_NUM) negNumFail fail
  verdict errSyscallNumName fail

/-! ## `main` -/

def chooseTest : List UInt8 := ascii
  ['C', 'h', 'o', 'o', 's', 'e', ' ', 'f', 'r', 'o', 'm', ' ', 't', 'e', 's', 't', 's', ' ', '1',
    '-', '8', '.', ' ', '0', ' ', 't', 'o', ' ', 'r', 'u', 'n', ' ', 'a', 'l', 'l', ':', ' ']

def cannotReadTest : List UInt8 := ascii
  ['C', 'a', 'n', Char.ofNat 39, 't', ' ', 'r', 'e', 'a', 'd', ' ', 't', 'e', 's', 't', ' ', '#',
    '\n']

def overallFail : List UInt8 := ascii
  ['\n', 'O', 'v', 'e', 'r', 'a', 'l', 'l', ' ', 'T', 'e', 's', 't', 's', ':', ' ', 'F', 'A', 'I',
    'L', '\n']

def overallPass : List UInt8 := ascii
  ['\n', 'O', 'v', 'e', 'r', 'a', 'l', 'l', ' ', 'T', 'e', 's', 't', 's', ':', ' ', 'P', 'A', 'S',
    'S', '\n']

def invalidTest : List UInt8 := ascii
  ['I', 'n', 'v', 'a', 'l', 'i', 'd', ' ', 't', 'e', 's', 't', ' ', 'n', 'u', 'm', 'b', 'e', 'r',
    '.', ' ', 'C', 'h', 'o', 'o', 's', 'e', ' ', 'f', 'r', 'o', 'm', ' ', 't', 'e', 's', 't', 's',
    ' ', '1', '-', '8', ' ', 'o', 'r', ' ', '0']

/-- The `switch` of `main`. `buf` gives each test the memory of its buffer. -/
def runTests (gate : Cpu → Cpu) (registers : Int → Cpu) (buf : Nat → UserBuffer) (select : Int) :
    UserScript Int :=
  match select with
  | 0 => do
      let fail1 ← errNegFd (buf 1)
      let fail2 ← errBigFd (buf 2)
      let fail3 ← errOpenLots
      let fail4 ← errOpen
      let fail5 ← errUnopened (buf 5)
      let fail6 ← errVidmap
      let fail7 ← errStdinOut (buf 7)
      let fail8 ← errSyscallNum gate registers
      let fail := fail1 + fail2 + fail3 + fail4 + fail5 + fail6 + fail7 + fail8
      if fail ≠ 0 then tell (fdputs 1 overallFail) else tell (fdputs 1 overallPass)
      return fail
  | 1 => errNegFd (buf 1)
  | 2 => errBigFd (buf 2)
  | 3 => errOpenLots
  | 4 => errOpen
  | 5 => errUnopened (buf 5)
  | 6 => errVidmap
  | 7 => errStdinOut (buf 7)
  | 8 => errSyscallNum gate registers
  | _ => do
      tell (fdputs 1 invalidTest)
      return 0

/-- `main` of `ece391syserr.c`. -/
def syserrMain (gate : Cpu → Cpu) (registers : Int → Cpu) (buf : Nat → UserBuffer) :
    UserScript Int :=
  prompted chooseTest cannotReadTest 127 2 fun reply =>
    runTests gate registers buf ((storedAt (buf 0) reply.out 0).toNat - 48)

/-! ## Every test passes -/

/-- What a test that passes prints. -/
def passed (name : List UInt8) : List UInt8 := name ++ passText

section Tests

variable {img : Image} {used next : Finset Nat} {β : Type}

theorem storedAt_nil (buf : UserBuffer) : storedAt buf [] = buf := by
  funext i
  rfl

theorem says_mustFail (text : List UInt8) (fail : Int) :
    Says img (mustFail (-1) text fail) used fail [] used := by
  unfold mustFail
  rw [if_neg (by simp)]
  exact .done fail

/-- A call that fails as it has to, in front of the rest. -/
theorem Says.fails {text : List UInt8} {fail : Int} {rest : Int → UserScript β} {result : β}
    {more : List UInt8} (hrest : Says img (rest fail) used result more next) :
    Says img (mustFail (-1) text fail >>= rest) used result more next :=
  (says_mustFail text fail).bind hrest

theorem nul_notMem_passed {name : List UInt8} (hname : NUL ∉ name) : NUL ∉ passed name := by
  rw [passed, List.mem_append, not_or]
  exact ⟨hname, by decide⟩

theorem says_verdict {name : List UInt8} (hname : NUL ∉ name) :
    Says img (verdict name 0) used 0 (passed name) used :=
  .prints (nul_notMem_passed hname) 0

theorem says_errFd {name : List UInt8} (hname : NUL ∉ name) {fd : Int}
    (hfd : fd < 0 ∨ fd ≥ MAX_OPEN_FILES) (buf : UserBuffer) :
    Says img (errFd name fd buf) used 0 (passed name) used := by
  have hread : Refused img used (.fd (.read fd true 31)) := by
    rcases hfd with hneg | hbig
    · exact .inl hneg
    · exact .inr (.inl hbig)
  have hwrite : Refused img used (.fd (.write fd (some (storedAt buf [])) 31)) := by
    rcases hfd with hneg | hbig
    · exact .inl hneg
    · exact .inr (.inl hbig)
  have hclose : Refused img used (.fd (.close fd)) := by
    rintro ⟨hlow, hlt, -⟩
    omega
  exact .refuses hread
    (.fails (.refuses hwrite (.fails (.refuses hclose (.fails (says_verdict hname))))))

theorem says_errOpen
    (hnames : ∀ name ∈ [hellooName, shelName, []], readDentryByName img name = none) :
    Says img errOpen used 0 (passed errOpenName) used := by
  have hopen : ∀ name ∈ [hellooName, shelName, []],
      Refused img used (.fd (.open_ (some name))) := fun name hmem => hnames name hmem
  exact .refuses (hopen _ (by simp)) (.fails (.refuses (hopen _ (by simp)) (.fails
    (.refuses (hopen _ (by simp)) (.fails (says_verdict (by decide)))))))

theorem says_errVidmap : Says img errVidmap used 0 (passed errVidmapName) used := by
  have hnull : Refused img used (.vidmap 0x0) := Or.inl (by decide)
  have hkernel : Refused img used (.vidmap 0x400000) := Or.inl (by decide)
  exact .refuses hnull (.fails (.refuses hkernel (.fails (says_verdict (by decide)))))

theorem says_errStdinOut (buf : UserBuffer) :
    Says img (errStdinOut buf) used 0 (passed errStdinOutName) used := by
  have hwrite : Refused img used (.fd (.write 0 (some buf) 31)) := Or.inr (.inr (.inl rfl))
  have hread : Refused img used (.fd (.read 1 true 31)) := Or.inr (.inr (.inl rfl))
  exact .refuses hwrite (.fails (.refuses hread (.fails (says_verdict (by decide)))))

theorem says_errSyscallNum {kernel : SysCall → Cpu → Cpu} {here esp0 : Word}
    {registers : Int → Cpu} :
    Says img (errSyscallNum (int80 kernel here esp0) registers) used 0 (passed errSyscallNumName)
      used := by
  -- the gate does not call the kernel for these numbers
  have hrange : ∀ num ∈ [0, BIG_NUM, NEG_NUM],
      (BitVec.ofInt 32 num).toInt < 1 ∨ (BitVec.ofInt 32 num).toInt > 10 := by
    refine List.forall_mem_cons.mpr ⟨.inl (by decide),
      List.forall_mem_cons.mpr ⟨.inr (by decide), ?_⟩⟩
    exact List.forall_mem_singleton.mpr (.inl (by decide))
  have hnumber : ∀ num ∈ [0, BIG_NUM, NEG_NUM],
      callSys (int80 kernel here esp0) registers num = -1 := by
    intro num hmem
    have heax : (int80 kernel here esp0 { registers num with eax := BitVec.ofInt 32 num }).eax =
        -1 := int80_eax (hrange num hmem)
    exact congrArg BitVec.toInt heax
  unfold errSyscallNum
  rw [hnumber 0 (by simp), hnumber BIG_NUM (by simp), hnumber NEG_NUM (by simp)]
  exact .fails (.fails (.fails (says_verdict (by decide))))

/-! ### The tests of the table of descriptors -/

theorem says_errUnopened (buf : UserBuffer) :
    Says img (errUnopened buf) terminalFds 0 (passed errUnopenedName) terminalFds := by
  have hunused : ∀ i ∈ List.range' 2 6, (i : Int).toNat ∉ terminalFds := by decide
  have hclose : ∀ i : Nat, Refused img terminalFds (.fd (.close i)) := by
    rintro i ⟨hlow, -, hmem⟩
    simp only [terminalFds, Finset.mem_insert, Finset.mem_singleton, STDI_O] at hmem hlow
    omega
  have hread : ∀ i ∈ List.range' 2 6, Refused img terminalFds (.fd (.read (i : Nat) true 31)) :=
    fun i hmem => Or.inr (.inr (.inr (hunused i hmem)))
  have hwrite : ∀ i ∈ List.range' 2 6,
      Refused img terminalFds (.fd (.write (i : Nat) (some buf) 31)) :=
    fun i hmem => Or.inr (.inr (.inr (hunused i hmem)))
  have hcloses : Says img ((List.range 8).foldlM (fun fail (i : Nat) => do
      let reply ← ask (.fd (.close i))
      mustFail reply.value closeUnopenedFail fail) 0) terminalFds 0 [] terminalFds :=
    .idle fun i _ => .refuses (hclose i) (says_mustFail _ _)
  have hreads : Says img ((List.range' 2 6).foldlM (fun (s : Int × UserBuffer) (i : Nat) => do
      let reply ← ask (.fd (.read i true 31))
      let fail ← mustFail reply.value readUnopenedFail s.1
      return (fail, storedAt s.2 reply.out)) (0, buf)) terminalFds (0, buf) [] terminalFds := by
    refine .idle fun i hmem => .refuses (hread i hmem) (.fails ?_)
    rw [storedAt_nil]
    exact .done _
  have hwrites : Says img ((List.range' 2 6).foldlM (fun fail (i : Nat) => do
      let reply ← ask (.fd (.write i (some buf) 31))
      mustFail reply.value writeUnopenedFail fail) 0) terminalFds 0 [] terminalFds :=
    .idle fun i hmem => .refuses (hwrite i hmem) (says_mustFail _ _)
  exact hcloses.bind (hreads.bind (hwrites.bind (says_verdict (by decide))))

/-- Nothing was printed or read since `answered`. -/
structure Quiet (answered : List (UserCall × Reply)) (view : UserView) : Prop where
  inUse : InUse view.used
  printed : printed view.answered = printed answered
  lines : linesGiven view.answered = linesGiven answered

section Quiet

variable {answered : List (UserCall × Reply)} {view view' : UserView} {reply : Reply}
  {call : Call}

/-- Opening and closing is quiet. -/
theorem Quiet.replied (hquiet : Quiet answered view) (hcall : printedBy (.fd call, reply) = [])
    (hline : linesGiven [(.fd call, reply)] = [])
    (hreply : Replies img view.used (.fd call) reply view'.used)
    (hlog : view'.answered = view.answered ++ [(.fd call, reply)]) : Quiet answered view' where
  inUse := hquiet.inUse.kept (.fd call) hreply.2
  printed := by rw [hlog, printed_snoc, hcall, List.append_nil, hquiet.printed]
  lines := by rw [hlog, linesGiven_append, hline, List.append_nil, hquiet.lines]

/-- The loop of opens, with `rest` still to come: each one takes a descriptor, until the table
is full at the last one. -/
def Opening (answered : List (UserCall × Reply)) (rest : List Nat) (cnt : Int) (view : UserView) :
    Prop :=
  Quiet answered view ∧
    ((view.used.card + rest.length = MAX_OPEN_FILES + 1 ∧ cnt = 0) ∨ (rest = [] ∧ cnt = 1))

theorem InUse.card_le (hused : InUse used) : used.card ≤ MAX_OPEN_FILES :=
  (Finset.card_le_card hused.bounded).trans (Finset.card_range _).le

theorem Opening.opened {entry : Dentry} (hentry : readDentryByName img directoryName = some entry)
    {i : Nat} {rest : List Nat} {cnt : Int} (hopening : Opening answered (i :: rest) cnt view)
    (hreply : Replies img view.used (.fd (.open_ (some directoryName))) reply view'.used)
    (hlog : view'.answered = view.answered ++ [(.fd (.open_ (some directoryName)), reply)]) :
    Opening answered rest (if -1 = reply.value then cnt + 1 else cnt) view' := by
  obtain ⟨hquiet, hcount⟩ := hopening
  refine ⟨hquiet.replied rfl rfl hreply hlog, ?_⟩
  obtain ⟨hcard, rfl⟩ : view.used.card + (rest.length + 1) = MAX_OPEN_FILES + 1 ∧ cnt = 0 := by
    rcases hcount with hcount | ⟨hnil, -⟩
    · exact hcount
    · cases hnil
  have hle := hquiet.inUse.card_le
  have hopen := hreply.2
  rw [DescriptorLaw, Option.bind_some, hentry] at hopen
  dsimp only at hopen
  split at hopen
  · obtain ⟨fd, ⟨-, -, hfree⟩, rfl, hnext⟩ := hopen
    have hvalue : ¬ -1 = (fd : Int) := by omega
    left
    rw [hnext, Finset.card_insert_of_notMem hfree, if_neg hvalue]
    exact ⟨by omega, rfl⟩
  · -- the table is full, so that this was the last round
    next hfull =>
    obtain ⟨rfl, -⟩ := hopen
    right
    exact ⟨List.eq_nil_of_length_eq_zero (by omega), rfl⟩

/-- The loop of closes, with `rest` still to come. -/
def Closing (answered : List (UserCall × Reply)) (rest : List Nat) (view : UserView) : Prop :=
  Quiet answered view ∧ ∀ fd ∈ view.used, fd < STDI_O ∨ fd ∈ rest

theorem Closing.closed {i : Nat} {rest : List Nat} (hclosing : Closing answered (i :: rest) view)
    (hreply : Replies img view.used (.fd (.close i)) reply view'.used)
    (hlog : view'.answered = view.answered ++ [(.fd (.close i), reply)]) :
    Closing answered rest view' := by
  obtain ⟨hquiet, hleft⟩ := hclosing
  refine ⟨hquiet.replied rfl rfl hreply hlog, fun fd hmem => ?_⟩
  have hclose := hreply.2
  rw [DescriptorLaw] at hclose
  split at hclose
  · rw [hclose.2, Int.toNat_natCast, Finset.mem_erase] at hmem
    refine (hleft fd hmem.2).imp_right fun hin => ?_
    exact (List.mem_cons.mp hin).resolve_left hmem.1
  · next hkept =>
    rw [hclose.2] at hmem
    have hlt := Finset.mem_range.mp (hquiet.inUse.bounded hmem)
    rcases hleft fd hmem with hlow | hin
    · exact .inl hlow
    rcases List.mem_cons.mp hin with rfl | hin
    · -- only a descriptor of the terminal stays in use when it is closed
      left
      by_contra hhigh
      exact hkept ⟨by omega, by omega, hmem⟩
    · exact .inr hin

end Quiet

/-- Six of seven opens take the six descriptors that are left, and the closes free them. -/
theorem says_errOpenLots {entry : Dentry}
    (hentry : readDentryByName img directoryName = some entry) :
    Says img errOpenLots terminalFds 0 (passed errOpenLotsName) terminalFds := by
  intro lines answered
  have hstart : Opening answered (List.range 7) 0 ⟨terminalFds, answered⟩ :=
    ⟨⟨terminalFds_inUse, rfl, rfl⟩, .inl ⟨rfl, rfl⟩⟩
  -- the opens fill the table, whatever descriptors they take
  refine (Ensures.foldlM (Opening answered) (fun i rest cnt view hopening => ?_) hstart).bind ?_
  · have hopen : (ask (.fd (.open_ (some directoryName))) : UserScript Reply).Ensures
        (scriptRules img lines)
        (fun reply => Opening answered rest (if -1 = reply.value then cnt + 1 else cnt)) view :=
      .ask (.inl trivial) fun reply next hreply => hopening.opened hentry hreply.1 hreply.2
    exact hopen.bind fun _ _ hopened => hopened
  rintro cnt view ⟨hquiet, hcount⟩
  obtain rfl : cnt = 1 := by
    rcases hcount with ⟨hcard, -⟩ | ⟨-, hone⟩
    · exact absurd hquiet.inUse.card_le (by simp only [List.length_nil] at hcard; omega)
    · exact hone
  -- every slot behind the terminal's is closed, so none of them need be known
  have hclosing : Closing answered (List.range' 2 6) view := by
    refine ⟨hquiet, fun fd hmem => ?_⟩
    have hlt := Finset.mem_range.mp (hquiet.inUse.bounded hmem)
    rw [List.mem_range'_1]
    simp only [STDI_O, MAX_OPEN_FILES] at hlt ⊢
    omega
  refine (Ensures.foldlM (fun rest _ => Closing answered rest) (fun i rest _ view hleft => ?_)
    hclosing).bind ?_
  · exact Ensures.tell (.inl trivial) fun reply next hreply => hleft.closed hreply.1 hreply.2
  rintro ⟨⟩ ⟨left, log⟩ ⟨hquiet, hleft⟩
  obtain rfl := hquiet.inUse.eq_terminalFds fun fd hmem => (hleft fd hmem).resolve_right (by simp)
  rw [if_pos rfl]
  have hprints : Says img (tell (fdputs 1 (passed errOpenLotsName)) >>= fun _ => pure (0 : Int))
      terminalFds 0 (passed errOpenLotsName) terminalFds :=
    .prints (nul_notMem_passed (by decide)) 0
  refine (hprints lines log).mono ?_
  rintro _ view ⟨rfl, hused, hprinted, hlines⟩
  refine ⟨rfl, hused, ?_, hlines.trans hquiet.lines⟩
  rw [hprinted, hquiet.printed]

/-! ### The chosen tests -/

/-- What the tests print that `select` chooses. -/
def syserrText : Int → List UInt8
  | 0 => [passed errNegFdName, passed errBigFdName, passed errOpenLotsName, passed errOpenName,
      passed errUnopenedName, passed errVidmapName, passed errStdinOutName,
      passed errSyscallNumName, overallPass].flatten
  | 1 => passed errNegFdName
  | 2 => passed errBigFdName
  | 3 => passed errOpenLotsName
  | 4 => passed errOpenName
  | 5 => passed errUnopenedName
  | 6 => passed errVidmapName
  | 7 => passed errStdinOutName
  | 8 => passed errSyscallNumName
  | _ => invalidTest

theorem says_runTests {entry : Dentry} (hentry : readDentryByName img directoryName = some entry)
    (hnames : ∀ name ∈ [hellooName, shelName, []], readDentryByName img name = none)
    {kernel : SysCall → Cpu → Cpu} {here esp0 : Word} {registers : Int → Cpu}
    (buf : Nat → UserBuffer) (select : Int) :
    Says img (runTests (int80 kernel here esp0) registers buf select) terminalFds 0
      (syserrText select) terminalFds := by
  have hneg : ∀ buf, Says img (errNegFd buf) terminalFds 0 (passed errNegFdName) terminalFds :=
    says_errFd (by decide) (.inl (by decide))
  have hbig : ∀ buf, Says img (errBigFd buf) terminalFds 0 (passed errBigFdName) terminalFds :=
    says_errFd (by decide) (.inr (by decide))
  have hopen : Says img errOpen terminalFds 0 (passed errOpenName) terminalFds :=
    says_errOpen hnames
  unfold runTests syserrText
  split
  · refine (hneg _).bind ((hbig _).bind ((says_errOpenLots hentry).bind (hopen.bind
      ((says_errUnopened _).bind (says_errVidmap.bind ((says_errStdinOut _).bind
        (says_errSyscallNum.bind ?_)))))))
    rw [List.flatten_cons, List.flatten_nil, List.append_nil]
    exact .prints (by decide) 0
  · exact hneg _
  · exact hbig _
  · exact says_errOpenLots hentry
  · exact hopen
  · exact says_errUnopened _
  · exact says_errVidmap
  · exact says_errStdinOut _
  · exact says_errSyscallNum
  · exact .prints (by decide) 0

end Tests

/-! ### The calls of the tests -/

theorem mustFail_tame (value : Int) (text : List UInt8) (fail : Int) :
    (mustFail value text fail).Asks Tame :=
  .ite ((Asks.tell (.fd _)).bind fun _ => .done _) (.done _)

theorem verdict_tame (name : List UInt8) (fail : Int) : (verdict name fail).Asks Tame :=
  .ite ((Asks.tell (.fd _)).bind fun _ => .done _) ((Asks.tell (.fd _)).bind fun _ => .done _)

/-- A call that must fail, in front of the rest. -/
theorem fails_tame {call : UserCall} (hcall : Tame call) {text : List UInt8} {fail : Int}
    {rest : Reply → Int → UserScript Int} (hrest : ∀ reply fail, (rest reply fail).Asks Tame) :
    (do
      let reply ← ask call
      let fail ← mustFail reply.value text fail
      rest reply fail : UserScript Int).Asks Tame :=
  (Asks.ask hcall).bind fun reply => (mustFail_tame _ _ _).bind (hrest reply)

theorem errFd_tame (name : List UInt8) (fd : Int) (buf : UserBuffer) :
    (errFd name fd buf).Asks Tame :=
  fails_tame (.fd _) fun _ _ => fails_tame (.fd _) fun _ _ => fails_tame (.fd _) fun _ _ =>
    verdict_tame name _

theorem errOpenLots_tame : errOpenLots.Asks Tame := by
  refine (Asks.foldlM
    (fun cnt _ => (Asks.ask (.fd _)).bind fun _ => .done _) _ _).bind fun cnt => ?_
  refine (Asks.foldlM (fun _ _ => Asks.tell (.fd _)) _ _).bind fun _ => ?_
  split
  · exact (Asks.tell (.fd _)).bind fun _ => .done _
  · exact (Asks.tell (.fd _)).bind fun _ => .done _

theorem errOpen_tame : errOpen.Asks Tame :=
  fails_tame (.fd _) fun _ _ => fails_tame (.fd _) fun _ _ => fails_tame (.fd _) fun _ _ =>
    verdict_tame _ _

theorem errUnopened_tame (buf : UserBuffer) : (errUnopened buf).Asks Tame := by
  refine (Asks.foldlM (fun _ _ => (Asks.ask (.fd _)).bind fun _ => mustFail_tame _ _ _) _ _).bind
    fun _ => ?_
  refine (Asks.foldlM (fun _ _ => (Asks.ask (.fd _)).bind fun _ => (mustFail_tame _ _ _).bind
    fun _ => .done _) _ _).bind fun _ => ?_
  refine (Asks.foldlM (fun _ _ => (Asks.ask (.fd _)).bind fun _ => mustFail_tame _ _ _) _ _).bind
    fun _ => ?_
  exact verdict_tame _ _

theorem errVidmap_tame : errVidmap.Asks Tame :=
  fails_tame (.vidmap (.inl (by decide))) fun _ _ =>
    fails_tame (.vidmap (.inl (by decide))) fun _ _ => verdict_tame _ _

theorem errStdinOut_tame (buf : UserBuffer) : (errStdinOut buf).Asks Tame :=
  fails_tame (.fd _) fun _ _ => fails_tame (.fd _) fun _ _ => verdict_tame _ _

section Main

variable {gate : Cpu → Cpu} {registers : Int → Cpu}

theorem errSyscallNum_tame : (errSyscallNum gate registers).Asks Tame :=
  (mustFail_tame _ _ _).bind fun _ => (mustFail_tame _ _ _).bind fun _ =>
    (mustFail_tame _ _ _).bind fun _ => verdict_tame _ _

theorem runTests_tame (buf : Nat → UserBuffer) (select : Int) :
    (runTests gate registers buf select).Asks Tame := by
  unfold runTests
  split
  · refine (errFd_tame _ _ _).bind fun _ => (errFd_tame _ _ _).bind fun _ =>
      errOpenLots_tame.bind fun _ => errOpen_tame.bind fun _ => (errUnopened_tame _).bind fun _ =>
      errVidmap_tame.bind fun _ => (errStdinOut_tame _).bind fun _ =>
      errSyscallNum_tame.bind fun _ => ?_
    dsimp only
    split
    · exact (Asks.tell (.fd _)).bind fun _ => .done _
    · exact (Asks.tell (.fd _)).bind fun _ => .done _
  · exact errFd_tame _ _ _
  · exact errFd_tame _ _ _
  · exact errOpenLots_tame
  · exact errOpen_tame
  · exact errUnopened_tame _
  · exact errVidmap_tame
  · exact errStdinOut_tame _
  · exact errSyscallNum_tame
  · exact (Asks.tell (.fd _)).bind fun _ => .done _

theorem syserrMain_tame (buf : Nat → UserBuffer) : (syserrMain gate registers buf).Asks Tame :=
  prompted_tame fun _ => runTests_tame buf _

end Main

/-! ### All of it -/

/-- What `syserr` shows for a line. -/
def syserrAnswer (buf : UserBuffer) (line : List UInt8) : List UInt8 :=
  syserrText ((storedAt buf line 0).toNat - 48)

section Syserr

variable {img : Image} {command : List UInt8} {k entered : Kernel} {entry : Dentry}
  {kernel : SysCall → Cpu → Cpu} {here esp0 : Word} {registers : Int → Cpu}
  {buf : Nat → UserBuffer} {last : UserSession { s : UserScript Int // s.Asks Tame }}
  {history : List (Fired (UserSession { s : UserScript Int // s.Asks Tame })
    (ClientMove MachineEvent))}

/-- In every attentive session, however the other programs, the keyboard and the timers
interleave with `syserr`, the tests that are chosen pass. -/
theorem syserr_passes (hwf : img.WellFormed) (htypes : img.TypesKnown)
    (hentry : readDentryByName img directoryName = some entry)
    (hnames : ∀ name ∈ [hellooName, shelName, []], readDentryByName img name = none)
    (hcommand : Commanded img command k entered)
    (hrun : Run (Session.step scriptProgram (kernelService img k.currScheduled k.newProcess))
      ⟨entered, ⟨syserrMain (int80 kernel here esp0) registers buf, syserrMain_tame buf⟩, []⟩
      history last)
    (hallowed : ∀ fired ∈ history,
      Attentive img k.currScheduled k.newProcess fired.pre.state fired.event) :
    Telling img k.currScheduled k.newProcess chooseTest (syserrAnswer (buf 0)) 127 last := by
  refine hcommand.telling hwf htypes (prompted_ensures (by decide) fun line _ => ?_) hrun hallowed
  exact says_runTests hentry hnames buf _

theorem threeFiles_absent :
    ∀ name ∈ [hellooName, shelName, []], readDentryByName threeFiles name = none := by
  decide +kernel

/-- All tests are chosen. -/
theorem syserr_passes_all :
    ∃ k entered history last, Commanded threeFiles shellShell k entered ∧
      Answered threeFiles k.currScheduled k.newProcess (ascii ['0'])
        ⟨entered, ⟨syserrMain (int80 (fun _ cpu => cpu) 0 0) (fun _ => userCpu) fun _ _ => NUL,
          syserrMain_tame _⟩, []⟩ history last ∧
      printed last.answered = chooseTest ++ [NEWLINE] ++ syserrText 0 := by
  obtain ⟨k, entered, hcommand, hempty, -⟩ := threeFiles_lineEmpty
  obtain ⟨entry, hentry, -⟩ := threeFiles_dir
  have hplain : ∀ c ∈ [KEY_ZERO], c ≠ ALT_PRESSED ∧ c ≠ CTRL_PRESSED :=
    List.all_iff_forall_prop.mp rfl
  have hline : (takenLine noModifiers ([KEY_ZERO] ++ [ENTER_PRESS])).line.take 127 =
      ascii ['0'] := by decide +kernel
  obtain ⟨history, last, hanswered⟩ := hcommand.answers threeFiles_wellFormed threeFiles_typesKnown
    hempty (syserrMain_tame fun _ _ => NUL)
    (prompted_ensures (by decide) fun line _ => says_runTests hentry threeFiles_absent _ _)
    (by decide) (by decide) hplain
  rw [hline] at hanswered
  have hprinted := hanswered.printed (syserr_passes threeFiles_wellFormed threeFiles_typesKnown
    hentry threeFiles_absent hcommand hanswered.run hanswered.attentive)
  exact ⟨k, entered, history, last, hcommand, hanswered, hprinted⟩

end Syserr

end Ece391
