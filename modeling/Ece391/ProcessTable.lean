import Ece391.Handlers
import Ece391.Lib.DisjointStacks
import Ece391.Lib.PointerChain
import Ece391.Lib.SlotTable
import Mathlib.Data.Finset.Card

/-! # The process table

The kernel keeps its processes in five places: a count, a count for each
terminal, a table of slots, the head of each terminal's chain and the parent
pointers. All five are views of one thing, a stack of processes for each terminal
with no process on two of them. `execute` pushes on such a stack and `halt` pops
it.
-/

namespace Ece391

open Function PointerChain

/-! ## The slot search -/

/-- The loop is the search for the first entry that is 0. -/
theorem slotSearchFrom_eq (slots : Nat → Nat) (remaining i : Nat) :
    slotSearchFrom slots remaining i = SlotTable.firstFree (· = 0) slots remaining i := by
  induction remaining generalizing i with
  | zero => rfl
  | succ remaining ih => rw [slotSearchFrom, SlotTable.firstFree, ih]

theorem slotSearchFrom_spec (slots : Nat → Nat) {remaining i free : Nat} (hle : i ≤ free)
    (hlt : free < i + remaining) (hfree : slots free = 0) :
    slotSearchFrom slots remaining i ≤ free ∧ slots (slotSearchFrom slots remaining i) = 0 := by
  rw [slotSearchFrom_eq]
  exact SlotTable.firstFree_spec hle hlt hfree

/-! ## Five views of the stacks -/

/-- A stored pointer as a link; `NULL` leads nowhere. -/
def pointer (addr : Nat) : Option Nat := if addr = NULL then none else some addr

/-- The PCB of a process number as a link; no process has the number 0. -/
def pcbLink (num : Nat) : Option Nat := if num = 0 then none else some (getPCB num)

namespace Kernel

variable (k : Kernel)

/-- From a PCB to the PCB of its parent. -/
def parentLink (addr : Nat) : Option Nat := pointer (k.pcb addr).parentTask

/-- The slots that are taken. -/
def occupied : Finset Nat := (Finset.range MAX_PROCESS_COUNT).filter fun i => k.pcbSlots i = 1

/-- The slots the search passes over. -/
def liveSlots : Finset Nat := (Finset.range MAX_PROCESS_COUNT).filter fun i => k.pcbSlots i ≠ 0

theorem occupied_eq (hslots : ∀ i < MAX_PROCESS_COUNT, k.pcbSlots i = 0 ∨ k.pcbSlots i = 1) :
    k.occupied = k.liveSlots := by
  ext i
  simp only [occupied, liveSlots, Finset.mem_filter, Finset.mem_range]
  refine and_congr_right fun hi => ?_
  have hslot := hslots i hi
  omega

/-- The slot of process `n` is taken. -/
def Live (n : Nat) : Prop := 1 ≤ n ∧ n ≤ MAX_PROCESS_COUNT ∧ k.pcbSlots (n - 1) ≠ 0

end Kernel

/-- The chains of the terminals are disjoint, lead through exactly the processes that have
a slot, and the count is their number. -/
structure Chained (k : Kernel) (s : DisjointStacks Terminal Nat) : Prop where
  chain : ∀ t, Follows k.parentLink (pcbLink (k.head t)) ((s.stack t).map getPCB)
  owner : ∀ n, s.Holds n ↔ k.Live n
  count : k.processCount = k.liveSlots.card

/-- The five records agree with one family of stacks. -/
structure ProcessTable (k : Kernel) (s : DisjointStacks Terminal Nat) : Prop where
  /-- `parent_task` leads from the head down the stack and ends in `NULL`. -/
  chain : ∀ t, Follows k.parentLink (pcbLink (k.head t)) ((s.stack t).map getPCB)
  owner : ∀ n, s.Holds n ↔ 1 ≤ n ∧ n ≤ MAX_PROCESS_COUNT ∧ k.pcbSlots (n - 1) = 1
  slots : ∀ i < MAX_PROCESS_COUNT, k.pcbSlots i = 0 ∨ k.pcbSlots i = 1
  length : ∀ t, ((s.stack t).length : Int) = k.processPerTerminal t
  count : k.processCount = k.occupied.card

namespace Chained

variable {k after : Kernel} {s : DisjointStacks Terminal Nat}

theorem le_of_holds (hchained : Chained k s) {n : Nat} (hholds : s.Holds n) :
    1 ≤ n ∧ n ≤ MAX_PROCESS_COUNT :=
  ⟨((hchained.owner n).mp hholds).1, ((hchained.owner n).mp hholds).2.1⟩

theorem not_holds_of_free (hchained : Chained k s) {i : Nat} (hfree : k.pcbSlots i = 0) :
    ¬ s.Holds (i + 1) := by
  intro hholds
  exact ((hchained.owner _).mp hholds).2.2 hfree

/-- The head of a terminal is the top of its stack. -/
theorem head_eq (hchained : Chained k s) {t : Terminal} {n : Nat} {rest : List Nat}
    (htop : s.stack t = n :: rest) : k.head t = n := by
  have hchain := hchained.chain t
  rw [htop, List.map_cons, follows_cons] at hchain
  have hhead := hchain.1
  unfold pcbLink at hhead
  split at hhead
  · simp at hhead
  · have hholds : s.Holds n := ⟨t, by simp [htop]⟩
    exact (getPCB_inj (hchained.le_of_holds hholds).2).mp (Option.some.inj hhead)

theorem head_eq_zero (hchained : Chained k s) {t : Terminal} (hnil : s.stack t = []) :
    k.head t = 0 := by
  have hchain := hchained.chain t
  rw [hnil, List.map_nil, follows_nil] at hchain
  unfold pcbLink at hchain
  split at hchain
  · assumption
  · simp at hchain

theorem head_pos (hchained : Chained k s) {t : Terminal} (hne : s.stack t ≠ []) :
    1 ≤ k.head t ∧ k.head t ≤ MAX_PROCESS_COUNT ∧ ∃ rest, s.stack t = k.head t :: rest := by
  obtain ⟨n, rest, htop⟩ := List.exists_cons_of_ne_nil hne
  have hhead := hchained.head_eq htop
  have hholds : s.Holds n := ⟨t, by simp [htop]⟩
  have hle := hchained.le_of_holds hholds
  rw [hhead]
  exact ⟨hle.1, hle.2, rest, htop⟩

/-- The pointer `execute` stores for a terminal's head is the link to its PCB. -/
theorem pointer_head (hchained : Chained k s) (t : Terminal) :
    pointer (if k.head t ≠ 0 then getPCB (k.head t) else NULL) = pcbLink (k.head t) := by
  unfold pointer pcbLink
  by_cases hnil : s.stack t = []
  · simp [hchained.head_eq_zero hnil]
  · obtain ⟨hpos, hle, -⟩ := hchained.head_pos hnil
    have hne : k.head t ≠ 0 := by omega
    have haddr : getPCB (k.head t) ≠ NULL := Nat.pos_iff_ne_zero.mp (getPCB_pos hle)
    rw [if_pos hne, if_neg haddr, if_neg hne]

/-- The chains run through the heads and the parent pointers of live processes only. -/
theorem congr (hchained : Chained k s)
    (hheads : after.highestTerminalProcesses = k.highestTerminalProcesses)
    (hslots : after.pcbSlots = k.pcbSlots) (hcount : after.processCount = k.processCount)
    (hparent : ∀ n, s.Holds n →
      (after.pcb (getPCB n)).parentTask = (k.pcb (getPCB n)).parentTask) :
    Chained after s where
  chain t := by
    rw [Kernel.head, hheads]
    refine (hchained.chain t).congr fun addr hmem => ?_
    obtain ⟨n, hn, rfl⟩ := List.mem_map.mp hmem
    rw [Kernel.parentLink, hparent n ⟨t, hn⟩, Kernel.parentLink]
  owner n := by
    rw [Kernel.Live, hslots]
    exact hchained.owner n
  count := by
    rw [hcount, hchained.count, Kernel.liveSlots, Kernel.liveSlots, hslots]

/-- As long as fewer than six processes are counted the search finds a free slot. -/
theorem slotSearch_free (hchained : Chained k s) (hcount : k.processCount < MAX_PROCESS_COUNT) :
    slotSearch k.pcbSlots < MAX_PROCESS_COUNT ∧ k.pcbSlots (slotSearch k.pcbSlots) = 0 := by
  have hcard : k.liveSlots.card < (Finset.range MAX_PROCESS_COUNT).card := by
    rw [hchained.count] at hcount
    rw [Finset.card_range]
    omega
  obtain ⟨free, hmem, hfree⟩ := Finset.exists_mem_notMem_of_card_lt_card hcard
  have hlt := Finset.mem_range.mp hmem
  have hzero : k.pcbSlots free = 0 := by
    by_contra hne
    exact hfree (Finset.mem_filter.mpr ⟨hmem, hne⟩)
  have hrange : free < 0 + MAX_PROCESS_COUNT := by omega
  have hspec := slotSearchFrom_spec k.pcbSlots (Nat.zero_le free) hrange hzero
  exact ⟨Nat.lt_of_le_of_lt hspec.1 hlt, hspec.2⟩

/-- A launch pushes the new process on the stack of the displayed terminal. -/
theorem push (hchained : Chained k s) {i : Nat} {args : List UInt8} {regs : Regs}
    (hlt : i < MAX_PROCESS_COUNT) (hfree : k.pcbSlots i = 0)
    (hlaunched : Launched k i args regs after) (hfits : args.length ≤ maxArgsSpill) :
    Chained after (s.push k.currTerminal (i + 1) (hchained.not_holds_of_free hfree)) where
  chain t := by
    have hold : ∀ u, Follows after.parentLink (pcbLink (k.head u)) ((s.stack u).map getPCB) := by
      intro u
      refine (hchained.chain u).congr fun addr hmem => ?_
      obtain ⟨n, hn, rfl⟩ := List.mem_map.mp hmem
      have hne : getPCB n ≠ getPCB (i + 1) := by
        rw [Ne, getPCB_inj hlt]
        rintro rfl
        exact hchained.not_holds_of_free hfree ⟨u, hn⟩
      have hcontext := hlaunched.context hfits _ (getPCB_mod n) hne
      rw [Kernel.parentLink, hcontext.parentTask, Kernel.parentLink]
    rw [Kernel.head, hlaunched.heads]
    by_cases ht : t = k.currTerminal
    · subst ht
      rw [DisjointStacks.push_stack_self, update_self, List.map_cons]
      refine (hold k.currTerminal).push ?_
      rw [Kernel.parentLink, hlaunched.parentTask]
      exact hchained.pointer_head k.currTerminal
    · rw [DisjointStacks.push_stack_of_ne ht, update_of_ne ht]
      exact hold t
  owner n := by
    rw [DisjointStacks.holds_push, hchained.owner, Kernel.Live, Kernel.Live, hlaunched.pcbSlots]
    by_cases hn : n = i + 1
    · subst hn
      simp
      omega
    · by_cases hpos : 1 ≤ n
      · rw [update_of_ne (by omega)]
        simp [hn]
      · simp [hn, hpos]
  count := by
    have hslots : after.liveSlots = insert i k.liveSlots := by
      ext j
      simp only [Kernel.liveSlots, Finset.mem_filter, Finset.mem_range, Finset.mem_insert,
        hlaunched.pcbSlots]
      by_cases heq : j = i
      · subst heq
        simp [hlt]
      · simp [heq]
    have hnew : i ∉ k.liveSlots := by
      simp [Kernel.liveSlots, hfree]
    rw [hlaunched.processCount, hchained.count, hslots, Finset.card_insert_of_notMem hnew]
    omega

end Chained

namespace ProcessTable

variable {k after : Kernel} {s : DisjointStacks Terminal Nat}

theorem chained (htable : ProcessTable k s) : Chained k s where
  chain := htable.chain
  owner n := by
    rw [htable.owner]
    constructor
    · rintro ⟨hpos, hle, hslot⟩
      exact ⟨hpos, hle, by omega⟩
    · rintro ⟨hpos, hle, hslot⟩
      exact ⟨hpos, hle, (htable.slots (n - 1) (by omega)).resolve_left hslot⟩
  count := by rw [htable.count, k.occupied_eq htable.slots]

/-- Chains whose slots and counts are in order make a table. -/
theorem of_chained (hchained : Chained k s)
    (hslots : ∀ i < MAX_PROCESS_COUNT, k.pcbSlots i = 0 ∨ k.pcbSlots i = 1)
    (hlength : ∀ t, ((s.stack t).length : Int) = k.processPerTerminal t) : ProcessTable k s where
  chain := hchained.chain
  owner n := by
    rw [hchained.owner]
    constructor
    · rintro ⟨hpos, hle, hslot⟩
      exact ⟨hpos, hle, (hslots (n - 1) (by omega)).resolve_left hslot⟩
    · rintro ⟨hpos, hle, hslot⟩
      exact ⟨hpos, hle, by omega⟩
  slots := hslots
  length := hlength
  count := by rw [hchained.count, k.occupied_eq hslots]

theorem count_le (htable : ProcessTable k s) : k.processCount ≤ MAX_PROCESS_COUNT := by
  have hcard : k.occupied.card ≤ (Finset.range MAX_PROCESS_COUNT).card :=
    Finset.card_le_card (Finset.filter_subset _ _)
  rw [Finset.card_range] at hcard
  rw [htable.count]
  omega

theorem le_of_holds (htable : ProcessTable k s) {n : Nat} (hholds : s.Holds n) :
    1 ≤ n ∧ n ≤ MAX_PROCESS_COUNT := htable.chained.le_of_holds hholds

theorem not_holds_of_free (htable : ProcessTable k s) {i : Nat} (hfree : k.pcbSlots i = 0) :
    ¬ s.Holds (i + 1) := htable.chained.not_holds_of_free hfree

theorem head_eq (htable : ProcessTable k s) {t : Terminal} {n : Nat} {rest : List Nat}
    (htop : s.stack t = n :: rest) : k.head t = n := htable.chained.head_eq htop

theorem head_eq_zero (htable : ProcessTable k s) {t : Terminal} (hnil : s.stack t = []) :
    k.head t = 0 := htable.chained.head_eq_zero hnil

theorem slotSearch_free (htable : ProcessTable k s) (hcount : k.processCount < MAX_PROCESS_COUNT) :
    slotSearch k.pcbSlots < MAX_PROCESS_COUNT ∧ k.pcbSlots (slotSearch k.pcbSlots) = 0 :=
  htable.chained.slotSearch_free hcount

theorem head_pos (htable : ProcessTable k s) {t : Terminal} (hne : s.stack t ≠ []) :
    1 ≤ k.head t ∧ k.head t ≤ MAX_PROCESS_COUNT ∧ ∃ rest, s.stack t = k.head t :: rest :=
  htable.chained.head_pos hne

/-- The parent pointer of a top leads to the element below it. -/
theorem parent_eq (htable : ProcessTable k s) {t : Terminal} {n : Nat} {rest : List Nat}
    (htop : s.stack t = n :: rest) :
    Follows k.parentLink (pointer (k.pcb (getPCB n)).parentTask) (rest.map getPCB) := by
  have hchain := htable.chain t
  rw [htop, List.map_cons, follows_cons] at hchain
  exact hchain.2

/-- The table speaks about the counts, the slots, the heads and the parent
pointers of live processes only. -/
theorem congr (htable : ProcessTable k s)
    (hheads : after.highestTerminalProcesses = k.highestTerminalProcesses)
    (hslots : after.pcbSlots = k.pcbSlots)
    (hperTerminal : after.processPerTerminal = k.processPerTerminal)
    (hcount : after.processCount = k.processCount)
    (hparent : ∀ n, s.Holds n →
      (after.pcb (getPCB n)).parentTask = (k.pcb (getPCB n)).parentTask) :
    ProcessTable after s :=
  .of_chained (htable.chained.congr hheads hslots hcount hparent)
    (fun i hlt => by
      rw [hslots]
      exact htable.slots i hlt)
    (fun t => by
      rw [hperTerminal]
      exact htable.length t)

end ProcessTable

/-! ## Pushing and popping -/

namespace ProcessTable

variable {k after : Kernel} {s : DisjointStacks Terminal Nat}

/-- A launch pushes the new process on the stack of the displayed terminal. -/
theorem push (htable : ProcessTable k s) {i : Nat} {args : List UInt8} {regs : Regs}
    (hlt : i < MAX_PROCESS_COUNT) (hfree : k.pcbSlots i = 0)
    (hlaunched : Launched k i args regs after) (hfits : args.length ≤ maxArgsSpill) :
    ProcessTable after (s.push k.currTerminal (i + 1) (htable.not_holds_of_free hfree)) := by
  refine .of_chained (htable.chained.push hlt hfree hlaunched hfits) (fun j hj => ?_) (fun t => ?_)
  · rw [hlaunched.pcbSlots]
    by_cases heq : j = i
    · subst heq
      exact .inr (update_self ..)
    · rw [update_of_ne heq]
      exact htable.slots j hj
  · rw [hlaunched.processPerTerminal]
    by_cases ht : t = k.currTerminal
    · subst ht
      rw [DisjointStacks.push_stack_self, update_self, ← htable.length, List.length_cons]
      omega
    · rw [DisjointStacks.push_stack_of_ne ht, update_of_ne ht]
      exact htable.length t

/-- Freeing the slot of a top and moving the head to what its parent pointer names
pops the stack. -/
theorem pop (htable : ProcessTable k s) {t : Terminal} {n head : Nat} {rest : List Nat}
    (htop : s.stack t = n :: rest)
    (hlink : pointer (k.pcb (getPCB n)).parentTask = pcbLink head)
    (hheads : after.highestTerminalProcesses = update k.highestTerminalProcesses t head)
    (hslots : after.pcbSlots = update k.pcbSlots (n - 1) 0)
    (hperTerminal : after.processPerTerminal =
      update k.processPerTerminal t (k.processPerTerminal t - 1))
    (hcount : after.processCount = k.processCount - 1)
    (hparent : ∀ m, s.Holds m →
      (after.pcb (getPCB m)).parentTask = (k.pcb (getPCB m)).parentTask) :
    ProcessTable after (s.pop t) where
  chain u := by
    -- only the head of `t` moves, so that every chain below the heads stays
    have hsame : ∀ m, s.Holds m → after.parentLink (getPCB m) = k.parentLink (getPCB m) := by
      intro m hm
      rw [Kernel.parentLink, hparent m hm, Kernel.parentLink]
    rw [Kernel.head, hheads]
    by_cases hu : u = t
    · subst hu
      rw [DisjointStacks.pop_stack_self, update_self, htop, List.tail_cons, ← hlink]
      refine (htable.parent_eq htop).congr fun addr hmem => ?_
      obtain ⟨m, hm, rfl⟩ := List.mem_map.mp hmem
      exact hsame m ⟨u, by simp [htop, hm]⟩
    · rw [DisjointStacks.pop_stack_of_ne hu, update_of_ne hu]
      refine (htable.chain u).congr fun addr hmem => ?_
      obtain ⟨m, hm, rfl⟩ := List.mem_map.mp hmem
      exact hsame m ⟨u, hm⟩
  owner m := by
    have hn : s.Holds n := ⟨t, by simp [htop]⟩
    have hpos := htable.le_of_holds hn
    rw [DisjointStacks.holds_pop htop, htable.owner, hslots]
    by_cases hm : m = n
    · subst hm
      simp
    · by_cases hm' : 1 ≤ m
      · rw [update_of_ne (by omega)]
        simp [hm]
      · simp [hm']
  slots j hj := by
    rw [hslots]
    by_cases heq : j = n - 1
    · subst heq
      exact .inl (update_self ..)
    · rw [update_of_ne heq]
      exact htable.slots j hj
  length u := by
    rw [hperTerminal]
    by_cases hu : u = t
    · subst hu
      rw [DisjointStacks.pop_stack_self, update_self, ← htable.length, htop, List.tail_cons,
        List.length_cons]
      omega
    · rw [DisjointStacks.pop_stack_of_ne hu, update_of_ne hu]
      exact htable.length u
  count := by
    have hn : s.Holds n := ⟨t, by simp [htop]⟩
    obtain ⟨hpos, hle, hslot⟩ := (htable.owner n).mp hn
    -- the slot was occupied, so that the count loses exactly one
    have hoccupied : after.occupied = k.occupied.erase (n - 1) := by
      ext j
      simp only [Kernel.occupied, Finset.mem_filter, Finset.mem_range, Finset.mem_erase, hslots]
      by_cases heq : j = n - 1
      · subst heq
        simp
      · simp [heq]
    have hmem : n - 1 ∈ k.occupied := by
      simp only [Kernel.occupied, Finset.mem_filter, Finset.mem_range]
      omega
    have hcard : 0 < k.occupied.card := Finset.card_pos.mpr ⟨n - 1, hmem⟩
    rw [hcount, htable.count, hoccupied, Finset.card_erase_of_mem hmem]
    omega

end ProcessTable

/-! ## What a PCB keeps for its process -/

/-- Beside the table, every live process finds its own number and the top of its
own kernel stack in its PCB. -/
structure Consistent (k : Kernel) (s : DisjointStacks Terminal Nat) : Prop
    extends ProcessTable k s where
  numbered : ∀ n, s.Holds n → (k.pcb (getPCB n)).processNum = n
  stackTop : ∀ n, s.Holds n → (k.pcb (getPCB n)).esp0 = stackTopOf (n - 1)

/-- The mapping and the kernel stack are those of the running process. -/
structure Running (k : Kernel) : Prop where
  userPage : k.userPageEntry = userPageOf (k.head k.currScheduled)
  kernelStack : k.tssEsp0 = stackTopOf (k.head k.currScheduled - 1)

theorem Running.same {k after : Kernel} (hrunning : Running k) (hsame : SameProcesses k after) :
    Running after where
  userPage := by
    rw [hsame.userPageEntry, Kernel.head, hsame.heads, hsame.currScheduled]
    exact hrunning.userPage
  kernelStack := by
    rw [hsame.tssEsp0, Kernel.head, hsame.heads, hsame.currScheduled]
    exact hrunning.kernelStack

theorem Launched.running {k after : Kernel} {i : Nat} {args : List UInt8} {regs : Regs}
    (hlaunched : Launched k i args regs after) (hshown : k.currTerminal = k.currScheduled) :
    Running after where
  userPage := by
    rw [hlaunched.userPageEntry, Kernel.head, hlaunched.heads, hlaunched.currScheduled, hshown,
      update_self]
  kernelStack := by
    rw [hlaunched.tssEsp0, Kernel.head, hlaunched.heads, hlaunched.currScheduled, hshown,
      update_self, Nat.add_sub_cancel]

/-- A launch whose arguments fit leaves the saved context of every process alone. -/
theorem Launched.kept {k after : Kernel} {s : DisjointStacks Terminal Nat} {i n : Nat}
    {args : List UInt8} {regs : Regs} (hlaunched : Launched k i args regs after)
    (htable : ProcessTable k s) (hfree : k.pcbSlots i = 0) (hlt : i < MAX_PROCESS_COUNT)
    (hfits : args.length ≤ maxArgsSpill) (hn : s.Holds n) :
    Pcb.SameContext (k.pcb (getPCB n)) (after.pcb (getPCB n)) := by
  have hne : getPCB n ≠ getPCB (i + 1) := by
    rw [Ne, getPCB_inj hlt]
    rintro rfl
    exact htable.not_holds_of_free hfree hn
  exact hlaunched.context hfits _ (getPCB_mod n) hne

namespace Consistent

variable {k after : Kernel} {s : DisjointStacks Terminal Nat}

theorem same (hcons : Consistent k s) (hsame : SameProcesses k after) : Consistent after s where
  toProcessTable := hcons.congr hsame.heads hsame.pcbSlots hsame.processPerTerminal
    hsame.processCount fun n _ => (hsame.context (getPCB n)).parentTask
  numbered n hn := (hsame.context (getPCB n)).processNum.trans (hcons.numbered n hn)
  stackTop n hn := (hsame.context (getPCB n)).esp0.trans (hcons.stackTop n hn)

/-- A launch leaves the new process running. -/
theorem launch (hcons : Consistent k s) {i : Nat} {args : List UInt8} {regs : Regs}
    (hlt : i < MAX_PROCESS_COUNT) (hfree : k.pcbSlots i = 0)
    (hlaunched : Launched k i args regs after) (hfits : args.length ≤ maxArgsSpill) :
    Consistent after (s.push k.currTerminal (i + 1) (hcons.not_holds_of_free hfree)) := by
  have hcontext : ∀ n, s.Holds n → Pcb.SameContext (k.pcb (getPCB n)) (after.pcb (getPCB n)) :=
    fun n hn => hlaunched.kept hcons.toProcessTable hfree hlt hfits hn
  refine
    { toProcessTable := hcons.push hlt hfree hlaunched hfits
      numbered := fun n hn => ?_
      stackTop := fun n hn => ?_ }
  · rcases DisjointStacks.holds_push.mp hn with rfl | hn
    · exact hlaunched.processNum
    · exact (hcontext n hn).processNum.trans (hcons.numbered n hn)
  · rcases DisjointStacks.holds_push.mp hn with rfl | hn
    · rw [hlaunched.esp0, Nat.add_sub_cancel]
    · exact (hcontext n hn).esp0.trans (hcons.stackTop n hn)

/-- Saving a process whose kernel stack is current. -/
theorem save (hcons : Consistent k s) {n ebp : Nat} (hn : s.Holds n)
    (htss : k.tssEsp0 = stackTopOf (n - 1))
    (hheads : after.highestTerminalProcesses = k.highestTerminalProcesses)
    (hslots : after.pcbSlots = k.pcbSlots)
    (hperTerminal : after.processPerTerminal = k.processPerTerminal)
    (hcount : after.processCount = k.processCount)
    (hpcb : after.pcb = update k.pcb (getPCB n)
      { k.pcb (getPCB n) with esp0 := k.tssEsp0, ebpScheduler := ebp }) :
    Consistent after s := by
  have hstored : ∀ m, s.Holds m →
      (after.pcb (getPCB m)).parentTask = (k.pcb (getPCB m)).parentTask ∧
        (after.pcb (getPCB m)).processNum = (k.pcb (getPCB m)).processNum ∧
        (after.pcb (getPCB m)).esp0 = stackTopOf (m - 1) := by
    intro m hm
    rw [hpcb]
    by_cases hmn : m = n
    · subst hmn
      rw [update_self]
      exact ⟨rfl, rfl, htss⟩
    · have hne : getPCB m ≠ getPCB n := by
        rwa [Ne, getPCB_inj (hcons.le_of_holds hn).2]
      rw [update_of_ne hne]
      exact ⟨rfl, rfl, hcons.stackTop m hm⟩
  exact
    { toProcessTable := hcons.congr hheads hslots hperTerminal hcount fun m hm => (hstored m hm).1
      numbered := fun m hm => (hstored m hm).2.1.trans (hcons.numbered m hm)
      stackTop := fun m hm => (hstored m hm).2.2 }

/-- `halt` back to a parent pops the scheduled terminal's stack and leaves the
parent running. -/
theorem restore (hcons : Consistent k s) {n : Nat} {rest : List Nat} {released : Kernel}
    (htop : s.stack k.currScheduled = n :: rest) (hreleased : Released k released)
    (hparent : k.hasParent)
    (hafter : after = released.restoreParent (released.pcb (k.pcb k.scheduledPcb).parentTask)) :
    Consistent after (s.pop k.currScheduled) ∧ Running after ∧ rest ≠ [] := by
  have hhead := hcons.head_eq htop
  have hscheduled : k.scheduledPcb = getPCB n := by rw [Kernel.scheduledPcb, hhead]
  rw [Kernel.hasParent, hscheduled] at hparent
  rw [hscheduled] at hafter
  have hlink := hcons.parent_eq htop
  have hpointer : pointer (k.pcb (getPCB n)).parentTask =
      some (k.pcb (getPCB n)).parentTask := if_neg hparent
  rw [hpointer] at hlink
  obtain ⟨parent, below, rfl⟩ : ∃ parent below, rest = parent :: below := by
    cases rest with
    | nil => simp at hlink
    | cons parent below => exact ⟨parent, below, rfl⟩
  rw [List.map_cons, follows_cons] at hlink
  have haddr := Option.some.inj hlink.1
  have hholds : s.Holds parent := ⟨k.currScheduled, by simp [htop]⟩
  have hcontext := hreleased.context (getPCB parent)
  rw [haddr] at hafter
  subst hafter
  -- `halt` takes the new head, page and stack from the PCB of the parent
  have hnum : (released.pcb (getPCB parent)).processNum = parent :=
    hcontext.processNum.trans (hcons.numbered parent hholds)
  have htss : (released.pcb (getPCB parent)).esp0 = stackTopOf (parent - 1) :=
    hcontext.esp0.trans (hcons.stackTop parent hholds)
  have hpos : parent ≠ 0 := by
    have hle := hcons.le_of_holds hholds
    omega
  have hlinked : pointer (k.pcb (getPCB n)).parentTask = pcbLink parent := by
    rw [hpointer, haddr, pcbLink, if_neg hpos]
  have hheads : (released.restoreParent (released.pcb (getPCB parent))).highestTerminalProcesses =
      update k.highestTerminalProcesses k.currScheduled parent := by
    show update released.highestTerminalProcesses released.currScheduled _ = _
    rw [hreleased.heads, hreleased.currScheduled, hnum]
  have hslots := hreleased.pcbSlots
  rw [hhead] at hslots
  refine ⟨?_, ⟨?_, ?_⟩, by simp⟩
  · exact
      { toProcessTable := hcons.pop htop hlinked hheads hslots hreleased.processPerTerminal
          hreleased.processCount fun m _ => (hreleased.context (getPCB m)).parentTask
        numbered := fun m hm => (hreleased.context (getPCB m)).processNum.trans
          (hcons.numbered m ((DisjointStacks.holds_pop htop).mp hm).2)
        stackTop := fun m hm => (hreleased.context (getPCB m)).esp0.trans
          (hcons.stackTop m ((DisjointStacks.holds_pop htop).mp hm).2) }
  · rw [Kernel.head, hheads]
    show userPageOf (released.pcb (getPCB parent)).processNum =
      userPageOf (update k.highestTerminalProcesses k.currScheduled parent released.currScheduled)
    rw [hreleased.currScheduled, update_self, hnum]
  · rw [Kernel.head, hheads]
    show (released.pcb (getPCB parent)).esp0 = stackTopOf
      (update k.highestTerminalProcesses k.currScheduled parent released.currScheduled - 1)
    rw [hreleased.currScheduled, update_self, htss]

/-- A root shell on the displayed terminal that halts leaves an empty stack behind. -/
theorem reset (hcons : Consistent k s) {n : Nat} {rest : List Nat} {released : Kernel}
    (htop : s.stack k.currScheduled = n :: rest) (hreleased : Released k released)
    (hroot : ¬ k.hasParent) (hshown : k.currTerminal = k.currScheduled) :
    Consistent released.resetTerminal (s.pop k.currScheduled) ∧ rest = [] := by
  have hhead := hcons.head_eq htop
  have hscheduled : k.scheduledPcb = getPCB n := by rw [Kernel.scheduledPcb, hhead]
  rw [Kernel.hasParent, hscheduled, not_not] at hroot
  have hlink := hcons.parent_eq htop
  have hpointer : pointer (k.pcb (getPCB n)).parentTask = pcbLink 0 := if_pos hroot
  have hrest : rest = [] := by
    rw [hpointer] at hlink
    cases rest with
    | nil => rfl
    | cons parent below => simp [pcbLink] at hlink
  obtain ⟨d, -, hreset⟩ := released.resetTerminal_eq
  rw [hreset]
  have hheads : update released.highestTerminalProcesses released.currTerminal 0 =
      update k.highestTerminalProcesses k.currScheduled 0 := by
    rw [hreleased.heads, hreleased.currTerminal, hshown]
  have hslots := hreleased.pcbSlots
  rw [hhead] at hslots
  refine ⟨?_, hrest⟩
  exact
    { toProcessTable := hcons.pop htop hpointer hheads hslots hreleased.processPerTerminal
        hreleased.processCount fun m _ => (hreleased.context (getPCB m)).parentTask
      numbered := fun m hm => (hreleased.context (getPCB m)).processNum.trans
        (hcons.numbered m ((DisjointStacks.holds_pop htop).mp hm).2)
      stackTop := fun m hm => (hreleased.context (getPCB m)).esp0.trans
        (hcons.stackTop m ((DisjointStacks.holds_pop htop).mp hm).2) }

end Consistent

end Ece391
