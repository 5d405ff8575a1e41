import Ece391.Preemption
import Ece391.StartUp

/-! # Who owns a slot

A process owns its slot from the search of `execute` on, and until `halt` has left its kernel
stack. As long as ticks do not bring two searches to one slot the owners stay apart.
-/

namespace Ece391

open Function Transition PointerChain

/-! ## Owners -/

/-- Everything a terminal owns: the process that is starting, the one that is ending, and the
processes between. -/
def CallPhase.owned (phase : CallPhase) (list : List Nat) : List Nat :=
  phase.unmarked ++ phase.marked ++ phase.halted ++ list

namespace Threads

variable (s : Threads)

def ownedBy (t : Terminal) : List Nat := (s.phase t).owned (s.processes t)

/-- The slots that are owned, with one entry for each owner. -/
def owned : List Nat := [Terminal.T1, .T2, .T3].flatMap s.ownedBy

/-- A slot has one owner at most, and there are no more owned slots than slots. -/
structure SlotsExclusive : Prop where
  nodup : s.owned.Nodup
  count : s.owned.length ≤ MAX_PROCESS_COUNT

theorem become_ownedBy (k : Kernel) (phase : CallPhase) (list : List Nat) :
    (s.become k phase list).ownedBy = update s.ownedBy s.scheduled (phase.owned list) := by
  funext t
  change (update s.phase s.scheduled phase t).owned (update s.processes s.scheduled list t) = _
  by_cases ht : t = s.scheduled
  · subst ht
    rw [update_self, update_self, update_self]
  · rw [update_of_ne ht, update_of_ne ht, update_of_ne ht]
    rfl

/-- A slot that one terminal owns is no other's. -/
theorem SlotsExclusive.not_mem {s : Threads} (hexclusive : s.SlotsExclusive) {t u : Terminal}
    {n : Nat} (hne : t ≠ u) (hn : n ∈ s.ownedBy t) : n ∉ s.ownedBy u := by
  have hpairwise := (List.nodup_flatMap.mp hexclusive.nodup).2
  have hsymmetric : Std.Symm (List.Disjoint on s.ownedBy) := ⟨fun _ _ => List.Disjoint.symm⟩
  have hmem : ∀ t, t ∈ [Terminal.T1, .T2, .T3] := by decide
  exact hpairwise.forall (hmem t) (hmem u) hne hn

/-- No `execute` has picked slot `i` without marking it, and no `halt` is still in it. -/
def Unclaimed (i : Nat) : Prop :=
  ∀ t, i + 1 ∉ (s.phase t).unmarked ∧ i + 1 ∉ (s.phase t).halted

/-- Where the search ends that `execute` makes inside a root shell's `halt`. -/
def restartSlot : Nat :=
  slotSearch (update s.kernel.pcbSlots (s.kernel.head s.scheduled - 1) 0)

/-- What the next step of a call relies on. -/
def GuardedFrom : CallPhase → Prop
  | .searching _ i =>
      i < MAX_PROCESS_COUNT ∧ (s.kernel.pcbSlots i = 0 → s.Unclaimed i)
  | .taken l _ pos => pos < l.program.args.length → pos < maxArgsSpill
  | .loaded _ _ | .linked _ _ => s.kernel.currTerminal = s.scheduled
  | _ => True

/-- A search ends at a slot that nobody is about to mark or to leave, arguments stay off the
PCB above, and processes start, and root shells end, on the displayed terminal. -/
def Guarded : Move → Prop
  | .advance => s.GuardedFrom s.current
  | .event (.halt _ _) => ¬ s.kernel.hasParent →
      s.kernel.currTerminal = s.scheduled ∧ s.restartSlot + 1 ≠ s.kernel.head s.scheduled ∧
        s.Unclaimed s.restartSlot
  | .event _ => True

end Threads

/-! ## What a terminal relies on -/

/-- The chain of a terminal leads through its processes, each with its number and a marked slot,
whatever its current process is doing. -/
structure Holding (k : Kernel) (t : Terminal) (phase : CallPhase) (list : List Nat) : Prop where
  chain : Follows k.parentLink (pcbLink (k.head t)) (list.map getPCB)
  /-- The number is stored after the head. -/
  numbered : ∀ n ∈ list, (∃ l, phase = .pushed l (n - 1)) ∨ (k.pcb (getPCB n)).processNum = n
  slots : ∀ n ∈ phase.marked ++ list, k.pcbSlots (n - 1) ≠ 0
  range : ∀ n ∈ phase.owned list, 1 ≤ n ∧ n ≤ MAX_PROCESS_COUNT
  linked : ∀ l i, phase = .linked l i → k.parentLink (getPCB (i + 1)) = pcbLink (k.head t)
  pushed : ∀ l i, phase = .pushed l i → i + 1 ∈ list

/-- Nothing of process `n` that its terminal relies on differs. -/
structure Untouched (k after : Kernel) (n : Nat) : Prop where
  parentTask : (after.pcb (getPCB n)).parentTask = (k.pcb (getPCB n)).parentTask
  processNum : (after.pcb (getPCB n)).processNum = (k.pcb (getPCB n)).processNum
  slot : k.pcbSlots (n - 1) ≠ 0 → after.pcbSlots (n - 1) ≠ 0

theorem Untouched.of_context {k after : Kernel} {n : Nat}
    (hcontext : Pcb.SameContext (k.pcb (getPCB n)) (after.pcb (getPCB n)))
    (hslot : k.pcbSlots (n - 1) ≠ 0 → after.pcbSlots (n - 1) ≠ 0) : Untouched k after n :=
  ⟨hcontext.parentTask, hcontext.processNum, hslot⟩

theorem SameProcesses.untouched {k after : Kernel} (hsame : SameProcesses k after) (n : Nat) :
    Untouched k after n := by
  apply Untouched.of_context (hsame.context (getPCB n))
  rw [hsame.pcbSlots]
  exact id

/-- Storing the PCB of another process. -/
theorem Untouched.of_setPcb {k : Kernel} {n m : Nat} (pcb : Pcb) (hm : m ≤ MAX_PROCESS_COUNT)
    (hne : n ≠ m) : Untouched k (k.setPcb (getPCB m) pcb) n := by
  have haddr : getPCB n ≠ getPCB m := by
    rwa [Ne, getPCB_inj hm]
  unfold Kernel.setPcb
  refine ⟨?_, ?_, id⟩
  · dsimp only
    rw [update_of_ne haddr]
  · dsimp only
    rw [update_of_ne haddr]

theorem Untouched.withStack {k after : Kernel} {n : Nat} (huntouched : Untouched k after n)
    (esp0 : Nat) : Untouched k { after with tssEsp0 := esp0 } n :=
  ⟨huntouched.parentTask, huntouched.processNum, huntouched.slot⟩

namespace Holding

variable {k after : Kernel} {t : Terminal} {phase next : CallPhase} {list : List Nat}

theorem mem_owned {n : Nat} (hmem : n ∈ list) : n ∈ phase.owned list :=
  List.mem_append_right _ hmem

/-- The terminal relies on its head and on what it owns. -/
theorem frame (hhold : Holding k t phase list) (hhead : after.head t = k.head t)
    (huntouched : ∀ n ∈ phase.owned list, Untouched k after n) : Holding after t phase list where
  chain := by
    rw [hhead]
    refine hhold.chain.congr fun addr hmem => ?_
    obtain ⟨n, hn, rfl⟩ := List.mem_map.mp hmem
    exact congrArg pointer (huntouched n (mem_owned hn)).parentTask
  numbered n hn := by
    rw [(huntouched n (mem_owned hn)).processNum]
    exact hhold.numbered n hn
  slots n hn := by
    have hmem : n ∈ phase.owned list := by
      rw [CallPhase.owned]
      simp only [List.mem_append] at hn ⊢
      tauto
    exact (huntouched n hmem).slot (hhold.slots n hn)
  range := hhold.range
  linked l i hphase := by
    subst hphase
    have hmem : i + 1 ∈ (CallPhase.linked l i).owned list := by
      simp [CallPhase.owned, CallPhase.unmarked, CallPhase.marked]
    rw [hhead, ← hhold.linked l i rfl]
    exact congrArg pointer (huntouched (i + 1) hmem).parentTask
  pushed := hhold.pushed

/-- Behind its push a process gets its number before anything else. -/
theorem numbers (hhold : Holding k t phase list) (hphase : phase.isPushed = false) :
    ∀ n ∈ list, (k.pcb (getPCB n)).processNum = n := by
  intro n hn
  rcases hhold.numbered n hn with ⟨l, rfl⟩ | hnumber
  · cases hphase
  · exact hnumber

/-- Another step of the call comes next, and none of the processes was touched. -/
theorem goOn (hhold : Holding k t phase list) (hphase : phase.isPushed = false)
    (hnext : next.isPushed = false)
    (hhead : after.head t = k.head t) (huntouched : ∀ n ∈ list, Untouched k after n)
    (hslots : ∀ n ∈ next.marked, after.pcbSlots (n - 1) ≠ 0)
    (hrange : ∀ n ∈ next.owned list, 1 ≤ n ∧ n ≤ MAX_PROCESS_COUNT)
    (hlinked : ∀ l i, next = .linked l i → after.parentLink (getPCB (i + 1)) = pcbLink (k.head t)) :
    Holding after t next list where
  chain := by
    rw [hhead]
    refine hhold.chain.congr fun addr hmem => ?_
    obtain ⟨n, hn, rfl⟩ := List.mem_map.mp hmem
    exact congrArg pointer (huntouched n hn).parentTask
  numbered n hn := .inr ((huntouched n hn).processNum.trans (hhold.numbers hphase n hn))
  slots n hn := by
    rcases List.mem_append.mp hn with hn | hn
    · exact hslots n hn
    · exact (huntouched n hn).slot (hhold.slots n (List.mem_append_right _ hn))
  range := hrange
  linked l i heq := by
    rw [hhead]
    exact hlinked l i heq
  pushed l i heq := by
    rw [heq] at hnext
    cases hnext

/-- The head of a terminal is its latest process. -/
theorem head_cases (hhold : Holding k t phase list) :
    list = [] ∧ k.head t = 0 ∨
      1 ≤ k.head t ∧ k.head t ≤ MAX_PROCESS_COUNT ∧ ∃ rest, list = k.head t :: rest := by
  have hchain := hhold.chain
  cases list with
  | nil =>
      rw [List.map_nil, follows_nil, pcbLink] at hchain
      split at hchain
      · exact .inl ⟨rfl, by assumption⟩
      · cases hchain
  | cons n rest =>
      rw [List.map_cons, follows_cons, pcbLink] at hchain
      have hrange := hhold.range n (mem_owned List.mem_cons_self)
      obtain ⟨hhead, -⟩ := hchain
      split at hhead
      · cases hhead
      · obtain heq := (getPCB_inj hrange.2).mp (Option.some.inj hhead)
        rw [heq]
        exact .inr ⟨hrange.1, hrange.2, rest, rfl⟩

/-- The pointer that `execute` stores for the head is the link to its PCB. -/
theorem pointer_head (hhold : Holding k t phase list) :
    pointer (if k.head t ≠ 0 then getPCB (k.head t) else NULL) = pcbLink (k.head t) := by
  unfold pointer pcbLink
  rcases hhold.head_cases with ⟨-, hzero⟩ | ⟨hpos, hle, -⟩
  · simp [hzero]
  · have hne : k.head t ≠ 0 := by omega
    have haddr : getPCB (k.head t) ≠ NULL := Nat.pos_iff_ne_zero.mp (getPCB_pos hle)
    rw [if_pos hne, if_neg haddr, if_neg hne]

end Holding

/-! ## The invariant -/

/-- What holds between any two steps of the calls on the three terminals. -/
structure OwnsSlots (s : Threads) : Prop where
  totalTerminal : s.kernel.totalTerminal = 4
  holding : ∀ t, Holding s.kernel t (s.phase t) (s.processes t)
  apart : ∃ d : DisjointStacks Terminal Nat, d.stack = s.ownedBy

namespace OwnsSlots

variable {s : Threads} {k : Kernel} {next : CallPhase} {list : List Nat}

theorem range (howns : OwnsSlots s) {t : Terminal} {n : Nat} (hn : n ∈ s.ownedBy t) :
    1 ≤ n ∧ n ≤ MAX_PROCESS_COUNT := (howns.holding t).range n hn

theorem nodup (howns : OwnsSlots s) (t : Terminal) : (s.ownedBy t).Nodup := by
  obtain ⟨d, hd⟩ := howns.apart
  rw [← hd]
  exact d.nodup t

theorem ne_of_mem (howns : OwnsSlots s) {t u : Terminal} {n m : Nat} (htu : t ≠ u)
    (hn : n ∈ s.ownedBy t) (hm : m ∈ s.ownedBy u) : n ≠ m := by
  obtain ⟨d, hd⟩ := howns.apart
  rw [← hd] at hn hm
  rintro rfl
  exact d.disjoint t u htu hn hm

/-- The owners of the invariant are those of the slots. -/
theorem slotsExclusive (howns : OwnsSlots s) : s.SlotsExclusive := by
  have hnodup : s.owned.Nodup := by
    obtain ⟨d, hd⟩ := howns.apart
    rw [Threads.owned, ← hd]
    exact d.nodup_flatMap (by decide)
  refine ⟨hnodup, ?_⟩
  have hsubset : s.owned ⊆ List.range' 1 MAX_PROCESS_COUNT := by
    intro n hn
    obtain ⟨t, -, hmem⟩ := List.mem_flatMap.mp hn
    have hrange := howns.range hmem
    rw [List.mem_range'_1]
    omega
  have hle := (hnodup.subperm hsubset).length_le
  rwa [List.length_range'] at hle

/-- A slot that is not marked is owned by those only who are about to mark or to leave it. -/
theorem fresh (howns : OwnsSlots s) {i : Nat} (hfree : s.kernel.pcbSlots i = 0)
    (hunclaimed : s.Unclaimed i) (t : Terminal) : i + 1 ∉ s.ownedBy t := by
  intro hmem
  have hslots := (howns.holding t).slots (i + 1)
  rw [Nat.add_sub_cancel] at hslots
  simp only [Threads.ownedBy, CallPhase.owned, List.mem_append] at hmem hslots
  rcases hmem with ((hunmarked | hmarked) | hhalted) | hprocess
  · exact (hunclaimed t).1 hunmarked
  · exact hslots (.inl hmarked) hfree
  · exact (hunclaimed t).2 hhalted
  · exact hslots (.inr hprocess) hfree

/-- The kernel moves beside all processes. -/
theorem of_kernel (howns : OwnsSlots s) (htotal : k.totalTerminal = s.kernel.totalTerminal)
    (hheads : k.highestTerminalProcesses = s.kernel.highestTerminalProcesses)
    (huntouched : ∀ n, Untouched s.kernel k n) : OwnsSlots { s with kernel := k } where
  totalTerminal := htotal.trans howns.totalTerminal
  holding t := (howns.holding t).frame (congrFun hheads t) fun n _ => huntouched n
  apart := howns.apart

/-- The scheduled terminal moves, and nothing of the others is touched. What it owns afterwards
it owned before, or nobody did. -/
theorem become (howns : OwnsSlots s) (htotal : k.totalTerminal = s.kernel.totalTerminal)
    (hheads : ∀ u ≠ s.scheduled, k.head u = s.kernel.head u)
    (huntouched : ∀ u ≠ s.scheduled, ∀ n ∈ s.ownedBy u, Untouched s.kernel k n)
    (hhold : Holding k s.scheduled next list) (hnodup : (next.owned list).Nodup)
    (hmem : ∀ n ∈ next.owned list, n ∈ s.ownedBy s.scheduled ∨ ∀ u, n ∉ s.ownedBy u) :
    OwnsSlots (s.become k next list) where
  totalTerminal := htotal.trans howns.totalTerminal
  holding u := by
    change Holding k u (update s.phase s.scheduled next u) (update s.processes s.scheduled list u)
    by_cases hu : u = s.scheduled
    · subst hu
      rwa [update_self, update_self]
    · rw [update_of_ne hu, update_of_ne hu]
      exact (howns.holding u).frame (hheads u hu) (huntouched u hu)
  apart := by
    obtain ⟨d, hd⟩ := howns.apart
    have hown : ∀ n ∈ next.owned list, n ∈ d.stack s.scheduled ∨ ¬ d.Holds n := by
      intro n hn
      rw [hd]
      refine (hmem n hn).imp_right fun hfree => ?_
      rintro ⟨u, hu⟩
      rw [hd] at hu
      exact hfree u hu
    refine ⟨d.replace s.scheduled (next.owned list) hnodup hown, ?_⟩
    rw [s.become_ownedBy, ← hd]
    rfl

/-- A step that takes no slot. -/
theorem keep (howns : OwnsSlots s) (htotal : k.totalTerminal = s.kernel.totalTerminal)
    (hheads : ∀ u ≠ s.scheduled, k.head u = s.kernel.head u)
    (huntouched : ∀ u ≠ s.scheduled, ∀ n ∈ s.ownedBy u, Untouched s.kernel k n)
    (hhold : Holding k s.scheduled next list)
    (hsublist : (next.owned list).Sublist (s.ownedBy s.scheduled)) :
    OwnsSlots (s.become k next list) :=
  howns.become htotal hheads huntouched hhold (hsublist.nodup (howns.nodup s.scheduled))
    fun _ hn => .inl (hsublist.subset hn)

variable {img : Image} {phase : CallPhase} {l : Launching} {i : Nat}

theorem current (howns : OwnsSlots s) (hcurrent : s.current = phase) :
    Holding s.kernel s.scheduled phase (s.processes s.scheduled) := by
  rw [← hcurrent]
  exact howns.holding s.scheduled

theorem ownedBy_current (hcurrent : s.current = phase) :
    s.ownedBy s.scheduled = phase.owned (s.processes s.scheduled) := by
  rw [← hcurrent]
  rfl

/-- A process that is starting has no other process in its slot. -/
theorem not_mem_processes (howns : OwnsSlots s) {m : Nat} (hcurrent : s.current = phase)
    (hm : m ∈ phase.unmarked ++ phase.marked) (t : Terminal) : m ∉ s.processes t := by
  intro hmem
  have hown := ownedBy_current hcurrent
  by_cases ht : t = s.scheduled
  · subst ht
    have hnodup := howns.nodup s.scheduled
    rw [hown, CallPhase.owned, List.append_assoc, List.nodup_append] at hnodup
    exact hnodup.2.2 m hm m (List.mem_append_right _ hmem) rfl
  · have hstarting : m ∈ s.ownedBy s.scheduled := by
      rw [hown, CallPhase.owned]
      exact List.mem_append_left _ (List.mem_append_left _ hm)
    exact howns.ne_of_mem ht (Holding.mem_owned hmem) hstarting rfl

/-- A step that changes the slot and the PCB of the starting process only. -/
theorem keep_others (howns : OwnsSlots s) (hcurrent : s.current = phase) {m : Nat}
    (hm : m ∈ phase.unmarked ++ phase.marked)
    (huntouched : ∀ n, n ≠ m → Untouched s.kernel k n) :
    (∀ u ≠ s.scheduled, ∀ n ∈ s.ownedBy u, Untouched s.kernel k n) ∧
      ∀ n ∈ s.processes s.scheduled, Untouched s.kernel k n := by
  have hown := ownedBy_current hcurrent
  have hmem : m ∈ s.ownedBy s.scheduled := by
    rw [hown, CallPhase.owned]
    exact List.mem_append_left _ (List.mem_append_left _ hm)
  refine ⟨fun u hu n hn => huntouched n (howns.ne_of_mem hu hn hmem), fun n hn => ?_⟩
  refine huntouched n ?_
  rintro rfl
  exact howns.not_mem_processes hcurrent hm s.scheduled hn

/-- A step that changes nothing the terminals rely on. -/
theorem goOn (howns : OwnsSlots s) (hcurrent : s.current = phase)
    (hphase : phase.isPushed = false) (hnext : next.isLinked = false)
    (hnext' : next.isPushed = false) (htotal : k.totalTerminal = s.kernel.totalTerminal)
    (hheads : k.highestTerminalProcesses = s.kernel.highestTerminalProcesses)
    (huntouched : ∀ n, Untouched s.kernel k n) (hmarked : next.marked ⊆ phase.marked)
    (hsublist : (next.owned (s.processes s.scheduled)).Sublist
      (phase.owned (s.processes s.scheduled))) : OwnsSlots (s.goOn k next) := by
  have hhold := howns.current hcurrent
  refine howns.keep htotal (fun u _ => congrFun hheads u) (fun u _ n _ => huntouched n) ?_ ?_
  · refine hhold.goOn hphase hnext' (congrFun hheads _) (fun n _ => huntouched n) (fun n hn => ?_)
      (fun n hn => hhold.range n (hsublist.subset hn)) fun l i heq => by
        rw [heq] at hnext
        cases hnext
    exact (huntouched n).slot (hhold.slots n (List.mem_append_left _ (hmarked hn)))
  · rw [ownedBy_current hcurrent]
    exact hsublist

/-! ## Steps of a call -/

/-- A step that takes a slot which nobody owns. -/
theorem claim (howns : OwnsSlots s) (hcurrent : s.current = phase)
    (hphase : phase.isPushed = false) (hnext : next.isLinked = false)
    (hnext' : next.isPushed = false) (hlt : i < MAX_PROCESS_COUNT)
    (hfree : s.kernel.pcbSlots i = 0) (hunclaimed : s.Unclaimed i)
    (htotal : k.totalTerminal = s.kernel.totalTerminal)
    (hheads : k.highestTerminalProcesses = s.kernel.highestTerminalProcesses)
    (huntouched : ∀ n, 1 ≤ n → n ≠ i + 1 → Untouched s.kernel k n)
    (hmarked : ∀ n ∈ next.marked, k.pcbSlots (n - 1) ≠ 0)
    (hcons : next.owned (s.processes s.scheduled) =
      (i + 1) :: phase.owned (s.processes s.scheduled)) : OwnsSlots (s.goOn k next) := by
  have hhold := howns.current hcurrent
  have hfresh := howns.fresh hfree hunclaimed
  rw [← ownedBy_current hcurrent] at hcons
  have hothers : ∀ u, ∀ n ∈ s.ownedBy u, Untouched s.kernel k n := by
    intro u n hn
    refine huntouched n (howns.range hn).1 ?_
    rintro rfl
    exact hfresh u hn
  have hprocess : ∀ n ∈ s.processes s.scheduled, n ∈ s.ownedBy s.scheduled :=
    fun n hn => Holding.mem_owned hn
  refine howns.become htotal (fun u _ => congrFun hheads u) (fun u _ => hothers u) ?_ ?_ ?_
  · refine hhold.goOn hphase hnext' (congrFun hheads _) (fun n hn => hothers _ n (hprocess n hn))
      hmarked (fun n hn => ?_) fun l i heq => by
        rw [heq] at hnext
        cases hnext
    rw [hcons] at hn
    rcases List.mem_cons.mp hn with rfl | hn
    · exact ⟨Nat.succ_pos i, hlt⟩
    · exact howns.range hn
  · rw [hcons]
    exact List.nodup_cons.mpr ⟨hfresh s.scheduled, howns.nodup s.scheduled⟩
  · intro n hn
    rw [hcons] at hn
    rcases List.mem_cons.mp hn with rfl | hn
    · exact .inr hfresh
    · exact .inl hn

/-- The slot that was picked is marked. -/
theorem mark (howns : OwnsSlots s) (hcurrent : s.current = .picked l i) :
    OwnsSlots (s.goOn (s.kernel.takeSlot i) (.taken l i 0)) := by
  have hhold := howns.current hcurrent
  have huntouched : ∀ n, Untouched s.kernel (s.kernel.takeSlot i) n := by
    intro n
    refine ⟨rfl, rfl, fun hslot => ?_⟩
    change update s.kernel.pcbSlots i 1 (n - 1) ≠ 0
    by_cases hn : n - 1 = i
    · rw [hn, update_self]
      decide
    · rwa [update_of_ne hn]
  have hsame : (CallPhase.taken l i 0).owned (s.processes s.scheduled) =
      s.ownedBy s.scheduled := (ownedBy_current hcurrent).symm ▸ rfl
  refine howns.keep rfl (fun _ _ => rfl) (fun _ _ n _ => huntouched n) ?_ (by rw [hsame])
  refine hhold.goOn rfl rfl rfl (fun n _ => huntouched n) (fun n hn => ?_) (fun n hn => ?_)
    fun _ _ heq => CallPhase.noConfusion heq
  · obtain rfl := List.mem_singleton.mp hn
    change update s.kernel.pcbSlots i 1 (i + 1 - 1) ≠ 0
    rw [Nat.add_sub_cancel, update_self]
    decide
  · rw [hsame] at hn
    exact howns.range hn

/-- A byte of the arguments is copied. -/
theorem copy (howns : OwnsSlots s) {pos : Nat} {byte : UInt8} {pcbs : PcbMemory}
    (hcurrent : s.current = .taken l i pos) (hpos : pos < maxArgsSpill)
    (hstore : storeKernelByte s.kernel.pcb (getPCB (i + 1) + Pcb.argsOffset + pos) byte =
      some pcbs) :
    OwnsSlots (s.goOn { s.kernel with pcb := pcbs } (.taken l i (pos + 1))) := by
  have hhold := howns.current hcurrent
  have hle : i + 1 ≤ MAX_PROCESS_COUNT :=
    (hhold.range (i + 1) (by simp [CallPhase.owned, CallPhase.marked])).2
  have hbytes : storeKernelBytes s.kernel.pcb (getPCB (i + 1) + Pcb.argsOffset + pos) [byte] =
      some pcbs := by
    rw [storeKernelBytes, hstore]
    rfl
  have huntouched : ∀ n, n ≠ i + 1 → Untouched s.kernel { s.kernel with pcb := pcbs } n := by
    intro n hn
    have haddr : getPCB n ≠ getPCB (i + 1) := by
      rwa [Ne, getPCB_inj hle]
    refine .of_context (storeKernelBytes_sameContext (getPCB_mod (i + 1)) ?_ ?_ hbytes
      (getPCB_mod n) haddr) id
    · omega
    · simp only [maxArgsSpill, Pcb.argsOffset, Pcb.processNumOffset, _8KB, List.length_cons,
        List.length_nil] at hpos ⊢
      omega
  obtain ⟨hothers, hown⟩ := howns.keep_others hcurrent List.mem_cons_self huntouched
  have hsame : (CallPhase.taken l i (pos + 1)).owned (s.processes s.scheduled) =
      s.ownedBy s.scheduled := (ownedBy_current hcurrent).symm ▸ rfl
  refine howns.keep rfl (fun _ _ => rfl) hothers ?_ (by rw [hsame])
  refine hhold.goOn rfl rfl rfl hown (fun n hn => ?_) (fun n hn => ?_)
    fun _ _ heq => CallPhase.noConfusion heq
  · exact hhold.slots n (List.mem_append_left _ hn)
  · rw [hsame] at hn
    exact howns.range hn

/-- The parent pointer is stored. -/
theorem link (howns : OwnsSlots s) (hcurrent : s.current = .loaded l i)
    (hshown : s.kernel.currTerminal = s.scheduled) :
    OwnsSlots (s.goOn (s.kernel.linkParent i) (.linked l i)) := by
  have hhold := howns.current hcurrent
  have hle : i + 1 ≤ MAX_PROCESS_COUNT :=
    (hhold.range (i + 1) (by simp [CallPhase.owned, CallPhase.marked])).2
  have huntouched : ∀ n, n ≠ i + 1 → Untouched s.kernel (s.kernel.linkParent i) n :=
    fun n hn => .of_setPcb _ hle hn
  obtain ⟨hothers, hown⟩ := howns.keep_others hcurrent List.mem_cons_self huntouched
  have hsame : (CallPhase.linked l i).owned (s.processes s.scheduled) =
      s.ownedBy s.scheduled := (ownedBy_current hcurrent).symm ▸ rfl
  refine howns.keep rfl (fun _ _ => rfl) hothers ?_ (by rw [hsame])
  refine hhold.goOn rfl rfl rfl hown (fun n hn => ?_) (fun n hn => ?_) fun l' i' heq => ?_
  · exact hhold.slots n (List.mem_append_left _ hn)
  · rw [hsame] at hn
    exact howns.range hn
  · obtain ⟨rfl, rfl⟩ := CallPhase.linked.inj heq
    unfold Kernel.parentLink Kernel.linkParent Kernel.setPcb
    dsimp only
    rw [update_self, hshown]
    exact hhold.pointer_head

/-- The new process becomes the head of its terminal. -/
theorem push (howns : OwnsSlots s) (hcurrent : s.current = .linked l i)
    (hshown : s.kernel.currTerminal = s.scheduled) :
    OwnsSlots (s.become (s.kernel.pushHead i) (.pushed l i)
      ((i + 1) :: s.processes s.scheduled)) := by
  have hhold := howns.current hcurrent
  have hheads : ∀ u, (s.kernel.pushHead i).head u =
      update s.kernel.highestTerminalProcesses s.scheduled (i + 1) u := by
    intro u
    rw [← hshown]
    rfl
  have hperm : ((CallPhase.pushed l i).owned ((i + 1) :: s.processes s.scheduled)).Perm
      (s.ownedBy s.scheduled) := by
    rw [ownedBy_current hcurrent]
    exact List.perm_middle
  refine howns.become rfl (fun u hu => ?_) (fun _ _ _ _ => ⟨rfl, rfl, id⟩) ?_
    (hperm.nodup_iff.mpr (howns.nodup s.scheduled)) fun n hn => .inl (hperm.subset hn)
  · rw [hheads, update_of_ne hu]
  refine
    { chain := ?_
      numbered := fun n hn => ?_
      slots := fun n hn => ?_
      range := fun n hn => howns.range (hperm.subset hn)
      linked := fun _ _ heq => CallPhase.noConfusion heq
      pushed := fun l' i' heq => ?_ }
  · rw [hheads, update_self, List.map_cons, pcbLink, if_neg (Nat.succ_ne_zero i)]
    exact hhold.chain.push (hhold.linked l i rfl)
  · rcases List.mem_cons.mp hn with rfl | hn
    · exact .inl ⟨l, rfl⟩
    · exact .inr (hhold.numbers rfl n hn)
  · exact hhold.slots n hn
  · obtain ⟨-, rfl⟩ := CallPhase.pushed.inj heq
    exact List.mem_cons_self

/-- The new process has its PCB and runs. -/
theorem enter (howns : OwnsSlots s) (eip : Nat) (regs : Regs)
    (hcurrent : s.current = .pushed l i) :
    OwnsSlots (s.goOn (s.kernel.initPcb i eip regs) .away) := by
  have hhold := howns.current hcurrent
  have hown := ownedBy_current hcurrent
  have hmem : i + 1 ∈ s.ownedBy s.scheduled := by
    rw [hown]
    exact Holding.mem_owned (hhold.pushed l i rfl)
  have hle : i + 1 ≤ MAX_PROCESS_COUNT := (howns.range hmem).2
  have huntouched : ∀ n, n ≠ i + 1 → Untouched s.kernel (s.kernel.initPcb i eip regs) n := by
    intro n hn
    unfold Kernel.initPcb
    exact (Untouched.of_setPcb _ hle hn).withStack _
  have hlinks : ∀ n, (s.kernel.initPcb i eip regs).parentLink (getPCB n) =
      s.kernel.parentLink (getPCB n) := by
    intro n
    by_cases hn : n = i + 1
    · subst hn
      unfold Kernel.parentLink Kernel.initPcb Kernel.setPcb
      dsimp only
      rw [update_self]
    · exact congrArg pointer (huntouched n hn).parentTask
  have hsublist : (CallPhase.away.owned (s.processes s.scheduled)).Sublist
      (s.ownedBy s.scheduled) := by
    rw [hown]
    exact List.sublist_append_right ..
  -- the slot passes from the call to the chain, and no other changes its owner
  refine howns.keep rfl (fun _ _ => rfl)
    (fun u hu n hn => huntouched n (howns.ne_of_mem hu hn hmem)) ?_ hsublist
  refine
    { chain := ?_
      numbered := fun n hn => .inr ?_
      slots := hhold.slots
      range := fun n hn => howns.range (hsublist.subset hn)
      linked := fun _ _ heq => CallPhase.noConfusion heq
      pushed := fun _ _ heq => CallPhase.noConfusion heq }
  · refine hhold.chain.congr fun addr haddr => ?_
    obtain ⟨n, -, rfl⟩ := List.mem_map.mp haddr
    exact hlinks n
  · by_cases hne : n = i + 1
    · subst hne
      unfold Kernel.initPcb Kernel.setPcb
      dsimp only
      rw [update_self]
    · rw [(huntouched n hne).processNum]
      rcases hhold.numbered n hn with ⟨l', heq⟩ | hnumber
      · obtain ⟨-, hpred⟩ := CallPhase.pushed.inj heq
        have hpos := (hhold.range n (Holding.mem_owned hn)).1
        omega
      · exact hnumber

/-- One step of a call, with one case for each place the call can be at. -/
theorem advance {after : Threads} (howns : OwnsSlots s) (hguard : s.GuardedFrom s.current)
    (hadvance : s.advance img = some after) : OwnsSlots after := by
  unfold Threads.advance at hadvance
  generalize hcurrent : s.current = phase at hguard hadvance
  cases phase with
  | away => cases hadvance
  | checked l =>
      obtain rfl := Option.some.inj hadvance
      exact howns.goOn hcurrent rfl rfl rfl rfl rfl (fun _ => ⟨rfl, rfl, id⟩)
        (List.Subset.refl _) (.refl _)
  | searching l i =>
      obtain ⟨hlt, hunclaimed⟩ := hguard
      rw [Threads.advanceFrom] at hadvance
      split at hadvance
      · obtain rfl := Option.some.inj hadvance
        exact howns.goOn hcurrent rfl rfl rfl rfl rfl (fun _ => ⟨rfl, rfl, id⟩)
          (List.Subset.refl _) (.refl _)
      · next hfound =>
        obtain rfl := Option.some.inj hadvance
        have hfree : s.kernel.pcbSlots i = 0 := by
          by_contra htaken
          exact hfound ⟨hlt, htaken⟩
        exact howns.claim hcurrent rfl rfl rfl hlt hfree (hunclaimed hfree) rfl rfl
          (fun _ _ _ => ⟨rfl, rfl, id⟩) (List.forall_mem_nil _) rfl
  | picked l i =>
      obtain rfl := Option.some.inj hadvance
      exact howns.mark hcurrent
  | taken l i pos =>
      rw [Threads.advanceFrom] at hadvance
      split at hadvance
      · next byte hbyte =>
        obtain ⟨pcbs, hstore, rfl⟩ := Option.map_eq_some_iff.mp hadvance
        have hpos := (List.getElem?_eq_some_iff.mp hbyte).1
        exact howns.copy hcurrent (hguard hpos) hstore
      · obtain rfl := Option.some.inj hadvance
        obtain ⟨entry, hmap⟩ := s.kernel.mapProgram_eq i
        rw [hmap]
        exact howns.goOn hcurrent rfl rfl rfl rfl rfl (fun _ => ⟨rfl, rfl, id⟩)
          (List.Subset.refl _) (.refl _)
  | loading l i pos =>
      rw [Threads.advanceFrom] at hadvance
      split at hadvance
      · next byte hbyte =>
        obtain ⟨k, hstore, rfl⟩ := Option.map_eq_some_iff.mp hadvance
        have hsame := (Kernel.storeUser_same hstore).1
        exact howns.goOn hcurrent rfl rfl rfl hsame.totalTerminal hsame.heads
          hsame.untouched (List.Subset.refl _) (.refl _)
      · split at hadvance
        · -- the load has failed, and `execute` returns
          obtain rfl := Option.some.inj hadvance
          obtain ⟨program, regs, halting⟩ := l
          cases halting with
          | none =>
              exact howns.goOn hcurrent rfl rfl rfl rfl rfl (fun _ => ⟨rfl, rfl, id⟩)
                (List.nil_subset _) (List.sublist_cons_self ..)
          | some halted =>
              exact howns.goOn hcurrent rfl rfl rfl rfl rfl (fun _ => ⟨rfl, rfl, id⟩)
                (List.nil_subset _) (List.sublist_cons_self ..)
        · obtain rfl := Option.some.inj hadvance
          exact howns.goOn hcurrent rfl rfl rfl rfl rfl (fun _ => ⟨rfl, rfl, id⟩)
            (List.Subset.refl _) (.refl _)
  | loaded l i =>
      obtain rfl := Option.some.inj hadvance
      exact howns.link hcurrent hguard
  | linked l i =>
      obtain rfl := Option.some.inj hadvance
      exact howns.push hcurrent hguard
  | pushed l i =>
      obtain rfl := Option.some.inj hadvance
      exact howns.enter l.program.eip l.regs hcurrent
  | leaving num status =>
      obtain rfl := Option.some.inj hadvance
      exact howns.goOn hcurrent rfl rfl rfl rfl rfl (fun _ => ⟨rfl, rfl, id⟩)
        (List.nil_subset _) (List.sublist_cons_self ..)

/-! ## Steps of `halt` -/

/-- The halted process leaves its chain, and its slot is not marked any more. -/
theorem release (howns : OwnsSlots s) (hcurrent : s.current = .away) (status : UInt8)
    {num head : Nat} {rest : List Nat} (hlist : s.processes s.scheduled = num :: rest)
    (htotal : k.totalTerminal = s.kernel.totalTerminal)
    (hlink : pcbLink head = s.kernel.parentLink (getPCB num))
    (hheads : k.highestTerminalProcesses =
      update s.kernel.highestTerminalProcesses s.scheduled head)
    (hslots : k.pcbSlots = update s.kernel.pcbSlots (num - 1) 0)
    (hcontext : ∀ addr, Pcb.SameContext (s.kernel.pcb addr) (k.pcb addr)) :
    OwnsSlots (s.become k (.leaving num status) rest) := by
  have hhold := howns.current hcurrent
  have hown := ownedBy_current hcurrent
  have hsame : (CallPhase.leaving num status).owned rest = s.ownedBy s.scheduled := by
    rw [hown, hlist]
    rfl
  have hmem : num ∈ s.ownedBy s.scheduled := by
    rw [← hsame]
    exact List.mem_cons_self
  have hpos := (howns.range hmem).1
  have huntouched : ∀ n, 1 ≤ n → n ≠ num → Untouched s.kernel k n := by
    intro n hn hne
    refine .of_context (hcontext (getPCB n)) ?_
    rw [hslots, update_of_ne (by omega)]
    exact id
  have hrest : ∀ n ∈ rest, Untouched s.kernel k n := by
    intro n hn
    have hnodup := howns.nodup s.scheduled
    rw [← hsame] at hnodup
    have howned : n ∈ s.ownedBy s.scheduled := by
      rw [← hsame]
      exact List.mem_cons_of_mem _ hn
    refine huntouched n (howns.range howned).1 ?_
    rintro rfl
    exact (List.nodup_cons.mp hnodup).1 hn
  -- the thread still owns the slot: it only passes from its chain to its phase
  refine howns.keep htotal (fun u hu => ?_) (fun u hu n hn => ?_) ?_ (by rw [hsame])
  · rw [Kernel.head, hheads, update_of_ne hu]
  · exact huntouched n (howns.range hn).1 (howns.ne_of_mem hu hn hmem)
  refine
    { chain := ?_
      numbered := fun n hn => .inr ?_
      slots := fun n hn => ?_
      range := fun n hn => ?_
      linked := fun _ _ heq => CallPhase.noConfusion heq
      pushed := fun _ _ heq => CallPhase.noConfusion heq }
  · have hchain := hhold.chain
    rw [hlist, List.map_cons, follows_cons] at hchain
    rw [Kernel.head, hheads, update_self, hlink]
    refine hchain.2.congr fun addr haddr => ?_
    obtain ⟨n, hn, rfl⟩ := List.mem_map.mp haddr
    exact congrArg pointer (hrest n hn).parentTask
  · rw [(hrest n hn).processNum]
    refine hhold.numbers rfl n ?_
    rw [hlist]
    exact List.mem_cons_of_mem _ hn
  · refine (hrest n hn).slot (hhold.slots n ?_)
    rw [hlist]
    exact List.mem_cons_of_mem _ hn
  · rw [hsame] at hn
    exact howns.range hn

/-- A process that can be released is the latest of its terminal. -/
theorem processes_eq (howns : OwnsSlots s) (hmapped : s.kernel.scheduledPcb < _8MB) :
    ∃ rest, s.processes s.scheduled = s.kernel.head s.scheduled :: rest := by
  rcases (howns.holding s.scheduled).head_cases with ⟨-, hzero⟩ | ⟨-, -, hrest⟩
  · have hfault : s.kernel.scheduledPcb = _8MB := by
      rw [Kernel.scheduledPcb, hzero]
      rfl
    omega
  · exact hrest

variable {released : Kernel} {status : UInt8}

/-- `halt` back to the parent. -/
theorem release_parent (howns : OwnsSlots s) (hcurrent : s.current = .away)
    (hreleased : Released s.kernel released) (hparent : s.kernel.hasParent) (status : UInt8) :
    OwnsSlots (s.become
      (released.restoreParent (released.pcb (s.kernel.pcb s.kernel.scheduledPcb).parentTask))
      (.leaving (s.kernel.head s.scheduled) status) (s.processes s.scheduled).tail) := by
  obtain ⟨rest, hlist⟩ := howns.processes_eq hreleased.mapped
  have hhold := howns.current hcurrent
  have hpointer : s.kernel.parentLink (getPCB (s.kernel.head s.scheduled)) =
      some (s.kernel.pcb s.kernel.scheduledPcb).parentTask := if_neg hparent
  have hchain := hhold.chain
  rw [hlist, List.map_cons, follows_cons, hpointer] at hchain
  obtain ⟨parent, below, rfl⟩ : ∃ parent below, rest = parent :: below := by
    cases rest with
    | nil => cases hchain.2
    | cons parent below => exact ⟨parent, below, rfl⟩
  obtain ⟨haddr, -⟩ := hchain.2
  have hmem : parent ∈ s.processes s.scheduled := by
    rw [hlist]
    exact List.mem_cons_of_mem _ List.mem_cons_self
  have hpos := (hhold.range parent (Holding.mem_owned hmem)).1
  rw [Option.some.inj haddr] at hpointer ⊢
  have hnumber : (released.pcb (getPCB parent)).processNum = parent :=
    (hreleased.context (getPCB parent)).processNum.trans (hhold.numbers rfl parent hmem)
  have hlink : pcbLink parent = s.kernel.parentLink (getPCB (s.kernel.head s.scheduled)) := by
    rw [hpointer, pcbLink, if_neg (by omega)]
  have hheads : (released.restoreParent (released.pcb (getPCB parent))).highestTerminalProcesses =
      update s.kernel.highestTerminalProcesses s.scheduled parent := by
    change update released.highestTerminalProcesses released.currScheduled
      (released.pcb (getPCB parent)).processNum = _
    rw [hreleased.heads, hreleased.currScheduled, hnumber]
  rw [hlist, List.tail_cons]
  exact howns.release hcurrent status hlist hreleased.totalTerminal hlink hheads
    hreleased.pcbSlots hreleased.context

/-- `halt` of a root shell on the displayed terminal, in front of its `execute`. -/
theorem release_root (howns : OwnsSlots s) (hcurrent : s.current = .away)
    (hreleased : Released s.kernel released) (hroot : ¬ s.kernel.hasParent)
    (hshown : s.kernel.currTerminal = s.scheduled) (status : UInt8) :
    OwnsSlots (s.become released.resetTerminal (.leaving (s.kernel.head s.scheduled) status)
      (s.processes s.scheduled).tail) := by
  obtain ⟨rest, hlist⟩ := howns.processes_eq hreleased.mapped
  have hnone : (s.kernel.pcb s.kernel.scheduledPcb).parentTask = NULL := not_not.mp hroot
  have hpointer : pcbLink 0 = s.kernel.parentLink (getPCB (s.kernel.head s.scheduled)) :=
    (if_pos hnone : s.kernel.parentLink s.kernel.scheduledPcb = none).symm
  obtain ⟨d, -, hreset⟩ := released.resetTerminal_eq
  rw [hlist, List.tail_cons, hreset]
  refine howns.release hcurrent status hlist hreleased.totalTerminal hpointer ?_
    hreleased.pcbSlots hreleased.context
  change update released.highestTerminalProcesses released.currTerminal 0 = _
  rw [hreleased.heads, hreleased.currTerminal, hshown]

/-- The `execute` inside `halt` takes a slot that the halted process does not own either. -/
theorem restart {after : Threads} {regs : Regs} {num : Nat} (howns : OwnsSlots
      (s.become k (.leaving num status) (s.processes s.scheduled).tail))
    (hk : k.currScheduled = s.scheduled) (hlt : slotSearch k.pcbSlots < MAX_PROCESS_COUNT)
    (hfree : k.pcbSlots (slotSearch k.pcbSlots) = 0)
    (hunclaimed : (s.become k (.leaving num status) (s.processes s.scheduled).tail).Unclaimed
      (slotSearch k.pcbSlots))
    (hrestart : s.restart img k num status regs = some after) : OwnsSlots after := by
  unfold Threads.restart at hrestart
  dsimp only at hrestart
  generalize hleft : s.become k (.leaving num status) (s.processes s.scheduled).tail = left
    at howns hunclaimed
  have hgoOn : ∀ k' next, s.become k' next (s.processes s.scheduled).tail = left.goOn k' next := by
    intro k' next
    rw [← hleft, Threads.become_goOn hk]
  have hkernel : left.kernel = k := by
    rw [← hleft]
    rfl
  have hcurrent : left.current = .leaving num status := by
    rw [← hleft, Threads.become_current hk]
  split at hrestart
  · obtain rfl := Option.some.inj hrestart
    rw [hgoOn, ← hkernel]
    exact howns.goOn hcurrent rfl rfl rfl rfl rfl (fun _ => ⟨rfl, rfl, id⟩)
      (List.Subset.refl _) (.refl _)
  split at hrestart
  · obtain rfl := Option.some.inj hrestart
    rw [hgoOn, ← hkernel]
    exact howns.goOn hcurrent rfl rfl rfl rfl rfl (fun _ => ⟨rfl, rfl, id⟩)
      (List.Subset.refl _) (.refl _)
  · next program hfind =>
    obtain ⟨copied, hcopied, rfl⟩ := Option.map_eq_some_iff.mp hrestart
    have hslots : k.countProcess.pcbSlots = k.pcbSlots := rfl
    rw [hslots] at hcopied ⊢
    rw [hgoOn]
    rw [← hkernel] at hlt hfree hunclaimed hcopied ⊢
    generalize slotSearch left.kernel.pcbSlots = i at hlt hfree hunclaimed hcopied ⊢
    obtain ⟨pcbs, hpcbs, rfl⟩ := Option.map_eq_some_iff.mp hcopied
    obtain ⟨entry, hmap⟩ := Kernel.mapProgram_eq
      { left.kernel.countProcess.takeSlot i with pcb := pcbs } i
    rw [hmap]
    -- the arguments of a shell end before the next PCB, so that only the PCB of the slot is written
    have huntouched : ∀ n, 1 ≤ n → n ≠ i + 1 → Untouched left.kernel
        { left.kernel.countProcess.takeSlot i with pcb := pcbs, userPageEntry := entry } n := by
      intro n hn hne
      have haddr : getPCB n ≠ getPCB (i + 1) := by
        rwa [Ne, getPCB_inj hlt]
      have hfits := findProgram_shell_args hfind
      refine .of_context (storeKernelBytes_sameContext (getPCB_mod (i + 1)) (Nat.le_add_right _ _)
        ?_ hpcbs (getPCB_mod n) haddr) ?_
      · simp only [maxArgsSpill, Pcb.argsOffset, Pcb.processNumOffset, _8KB] at hfits ⊢
        omega
      · change left.kernel.pcbSlots (n - 1) ≠ 0 → update left.kernel.pcbSlots i 1 (n - 1) ≠ 0
        rw [update_of_ne (by omega)]
        exact id
    refine howns.claim hcurrent rfl rfl rfl hlt hfree hunclaimed rfl rfl huntouched
      (fun n hn => ?_) rfl
    obtain rfl := List.mem_singleton.mp hn
    change update left.kernel.pcbSlots i 1 (i + 1 - 1) ≠ 0
    rw [Nat.add_sub_cancel, update_self]
    decide

/-- `halt` up to its `sti`. -/
theorem halt {after : Threads} {regs : Regs} (howns : OwnsSlots s) (hcurrent : s.current = .away)
    (hguard : s.Guarded (.event (.halt status regs)))
    (hhalt : s.beginHalt img status regs = some after) : OwnsSlots after := by
  unfold Threads.beginHalt at hhalt
  obtain ⟨released, hrelease, hhalt⟩ := Option.bind_eq_some_iff.mp hhalt
  have hreleased := Kernel.release_released hrelease
  have hlink : (released.pcb (getPCB (s.kernel.head s.scheduled))).parentTask =
      (s.kernel.pcb s.kernel.scheduledPcb).parentTask :=
    (hreleased.context s.kernel.scheduledPcb).parentTask
  rw [hlink] at hhalt
  by_cases hparent : s.kernel.hasParent
  · have hnotNull : (s.kernel.pcb s.kernel.scheduledPcb).parentTask ≠ NULL := hparent
    rw [if_pos hnotNull] at hhalt
    obtain ⟨parent, hpcb, rfl⟩ := Option.map_eq_some_iff.mp hhalt
    obtain ⟨-, rfl⟩ := Kernel.derefPcb_eq_some.mp hpcb
    exact howns.release_parent hcurrent hreleased hparent status
  · have hnull : ¬ (s.kernel.pcb s.kernel.scheduledPcb).parentTask ≠ NULL := hparent
    rw [if_neg hnull] at hhalt
    obtain ⟨hshown, hother, hunclaimed⟩ := hguard hparent
    have hleft := howns.release_root hcurrent hreleased hparent hshown status
    obtain ⟨rest, hlist⟩ := howns.processes_eq hreleased.mapped
    have hrange : 1 ≤ s.kernel.head s.scheduled ∧
        s.kernel.head s.scheduled ≤ MAX_PROCESS_COUNT := by
      refine (howns.current hcurrent).range _ (Holding.mem_owned ?_)
      rw [hlist]
      exact List.mem_cons_self
    obtain ⟨d, -, hreset⟩ := released.resetTerminal_eq
    have hslots : released.resetTerminal.pcbSlots =
        update s.kernel.pcbSlots (s.kernel.head s.scheduled - 1) 0 := by
      rw [hreset]
      exact hreleased.pcbSlots
    have hscheduled : released.resetTerminal.currScheduled = s.scheduled := by
      rw [hreset]
      exact hreleased.currScheduled
    -- its own slot is free at the latest
    have hsearch := slotSearchFrom_spec released.resetTerminal.pcbSlots
      (Nat.zero_le (s.kernel.head s.scheduled - 1))
      (by omega : s.kernel.head s.scheduled - 1 < 0 + MAX_PROCESS_COUNT)
      (by rw [hslots, update_self])
    change slotSearch released.resetTerminal.pcbSlots ≤ s.kernel.head s.scheduled - 1 ∧ _ at hsearch
    refine hleft.restart hscheduled (by omega) hsearch.2 (fun t => ?_) hhalt
    rw [hslots]
    change s.restartSlot + 1 ∉ (update s.phase s.scheduled _ t).unmarked ∧
      s.restartSlot + 1 ∉ (update s.phase s.scheduled _ t).halted
    by_cases ht : t = s.scheduled
    · subst ht
      rw [update_self]
      exact ⟨List.not_mem_nil, fun hmem => hother (List.mem_singleton.mp hmem)⟩
    · rw [update_of_ne ht]
      exact hunclaimed t

/-- A tick saves the scheduled process and touches nothing else. -/
theorem tick {ebp : Nat} (howns : OwnsSlots s) (hrotated : Rotated s.kernel ebp k) :
    OwnsSlots { s with kernel := k } := by
  refine howns.of_kernel hrotated.totalTerminal hrotated.heads fun n => ?_
  refine ⟨?_, ?_, ?_⟩
  · rw [hrotated.pcb]
    by_cases hn : getPCB n = s.kernel.scheduledPcb
    · rw [hn, update_self]
    · rw [update_of_ne hn]
  · rw [hrotated.pcb]
    by_cases hn : getPCB n = s.kernel.scheduledPcb
    · rw [hn, update_self]
    · rw [update_of_ne hn]
  · rw [hrotated.pcbSlots]
    exact id

/-- Calls that neither start nor end a process, and the other interrupts. -/
theorem quiet {event : Event} (howns : OwnsSlots s) (hquiet : event.Quiet)
    (hstep : Ece391.step img s.kernel event = some k) : OwnsSlots { s with kernel := k } := by
  have hsame := step_same hquiet hstep
  exact howns.of_kernel hsame.totalTerminal hsame.heads hsame.untouched

/-- `execute` up to its first step that another process can notice. -/
theorem execute (howns : OwnsSlots s) (hcurrent : s.current = .away)
    (command : Option (List UInt8)) (regs : Regs) :
    OwnsSlots (s.beginExecute img command regs) := by
  unfold Threads.beginExecute
  cases command with
  | none => exact howns
  | some command =>
      dsimp only
      split
      · exact howns.of_kernel rfl rfl fun _ => ⟨rfl, rfl, id⟩
      split
      · exact howns
      · exact howns.goOn hcurrent rfl rfl rfl rfl rfl (fun _ => ⟨rfl, rfl, id⟩)
          (List.Subset.refl _) (.refl _)

theorem step {after : Threads} {move : Move} (howns : OwnsSlots s) (hguard : s.Guarded move)
    (hstep : Threads.step img s move = some after) : OwnsSlots after := by
  cases move with
  | advance => exact howns.advance hguard hstep
  | event event =>
      by_cases hquiet : event.Quiet
      · obtain ⟨k, hcarried, rfl⟩ := Threads.step_quiet hquiet hstep
        exact howns.quiet hquiet hcarried
      cases event with
      | tick ebp inner =>
          obtain ⟨k, htick, rfl⟩ := Option.map_eq_some_iff.mp hstep
          have htotal := howns.totalTerminal
          exact howns.tick (Kernel.pitHandler_rotated (by omega) htick)
      | execute command regs =>
          rw [Threads.step] at hstep
          split at hstep
          · next haway =>
            obtain rfl := Option.some.inj hstep
            exact howns.execute (CallPhase.isAway_iff.mp haway) command regs
          · cases hstep
      | halt status regs =>
          rw [Threads.step] at hstep
          split at hstep
          · next haway => exact howns.halt (CallPhase.isAway_iff.mp haway) hguard hstep
          · cases hstep
      | key | rtc | read | write | open_ | close | getargs | vidmap =>
          exact (hquiet trivial).elim

end OwnsSlots

/-! ## Over runs -/

theorem Threads.Started.ownsSlots {img : Image} {s : Threads} (hstart : s.Started img) :
    OwnsSlots s := by
  obtain ⟨d, hset, hstacks, -⟩ := hstart.kernel.settled
  have hholds : ∀ t n, n ∈ s.processes t → d.Holds n := by
    intro t n hn
    rw [hstart.processes] at hn
    exact ⟨t, by rwa [hstacks]⟩
  refine
    { totalTerminal := hset.totalTerminal
      holding := fun t => ?_
      apart := ⟨d, ?_⟩ }
  · rw [hstart.phase]
    refine
      { chain := ?_
        numbered := fun n hn => .inr (hset.numbered n (hholds t n hn))
        slots := fun n hn => ?_
        range := fun n hn => hset.le_of_holds (hholds t n hn)
        linked := fun _ _ heq => CallPhase.noConfusion heq
        pushed := fun _ _ heq => CallPhase.noConfusion heq }
    · rw [hstart.processes, ← hstacks]
      exact hset.chain t
    · rw [((hset.owner n).mp (hholds t n hn)).2.2]
      decide
  · funext t
    rw [hstacks, ownedBy, hstart.phase, hstart.processes]
    rfl

/-- At the end of a search the condition is exact. -/
theorem OwnsSlots.pick_iff {s : Threads} {l : Launching} {i : Nat} (howns : OwnsSlots s)
    (hcurrent : s.current = .searching l i) (hlt : i < MAX_PROCESS_COUNT)
    (hfree : s.kernel.pcbSlots i = 0) :
    (s.goOn s.kernel (.picked l i)).SlotsExclusive ↔ s.Unclaimed i := by
  constructor
  · intro hexclusive t
    have hcons : (s.goOn s.kernel (.picked l i)).ownedBy s.scheduled =
        (i + 1) :: s.ownedBy s.scheduled := by
      rw [Threads.goOn, s.become_ownedBy, update_self, OwnsSlots.ownedBy_current hcurrent]
      rfl
    have hfresh : i + 1 ∉ s.ownedBy t := by
      by_cases ht : t = s.scheduled
      · subst ht
        have hnodup := (List.nodup_flatMap.mp hexclusive.nodup).1 s.scheduled (by
          cases s.scheduled <;> decide)
        rw [hcons] at hnodup
        exact (List.nodup_cons.mp hnodup).1
      · have hmem : i + 1 ∈ (s.goOn s.kernel (.picked l i)).ownedBy s.scheduled := by
          rw [hcons]
          exact List.mem_cons_self
        have hother := hexclusive.not_mem (Ne.symm ht) hmem
        rwa [Threads.goOn, s.become_ownedBy, update_of_ne ht] at hother
    simp only [Threads.ownedBy, CallPhase.owned, List.mem_append, not_or] at hfresh
    exact ⟨hfresh.1.1.1, hfresh.1.2⟩
  · intro hunclaimed
    have hpicked : OwnsSlots (s.goOn s.kernel (.picked l i)) :=
      howns.claim hcurrent rfl rfl rfl hlt hfree hunclaimed rfl rfl
        (fun _ _ _ => ⟨rfl, rfl, id⟩) (List.forall_mem_nil _) rfl
    exact hpicked.slotsExclusive

/-! ## Two shells -/

/-- A tick between two steps of a call does not fault. -/
theorem OwnsSlots.tick_completes {s : Threads} (howns : OwnsSlots s)
    (hlive : ∀ t, s.processes t ≠ []) (img : Image) (ebp : Nat) (inner : Regs) :
    ∃ k, Threads.step img s (.event (.tick ebp inner)) = some { s with kernel := k } ∧
      Rotated s.kernel ebp k := by
  have hpos : ∀ t, 0 < s.kernel.head t := by
    intro t
    rcases (howns.holding t).head_cases with ⟨hnil, -⟩ | ⟨hpos, -⟩
    · exact absurd hnil (hlive t)
    · exact hpos
  obtain ⟨k, htick, hrotated⟩ : ∃ k, s.kernel.pitHandler img ebp inner = some k ∧
      Rotated s.kernel ebp k :=
    Kernel.tick_completes howns.totalTerminal (hpos _) (hpos _) ebp inner
  exact ⟨k, Option.map_eq_some_iff.mpr ⟨k, htick, rfl⟩, hrotated⟩

theorem Threads.guarded_advance {s : Threads} {k : Kernel} {phase : CallPhase} {list : List Nat}
    (hk : k.currScheduled = s.scheduled) (hguard : (s.become k phase list).GuardedFrom phase) :
    (s.become k phase list).Guarded .advance := by
  rwa [Guarded, become_current hk]

/-- Neither a tick nor a step of a load. -/
def Threads.BesideLoads (s : Threads) : Move → Prop
  | .event (.tick _ _) => False
  | .event _ => True
  | .advance => s.current.isLoading = false

theorem Threads.beside_advance {s : Threads} {k : Kernel} {phase : CallPhase} {list : List Nat}
    (hk : k.currScheduled = s.scheduled) (hphase : phase.isLoading = false) :
    (s.become k phase list).BesideLoads .advance := by
  rwa [BesideLoads, become_current hk]

/-- The search over taken slots, by induction over their number. -/
theorem Threads.search_run {s : Threads} {img : Image} {k : Kernel} {l : Launching}
    {list : List Nat} {i count : Nat} (hk : k.currScheduled = s.scheduled)
    (hle : i + count ≤ MAX_PROCESS_COUNT)
    (htaken : ∀ j, i ≤ j → j < i + count → k.pcbSlots j ≠ 0) :
    ∃ history, Run (Threads.step img) (s.become k (.searching l i) list) history
        (s.become k (.searching l (i + count)) list) ∧
      ∀ fired ∈ history, fired.pre.BesideLoads fired.event ∧ fired.pre.Guarded fired.event := by
  induction count generalizing i with
  | zero => exact ⟨[], .start _, by simp⟩
  | succ count ih =>
      have hlt : i < MAX_PROCESS_COUNT := by omega
      have hslot := htaken i (Nat.le_refl i) (by omega)
      have hstep : Threads.step img (s.become k (.searching l i) list) .advance =
          some (s.become k (.searching l (i + 1)) list) := become_step hk (if_pos ⟨hlt, hslot⟩)
      obtain ⟨history, hrun, hguard⟩ := ih (i := i + 1) (by omega)
        fun j hle hlt => htaken j (by omega) (by omega)
      rw [Nat.add_right_comm] at hrun
      refine ⟨_, hrun.cons hstep, ?_⟩
      intro fired hmem
      rcases List.mem_cons.mp hmem with rfl | hmem
      · exact ⟨beside_advance hk rfl,
          guarded_advance hk ⟨hlt, fun hfree => absurd hfree hslot⟩⟩
      · exact hguard fired hmem

/-- A shell that executes another one picks the first free slot. -/
theorem Threads.pick_run {s : Threads} {img : Image} {program : Program} {i : Nat} (regs : Regs)
    (hfind : findProgram img shellCommand = some program) (haway : s.current = .away)
    (hcount : s.kernel.processCount < MAX_PROCESS_COUNT) (hi : i < MAX_PROCESS_COUNT)
    (htaken : ∀ j < i, s.kernel.pcbSlots j ≠ 0) (hfree : s.kernel.pcbSlots i = 0) :
    ∃ history, Run (Threads.step img) s history
        (s.goOn s.kernel.countProcess (.picked ⟨program, regs, none⟩ i)) ∧
      ∀ fired ∈ history, fired.pre.BesideLoads fired.event ∧
        (s.Unclaimed i → fired.pre.Guarded fired.event) := by
  have hbegin : Threads.step img s (.event (.execute (some shellCommand) regs)) =
      some (s.goOn s.kernel (.checked ⟨program, regs, none⟩)) := by
    have hroom : ¬ s.kernel.processCount ≥ MAX_PROCESS_COUNT := by omega
    rw [Threads.step, haway]
    change some (s.beginExecute img (some shellCommand) regs) = _
    unfold beginExecute
    dsimp only
    rw [if_neg hroom, hfind]
  have hcounted : Threads.step img (s.goOn s.kernel (.checked ⟨program, regs, none⟩)) .advance =
      some (s.goOn s.kernel.countProcess (.searching ⟨program, regs, none⟩ 0)) :=
    become_step rfl rfl
  obtain ⟨history, hsearch, hguard⟩ : ∃ history, Run (Threads.step img)
      (s.goOn s.kernel.countProcess (.searching ⟨program, regs, none⟩ 0)) history
      (s.goOn s.kernel.countProcess (.searching ⟨program, regs, none⟩ (0 + i))) ∧
      ∀ fired ∈ history, fired.pre.BesideLoads fired.event ∧ fired.pre.Guarded fired.event :=
    search_run rfl (by omega) fun j _ hlt => htaken j (by omega)
  rw [Nat.zero_add] at hsearch
  have hpick : Threads.step img
      (s.goOn s.kernel.countProcess (.searching ⟨program, regs, none⟩ i)) .advance =
      some (s.goOn s.kernel.countProcess (.picked ⟨program, regs, none⟩ i)) :=
    become_step rfl (if_neg fun hsearching => hsearching.2 hfree)
  have hchecked : (s.goOn s.kernel (.checked ⟨program, regs, none⟩)).Guarded .advance :=
    guarded_advance rfl trivial
  -- the guard is asked for where the search stops, before the slot is marked
  have hfound (hunclaimed : s.Unclaimed i) :
      (s.goOn s.kernel.countProcess (.searching ⟨program, regs, none⟩ i)).Guarded .advance := by
    refine guarded_advance rfl ⟨hi, fun _ t => ?_⟩
    change i + 1 ∉ (update s.phase s.scheduled _ t).unmarked ∧
      i + 1 ∉ (update s.phase s.scheduled _ t).halted
    by_cases ht : t = s.scheduled
    · subst ht
      rw [update_self]
      exact ⟨List.not_mem_nil, List.not_mem_nil⟩
    · rw [update_of_ne ht]
      exact hunclaimed t
  have hbeside : (s.goOn s.kernel (.checked ⟨program, regs, none⟩)).BesideLoads .advance ∧
      (s.goOn s.kernel.countProcess (.searching ⟨program, regs, none⟩ i)).BesideLoads .advance :=
    ⟨beside_advance rfl rfl, beside_advance rfl rfl⟩
  refine ⟨_, ((hsearch.extend hpick).cons hcounted).cons hbegin, fun fired hmem => ?_⟩
  rcases List.mem_cons.mp hmem with rfl | hmem
  · exact ⟨trivial, fun _ => trivial⟩
  rcases List.mem_cons.mp hmem with rfl | hmem
  · exact ⟨hbeside.1, fun _ => hchecked⟩
  rcases List.mem_append.mp hmem with hmem | hmem
  · exact ⟨(hguard fired hmem).1, fun _ => (hguard fired hmem).2⟩
  · obtain rfl := List.mem_singleton.mp hmem
    exact ⟨hbeside.2, hfound⟩

/-- The end of the start-up and the first tick, in front of every call. -/
theorem Threads.shells_run :
    ∃ start s : Threads, start.Started shellImage ∧
      Threads.step shellImage start (.event (.tick 0 ⟨0, 0⟩)) = some s ∧
      (∀ t, s.phase t = .away) ∧ (∀ t, s.processes t = [t.num]) ∧ s.scheduled = .T1 ∧
      s.kernel.currTerminal = .T1 ∧ s.kernel.switchFlag = none ∧ s.kernel.processCount = 3 ∧
      (∀ j < 3, s.kernel.pcbSlots j ≠ 0) ∧ s.kernel.pcbSlots 3 = 0 := by
  obtain ⟨k₀, k, d, hstart, htick, hset, hstacks, hscheduled, hshown, hflag, -⟩ :=
    shellImage_displayed
  obtain ⟨hslots, hcount⟩ := hset.toProcessTable.slots_shells hstacks
  refine ⟨⟨k₀, fun _ => .away, fun t => [t.num]⟩, ⟨k, fun _ => .away, fun t => [t.num]⟩,
    ⟨hstart, fun _ => rfl, fun _ => rfl⟩, ?_, fun _ => rfl, fun _ => rfl, hscheduled, hshown, hflag,
    hcount, fun j hj => ?_, ?_⟩
  · exact congrArg (Option.map _) htick
  · have hone : k.pcbSlots j = 1 := (hslots j (Nat.lt_trans hj (by decide))).mpr hj
    rw [hone]
    decide
  · refine (hset.slots 3 (by decide)).resolve_right fun hone => ?_
    exact absurd ((hslots 3 (by decide)).mp hone) (by decide)

end Ece391
