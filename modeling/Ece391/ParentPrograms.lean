import Ece391.UserPrograms

/-! # Programs that start others

A program waits in `execute` while the one it started is the head of its terminal, with its
descendants and whatever else goes on. What every program can rely on then is what each of its
calls returns: the lines and counts of the terminal, and the status of a child.
-/

namespace Ece391

open Function Transition Sessions

/-! ## What calls return -/

/-- A call on the terminal's descriptors succeeds, and `execute` returns the eight bits of a
status or -1. -/
def Lawful : UserCall × Reply → Prop
  | (.fd (.read 0 true nbytes), reply) =>
      0 ≤ nbytes → reply.value = reply.out.length ∧ (reply.out.length : Int) ≤ nbytes
  | (.fd (.write 1 (some _) nbytes), reply) => 0 < nbytes → reply.value = nbytes + 1
  | (.execute _ _, reply) => reply.value = -1 ∨ ∃ status : UInt8, reply.value = status.toNat
  | _ => True

/-- The commands that a program executes fit into the block of the new process. -/
def ShortCommands {Pos : Type} (program : UserProgram Pos) : Prop :=
  ∀ pos command regs, program.next pos = .inl (.execute command regs) →
    command.length ≤ argsRoom

theorem commandArgs_length_le (command : List UInt8) :
    (commandArgs command).length ≤ command.length := by
  have htaken := (List.takeWhile_prefix (l := (command.drop (commandWord command).length).dropWhile
    fun c => c = SPACE_CHAR) fun c => decide (c ≠ NUL)).length_le
  have hdropped := (List.dropWhile_suffix (l := command.drop (commandWord command).length)
    fun c => decide (c = SPACE_CHAR)).length_le
  rw [List.length_drop] at hdropped
  unfold commandArgs
  omega

/-! ## Waiting -/

/-- Process `n` is the head of its terminal or waits for a child. -/
structure Waits {Pos : Type} (img : Image) (t : Terminal) (n : Nat) (program : UserProgram Pos)
    (k : Kernel) (pos : Pos) : Prop where
  hosted : Hosted img t n k
  table : PcbSound img (k.pcb (getPCB n))
  head : k.head t = n ∨ ∃ command regs, program.next pos = .inl (.execute command regs)

section Rule

variable {img : Image} {t : Terminal} {n : Nat} {Pos : Type} {program : UserProgram Pos}
  {k after : Kernel} {pos : Pos}

theorem Waits.attends (hk : Waits img t n program k pos) (hhead : k.head t = n) :
    Attends img t n k := ⟨hk.hosted, hhead, hk.table⟩

theorem Attends.waits (hk : Attends img t n k) (pos : Pos) : Waits img t n program k pos :=
  ⟨hk.hosted, hk.table, .inl hk.head⟩

/-- Without a program to start `execute` returns at once, with 0 when the table is full. -/
theorem Kernel.execute_value {command : List UInt8} {regs : Regs} {value : Int}
    (hexecute : k.execute img (some command) regs = some (.returned value, after)) :
    value = -1 ∨ value = 0 := by
  rcases Kernel.execute_cases hexecute with ⟨hrefused, -⟩ | ⟨program, -, -, hentered, -⟩
  · unfold Kernel.execute at hexecute
    dsimp only at hexecute
    unfold Kernel.launching at hrefused
    split at hexecute
    · obtain ⟨hvalue, -⟩ := Prod.mk.inj (Option.some.inj hexecute)
      exact .inr (ExecReturn.returned.inj hvalue).symm
    · next hroom =>
      rw [if_neg hroom, Option.bind_some] at hrefused
      rw [hrefused] at hexecute
      obtain ⟨hvalue, -⟩ := Prod.mk.inj (Option.some.inj hexecute)
      exact .inl (ExecReturn.returned.inj hvalue).symm
  · cases hentered

/-- The process that executes stays below its child, with its PCB as it is. -/
theorem Hosted.own_execute (hk : Hosted img t n k) (hruns : k.runs t n)
    (hshown : k.currTerminal = t) {command : List UInt8} (hshort : command.length ≤ argsRoom)
    {regs : Regs} {result : ExecReturn}
    (hexecute : k.execute img (some command) regs = some (result, after)) :
    Hosted img t n after ∧ after.pcb (getPCB n) = k.pcb (getPCB n) ∧
      match result with
      | .returned value => after.head t = n ∧ (value = -1 ∨ value = 0)
      | .entered _ => True := by
  obtain ⟨hscheduled, hhead⟩ := Kernel.runs_iff.mp hruns
  have hfits : ∀ program, k.launching img (some command) = some program →
      program.args.length ≤ argsRoom := by
    intro program hlaunching
    rw [findProgram_args (launching_some_iff.mp hlaunching).2]
    exact (commandArgs_length_le command).trans hshort
  have hdisc : Disciplined img k (.execute (some command) regs) := by
    intro program hlaunching
    exact ⟨hshown.trans hscheduled.symm, (hfits program hlaunching).trans (by decide)⟩
  obtain ⟨s, hset, hmem⟩ := id hk
  obtain ⟨s', hset', heffect, -⟩ := hset.execute hdisc hexecute
  have hmem' : n ∈ s'.stack t := by
    cases heffect with
    | quiet hquiet => exact hquiet.elim
    | refused => exact hmem
    | launched =>
        rw [← hscheduled, DisjointStacks.push_stack_self]
        rw [← hscheduled] at hmem
        exact List.mem_cons_of_mem _ hmem
  refine ⟨⟨s', hset', hmem'⟩, ?_⟩
  rcases Kernel.execute_cases hexecute with ⟨-, ⟨value, rfl⟩, hsame, hpcb, -⟩ | hstarted
  · refine ⟨by rw [hpcb], by rw [Kernel.head, hsame.heads]; exact hhead,
      Kernel.execute_value hexecute⟩
  · obtain ⟨program, -, hroom, rfl, -⟩ := hstarted
    exact ⟨Kernel.execute_pcb_kept hexecute hfits hk.head.2 (hk.ne_slotSearch hroom), trivial⟩

/-- `terminal_read` returns the bytes it stores, as many as were asked for at the most. -/
theorem Kernel.terminalRead_counts {nbytes value : Int} {out : List UInt8} (hpos : 0 ≤ nbytes)
    (hread : (k.terminalRead nbytes).1 = .returned value out) :
    value = out.length ∧ (out.length : Int) ≤ nbytes := by
  rw [Kernel.terminalRead, if_neg (by omega)] at hread
  split at hread
  · unfold Kernel.takeLine at hread
    dsimp only at hread
    obtain ⟨rfl, rfl⟩ := SysReturn.returned.inj hread
    rw [List.length_map, List.length_range]
    refine ⟨rfl, ?_⟩
    split <;> omega
  · cases hread

/-- What a displayed process gets by its calls on descriptors. -/
theorem Displayed.lawful (hk : Displayed img t n k) {call : Call} {reply : Reply}
    (hserve : k.serve img (.fd call) = some (some reply, after)) : Lawful (.fd call, reply) := by
  obtain ⟨⟨result, last⟩, hcall, heq⟩ := Option.map_eq_some_iff.mp hserve
  obtain ⟨hreply, rfl⟩ := Prod.mk.inj heq
  have hreturned : result = .returned reply.value reply.out := by
    cases result with
    | waiting => cases hreply
    | returned value out =>
        obtain rfl := Option.some.inj hreply
        rfl
  unfold Lawful
  split
  · next nbytes reply heq =>
    obtain ⟨hsame, rfl⟩ := Prod.mk.inj heq
    obtain rfl := UserCall.fd.inj hsame
    intro hpos
    rw [Kernel.call, hk.read_stdin, Option.some.injEq] at hcall
    refine Kernel.terminalRead_counts hpos (k := k) ?_
    rw [hcall, hreturned]
  · next buf nbytes reply heq =>
    obtain ⟨hsame, rfl⟩ := Prod.mk.inj heq
    obtain rfl := UserCall.fd.inj hsame
    intro hpos
    rw [Kernel.call, hk.stdoutAt.write_eq, k.terminalWrite_bytes buf hpos] at hcall
    obtain ⟨hwritten, -⟩ := Prod.mk.inj (Option.some.inj hcall)
    exact (SysReturn.returned.inj (hreturned.symm.trans hwritten.symm)).1
  · next heq => cases (Prod.mk.inj heq).1
  · trivial

/-- A reply that an event beside the process brings is the status of its child. -/
theorem returnedTo_eq_some {event : MachineEvent} {reply : Reply}
    (hreturned : returnedTo t n k event after = some reply) :
    k.head t ≠ n ∧ after.head t = n ∧ ∃ status : UInt8, reply = ⟨status.toNat, []⟩ := by
  unfold returnedTo at hreturned
  split at hreturned
  · next status regs =>
    split at hreturned
    · next hback =>
      obtain rfl := Option.some.inj hreturned
      exact ⟨hback.1, hback.2, status, rfl⟩
    · cases hreturned
  · cases hreturned

variable {answered : List (UserCall × Reply)}

theorem lawful_snoc (hlawful : ∀ call ∈ answered, Lawful call) {call : UserCall} {reply : Reply}
    (hlast : Lawful (call, reply)) : ∀ other ∈ answered ++ [(call, reply)], Lawful other := by
  intro other hmem
  rcases List.mem_append.mp hmem with hmem | hmem
  · exact hlawful other hmem
  · obtain rfl := List.mem_singleton.mp hmem
    exact hlast

/-- An own call, by which library call it is. -/
theorem Waits.own (hk : Waits img t n program k pos) (hwf : img.WellFormed)
    (htypes : img.TypesKnown) (hshort : ShortCommands program) (hruns : k.runs t n)
    (hshown : k.currTerminal = t) {call : UserCall} (hnext : program.next pos = .inl call)
    {reply : Option Reply} (hserve : k.serve img call = some (reply, after)) :
    match reply with
    | some reply => Waits img t n program after (program.resume pos reply) ∧ Lawful (call, reply)
    | none => Waits img t n program after pos := by
  have hattends := hk.attends (Kernel.runs_iff.mp hruns).2
  cases call with
  | fd call =>
      have hafter := hattends.serve hruns hshown hwf htypes (by simp) hserve
      cases reply with
      | none => exact hafter.waits pos
      | some reply => exact ⟨hafter.waits _, Displayed.lawful ⟨hattends, hruns, hshown⟩ hserve⟩
  | getargs nbytes =>
      have hafter := hattends.serve hruns hshown hwf htypes (by simp) hserve
      cases reply with
      | none => exact hafter.waits pos
      | some reply => exact ⟨hafter.waits _, trivial⟩
  | vidmap screenStart =>
      have hafter := hattends.serve hruns hshown hwf htypes (by simp) hserve
      cases reply with
      | none => exact hafter.waits pos
      | some reply => exact ⟨hafter.waits _, trivial⟩
  | execute command regs =>
      obtain ⟨⟨result, last⟩, hexecute, heq⟩ := Option.map_eq_some_iff.mp hserve
      obtain ⟨rfl, rfl⟩ := Prod.mk.inj heq
      obtain ⟨hhosted, hpcb, hresult⟩ :=
        hk.hosted.own_execute hruns hshown (hshort pos command regs hnext) hexecute
      have htable : PcbSound img (last.pcb (getPCB n)) := by
        rw [hpcb]
        exact hk.table
      cases result with
      | entered eip => exact ⟨hhosted, htable, .inr ⟨command, regs, hnext⟩⟩
      | returned value =>
          obtain ⟨hhead, hvalue⟩ := hresult
          refine ⟨⟨hhosted, htable, .inl hhead⟩, ?_⟩
          rcases hvalue with rfl | rfl
          · exact .inl rfl
          · exact .inr ⟨0, rfl⟩

/-- The rule for any program in an attentive session: whatever its children do, its
process stays where it is and every reply it has had is lawful. -/
theorem UserSession.lawful {s last : UserSession Pos}
    {history : List (Fired (UserSession Pos) (ClientMove MachineEvent))} (hwf : img.WellFormed)
    (htypes : img.TypesKnown) (hshort : ShortCommands program)
    (hrun : Run (Session.step program (kernelService img t n)) s history last)
    (hallowed : ∀ fired ∈ history, Attentive img t n fired.pre.state fired.event)
    (hwaits : Waits img t n program s.state s.pos) (hlawful : ∀ call ∈ s.answered, Lawful call) :
    Waits img t n program last.state last.pos ∧ ∀ call ∈ last.answered, Lawful call := by
  refine Session.invariant hrun
    (fun k pos answered => Waits img t n program k pos ∧ ∀ call ∈ answered, Lawful call)
    (fun k move => Attentive img t n k move) hallowed ?_ ?_ ⟨hwaits, hlawful⟩
  · rintro k pos answered call reply after ⟨hk, hlawful⟩ hshown hnext hruns hserve
    have hafter := hk.own hwf htypes hshort hruns hshown hnext hserve
    cases reply with
    | none => exact ⟨hafter, hlawful⟩
    | some reply => exact ⟨hafter.1, lawful_snoc hlawful hafter.2⟩
  · rintro k pos answered event after ⟨hk, hlawful⟩ hspares hbeside hstep
    obtain ⟨hhosted, hsame, hhead⟩ := hk.hosted.beside hbeside hspares hstep
    have htable := hk.table.same hsame
    have hkept : Waits img t n program after pos := ⟨hhosted, htable, hk.head.imp_left hhead⟩
    split
    · next call reply hnext hdeliver =>
      obtain ⟨haway, hback, status, rfl⟩ := returnedTo_eq_some hdeliver
      -- only a program in `execute` has another process at the head of its terminal
      obtain ⟨command, regs, hexecute⟩ := hk.head.resolve_left haway
      obtain rfl := Sum.inl.inj (hnext.symm.trans hexecute)
      exact ⟨⟨hhosted, htable, .inl hback⟩, lawful_snoc hlawful (.inr ⟨status, rfl⟩)⟩
    · exact ⟨hkept, hlawful⟩

end Rule

end Ece391
