import Ece391.StartUp

/-! # The process table in every reachable state

From the end of the start-up on, the records of the process table agree after
every event and the stacks move only by the operations of `StackEffect`.
-/

namespace Ece391

open Function Transition

/-- Every disciplined run from a running system keeps it running. -/
theorem Settled.run {img : Image} {k last : Kernel} {s : DisjointStacks Terminal Nat}
    {history : List (Fired Kernel Event)} (hset : Settled img k s)
    (hrun : Run (Ece391.step img) k history last)
    (hdisc : ∀ fired ∈ history, Disciplined img fired.pre fired.event) :
    (∃ s, Settled img last s) ∧
      ∀ fired ∈ history, ∃ s s', Settled img fired.pre s ∧ Settled img fired.post s' ∧
        StackEffect img fired.pre s fired.event s' := by
  induction hrun with
  | start => exact ⟨⟨s, hset⟩, by simp⟩
  | @extend t next history event prior hstep ih =>
      obtain ⟨⟨s', hset'⟩, hhistory⟩ := ih fun fired hmem =>
        hdisc fired (List.mem_append_left _ hmem)
      have hlast := hdisc _ (List.mem_append_right _ (List.mem_singleton_self _))
      obtain ⟨s'', hset'', heffect, -⟩ := hset'.step hlast hstep
      refine ⟨⟨s'', hset''⟩, fun fired hmem => ?_⟩
      rcases List.mem_append.mp hmem with hmem | hmem
      · exact hhistory fired hmem
      · obtain rfl := List.mem_singleton.mp hmem
        exact ⟨s', s'', hset', hset'', heffect⟩

/-- The smallest image has a program to start as long as slots are left. -/
theorem shellImage_launching {k : Kernel} {s : DisjointStacks Terminal Nat}
    (htable : ProcessTable k s) (hstacks : ∀ t, s.stack t = [t.num]) :
    k.launching shellImage (some shellCommand) = some ⟨0, 0, []⟩ :=
  htable.launching_shell hstacks shellImage_shell

end Ece391
