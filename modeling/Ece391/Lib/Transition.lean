import Mathlib.Data.List.Basic

/-! # Runs of partial transition systems

A system is a partial step function: an event that cannot complete in a state
has no successor there. Runs keep every fired event together with the states
around it, so that a property of a whole run can speak about the state before
each of its steps.
-/

namespace Transition

universe u v

variable {σ : Type u} {α : Type v}

/-- One fired event with the states on both sides of it. -/
structure Fired (σ : Type u) (α : Type v) where
  pre : σ
  event : α
  post : σ

variable (step : σ → α → Option σ)

/-- Finite runs, with the oldest event first in the history. -/
inductive Run : σ → List (Fired σ α) → σ → Prop
  | start (s : σ) : Run s [] s
  | extend {s t next : σ} {history : List (Fired σ α)} {event : α}
      (prior : Run s history t) (hstep : step t event = some next) :
      Run s (history ++ [⟨t, event, next⟩]) next

/-- Execute a fixed list of events. -/
def exec : σ → List α → Option σ
  | s, [] => some s
  | s, event :: rest => (step s event).bind fun next => exec next rest

/-- Some run whose steps all meet a condition on the state before the step
and the event leads from one state to the other. -/
def ReachableVia (allowed : σ → α → Prop) (s t : σ) : Prop :=
  ∃ history, Run step s history t ∧ ∀ fired ∈ history, allowed fired.pre fired.event

/-- Reachability without any condition on the steps. -/
def Reachable (s t : σ) : Prop := ∃ history, Run step s history t

variable {step}

theorem Run.append {s t last : σ} {first second : List (Fired σ α)}
    (hfirst : Run step s first t) (hsecond : Run step t second last) :
    Run step s (first ++ second) last := by
  induction hsecond with
  | start => simpa using hfirst
  | extend prior hstep ih =>
      rw [← List.append_assoc]
      exact ih.extend hstep

theorem Run.single {s next : σ} {event : α} (hstep : step s event = some next) :
    Run step s [⟨s, event, next⟩] next :=
  (Run.start s).extend hstep

theorem Run.cons {s next last : σ} {event : α} {history : List (Fired σ α)}
    (hstep : step s event = some next) (hrest : Run step next history last) :
    Run step s (⟨s, event, next⟩ :: history) last :=
  (Run.single hstep).append hrest

/-- Every fired event of a run is reached by the part of the run before it. -/
theorem Run.before {s last : σ} {history : List (Fired σ α)}
    (hrun : Run step s history last) {index : Nat} {fired : Fired σ α}
    (hfired : history[index]? = some fired) :
    Run step s (history.take index) fired.pre ∧
      step fired.pre fired.event = some fired.post := by
  induction hrun with
  | start => simp at hfired
  | @extend t next history event prior hstep ih =>
      rcases Nat.lt_or_ge index history.length with hlt | hge
      · rw [List.getElem?_append_left hlt] at hfired
        rw [List.take_append_of_le_length (Nat.le_of_lt hlt)]
        exact ih hfired
      · rw [List.getElem?_append_right hge] at hfired
        have hzero : index - history.length = 0 := by
          by_contra hne
          rw [List.getElem?_eq_none (by simp; omega)] at hfired
          simp at hfired
        rw [hzero, List.getElem?_cons_zero, Option.some.injEq] at hfired
        subst hfired
        have hindex : index = history.length := by omega
        subst hindex
        simpa using ⟨prior, hstep⟩

theorem Run.of_exec {s last : σ} {events : List α} (hexec : exec step s events = some last) :
    ∃ history, Run step s history last ∧ history.map Fired.event = events := by
  induction events generalizing s with
  | nil =>
      simp only [exec, Option.some.injEq] at hexec
      subst hexec
      exact ⟨[], .start s, rfl⟩
  | cons event rest ih =>
      simp only [exec, Option.bind_eq_some_iff] at hexec
      obtain ⟨next, hstep, hrest⟩ := hexec
      obtain ⟨history, hrun, hevents⟩ := ih hrest
      exact ⟨⟨s, event, next⟩ :: history, hrun.cons hstep, by simp [hevents]⟩

/-- A predicate preserved by every allowed step holds at the end of every run
whose steps are all allowed. -/
theorem Run.invariant_of_allowed {s last : σ} {history : List (Fired σ α)}
    (hrun : Run step s history last) (invariant : σ → Prop) (allowed : σ → α → Prop)
    (hpreserve : ∀ t event next, invariant t → allowed t event →
      step t event = some next → invariant next)
    (hallowed : ∀ fired ∈ history, allowed fired.pre fired.event)
    (hstart : invariant s) : invariant last := by
  induction hrun with
  | start => exact hstart
  | extend prior hstep ih =>
      have hprior := ih fun fired hmem => hallowed fired (List.mem_append_left _ hmem)
      have hlast := hallowed _ (List.mem_append_right _ List.mem_cons_self)
      exact hpreserve _ _ _ hprior hlast hstep

/-- It also holds in front of each of its steps. -/
theorem Run.invariant_before {s last : σ} {history : List (Fired σ α)}
    (hrun : Run step s history last) (invariant : σ → Prop) (allowed : σ → α → Prop)
    (hpreserve : ∀ t event next, invariant t → allowed t event →
      step t event = some next → invariant next)
    (hallowed : ∀ fired ∈ history, allowed fired.pre fired.event) (hstart : invariant s)
    {fired : Fired σ α} (hfired : fired ∈ history) :
    invariant fired.pre ∧ step fired.pre fired.event = some fired.post := by
  obtain ⟨index, hindex⟩ := List.getElem?_of_mem hfired
  obtain ⟨hprior, hstep⟩ := hrun.before hindex
  have hfront : ∀ fired ∈ history.take index, allowed fired.pre fired.event :=
    fun fired hmem => hallowed fired (List.mem_of_mem_take hmem)
  exact ⟨hprior.invariant_of_allowed invariant allowed hpreserve hfront hstart, hstep⟩

/-- A reflexive and transitive relation between the states around each fired event holds
between the ends of the run. -/
theorem Run.related {s last : σ} {history : List (Fired σ α)} (hrun : Run step s history last)
    (related : σ → σ → Prop) (hrefl : ∀ t, related t t)
    (htrans : ∀ {t u v}, related t u → related u v → related t v)
    (hfired : ∀ fired ∈ history, related fired.pre fired.post) : related s last := by
  induction hrun with
  | start => exact hrefl _
  | extend prior hstep ih =>
      have hprior := ih fun fired hmem => hfired fired (List.mem_append_left _ hmem)
      exact htrans hprior (hfired _ (List.mem_append_right _ List.mem_cons_self))

/-- A predicate preserved by every step holds at the end of every run. -/
theorem Run.invariant {s last : σ} {history : List (Fired σ α)}
    (hrun : Run step s history last) (invariant : σ → Prop)
    (hpreserve : ∀ t event next, invariant t → step t event = some next → invariant next)
    (hstart : invariant s) : invariant last :=
  hrun.invariant_of_allowed invariant (fun _ _ => True)
    (fun t event next ht _ => hpreserve t event next ht) (by simp) hstart

/-- What each step overwrites or keeps is, at the end of a run, what was written last. -/
theorem Run.last_write {β γ : Type*} {s last : σ} {history : List (Fired σ α)}
    (hrun : Run step s history last) (view : σ → β) (write : Fired σ α → Option γ) (value : γ → β)
    (hstep : ∀ fired ∈ history, step fired.pre fired.event = some fired.post →
      view fired.post = ((write fired).map value).getD (view fired.pre)) :
    view last = ((history.filterMap write).getLast?.map value).getD (view s) := by
  induction hrun with
  | start => rfl
  | @extend t next history event prior hlast ih =>
      have hprior := ih fun fired hmem => hstep fired (List.mem_append_left _ hmem)
      have hwritten := hstep _ (List.mem_append_right _ List.mem_cons_self) hlast
      dsimp only at hwritten
      rw [List.filterMap_append, hwritten, hprior]
      cases hwrite : write ⟨t, event, next⟩ with
      | none => simp [hwrite]
      | some written => simp [hwrite]

/-- The fired event that another system sees under an abstraction of the states. -/
def Fired.map {τ β : Type*} (view : σ → τ) (label : σ → α → β) (fired : Fired σ α) : Fired τ β :=
  ⟨view fired.pre, label fired.pre fired.event, view fired.post⟩

/-- A run whose steps are simulated one by one is simulated as a whole. -/
theorem Run.simulate {τ β : Type*} {s last : σ} {history : List (Fired σ α)}
    (hrun : Run step s history last) (target : τ → β → Option τ) (view : σ → τ)
    (label : σ → α → β)
    (hstep : ∀ fired ∈ history, step fired.pre fired.event = some fired.post →
      target (view fired.pre) (label fired.pre fired.event) = some (view fired.post)) :
    Run target (view s) (history.map (Fired.map view label)) (view last) := by
  induction hrun with
  | start => exact .start _
  | extend prior hlast ih =>
      rw [List.map_append, List.map_singleton]
      have hprior := ih fun fired hmem => hstep fired (List.mem_append_left _ hmem)
      exact hprior.extend (hstep _ (List.mem_append_right _ List.mem_cons_self) hlast)

theorem ReachableVia.invariant {allowed : σ → α → Prop} {s last : σ}
    (hreach : ReachableVia step allowed s last) (invariant : σ → Prop)
    (hpreserve : ∀ t event next, invariant t → allowed t event →
      step t event = some next → invariant next)
    (hstart : invariant s) : invariant last := by
  obtain ⟨history, hrun, hallowed⟩ := hreach
  exact hrun.invariant_of_allowed invariant allowed hpreserve hallowed hstart

theorem ReachableVia.refl (allowed : σ → α → Prop) (s : σ) : ReachableVia step allowed s s :=
  ⟨[], .start s, by simp⟩

theorem ReachableVia.extend {allowed : σ → α → Prop} {s t next : σ} {event : α}
    (hreach : ReachableVia step allowed s t) (hallowed : allowed t event)
    (hstep : step t event = some next) : ReachableVia step allowed s next := by
  obtain ⟨history, hrun, hhistory⟩ := hreach
  refine ⟨_, hrun.extend hstep, fun fired hmem => ?_⟩
  rcases List.mem_append.mp hmem with hmem | hmem
  · exact hhistory fired hmem
  · rw [List.mem_singleton] at hmem
    subst hmem
    exact hallowed

theorem Reachable.invariant {s last : σ} (hreach : Reachable step s last)
    (invariant : σ → Prop)
    (hpreserve : ∀ t event next, invariant t → step t event = some next → invariant next)
    (hstart : invariant s) : invariant last := by
  obtain ⟨history, hrun⟩ := hreach
  exact hrun.invariant invariant hpreserve hstart

theorem Reachable.refl (s : σ) : Reachable step s s := ⟨[], .start s⟩

theorem Reachable.trans {s t last : σ} (hfirst : Reachable step s t)
    (hsecond : Reachable step t last) : Reachable step s last := by
  obtain ⟨first, hfirst⟩ := hfirst
  obtain ⟨second, hsecond⟩ := hsecond
  exact ⟨first ++ second, hfirst.append hsecond⟩

theorem Reachable.of_exec {s last : σ} {events : List α}
    (hexec : exec step s events = some last) : Reachable step s last := by
  obtain ⟨history, hrun, _⟩ := Run.of_exec hexec
  exact ⟨history, hrun⟩

end Transition
