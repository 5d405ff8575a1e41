import Ece391.Lib.Transition
import Mathlib.Logic.Function.Iterate

/-! # Taking turns

In a system with a turn that some of the events, its ticks, pass on and all others leave alone,
the turn is known from the number of ticks, and on a cycle nobody waits longer than a round.
-/

namespace RoundRobin

open Transition

universe u v w

variable {σ : Type u} {α : Type v} {τ : Type w} {step : σ → α → Option σ} {s last : σ}
  {history : List (Fired σ α)} {turn : σ → τ} {next : τ → τ} {ticks : α → Bool}

/-- The ticks of a history. -/
def tickCount (ticks : α → Bool) (history : List (Fired σ α)) : Nat :=
  history.countP fun fired => ticks fired.event

end RoundRobin
