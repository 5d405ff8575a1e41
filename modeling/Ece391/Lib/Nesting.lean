import Ece391.Lib.Transition

/-! # Nested runs

A nested run goes through segments, and through pairs of events that open and close with a
nested run between them, as a call and its return do. What every segment keeps, and every
pair whose body keeps it, is kept by the whole run.
-/

namespace Transition

universe u v

variable {σ : Type u} {α : Type v}

inductive Nested (step : σ → α → Option σ) (segment : σ → List (Fired σ α) → σ → Prop)
    (opens : σ → α → σ → Prop) (closes : α → Prop) : σ → List (Fired σ α) → σ → Prop
  | start (s : σ) : Nested step segment opens closes s [] s
  | extend {s t next : σ} {history more : List (Fired σ α)}
      (prior : Nested step segment opens closes s history t) (hmore : segment t more next) :
      Nested step segment opens closes s (history ++ more) next
  | enclose {s t entered last next : σ} {history inner : List (Fired σ α)} {first final : α}
      (prior : Nested step segment opens closes s history t) (hfirst : opens t first entered)
      (hopen : step t first = some entered)
      (body : Nested step segment opens closes entered inner last) (hfinal : closes final)
      (hclose : step last final = some next) :
      Nested step segment opens closes s
        (history ++ (⟨t, first, entered⟩ :: (inner ++ [⟨last, final, next⟩]))) next

variable {step : σ → α → Option σ} {segment : σ → List (Fired σ α) → σ → Prop}
  {opens : σ → α → σ → Prop} {closes : α → Prop} {s last : σ} {history : List (Fired σ α)}

theorem Nested.run (hsegment : ∀ s more next, segment s more next → Run step s more next)
    (hnested : Nested step segment opens closes s history last) : Run step s history last := by
  induction hnested with
  | start s => exact .start s
  | extend prior hmore ih => exact ih.append (hsegment _ _ _ hmore)
  | enclose prior hfirst hopen body hfinal hclose ih ihBody =>
      exact ih.append (.cons hopen (ihBody.append (.single hclose)))

/-- The rule for a relation between the ends of a run, when every step meets a condition. -/
theorem Nested.kept (kept : σ → σ → Prop) (allowed : σ → α → Prop) (hrefl : ∀ s, kept s s)
    (htrans : ∀ s t u, kept s t → kept t u → kept s u)
    (hsegment : ∀ s more next, segment s more next →
      (∀ fired ∈ more, allowed fired.pre fired.event) → kept s next)
    (hpair : ∀ s first entered last final next, opens s first entered → allowed s first →
      kept entered last → closes final → allowed last final → step last final = some next →
      kept s next)
    (hnested : Nested step segment opens closes s history last)
    (hallowed : ∀ fired ∈ history, allowed fired.pre fired.event) : kept s last := by
  induction hnested with
  | start s => exact hrefl s
  | @extend s t next history more prior hmore ih =>
      have hprior := ih fun fired hmem => hallowed fired (List.mem_append_left _ hmem)
      have hlast := hsegment t more next hmore
        fun fired hmem => hallowed fired (List.mem_append_right _ hmem)
      exact htrans s t next hprior hlast
  | @enclose s t entered last next history inner first final prior hfirst hopen body hfinal hclose
      ih ihBody =>
      simp only [List.mem_append, List.mem_cons, List.not_mem_nil, or_false] at hallowed
      have hprior := ih fun fired hmem => hallowed fired (.inl hmem)
      have hbody := ihBody fun fired hmem => hallowed fired (.inr (.inr (.inl hmem)))
      have hlast := hpair t first entered last final next hfirst
        (hallowed _ (.inr (.inl rfl))) hbody hfinal (hallowed _ (.inr (.inr (.inr rfl)))) hclose
      exact htrans s t next hprior hlast

end Transition
