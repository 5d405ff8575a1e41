import Ece391.Lib.Transition
import Mathlib.Logic.Function.Basic

/-! # A mailbox with one place

A letter put into the mailbox replaces the one that lies in it, and a letter can be
taken only while it lies there. Hence every letter that is taken was put before, and
no letter is taken twice.
-/

namespace Mailbox

open Function Transition

universe u

variable {κ : Type u}

/-- What an event of another system does to the mailbox. -/
inductive Mark (κ : Type u) where
  | put (letter : κ)
  | take (letter : κ)
  | skip

def step [DecidableEq κ] (box : Option κ) : Mark κ → Option (Option κ)
  | .put letter => some (some letter)
  | .take letter => if box = some letter then some none else none
  | .skip => some box

/-- Every letter taken at a position was put at an earlier one, by which it is given. -/
def Sources (marks : List (Mark κ)) (source : Nat → Nat) : Prop :=
  ∀ position letter, marks[position]? = some (.take letter) →
    source position < position ∧ marks[source position]? = some (.put letter)

/-- No letter is taken twice. -/
def Distinct (marks : List (Mark κ)) (source : Nat → Nat) : Prop :=
  ∀ first second one other, marks[first]? = some (.take one) →
    marks[second]? = some (.take other) → source first = source second → first = second

theorem getElem?_snoc {marks : List (Mark κ)} {mark found : Mark κ} {position : Nat}
    (hfound : (marks ++ [mark])[position]? = some found) :
    marks[position]? = some found ∨ position = marks.length ∧ found = mark := by
  rcases Nat.lt_trichotomy position marks.length with hlt | heq | hgt
  · rw [List.getElem?_append_left hlt] at hfound
    exact .inl hfound
  · subst heq
    rw [List.getElem?_concat_length] at hfound
    exact .inr ⟨rfl, (Option.some.inj hfound).symm⟩
  · rw [List.getElem?_eq_none (by simp; omega)] at hfound
    simp at hfound

theorem getElem?_snoc_old {marks : List (Mark κ)} {mark found : Mark κ} {position : Nat}
    (hfound : marks[position]? = some found) : (marks ++ [mark])[position]? = some found := by
  rw [List.getElem?_append_left (List.getElem?_eq_some_iff.mp hfound).choose, hfound]

/-- The sources of a longer history, when the last mark takes nothing. -/
theorem Sources.snoc {marks : List (Mark κ)} {mark : Mark κ} {source : Nat → Nat}
    (hsources : Sources marks source) (hdistinct : Distinct marks source)
    (hmark : ∀ letter, mark ≠ .take letter) :
    Sources (marks ++ [mark]) source ∧ Distinct (marks ++ [mark]) source := by
  have hold : ∀ {position : Nat} {letter : κ}, (marks ++ [mark])[position]? = some (.take letter) →
      marks[position]? = some (.take letter) := by
    intro position letter hfound
    rcases getElem?_snoc hfound with hfound | ⟨-, hlast⟩
    · exact hfound
    · exact absurd hlast.symm (hmark letter)
  constructor
  · intro position letter htake
    obtain ⟨hlt, hput⟩ := hsources position letter (hold htake)
    exact ⟨hlt, getElem?_snoc_old hput⟩
  · intro first second one other hfirst hsecond
    exact hdistinct first second one other (hold hfirst) (hold hsecond)

/-- The sources while the letter that lies in the mailbox has not been taken. -/
structure Matched (marks : List (Mark κ)) (box : Option κ) (source : Nat → Nat) : Prop where
  sources : Sources marks source
  distinct : Distinct marks source
  unread : ∀ letter, box = some letter → ∃ position, marks[position]? = some (.put letter) ∧
    ∀ taken other, marks[taken]? = some (.take other) → source taken ≠ position

theorem Matched.put {marks : List (Mark κ)} {box : Option κ} {source : Nat → Nat}
    (hmatched : Matched marks box source) (letter : κ) :
    Matched (marks ++ [.put letter]) (some letter) source := by
  obtain ⟨hsources, hdistinct⟩ := Sources.snoc hmatched.sources hmatched.distinct
    (fun last => (by simp : (Mark.put letter : Mark κ) ≠ .take last))
  refine ⟨hsources, hdistinct, fun last hlast => ⟨marks.length, ?_, ?_⟩⟩
  · rw [List.getElem?_concat_length, Option.some.inj hlast]
  · intro taken other htaken
    rcases getElem?_snoc htaken with htaken | ⟨-, hmark⟩
    · have hbefore := (List.getElem?_eq_some_iff.mp htaken).choose
      have := (hmatched.sources taken other htaken).1
      omega
    · simp at hmark

theorem Matched.skip {marks : List (Mark κ)} {box : Option κ} {source : Nat → Nat}
    (hmatched : Matched marks box source) : Matched (marks ++ [.skip]) box source := by
  obtain ⟨hsources, hdistinct⟩ := Sources.snoc hmatched.sources hmatched.distinct
    (fun letter => (by simp : (Mark.skip : Mark κ) ≠ .take letter))
  refine ⟨hsources, hdistinct, fun letter hletter => ?_⟩
  obtain ⟨position, hput, huntaken⟩ := hmatched.unread letter hletter
  refine ⟨position, getElem?_snoc_old hput, fun taken other htaken => ?_⟩
  rcases getElem?_snoc htaken with htaken | ⟨-, hmark⟩
  · exact huntaken taken other htaken
  · simp at hmark

theorem Matched.take {marks : List (Mark κ)} {letter : κ} {source : Nat → Nat}
    (hmatched : Matched marks (some letter) source) :
    ∃ source', Matched (marks ++ [.take letter]) none source' := by
  obtain ⟨position, hput, huntaken⟩ := hmatched.unread letter rfl
  have hbefore := (List.getElem?_eq_some_iff.mp hput).choose
  have hold : ∀ {taken : Nat} {other : κ}, marks[taken]? = some (.take other) →
      update source marks.length position taken = source taken := by
    intro taken other htaken
    exact update_of_ne (Nat.ne_of_lt (List.getElem?_eq_some_iff.mp htaken).choose) _ _
  refine ⟨update source marks.length position, ?_, ?_, by simp⟩
  · intro taken other htaken
    rcases getElem?_snoc htaken with htaken | ⟨rfl, hmark⟩
    · obtain ⟨hlt, hsource⟩ := hmatched.sources taken other htaken
      rw [hold htaken]
      exact ⟨hlt, getElem?_snoc_old hsource⟩
    · cases hmark
      rw [update_self]
      exact ⟨hbefore, getElem?_snoc_old hput⟩
  · intro first second one other hfirst hsecond
    rcases getElem?_snoc hfirst with hfirst | ⟨rfl, -⟩ <;>
      rcases getElem?_snoc hsecond with hsecond | ⟨rfl, -⟩
    · rw [hold hfirst, hold hsecond]
      exact hmatched.distinct first second one other hfirst hsecond
    · rw [hold hfirst, update_self]
      exact fun heq => absurd heq (huntaken first one hfirst)
    · rw [hold hsecond, update_self]
      exact fun heq => absurd heq.symm (huntaken second other hsecond)
    · exact fun _ => rfl

/-- In every run from the empty mailbox the letters that are taken are those put before,
each at most once. -/
theorem run_matched [DecidableEq κ] {history : List (Fired (Option κ) (Mark κ))} {box : Option κ}
    (hrun : Run step none history box) :
    ∃ source, Sources (history.map Fired.event) source ∧
      Distinct (history.map Fired.event) source := by
  suffices hmatched : ∃ source, Matched (history.map Fired.event) box source by
    obtain ⟨source, hmatched⟩ := hmatched
    exact ⟨source, hmatched.sources, hmatched.distinct⟩
  induction hrun with
  | start =>
      exact ⟨id, by simp [Sources], by simp [Distinct], by simp⟩
  | @extend t next history mark prior hstep ih =>
      obtain ⟨source, hmatched⟩ := ih
      rw [List.map_append, List.map_singleton]
      cases mark with
      | put letter =>
          obtain rfl := Option.some.inj hstep
          exact ⟨source, hmatched.put letter⟩
      | take letter =>
          simp only [step, Option.ite_none_right_eq_some] at hstep
          obtain ⟨rfl, hnext⟩ := hstep
          obtain rfl := Option.some.inj hnext
          exact hmatched.take
      | skip =>
          obtain rfl := Option.some.inj hstep
          exact ⟨source, hmatched.skip⟩

end Mailbox
