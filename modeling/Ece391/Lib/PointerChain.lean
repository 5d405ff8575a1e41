import Mathlib.Data.List.Nodup

/-! # Chains of nodes linked by a pointer

`Follows next head nodes` says that walking `next` from `head` visits exactly
`nodes` and then ends. Such a walk is unique and never meets a node twice;
pushing a node in front of a chain and dropping its first node are the only
changes a stack of nodes makes.
-/

namespace PointerChain

universe u

variable {α : Type u} (next : α → Option α)

/-- The walk along `next` from `head` visits `nodes` in order and then ends. -/
def Follows : Option α → List α → Prop
  | head, [] => head = none
  | head, node :: rest => head = some node ∧ Follows (next node) rest

variable {next}

@[simp] theorem follows_nil {head : Option α} : Follows next head [] ↔ head = none := Iff.rfl

@[simp] theorem follows_cons {head : Option α} {node : α} {rest : List α} :
    Follows next head (node :: rest) ↔ head = some node ∧ Follows next (next node) rest := Iff.rfl

theorem Follows.unique {head : Option α} {first second : List α}
    (hfirst : Follows next head first) (hsecond : Follows next head second) : first = second := by
  induction first generalizing head second with
  | nil =>
      cases second with
      | nil => rfl
      | cons node rest => simp_all
  | cons node rest ih =>
      cases second with
      | nil => simp_all
      | cons other tail =>
          obtain ⟨hhead, hrest⟩ := hfirst
          obtain ⟨hother, htail⟩ := hsecond
          obtain rfl : node = other := Option.some.inj (hhead.symm.trans hother)
          rw [ih hrest htail]

/-- Every node of a chain starts a chain of its own, no longer than the whole. -/
theorem Follows.from_mem {head : Option α} {nodes : List α} (hchain : Follows next head nodes)
    {node : α} (hmem : node ∈ nodes) :
    ∃ rest, Follows next (some node) (node :: rest) ∧ rest.length < nodes.length := by
  induction nodes generalizing head with
  | nil => simp at hmem
  | cons first rest ih =>
      obtain ⟨hhead, hrest⟩ := hchain
      rcases List.mem_cons.mp hmem with rfl | hmem
      · exact ⟨rest, ⟨rfl, hrest⟩, by simp⟩
      · obtain ⟨tail, htail, hlength⟩ := ih hrest hmem
        exact ⟨tail, htail, by simp only [List.length_cons]; omega⟩

/-- A walk that ends never repeats a node: a repetition would make the walk
from that node strictly longer than itself. -/
theorem Follows.nodup {head : Option α} {nodes : List α} (hchain : Follows next head nodes) :
    nodes.Nodup := by
  induction nodes generalizing head with
  | nil => exact List.nodup_nil
  | cons node rest ih =>
      obtain ⟨_, hrest⟩ := hchain
      refine List.nodup_cons.mpr ⟨?_, ih hrest⟩
      intro hmem
      obtain ⟨tail, htail, hlength⟩ := hrest.from_mem hmem
      rw [htail.2.unique hrest] at hlength
      exact Nat.lt_irrefl _ hlength

/-- A chain depends only on the links of its own nodes. -/
theorem Follows.congr {other : α → Option α} {head : Option α} {nodes : List α}
    (hchain : Follows next head nodes) (hsame : ∀ node ∈ nodes, other node = next node) :
    Follows other head nodes := by
  induction nodes generalizing head with
  | nil => exact hchain
  | cons node rest ih =>
      obtain ⟨hhead, hrest⟩ := hchain
      refine ⟨hhead, ?_⟩
      rw [hsame node List.mem_cons_self]
      exact ih hrest fun other hmem => hsame other (List.mem_cons_of_mem _ hmem)

theorem Follows.push {head : Option α} {nodes : List α} {node : α}
    (hchain : Follows next head nodes) (hlink : next node = head) :
    Follows next (some node) (node :: nodes) := by
  refine ⟨rfl, ?_⟩
  rwa [hlink]

end PointerChain
