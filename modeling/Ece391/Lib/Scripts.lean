import Ece391.Lib.Sessions

/-! # Scripts

A client that makes finitely many calls is a tree: a value, or a call with what follows each
reply. Scripts are put together like statements, and so are their pre- and postconditions.
These speak about a view of what has happened; all that is known of the service is which calls
may be made in a view, and what may be replied.
-/

namespace Scripts

open Transition Sessions

universe u v

inductive Script (Call Reply Value : Type u) where
  | done (value : Value)
  | call (call : Call) (rest : Reply → Script Call Reply Value)

/-- The calls that may be made, and how they may be replied to. -/
structure Rules (View : Type v) (Call Reply : Type u) where
  may : View → Call → Prop
  replies : View → Call → Reply → View → Prop

namespace Script

variable {Call Reply α β ι : Type u} {View : Type v}

def bind : Script Call Reply α → (α → Script Call Reply β) → Script Call Reply β
  | done value, next => next value
  | call c rest, next => call c fun reply => (rest reply).bind next

instance : Monad (Script Call Reply) where
  pure := done
  bind := bind

/-- One call. -/
def ask (c : Call) : Script Call Reply Reply := call c done

/-- A call whose reply is not looked at. -/
def tell (c : Call) : Script Call Reply PUnit := call c fun _ => done ⟨⟩

/-- Every call that the script can come to. -/
def Asks (p : Call → Prop) : Script Call Reply α → Prop
  | done _ => True
  | call c rest => p c ∧ ∀ reply, (rest reply).Asks p

section Asks

variable {p : Call → Prop} {s : Script Call Reply α}

theorem Asks.done (value : α) : (pure value : Script Call Reply α).Asks p := trivial

theorem Asks.bind {next : α → Script Call Reply β} (hs : s.Asks p)
    (hnext : ∀ value, (next value).Asks p) : (s >>= next).Asks p := by
  induction s with
  | done value => exact hnext value
  | call c rest ih => exact ⟨hs.1, fun reply => ih reply (hs.2 reply)⟩

theorem Asks.ask {c : Call} (hc : p c) : (ask c : Script Call Reply Reply).Asks p :=
  ⟨hc, fun _ => trivial⟩

theorem Asks.tell {c : Call} (hc : p c) : (tell c : Script Call Reply PUnit).Asks p :=
  ⟨hc, fun _ => trivial⟩

theorem Asks.ite {c : Prop} [Decidable c] {otherwise : Script Call Reply α} (hs : s.Asks p)
    (hotherwise : otherwise.Asks p) : (if c then s else otherwise).Asks p := by
  split
  · exact hs
  · exact hotherwise

theorem Asks.foldlM {body : β → ι → Script Call Reply β} (hbody : ∀ acc i, (body acc i).Asks p)
    (rounds : List ι) (acc : β) : (rounds.foldlM body acc).Asks p := by
  induction rounds generalizing acc with
  | nil => trivial
  | cons i rest ih =>
      rw [List.foldlM_cons]
      exact (hbody acc i).bind ih

end Asks

/-- Scripts as a client. Its positions are what is left of them. -/
def client (p : Call → Prop) : Client { s : Script Call Reply α // s.Asks p } Call Reply α where
  next
    | ⟨done value, _⟩ => .inr value
    | ⟨call c _, _⟩ => .inl c
  resume
    | ⟨done value, hs⟩, _ => ⟨done value, hs⟩
    | ⟨call _ rest, hs⟩, reply => ⟨rest reply, hs.2 reply⟩

/-- What the client calls is what its script asks for. -/
theorem client_next {p : Call → Prop} {pos : { s : Script Call Reply α // s.Asks p }} {c : Call}
    (hnext : (client p).next pos = .inl c) :
    p c ∧ ∃ rest, pos.1 = call c rest ∧ ∀ reply, ((client p).resume pos reply).1 = rest reply := by
  obtain ⟨s, hs⟩ := pos
  cases s with
  | done value => cases hnext
  | call c' rest =>
      obtain rfl := Sum.inl.inj hnext
      exact ⟨hs.1, rest, rfl, fun _ => rfl⟩

/-! ## Pre- and postconditions -/

/-- From a view the script keeps to the rules and reaches `post`, whatever is replied. -/
def Ensures (rules : Rules View Call Reply) (post : α → View → Prop) :
    Script Call Reply α → View → Prop
  | done value, view => post value view
  | call c rest, view => rules.may view c ∧
      ∀ reply next, rules.replies view c reply next → (rest reply).Ensures rules post next

section Ensures

variable {rules : Rules View Call Reply} {s : Script Call Reply α} {view : View}

theorem Ensures.mono {post weaker : α → View → Prop} (hs : s.Ensures rules post view)
    (hweaker : ∀ value view, post value view → weaker value view) :
    s.Ensures rules weaker view := by
  induction s generalizing view with
  | done value => exact hweaker value view hs
  | call c rest ih => exact ⟨hs.1, fun reply next hreply => ih reply (hs.2 reply next hreply)⟩

/-- The rule for what is done one after the other. -/
theorem Ensures.bind {between : α → View → Prop} (hs : s.Ensures rules between view)
    {next : α → Script Call Reply β} {post : β → View → Prop}
    (hnext : ∀ value view, between value view → (next value).Ensures rules post view) :
    (s >>= next).Ensures rules post view := by
  induction s generalizing view with
  | done value => exact hnext value view hs
  | call c rest ih => exact ⟨hs.1, fun reply next hreply => ih reply (hs.2 reply next hreply)⟩

/-- The rule for a call. -/
theorem Ensures.ask {c : Call} {post : Reply → View → Prop} (hmay : rules.may view c)
    (hpost : ∀ reply next, rules.replies view c reply next → post reply next) :
    (ask c).Ensures rules post view := ⟨hmay, hpost⟩

theorem Ensures.tell {c : Call} {post : PUnit → View → Prop} (hmay : rules.may view c)
    (hpost : ∀ reply next, rules.replies view c reply next → post ⟨⟩ next) :
    (tell c).Ensures rules post view := ⟨hmay, hpost⟩

/-- The rule for a loop. The invariant speaks about the rounds that are left. -/
theorem Ensures.foldlM {body : β → ι → Script Call Reply β} {rounds : List ι} {acc : β}
    (inv : List ι → β → View → Prop)
    (hround : ∀ i rest acc view, inv (i :: rest) acc view →
      (body acc i).Ensures rules (inv rest) view)
    (hstart : inv rounds acc view) : (rounds.foldlM body acc).Ensures rules (inv []) view := by
  induction rounds generalizing acc view with
  | nil => exact hstart
  | cons i rest ih =>
      rw [List.foldlM_cons]
      exact (hround i rest acc view hstart).bind fun _ _ hrest => ih hrest

/-- Where every call that may be made is replied to, the end can be reached. -/
theorem Ensures.reaches {post : α → View → Prop} (hs : s.Ensures rules post view)
    (good : View → Prop) (before : View → View → Prop)
    (hrefl : ∀ view, before view view)
    (htrans : ∀ first second third, before first second → before second third → before first third)
    (hreplies : ∀ view c, good view → rules.may view c →
      ∃ reply next, rules.replies view c reply next ∧ before view next ∧ good next)
    (hgood : good view) :
    ∃ value last, post value last ∧ before view last := by
  induction s generalizing view with
  | done value => exact ⟨value, view, hs, hrefl view⟩
  | call c rest ih =>
      obtain ⟨reply, next, hreply, hfirst, hnext⟩ := hreplies view c hgood hs.1
      obtain ⟨value, last, hpost, hlast⟩ := ih reply (hs.2 reply next hreply) hnext
      exact ⟨value, last, hpost, htrans view next last hfirst hlast⟩

/-- Where the service answers at once every call that may be made, the client comes to its end
by its own moves. -/
theorem Ensures.ends {σ Event : Type u} (service : Service σ Call Reply Event) {p : Call → Prop}
    {post : α → View → Prop} (sees : σ → List (Call × Reply) → View)
    (good : σ → List (Call × Reply) → Prop)
    (hserve : ∀ state answered c, good state answered → rules.may (sees state answered) c →
      service.turn state ∧ ∃ reply after, service.serve state c = some (some reply, after) ∧
        rules.replies (sees state answered) c reply (sees after (answered ++ [(c, reply)])) ∧
        good after (answered ++ [(c, reply)]))
    {state : σ} {answered : List (Call × Reply)} (hasks : s.Asks p)
    (hs : s.Ensures rules post (sees state answered)) (hgood : good state answered) :
    ∃ history last value, Run (Session.step (client p) service) ⟨state, ⟨s, hasks⟩, answered⟩
        history last ∧
      (∀ fired ∈ history, fired.event = .own ∧ good fired.pre.state fired.pre.answered) ∧
      last.pos.1 = done value ∧ post value (sees last.state last.answered) := by
  induction s generalizing state answered with
  | done value => exact ⟨[], _, value, .start _, by simp, rfl, hs⟩
  | call c rest ih =>
      obtain ⟨hturn, reply, after, hserved, hreply, hafter⟩ := hserve state answered c hgood hs.1
      obtain ⟨history, last, value, hrun, hown, hlast⟩ :=
        ih reply (hasks.2 reply) (hs.2 reply _ hreply) hafter
      -- one move of its own, then those of what is left
      have hstep : Session.step (client p) service ⟨state, ⟨call c rest, hasks⟩, answered⟩ .own =
          some ⟨after, ⟨rest reply, hasks.2 reply⟩, answered ++ [(c, reply)]⟩ :=
        Session.own_eq_some.mpr ⟨c, some reply, after, rfl, hturn, hserved, rfl⟩
      refine ⟨_, last, value, .cons hstep hrun, fun fired hmem => ?_, hlast⟩
      rcases List.mem_cons.mp hmem with rfl | hmem
      · exact ⟨rfl, hgood⟩
      · exact hown fired hmem

end Ensures

end Script

end Scripts
