import Ece391.Lib.Transition

/-! # Programs that call a service

Between two calls a program only computes, so it is given by the call it makes at each of its
positions and by where a reply takes it. It shares the service with others: what happens
beside it leaves it where it is, unless an event of the others answers the call it waits for.
-/

namespace Sessions

open Transition

universe u

/-- A program by its positions; at the end there is a value and no call. -/
structure Client (Pos Call Reply Value : Type u) where
  next : Pos → Call ⊕ Value
  resume : Pos → Reply → Pos

/-- What serves the calls. A call without a reply waits, and is made again or answered by an
event beside it. -/
structure Service (σ Call Reply Event : Type u) where
  serve : σ → Call → Option (Option Reply × σ)
  step : σ → Event → Option σ
  /-- The client is the one that runs. -/
  turn : σ → Bool
  beside : σ → Event → Bool
  deliver : σ → Event → σ → Option Reply

/-- A client in the course of its calls, with those that were answered. -/
structure Session (σ Pos Call Reply : Type u) where
  state : σ
  pos : Pos
  answered : List (Call × Reply)

/-- Either the client makes its next call or something happens beside it. -/
inductive ClientMove (Event : Type u) where
  | own
  | other (event : Event)

variable {σ Pos Call Reply Value Event : Type u}

/-- A session after a call that was answered, or was not. -/
def Session.answer (client : Client Pos Call Reply Value) (s : Session σ Pos Call Reply)
    (call : Call) : Option Reply → σ → Session σ Pos Call Reply
  | some reply, state => ⟨state, client.resume s.pos reply, s.answered ++ [(call, reply)]⟩
  | none, state => { s with state := state }

/-- A reply that an event brings is one to the call that waits. -/
def Session.step (client : Client Pos Call Reply Value) (service : Service σ Call Reply Event)
    (s : Session σ Pos Call Reply) : ClientMove Event → Option (Session σ Pos Call Reply)
  | .own =>
      match client.next s.pos with
      | .inr _ => none
      | .inl call =>
          if service.turn s.state then
            (service.serve s.state call).map fun (reply, state) => s.answer client call reply state
          else none
  | .other event =>
      if service.beside s.state event then
        (service.step s.state event).map fun state =>
          match client.next s.pos with
          | .inr _ => { s with state := state }
          | .inl call => s.answer client call (service.deliver s.state event state) state
      else none

variable {client : Client Pos Call Reply Value} {service : Service σ Call Reply Event}
  {s last : Session σ Pos Call Reply}

/-- What an own move does. -/
theorem Session.own_eq_some {next : Session σ Pos Call Reply} :
    s.step client service .own = some next ↔
      ∃ call reply state, client.next s.pos = .inl call ∧ service.turn s.state ∧
        service.serve s.state call = some (reply, state) ∧
        next = s.answer client call reply state := by
  unfold Session.step
  cases client.next s.pos with
  | inr value => simp
  | inl call =>
      by_cases hturn : service.turn s.state
      · simp only [if_pos hturn, Option.map_eq_some_iff, Prod.exists, Sum.inl.injEq]
        constructor
        · rintro ⟨reply, state, hserve, rfl⟩
          exact ⟨call, reply, state, rfl, hturn, hserve, rfl⟩
        · rintro ⟨_, reply, state, rfl, -, hserve, rfl⟩
          exact ⟨reply, state, hserve, rfl⟩
      · simp [hturn]

/-- What happens beside a client that does not wait leaves it where it is. -/
theorem Session.other_eq_some {next : Session σ Pos Call Reply} {event : Event}
    (hstep : s.step client service (.other event) = some next) :
    ∃ state, service.beside s.state event ∧ service.step s.state event = some state ∧
      ((∃ call reply, client.next s.pos = .inl call ∧
          service.deliver s.state event state = some reply ∧
          next = s.answer client call (some reply) state) ∨
        ((∀ call, client.next s.pos = .inl call → service.deliver s.state event state = none) ∧
          next = { s with state := state })) := by
  unfold Session.step at hstep
  dsimp only at hstep
  split at hstep
  · next hbeside =>
    obtain ⟨state, hevent, rfl⟩ := Option.map_eq_some_iff.mp hstep
    refine ⟨state, hbeside, hevent, ?_⟩
    cases hnext : client.next s.pos with
    | inr value => exact .inr ⟨by simp, rfl⟩
    | inl call =>
        cases hdeliver : service.deliver s.state event state with
        | none => exact .inr ⟨fun _ _ => rfl, rfl⟩
        | some reply => exact .inl ⟨call, reply, rfl, rfl, rfl⟩
  · cases hstep

theorem Session.other_silent {event : Event} {state : σ} (hbeside : service.beside s.state event)
    (hstep : service.step s.state event = some state)
    (hsilent : service.deliver s.state event state = none) :
    s.step client service (.other event) = some { s with state := state } := by
  unfold Session.step
  dsimp only
  rw [if_pos hbeside, hstep, Option.map_some, hsilent]
  cases client.next s.pos <;> rfl

theorem Session.other_answers {event : Event} {state : σ} {call : Call} {reply : Reply}
    (hbeside : service.beside s.state event) (hstep : service.step s.state event = some state)
    (hnext : client.next s.pos = .inl call)
    (hdeliver : service.deliver s.state event state = some reply) :
    s.step client service (.other event) = some (s.answer client call (some reply) state) := by
  unfold Session.step
  dsimp only
  rw [if_pos hbeside, hstep, Option.map_some, hnext]
  dsimp only
  rw [hdeliver]

/-- The rule for a client: what holds at the start, and after each reply and everything that
happens in between, holds throughout. -/
theorem Session.invariant {history : List (Fired (Session σ Pos Call Reply) (ClientMove Event))}
    (hrun : Run (Session.step client service) s history last)
    (holds : σ → Pos → List (Call × Reply) → Prop) (allowed : σ → ClientMove Event → Prop)
    (hallowed : ∀ fired ∈ history, allowed fired.pre.state fired.event)
    (hown : ∀ state pos answered call reply after, holds state pos answered →
      allowed state .own → client.next pos = .inl call → service.turn state →
      service.serve state call = some (reply, after) →
      match reply with
      | some reply => holds after (client.resume pos reply) (answered ++ [(call, reply)])
      | none => holds after pos answered)
    (hother : ∀ state pos answered event after, holds state pos answered →
      allowed state (.other event) → service.beside state event →
      service.step state event = some after →
      match client.next pos, service.deliver state event after with
      | .inl call, some reply => holds after (client.resume pos reply) (answered ++ [(call, reply)])
      | _, _ => holds after pos answered)
    (hstart : holds s.state s.pos s.answered) : holds last.state last.pos last.answered := by
  refine hrun.invariant_of_allowed (fun s => holds s.state s.pos s.answered)
    (fun s move => allowed s.state move) ?_ hallowed hstart
  intro s move next hs hmove hstep
  cases move with
  | own =>
      obtain ⟨call, reply, state, hnext, hturn, hserve, rfl⟩ := Session.own_eq_some.mp hstep
      have hafter := hown _ _ _ _ _ _ hs hmove hnext hturn hserve
      cases reply with
      | some reply => exact hafter
      | none => exact hafter
  | other event =>
      obtain ⟨state, hbeside, hevent, hcases⟩ := Session.other_eq_some hstep
      have hafter := hother _ _ _ _ _ hs hmove hbeside hevent
      rcases hcases with ⟨call, reply, hnext, hdeliver, rfl⟩ | ⟨hnone, rfl⟩
      · rw [hnext, hdeliver] at hafter
        exact hafter
      · cases hnext : client.next s.pos with
        | inr value =>
            rw [hnext] at hafter
            exact hafter
        | inl call =>
            rw [hnext, hnone call hnext] at hafter
            exact hafter

/-- A client whose calls are always answered, and answered a bounded number of times, comes to
its end when nothing happens beside it. -/
theorem Session.completes (holds : Session σ Pos Call Reply → Prop) (bound : Nat)
    (hbound : ∀ s, holds s → s.answered.length ≤ bound)
    (hnext : ∀ s, holds s → (∃ value, client.next s.pos = .inr value) ∨
      ∃ next, s.step client service .own = some next ∧ holds next ∧
        next.answered.length = s.answered.length + 1)
    (hstart : holds s) :
    ∃ history last value, Run (Session.step client service) s history last ∧
      (∀ fired ∈ history, fired.event = .own ∧ holds fired.pre) ∧ holds last ∧
      client.next last.pos = .inr value := by
  generalize hleft : bound - s.answered.length = left
  induction left generalizing s with
  | zero =>
      rcases hnext s hstart with ⟨value, hvalue⟩ | ⟨next, -, hholds, hlength⟩
      · exact ⟨[], s, value, .start s, by simp, hstart, hvalue⟩
      · have hle := hbound next hholds
        omega
  | succ left ih =>
      rcases hnext s hstart with ⟨value, hvalue⟩ | ⟨next, hstep, hholds, hlength⟩
      · exact ⟨[], s, value, .start s, by simp, hstart, hvalue⟩
      · obtain ⟨history, last, value, hrun, hown, hlast, hvalue⟩ := ih hholds (by omega)
        refine ⟨_, last, value, .cons hstep hrun, ?_, hlast, hvalue⟩
        intro fired hmem
        rcases List.mem_cons.mp hmem with rfl | hmem
        · exact ⟨rfl, hstart⟩
        · exact hown fired hmem

/-- What was answered stays answered. -/
theorem Session.answered_prefix
    {history : List (Fired (Session σ Pos Call Reply) (ClientMove Event))}
    (hrun : Run (Session.step client service) s history last) : s.answered <+: last.answered := by
  refine hrun.invariant (fun t => s.answered <+: t.answered) ?_ (List.prefix_refl _)
  intro t move next ht hstep
  have hanswer : ∀ (call : Call) (reply : Option Reply) (state : σ),
      s.answered <+: (t.answer client call reply state).answered := by
    intro call reply state
    cases reply with
    | none => exact ht
    | some reply => exact ht.trans (List.prefix_append _ _)
  cases move with
  | own =>
      obtain ⟨call, reply, state, -, -, -, rfl⟩ := Session.own_eq_some.mp hstep
      exact hanswer call reply state
  | other event =>
      obtain ⟨state, -, -, hcases⟩ := Session.other_eq_some hstep
      rcases hcases with ⟨call, reply, -, -, rfl⟩ | ⟨-, rfl⟩
      · exact hanswer call (some reply) state
      · exact ht

/-! ## Traces -/

/-- The answered calls of a client that has come from `start` to a position. -/
inductive Client.Trace (client : Client Pos Call Reply Value) (start : Pos) :
    List (Call × Reply) → Pos → Prop
  | start : client.Trace start [] start
  | snoc {answered : List (Call × Reply)} {pos : Pos} {call : Call} {reply : Reply}
      (prior : client.Trace start answered pos) (hnext : client.next pos = .inl call) :
      client.Trace start (answered ++ [(call, reply)]) (client.resume pos reply)

/-- The answered calls of a session are a trace, whatever happened beside the client. -/
theorem Session.trace {history : List (Fired (Session σ Pos Call Reply) (ClientMove Event))}
    (hrun : Run (Session.step client service) s history last) (hnew : s.answered = []) :
    client.Trace s.pos last.answered last.pos := by
  refine hrun.invariant (fun t => client.Trace s.pos t.answered t.pos) ?_ (hnew ▸ .start)
  intro t move next ht hstep
  have hanswer : ∀ {call : Call} (reply : Option Reply) (state : σ),
      client.next t.pos = .inl call → client.Trace s.pos (t.answer client call reply state).answered
        (t.answer client call reply state).pos := by
    intro call reply state hnext
    cases reply with
    | none => exact ht
    | some reply => exact ht.snoc hnext
  cases move with
  | own =>
      obtain ⟨call, reply, state, hnext, -, -, rfl⟩ := Session.own_eq_some.mp hstep
      exact hanswer reply state hnext
  | other event =>
      obtain ⟨state, -, -, hcases⟩ := Session.other_eq_some hstep
      rcases hcases with ⟨call, reply, hnext, -, rfl⟩ | ⟨-, rfl⟩
      · exact hanswer (some reply) state hnext
      · exact ht

end Sessions
