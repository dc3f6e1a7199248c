import SplitTraversal.Conformance.Bus

/-! What becomes of an event whose handlers leave the subscriptions alone. Every handler of its kind
and then every handler of all kinds is called once, in the order in which the subscriptions began,
whatever the handlers before it throw. -/

namespace SplitTraversal
namespace Bus

/-- Subscriptions in order of beginning, all of them begun, and none taken twice. -/
structure Orderly {κ η : Type} (subscriptions : List (Subscription κ η)) (clock : Nat) :
    Prop where
  ascending : subscriptions.Pairwise fun s t => s.since < t.since
  begun : ∀ s ∈ subscriptions, s.since < clock
  distinct : subscriptions.Pairwise fun s t => ¬(s.kind = t.kind ∧ s.handler = t.handler)

variable {κ η : Type}

namespace Orderly

variable {subscriptions : List (Subscription κ η)} {clock : Nat}

theorem nil (clock : Nat) : Orderly ([] : List (Subscription κ η)) clock :=
  ⟨.nil, fun _ none => (List.not_mem_nil none).elim, .nil⟩

theorem later (orderly : Orderly subscriptions clock) : Orderly subscriptions (clock + 1) :=
  ⟨orderly.ascending, fun s here => Nat.lt_succ_of_lt (orderly.begun s here), orderly.distinct⟩

variable [DecidableEq κ] [DecidableEq η]

theorem subscribe (orderly : Orderly subscriptions clock) (kind : κ) (handler : η) :
    Orderly (Bus.subscribe subscriptions kind handler clock) (clock + 1) := by
  unfold Bus.subscribe
  split
  · exact orderly.later
  · rename_i unknown
    have new : ∀ s ∈ subscriptions, ¬(s.kind = kind ∧ s.handler = handler) := by
      simpa using unknown
    refine ⟨List.pairwise_append.mpr ⟨orderly.ascending, List.pairwise_singleton _ _, ?_⟩, ?_,
      List.pairwise_append.mpr ⟨orderly.distinct, List.pairwise_singleton _ _, ?_⟩⟩
    · intro s here t last
      rw [List.mem_singleton.mp last]
      exact orderly.begun s here
    · refine List.forall_mem_append.mpr ⟨orderly.later.begun, ?_⟩
      intro s last
      rw [List.mem_singleton.mp last]
      exact Nat.lt_succ_self clock
    · intro s here t last
      rw [List.mem_singleton.mp last]
      exact new s here

theorem unsubscribe (orderly : Orderly subscriptions clock) (kind : κ) (handler : η) :
    Orderly (Bus.unsubscribe subscriptions kind handler) clock :=
  ⟨orderly.ascending.filter _, fun s here => orderly.begun s (List.mem_filter.mp here).1,
    orderly.distinct.filter _⟩

end Orderly

variable [DecidableEq κ] [DecidableEq η]

inductive Built : Bus κ η → Prop
  | empty : Built empty
  | on {b : Bus κ η} (built : Built b) (kind : κ) (handler : η) : Built (b.on kind handler)
  | off {b : Bus κ η} (built : Built b) (kind : κ) (handler : η) : Built (b.off kind handler)
  | onAny {b : Bus κ η} (built : Built b) (handler : η) : Built (b.onAny handler)
  | offAny {b : Bus κ η} (built : Built b) (handler : η) : Built (b.offAny handler)

theorem Built.orderly {b : Bus κ η} (built : b.Built) :
    Orderly b.typed b.clock ∧ Orderly b.wild b.clock := by
  induction built with
  | empty => exact ⟨.nil 0, .nil 0⟩
  | on _ kind handler ih => exact ⟨ih.1.subscribe kind handler, ih.2.later⟩
  | off _ kind handler ih => exact ⟨ih.1.unsubscribe kind handler, ih.2⟩
  | onAny _ handler ih => exact ⟨ih.1.later, ih.2.subscribe () handler⟩
  | offAny _ handler ih => exact ⟨ih.1, ih.2.unsubscribe () handler⟩

def listeners (kind : κ) (b : Bus κ η) : List η :=
  (b.typed.filter fun s => s.kind = kind).map Subscription.handler ++
    b.wild.map Subscription.handler

/-- A handler of all kinds is called once for each event, and once more if it is subscribed to the
kind of the event too. -/
theorem Built.listeners_wild {b : Bus κ η} (built : b.Built) {handler : η}
    (wild : handler ∈ b.wild.map Subscription.handler) (kind : κ) :
    (b.listeners kind).filter (· = handler) =
      if ∃ s ∈ b.typed, s.kind = kind ∧ s.handler = handler then [handler, handler]
      else [handler] := by
  have once : (b.wild.map Subscription.handler).Nodup := by
    rw [List.Nodup, List.pairwise_map]
    exact built.orderly.2.distinct.imp fun differ same => differ ⟨rfl, same⟩
  have single : ((b.typed.filter fun s => s.kind = kind).map Subscription.handler).Nodup := by
    rw [List.Nodup, List.pairwise_map]
    refine (built.orderly.1.distinct.filter _).imp_of_mem ?_
    intro s t first second differ same
    have first : s.kind = kind := by simpa using (List.mem_filter.mp first).2
    have second : t.kind = kind := by simpa using (List.mem_filter.mp second).2
    exact differ ⟨first.trans second.symm, same⟩
  have subscribed : handler ∈ (b.typed.filter fun s => s.kind = kind).map Subscription.handler ↔
      ∃ s ∈ b.typed, s.kind = kind ∧ s.handler = handler := by
    simp [and_assoc]
  rw [listeners, List.filter_eq, List.count_append, List.Nodup.count once, if_pos wild,
    List.Nodup.count single]
  simp only [subscribed]
  split <;> rfl

end Bus

namespace Audience

variable {κ η E β : Type}

/-- Handlers may throw but leave the subscriptions alone, and the error listener returns. -/
structure Quiet (audience : Audience κ η E β) : Prop where
  respond (handler : η) (event : E) (bus : Bus κ η) (m : β) :
    (Outcome.state (audience.respond handler event (bus, m))).1 = bus
  returns (thrown : Thrown) (event : E) (s : Bus κ η × β) :
    ∃ t, audience.onError thrown event s = .ok () t

/-- The error listener leaves the subscriptions alone too. -/
structure Considerate (audience : Audience κ η E β) : Prop where
  respond (handler : η) (event : E) (bus : Bus κ η) (m : β) :
    (Outcome.state (audience.respond handler event (bus, m))).1 = bus
  onError (thrown : Thrown) (event : E) (bus : Bus κ η) (m : β) :
    ∃ m', audience.onError thrown event (bus, m) = .ok () (bus, m')

variable (audience : Audience κ η E β) (bus : Bus κ η)

/-- What the audience remembers once these calls have been made, one after the other. -/
def heard (calls : List (η × E)) (m : β) : β :=
  calls.foldl (fun m call => (Outcome.state (audience.dispatch call.1 call.2 (bus, m))).2) m

@[simp] theorem heard_nil (m : β) : audience.heard bus [] m = m := rfl

theorem heard_append (first next : List (η × E)) (m : β) :
    audience.heard bus (first ++ next) m =
      audience.heard bus next (audience.heard bus first m) := List.foldl_append

namespace Considerate

variable {audience bus}

theorem dispatch_eq (considerate : audience.Considerate) (handler : η) (event : E) (m : β) :
    audience.dispatch handler event (bus, m) =
      .ok () (bus, audience.heard bus [(handler, event)] m) := by
  have kept := considerate.respond handler event bus m
  simp only [heard, List.foldl_cons, List.foldl_nil, dispatch]
  cases response : audience.respond handler event (bus, m) with
  | ok _ s =>
    rw [response] at kept
    exact congrArg (EStateM.Result.ok ()) (Prod.ext kept rfl)
  | error e s =>
    rw [response] at kept
    have kept : s.1 = bus := kept
    obtain ⟨m', taken⟩ := considerate.onError e event bus s.2
    have taken : audience.onError e event s = .ok () (bus, m') := by rw [← taken, ← kept]
    simp only [taken]
    rfl

theorem deliver_eq {κ' : Type} (considerate : audience.Considerate)
    {next : Nat → Bus κ η → Option (Subscription κ' η)} {subscriptions : List (Subscription κ' η)}
    (ascending : subscriptions.Pairwise fun s t => s.since < t.since) (event : E) (rounds : Nat)
    (moment : Nat) (found : ∀ n ≥ moment, next n bus = subscriptions.find? fun s => n ≤ s.since)
    (later : ∀ s ∈ subscriptions, moment ≤ s.since) (few : subscriptions.length < rounds) (m : β) :
    audience.deliver next event rounds moment (bus, m) =
      .ok () (bus, audience.heard bus
        ((subscriptions.map Subscription.handler).map (·, event)) m) := by
  induction subscriptions generalizing rounds moment m with
  | nil =>
    obtain ⟨rounds, rfl⟩ : ∃ n, rounds = n + 1 := ⟨rounds - 1, by simp at few; omega⟩
    simp only [deliver, found moment (Nat.le_refl _), List.find?_nil, List.map_nil, heard_nil]
  | cons first rest ih =>
    obtain ⟨rounds, rfl⟩ : ∃ n, rounds = n + 1 := ⟨rounds - 1, by simp at few; omega⟩
    rw [List.pairwise_cons] at ascending
    rw [List.forall_mem_cons] at later
    have here : next moment bus = some first := by
      rw [found moment (Nat.le_refl _), List.find?_cons_of_pos (by simpa using later.1)]
    have beyond : ∀ n ≥ first.since + 1, next n bus = rest.find? fun s => n ≤ s.since := by
      intro n after
      rw [found n (by have := later.1; omega),
        List.find?_cons_of_neg (by simp only [decide_eq_true_eq]; omega)]
    have onward := ih ascending.2 rounds (first.since + 1) beyond ascending.1
      (by simpa using few) (audience.heard bus [(first.handler, event)] m)
    simp only [deliver, here, considerate.dispatch_eq, onward, List.map_cons]
    rw [← heard_append, List.singleton_append]

end Considerate

variable [DecidableEq κ] [DecidableEq η]

def calls (event : E) : List (η × E) := (bus.listeners (audience.kindOf event)).map (·, event)

variable {audience bus} in
/-- An event reaches everyone who listens to its kind, and the subscriptions stay as they are. -/
theorem Considerate.emit_eq (considerate : audience.Considerate) (built : bus.Built) (rounds : Nat)
    (few : bus.typed.length < rounds ∧ bus.wild.length < rounds) (event : E) (m : β) :
    audience.emit rounds event (bus, m) =
      .ok () (bus, audience.heard bus (audience.calls bus event) m) := by
  obtain ⟨typed, wild⟩ := built.orderly
  have first : audience.deliver (Bus.nextTyped (audience.kindOf event)) event rounds 0 (bus, m) =
      _ := considerate.deliver_eq
    (typed.ascending.filter fun s => s.kind = audience.kindOf event) event rounds 0
    (fun n _ => by simp [Bus.nextTyped, List.find?_filter]) (fun _ _ => Nat.zero_le _)
    (Nat.lt_of_le_of_lt (List.length_filter_le ..) few.1) m
  have second (m : β) : audience.deliver Bus.nextWild event rounds 0 (bus, m) = _ :=
    considerate.deliver_eq wild.ascending event rounds 0 (fun _ _ => rfl)
      (fun _ _ => Nat.zero_le _) few.2 m
  rw [emit, first]
  simp only [second, calls, Bus.listeners, List.map_append, heard_append]

end Audience
end SplitTraversal
