import SplitTraversal.Source.Action

/-! Delivery of events to subscribers. A handler subscribes to one kind of event or to all. Handlers
are called in the order in which their subscriptions began, those for all kinds last. Subscribing
again changes nothing; a subscription that is given up and taken again begins anew.

Deliveries go by the subscriptions as they are at each moment: a handler that subscribes while an
event is being delivered is still called, one that is taken off before its turn is not. -/

namespace SplitTraversal

structure Subscription (κ η : Type) where
  kind : κ
  handler : η
  since : Nat
deriving Repr

/-- The current subscriptions, each list in order of beginning. -/
structure Bus (κ η : Type) where
  typed : List (Subscription κ η)
  wild : List (Subscription Unit η)
  clock : Nat

namespace Bus

variable {κ η : Type} [DecidableEq κ] [DecidableEq η]

def empty : Bus κ η := ⟨[], [], 0⟩

def subscribe {κ : Type} [DecidableEq κ] (subscriptions : List (Subscription κ η)) (kind : κ)
    (handler : η) (now : Nat) : List (Subscription κ η) :=
  if subscriptions.any fun s => s.kind = kind ∧ s.handler = handler then subscriptions
  else subscriptions ++ [⟨kind, handler, now⟩]

def unsubscribe {κ : Type} [DecidableEq κ] (subscriptions : List (Subscription κ η)) (kind : κ)
    (handler : η) : List (Subscription κ η) :=
  subscriptions.filter fun s => ¬(s.kind = kind ∧ s.handler = handler)

def on (kind : κ) (handler : η) (b : Bus κ η) : Bus κ η :=
  { b with typed := subscribe b.typed kind handler b.clock, clock := b.clock + 1 }

def off (kind : κ) (handler : η) (b : Bus κ η) : Bus κ η :=
  { b with typed := unsubscribe b.typed kind handler }

def onAny (handler : η) (b : Bus κ η) : Bus κ η :=
  { b with wild := subscribe b.wild () handler b.clock, clock := b.clock + 1 }

def offAny (handler : η) (b : Bus κ η) : Bus κ η :=
  { b with wild := unsubscribe b.wild () handler }

def nextTyped (kind : κ) (moment : Nat) (b : Bus κ η) : Option (Subscription κ η) :=
  b.typed.find? fun s => s.kind = kind ∧ moment ≤ s.since

def nextWild (moment : Nat) (b : Bus κ η) : Option (Subscription Unit η) :=
  b.wild.find? fun s => moment ≤ s.since

end Bus

/-- How the handlers `η` respond to events `E` of kinds `κ`: a handler may change the subscriptions
and a memory `β`, and may throw. What it throws goes to `onError`, which may throw in turn. -/
structure Audience (κ η E β : Type) where
  kindOf : E → κ
  respond : η → E → Action (Bus κ η × β) Unit
  onError : Thrown → E → Action (Bus κ η × β) Unit

namespace Audience

variable {κ η E β : Type} [DecidableEq κ] [DecidableEq η]

def dispatch (audience : Audience κ η E β) (handler : η) (event : E) :
    Action (Bus κ η × β) Unit := fun s =>
  match audience.respond handler event s with
  | .ok _ s => .ok () s
  | .error e s => audience.onError e event s

def deliver {κ' : Type} (audience : Audience κ η E β)
    (next : Nat → Bus κ η → Option (Subscription κ' η)) (event : E) :
    Nat → Nat → Activity (Bus κ η × β) Unit
  | 0, _, s => .error .outOfRounds s
  | rounds + 1, moment, s =>
    match next moment s.1 with
    | none => .ok () s
    | some subscription =>
      match audience.dispatch subscription.handler event s with
      | .ok _ s => deliver audience next event rounds (subscription.since + 1) s
      | .error e s => .error (.threw e) s

def emit (audience : Audience κ η E β) (rounds : Nat) (event : E) :
    Activity (Bus κ η × β) Unit := fun s =>
  match audience.deliver (Bus.nextTyped (audience.kindOf event)) event rounds 0 s with
  | .ok _ s => audience.deliver Bus.nextWild event rounds 0 s
  | .error h s => .error h s

end Audience
end SplitTraversal
