import SplitTraversal.Conformance.Bus
import SplitTraversal.Conformance.Event
import SplitTraversal.Value.Text

/-! Named handlers that keep a journal of what they are handed. On its first call a handler may
change subscriptions, and on every call it may throw. -/

namespace SplitTraversal

inductive SubscriptionChange where
  | on (kind : EventKind) (handler : String)
  | off (kind : EventKind) (handler : String)
  | onAny (handler : String)
  | offAny (handler : String)
deriving DecidableEq, Repr

def SubscriptionChange.apply : SubscriptionChange → Bus EventKind String → Bus EventKind String
  | .on kind handler => Bus.on kind handler
  | .off kind handler => Bus.off kind handler
  | .onAny handler => Bus.onAny handler
  | .offAny handler => Bus.offAny handler

structure Handler where
  name : String
  once : List SubscriptionChange
  thrown : Option Thrown

inductive ErrorPolicy where
  /-- Note them. -/
  | record
  /-- Note them, and throw them again. -/
  | rethrow
  /-- Warn of them. -/
  | warn
deriving DecidableEq, Repr

/-- Events by the handler that received them, errors by the event at which they were thrown, and
warnings. `called` holds the handlers that have been called before. -/
structure Journal (E : Type) where
  called : List String
  events : Array (String × E)
  errors : Array (Thrown × E)
  warnings : Array String

namespace Journal

variable {E : Type}

def empty : Journal E := ⟨[], #[], #[], #[]⟩

def turnPage (j : Journal E) : Journal E := ⟨j.called, #[], #[], #[]⟩

/-- Note the event, change subscriptions at the first call, throw. A handler without a description
only notes. -/
def respond (handlers : List Handler) (name : String) (event : E) :
    Action (Bus EventKind String × Journal E) Unit := fun (bus, j) =>
  let first := !j.called.contains name
  let j : Journal E :=
    ⟨if first then name :: j.called else j.called, j.events.push (name, event), j.errors, j.warnings⟩
  match handlers.find? (·.name == name) with
  | none => .ok () (bus, j)
  | some handler =>
    let bus := if first then handler.once.foldl (fun bus c => c.apply bus) bus else bus
    match handler.thrown with
    | some e => .error e (bus, j)
    | none => .ok () (bus, j)

def detail : Thrown → Except Thrown String
  | .fault f => .ok f.message
  | v => v.text

def onError (kindOf : E → EventKind) (policy : ErrorPolicy) (e : Thrown) (event : E) :
    Action (Bus EventKind String × Journal E) Unit := fun (bus, j) =>
  match policy with
  | .record => .ok () (bus, { j with errors := j.errors.push (e, event) })
  | .rethrow => .error e (bus, { j with errors := j.errors.push (e, event) })
  | .warn =>
    match detail e with
    | .error e => .error e (bus, j)
    | .ok reason =>
      let kind := (kindOf event).name
      .ok () (bus, { j with
        warnings := j.warnings.push s!"Subscriber for '{kind}' threw: {reason}" })

def audience (kindOf : E → EventKind) (handlers : List Handler) (policy : ErrorPolicy) :
    Audience EventKind String E (Journal E) :=
  ⟨kindOf, respond handlers, onError kindOf policy⟩

end Journal
end SplitTraversal
