import SplitTraversal.Collection.Basic
import SplitTraversal.Trial.CheckPlan

/-! A registry by itself: checks are registered and looked up one after the other, and collections
are held against their gates. -/

namespace SplitTraversal

inductive RegistryStep where
  | register (check : CheckPlan)
  | has (name : String)
  | get (name : String)
  | names
  | list
  /-- Why a check does not apply to a collection, for a registered check. -/
  | skipReason (check : String) (subject : CollectionPlan)
  /-- The same for a check that need not be registered. -/
  | skipReasonOf (check : CheckPlan) (subject : CollectionPlan)
  | enabledFor (subject : CollectionPlan)

inductive RegistryReply where
  | registered
  | found (present : Bool)
  | text (t : Option String)
  | names (names : List String)
  /-- Names with their descriptions. -/
  | entries (entries : List (String × String))

namespace RegistryStep

def asking {ρ : Type} (subject : CollectionPlan) (reply : ρ → RegistryReply)
    (op : Subject Node Bench → Action Bench ρ) : Except Thrown RegistryReply :=
  match subject.build .empty with
  | .error e _ => .error e
  | .ok c b =>
    match op c.subject b with
    | .ok a _ => .ok (reply a)
    | .error e _ => .error e

def look (r : Registry Node Bench) : RegistryStep → Except Thrown RegistryReply
  | .register _ => .ok .registered
  | .has name => .ok (.found (r.has name))
  | .get name => .ok (.text ((r.get? name).map Check.description))
  | .names => .ok (.names r.names)
  | .list => .ok (.entries (r.checks.map fun c => (c.name, c.description)))
  | .skipReason name subject =>
    asking subject .text fun c =>
      match r.get? name with
      | some check => check.skipReason c
      | none => fun b => .error (.misuse (.noFieldOf "null" "requires")) b
  | .skipReasonOf check subject =>
    asking subject .text (CheckPlan.build check : Check Node Bench).skipReason
  | .enabledFor subject =>
    asking subject (fun checks => .names (checks.map Check.name)) r.enabledFor

def run (r : Registry Node Bench) :
    RegistryStep → Except Thrown RegistryReply × Registry Node Bench
  | .register check =>
    match r.register check.build with
    | .ok r => (.ok .registered, r)
    | .error e => (.error e, r)
  | step => (step.look r, r)

def runAll (r : Registry Node Bench) : List RegistryStep → List (Except Thrown RegistryReply)
  | [] => []
  | step :: rest =>
    let (reply, r) := step.run r
    reply :: runAll r rest

end RegistryStep
end SplitTraversal
