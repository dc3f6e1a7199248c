import SplitTraversal.Conformance.BuiltIn

/-! Tables of checks by name, in the order of their registration. -/

namespace SplitTraversal

structure Registry (σ ω : Type) where
  checks : List (Check σ ω)
  nodup : (checks.map Check.name).Nodup

namespace Registry

variable {σ ω : Type}

def empty : Registry σ ω := ⟨[], List.nodup_nil⟩

def names (r : Registry σ ω) : List String := r.checks.map Check.name

def has (r : Registry σ ω) (name : String) : Bool := r.names.contains name

def get? (r : Registry σ ω) (name : String) : Option (Check σ ω) :=
  r.checks.find? (·.name == name)

def register (r : Registry σ ω) (check : Check σ ω) : Except Thrown (Registry σ ω) :=
  if check.name.isEmpty then .error (.violation .unnamedCheck)
  else if h : check.name ∈ r.names then .error (.violation (.duplicateCheck check.name))
  else .ok ⟨r.checks ++ [check], by
    rw [List.map_append, List.nodup_append]
    refine ⟨r.nodup, by simp, ?_⟩
    intro a ha b hb hab
    simp only [List.map_cons, List.map_nil, List.mem_singleton] at hb
    exact h (hb ▸ hab ▸ ha)⟩

def registerAll (r : Registry σ ω) : List (Check σ ω) → Except Thrown (Registry σ ω)
  | [] => .ok r
  | check :: rest =>
    match r.register check with
    | .ok r => r.registerAll rest
    | .error e => .error e

def withDefaults : Registry σ ω :=
  ⟨BuiltIn.all, show List.Nodup ["elements", "knownOrder", "comparator", "estimateSize", "nullable",
    "notImmutableWhenAddSupported", "notImmutableWhenRemoveSupported"] by decide⟩

def enabled (subject : Subject σ ω) : List (Check σ ω) → Action ω (List (Check σ ω))
  | [], w => .ok [] w
  | check :: rest, w =>
    match check.skipReason subject w with
    | .error e w => .error e w
    | .ok reason w =>
      match enabled subject rest w with
      | .error e w => .error e w
      | .ok checks w => .ok (if reason.isNone then check :: checks else checks) w

def enabledFor (r : Registry σ ω) (subject : Subject σ ω) : Action ω (List (Check σ ω)) :=
  enabled subject r.checks

end Registry
end SplitTraversal
