import ExprTyping.Rule.Standard

/-!
# Registries

A registry groups rules by the kind they claim. A node is offered to the rules of its kind,
highest priority first and in order of registration among equals, until one of them does not
decline.
-/

namespace ExprTyping

/-- Rules by kind: each kind with its rules in dispatch order. -/
structure Registry where
  groups : List (Kind × List Rule)

namespace Registry

/-- The kinds that the rules claim, each once, in order of first appearance. -/
def claimedKinds (rules : List Rule) : List Kind := (rules.map (·.kind)).eraseDups

/-- The rules of a kind, in dispatch order. -/
def dispatchOrder (kind : Kind) (rules : List Rule) : List Rule :=
  (rules.filter (·.kind = kind)).mergeSort (fun r s ↦ s.priority ≤ r.priority)

def ofRules (rules : List Rule) : Registry :=
  ⟨(claimedKinds rules).map fun kind ↦ (kind, dispatchOrder kind rules)⟩

def standard : Registry := ofRules Rule.standard

/-- The kinds with a rule, in order of registration. -/
def kinds (registry : Registry) : List Kind := registry.groups.map (·.1)

def rulesFor (registry : Registry) (kind : Kind) : List Rule :=
  (registry.groups.lookup kind).getD []

def size (registry : Registry) : Nat := (registry.groups.flatMap (·.2)).length

def isEmpty (registry : Registry) : Bool := registry.groups.isEmpty

/-- The answer of the first rule that does not decline. -/
def firstAnswer (e : Expr) : List Rule → Inquiry (Option Ty)
  | [] => return none
  | rule :: rules => do
    match ← rule.apply e with
    | some ty => return some ty
    | none => firstAnswer e rules

/-- The type of a node by the rules of its kind. -/
def calculate (registry : Registry) (e : Expr) : Inquiry Ty :=
  match registry.groups.lookup e.kind with
  | none => return .unknown "no calculator matched"
  | some rules =>
    return (← firstAnswer e rules).getD (.unknown (e.kind.name ++ " produced no result"))

end Registry

end ExprTyping
