import ExprTyping.Rule.Branch
import ExprTyping.Rule.Collection
import ExprTyping.Rule.Member
import ExprTyping.Rule.Operator
import ExprTyping.Rule.Value

/-!
# The standard rules

One rule for each kind that every host shares.
-/

namespace ExprTyping.Rule

/-- The standard rules, in the order in which they are registered. -/
def standard : List Rule :=
  [literal, binary, list, map, property, elvis, interpolation, closure, ternary, ident, call,
    construction, cast, unary, range]

/-- A property of standard rules can be shown of one rule after the other. -/
@[elab_as_elim]
theorem standard_cases {motive : (rule : Rule) → rule ∈ standard → Prop}
    (literal : ∀ h, motive literal h) (binary : ∀ h, motive binary h) (list : ∀ h, motive list h)
    (map : ∀ h, motive map h) (property : ∀ h, motive property h) (elvis : ∀ h, motive elvis h)
    (interpolation : ∀ h, motive interpolation h) (closure : ∀ h, motive closure h)
    (ternary : ∀ h, motive ternary h) (ident : ∀ h, motive ident h) (call : ∀ h, motive call h)
    (construction : ∀ h, motive construction h) (cast : ∀ h, motive cast h)
    (unary : ∀ h, motive unary h) (range : ∀ h, motive range h) {rule : Rule}
    (h : rule ∈ standard) : motive rule h := by
  have hcases := h
  simp only [standard, List.mem_cons, List.not_mem_nil, or_false] at hcases
  rcases hcases with rfl | rfl | rfl | rfl | rfl | rfl | rfl | rfl | rfl | rfl | rfl | rfl | rfl |
    rfl | rfl <;> apply_assumption

def ofName? (name : String) : Option Rule := standard.find? (·.name == name)

end ExprTyping.Rule
