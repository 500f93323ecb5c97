import ExprTyping.Environment
import ExprTyping.Registry

/-!
# Inference

The rules of a registry type an expression, and the same registry types its parts. The recursion
goes down: a rule that asks for the type of something no smaller than its node gets no answer.
-/

namespace ExprTyping.Registry

/-- The type given to what a rule asks for beside the parts of its node. -/
def outside : Ty := .unknown "not a part of the expression"

/-- The type of an expression, with all questions asked on the way; the question for the
expression itself comes first. -/
def infer (registry : Registry) (environment : Environment) (e : Expr) : Traced Ty := do
  Traced.record (.typeOf e) ()
  (registry.calculate e).run (environment.answer fun part ↦
    if _ : part.size < e.size then registry.infer environment part else return outside)
termination_by e.size

def inferPart (registry : Registry) (environment : Environment) (e part : Expr) : Traced Ty :=
  if part.size < e.size then registry.infer environment part else return outside

theorem infer_eq (registry : Registry) (environment : Environment) (e : Expr) :
    registry.infer environment e = (do
      Traced.record (.typeOf e) ()
      (registry.calculate e).run (environment.answer (registry.inferPart environment e))) := by
  rw [infer]
  rfl

/-- Asks a single rule for the type of a node; the registry types its parts. -/
def applyRule (registry : Registry) (environment : Environment) (rule : Rule) (e : Expr) :
    Traced (Option Ty) :=
  (rule.apply e).run (environment.answer (registry.inferPart environment e))

end ExprTyping.Registry
