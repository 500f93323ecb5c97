import ExprTyping.Join
import ExprTyping.Rule.Basic

/-!
# Rules for alternatives

An expression with two possible outcomes has the join of their types. A condition is not typed.
-/

namespace ExprTyping.Rule

def inferEither (a b : Expr) : Inquiry (Option Ty) := do
  let aTy ← Inquiry.typeOf a
  let bTy ← Inquiry.typeOf b
  return some (Ty.lub2 aTy bTy)

def elvis : Rule where
  name := "ElvisCalculator"
  kind := .elvis
  apply := byShape Expr.elvis? fun shape ↦ inferEither shape.primary shape.fallback

def ternary : Rule where
  name := "TernaryCalculator"
  kind := .ternary
  apply := byShape Expr.ternary? fun shape ↦ inferEither shape.whenTrue shape.whenFalse

end ExprTyping.Rule
