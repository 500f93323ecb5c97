import ExprTyping.Rule.Basic

/-!
# Rules for literals, names and constructed values

These rules need no part of their node typed.
-/

namespace ExprTyping.Rule

def literal : Rule where
  name := "LiteralCalculator"
  kind := .literal
  apply := byShape Expr.literal? fun value ↦ return some value.ty

/-- An interpolated string counts as one only if both its texts and its values are at hand. -/
def interpolation : Rule where
  name := "InterpolationCalculator"
  kind := .interpolation
  apply := byShape Expr.interpolation? fun shape ↦
    match shape.parts, shape.values with
    | some _, some _ => return some (.ofClass ClassName.gstring)
    | _, _ => return none

/-- A closure has no shape; its kind says it all. -/
def closure : Rule where
  name := "ClosureCalculator"
  kind := .closure
  apply e := return if e.kind = .closure then some (.ofClass ClassName.closure) else none

/-- The names of the enclosing object are left to rules that know it. -/
def isSelfReference (name : String) : Bool := name == "this" || name == "super"

def ident : Rule where
  name := "VariableCalculator"
  kind := .ident
  apply := byShape Expr.ident? fun name ↦ do
    if isSelfReference name then
      return none
    match ← Inquiry.symbol? name with
    | some symbol => return some symbol.ty
    | none => return some (← Inquiry.undeclared "unresolved variable" name)

def construction : Rule where
  name := "ConstructorCallCalculator"
  kind := .construction
  apply := byShape Expr.construction? fun target ↦ return some (← Inquiry.resolve target)

end ExprTyping.Rule
