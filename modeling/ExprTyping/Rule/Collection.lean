import ExprTyping.Join
import ExprTyping.Rule.Basic

/-!
# Rules for collection literals

The elements of a literal collection are joined to one type argument, which is never a primitive.
-/

namespace ExprTyping.Rule

/-- A type as an argument of a collection: primitives are boxed, and null says nothing. -/
def asArgument (ty : Ty) : Ty := if ty.isNull then .object else ty.boxed

def elementArgument (types : List Ty) : Ty :=
  match Ty.lub types with
  | .ok ty => asArgument ty
  | .error _ => .object

def list : Rule where
  name := "ListLiteralCalculator"
  kind := .list
  apply := byShape Expr.list? fun elements ↦ do
    let types ← elements.mapM Inquiry.typeOf
    return some (.listOf (elementArgument types))

def map : Rule where
  name := "MapLiteralCalculator"
  kind := .map
  apply := byShape Expr.map? fun entries ↦ do
    let types ← entries.mapM fun entry ↦ do
      let key ← Inquiry.typeOf entry.1
      let value ← Inquiry.typeOf entry.2
      return (key, value)
    return some (.mapOf (elementArgument (types.map (·.1))) (elementArgument (types.map (·.2))))

/-- Whether a bound of the type makes a range of integers. -/
def isIntBound (ty : Ty) : Bool :=
  match Numeric.Operand.of? ty with
  | some operand => [.byte, .short, .int].contains operand.rank
  | none => false

def rangeTy (first last : Ty) : Ty :=
  if isIntBound first && isIntBound last then .ofClass ClassName.intRange
  else .known ClassName.range [asArgument (Ty.lub2 first last)]

def range : Rule where
  name := "RangeCalculator"
  kind := .range
  apply := byShape Expr.range? fun shape ↦ do
    let first ← Inquiry.typeOf shape.first
    let last ← Inquiry.typeOf shape.last
    return some (rangeTy first last)

end ExprTyping.Rule
