import ExprTyping.Join
import ExprTyping.Rule.Basic
import ExprTyping.Ty.Element

/-!
# Rules for operators

Binary operators fall into classes, each typed in its own way. An operator of an arithmetic class
followed by an equals sign assigns the result and is typed like the operator alone.
-/

namespace ExprTyping

inductive OperatorClass where
  | boolean | compare | findRegex | plus | arithmetic | shift | assign | subscript
deriving DecidableEq, Repr

namespace OperatorClass

def all : List OperatorClass :=
  [boolean, compare, findRegex, plus, arithmetic, shift, assign, subscript]

def name : OperatorClass → String
  | boolean => "Boolean"
  | compare => "Compare"
  | findRegex => "FindRegex"
  | plus => "Plus"
  | arithmetic => "Arithmetic"
  | shift => "Shift"
  | assign => "Assign"
  | subscript => "Subscript"

def operators : OperatorClass → List String
  | boolean => ["==", "!=", "===", "!==", "<", ">", "<=", ">=", "&&", "||", "in", "!in",
      "instanceof", "!instanceof", "==~"]
  | compare => ["<=>"]
  | findRegex => ["=~"]
  | plus => ["+"]
  | arithmetic => ["-", "*", "/", "%", "**", "&", "|", "^"]
  | shift => ["<<", ">>", ">>>"]
  | assign => ["="]
  | subscript => ["[", "?["]

def ofPlain? (operator : String) : Option OperatorClass :=
  all.find? fun c ↦ c.operators.contains operator

/-- Whether operators of the class can be combined with an assignment. -/
def isCompound : OperatorClass → Bool
  | plus | arithmetic | shift => true
  | boolean | compare | findRegex | assign | subscript => false

/-- The operator before a final equals sign. -/
def compoundBase? (operator : String) : Option String :=
  if operator.toList.getLast? = some '=' then some (String.ofList operator.toList.dropLast)
  else none

/-- The class of an operator, by itself or combined with an assignment. -/
def of? (operator : String) : Option OperatorClass :=
  ofPlain? operator <|> ((compoundBase? operator).bind ofPlain?).filter isCompound

end OperatorClass

namespace Rule

/-- The promoted type of a numeric operand; any other type is kept. -/
def promoted (ty : Ty) : Ty := (Numeric.promoteUnary ty).getD ty

/-- The type of a sum: with text on either side it is text. -/
def sumTy (left right : Ty) : Ty :=
  if left.isStringLike || right.isStringLike then .string else Ty.lub2 left right

/-- The type of a subscripted value; a dynamic one stays dynamic. -/
def subscriptTy? (receiver : Ty) : Option Ty :=
  receiver.subscript? <|> if receiver.isDynamic then some (.dynamic none) else none

def inferBinary (left right : Expr) : OperatorClass → Inquiry (Option Ty)
  | .boolean => return some .boolean
  | .compare => return some .int
  | .findRegex => return some (.ofClass ClassName.matcher)
  | .assign => return some (← Inquiry.typeOf right)
  | .plus => do
    let leftTy ← Inquiry.typeOf left
    let rightTy ← Inquiry.typeOf right
    return some (sumTy leftTy rightTy)
  | .arithmetic => do
    let leftTy ← Inquiry.typeOf left
    let rightTy ← Inquiry.typeOf right
    return some (Ty.lub2 leftTy rightTy)
  | .shift => return some (promoted (← Inquiry.typeOf left))
  | .subscript => return subscriptTy? (← Inquiry.typeOf left)

def binary : Rule where
  name := "BinaryCalculator"
  kind := .binary
  apply := byShape Expr.binary? fun shape ↦
    match OperatorClass.of? shape.operator with
    | some c => inferBinary shape.left shape.right c
    | none => return none

def unary : Rule where
  name := "UnaryCalculator"
  kind := .unary
  apply := byShape Expr.unary? fun shape ↦
    if shape.operator = "!" then
      return some .boolean
    else if ["-", "+", "~"].contains shape.operator then
      return some (promoted (← Inquiry.typeOf shape.operand))
    else if ["++", "--"].contains shape.operator then
      return some (← Inquiry.typeOf shape.operand)
    else
      return none

/-- A cast to a type that cannot be resolved leaves the operand's type. -/
def cast : Rule where
  name := "CastCalculator"
  kind := .cast
  apply := byShape Expr.cast? fun shape ↦ do
    let target ← Inquiry.resolve shape.target
    if target.isUnknown then
      return some (← Inquiry.typeOf shape.operand)
    else
      return some target

end Rule

end ExprTyping
