import ExprTyping.Rule.Basic
import ExprTyping.Ty.Element

/-!
# Rules for members

A property or a method belongs to its receiver. In the spread form it is taken of every element of
the receiver, and the results make a list.
-/

namespace ExprTyping.Rule

/-- The type of a receiver; the type of an implicit one is not known here. -/
def receiverTy : Option Expr → Inquiry Ty
  | some e => Inquiry.typeOf e
  | none => return .unknown "Implicit receiver"

/-- Applies `access` to the receiver's type, or in the spread form to the type of its elements. -/
def spreading (spread : Bool) (receiver : Ty) (access : Ty → Inquiry (Option Ty)) :
    Inquiry (Option Ty) :=
  if spread then
    match receiver.element? with
    | some element => return (← access element).map (Ty.listOf ·.boxed)
    | none => return none
  else access receiver

/-- The type of a property: a declared field, else the value of a map entry, else anything if the
receiver can be anything. -/
def propertyOf (name : String) (receiver : Ty) : Inquiry (Option Ty) := do
  match ← Inquiry.field? receiver name with
  | some ty => return some ty
  | none =>
    return receiver.mapValue? <|>
      if receiver.isDynamic then some (.dynamic (some name)) else none

def methodOf (name : String) (args : List Ty) (receiver : Ty) : Inquiry (Option Ty) := do
  match ← Inquiry.method? receiver name args with
  | some ty => return some ty
  | none => return some (← Inquiry.undeclared "unresolved method" name)

def property : Rule where
  name := "PropertyAccessCalculator"
  kind := .property
  apply := byShape Expr.property? fun shape ↦ do
    let receiver ← receiverTy shape.receiver
    spreading shape.spread receiver (propertyOf shape.name)

def call : Rule where
  name := "MethodCallCalculator"
  kind := .call
  apply := byShape Expr.call? fun shape ↦ do
    let receiver ← receiverTy shape.receiver
    let args ← shape.args.mapM Inquiry.typeOf
    spreading shape.spread receiver (methodOf shape.name args)

end ExprTyping.Rule
