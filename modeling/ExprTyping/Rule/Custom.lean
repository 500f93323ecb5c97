import ExprTyping.Rule.Basic

/-!
# Rules made to measure

Hosts add rules of their own, for any kind and at any priority. The common patterns are given
here.
-/

namespace ExprTyping.Rule

def custom (kind : Kind) (priority : Int) (apply : Expr → Inquiry (Option Ty)) : Rule where
  name := "CalculatorFn"
  kind := kind
  priority := priority
  apply := apply

def declining : Expr → Inquiry (Option Ty) := fun _ ↦ return none

def constantly (ty : Ty) : Expr → Inquiry (Option Ty) := fun _ ↦ return some ty

def onLiteral (literal : Literal) (ty : Ty) : Expr → Inquiry (Option Ty) :=
  byShape Expr.literal? fun value ↦ return if value == literal then some ty else none

def onOperator (operator : String) (ty : Ty) : Expr → Inquiry (Option Ty) :=
  byShape Expr.binary? fun shape ↦ return if shape.operator = operator then some ty else none

def listOfLeft : Expr → Inquiry (Option Ty) :=
  byShape Expr.binary? fun shape ↦ return some (.listOf (← Inquiry.typeOf shape.left).boxed)

end ExprTyping.Rule
