import ExprTyping.Inquiry

/-!
# Typing rules

A rule types nodes of one kind, or declines to. Where several rules claim a kind, those of higher
priority are asked first.
-/

namespace ExprTyping

structure Rule where
  name : String
  kind : Kind
  priority : Int := 0
  /-- The type of a node; nothing if the rule declines. -/
  apply : Expr → Inquiry (Option Ty)

namespace Rule

variable {α : Type}

/-- Types a node by one of its shapes, and declines a node without it. -/
def byShape (shape : Expr → Option α) (infer : α → Inquiry (Option Ty)) (e : Expr) :
    Inquiry (Option Ty) :=
  match shape e with
  | some s => infer s
  | none => return none

theorem byShape_of_eq_some {shape : Expr → Option α} {e : Expr} {s : α} (h : shape e = some s)
    (infer : α → Inquiry (Option Ty)) : byShape shape infer e = infer s := by
  simp [byShape, h]

end Rule

end ExprTyping
