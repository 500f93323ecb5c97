import ExprTyping.Numeric.Rank

/-!
# Numeric promotion

The type of an arithmetic result, from the types of its operands. The highest rank decides, with
two exceptions: nothing narrower than `int` is answered, and an arbitrary-precision operand next
to a floating one gives an arbitrary-precision decimal, so that no exact digits are lost.
-/

namespace ExprTyping.Numeric

/-- A numeric type, seen as a rank that may be boxed. -/
structure Operand where
  rank : Rank
  boxed : Bool
deriving DecidableEq, Repr

/-- Reads a type as a numeric operand: a primitive, or a numeric class without arguments. -/
def Operand.of? : Ty → Option Operand
  | .primitive kind => (Rank.ofPrimitive? kind).map (⟨·, false⟩)
  | .known name [] => (Rank.ofReference? name).map (⟨·, true⟩)
  | _ => none

/-- The type of a result whose operands have `top` as their highest rank. -/
def resultTy (operands : List Operand) (top : Rank) : Ty :=
  if top.isFloating && operands.any (·.rank.isBig) then
    .ofClass ClassName.bigDecimal
  else if top < Rank.minPromoted then
    Rank.minPromoted.toTy false
  else
    top.toTy (operands.any fun operand ↦ operand.rank == top && operand.boxed)

/-- The type that arithmetic on the given types has; nothing if one of them is not numeric, or if
there are none. -/
def promote (types : List Ty) : Option Ty := do
  let operands ← types.mapM Operand.of?
  let top ← (operands.map (·.rank)).max?
  return resultTy operands top

def promoteUnary (ty : Ty) : Option Ty := promote [ty]

end ExprTyping.Numeric
