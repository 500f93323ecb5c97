import ExprTyping.Hierarchy.Builtin
import ExprTyping.Ty.Basic

/-!
# Element types

What iterating over a value or subscripting it yields, read off the type arguments of collections
and maps.
-/

namespace ExprTyping.Ty

/-- The value type of a map with both its arguments. -/
def mapValue? : Ty → Option Ty
  | known name [_, value] => if builtinTable.isSubclass name ClassName.map then some value else none
  | _ => none

/-- The type of the elements: an array's component, a collection's argument, a map's value. -/
def element? : Ty → Option Ty
  | array component => some component
  | known name [element] =>
    if builtinTable.isSubclass name ClassName.iterable then some element else none
  | ty => ty.mapValue?

/-- The type of `value[index]`: text gives text, and maps and collections their elements. -/
def subscript? (ty : Ty) : Option Ty :=
  if ty.isStringLike then some string else ty.mapValue? <|> ty.element?

end ExprTyping.Ty
