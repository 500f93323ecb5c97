import ExprTyping.Ty.Basic

/-!
# Writing types

One printer, given what to write for a class name: the qualified form writes the name itself, the
simple form its last segment.
-/

namespace ExprTyping.Ty

mutual

/-- The text of a type, each class name written by `label`. -/
def renderWith (label : ClassName → String) : Ty → String
  | known name [] => label name
  | known name (arg :: args) =>
    label name ++ "<" ++ renderWith label arg ++ renderRest label ", " args ++ ">"
  | primitive kind => kind.keyword
  | dynamic _ => "def"
  | unknown _ => "<unknown>"
  | union [] => ""
  | union (member :: members) => renderWith label member ++ renderRest label " | " members
  | null => "null"
  | array component => renderWith label component ++ "[]"

/-- The texts of the types, each after the separator. -/
def renderRest (label : ClassName → String) (separator : String) : List Ty → String
  | [] => ""
  | ty :: types => separator ++ renderWith label ty ++ renderRest label separator types

end

def render (ty : Ty) : String := ty.renderWith id

/-- The text of a type with the last segments of its class names. -/
def renderSimple (ty : Ty) : String := ty.renderWith ClassName.simple

end ExprTyping.Ty
