/-!
# Kinds of expressions

The kind of a node selects the rules that may type it. Hosts can add kinds of their own.
-/

namespace ExprTyping

inductive Kind where
  | literal | binary | list | map | property | elvis | interpolation | closure | ternary | ident
  | call | construction | cast | unary | range
  | custom (name : String)
deriving DecidableEq, Repr

namespace Kind

def shared : List Kind :=
  [literal, binary, list, map, property, elvis, interpolation, closure, ternary, ident, call,
    construction, cast, unary, range]

def name : Kind → String
  | literal => "Literal"
  | binary => "Binary"
  | list => "List"
  | map => "Map"
  | property => "PropertyAccess"
  | elvis => "Elvis"
  | interpolation => "GString"
  | closure => "Closure"
  | ternary => "Ternary"
  | ident => "Variable"
  | call => "MethodCall"
  | construction => "ConstructorCall"
  | cast => "Cast"
  | unary => "Unary"
  | range => "Range"
  | custom name => name

/-- The kind of that name; a name that no shared kind has is a custom kind. -/
def ofName (name : String) : Kind := (shared.find? (·.name == name)).getD (custom name)

@[simp] theorem name_ofName (name : String) : (ofName name).name = name := by
  unfold ofName
  cases h : shared.find? (·.name == name) with
  | none => rfl
  | some kind => simpa using List.find?_some h

end Kind

end ExprTyping
