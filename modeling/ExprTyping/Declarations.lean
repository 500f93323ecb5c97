import ExprTyping.Environment

/-!
# Declarations

An environment given by tables. The first matching entry of a table counts, so that a new entry at
the front hides older ones.
-/

namespace ExprTyping

structure FieldDeclaration where
  receiver : Ty
  name : String
  ty : Ty

structure MethodDeclaration where
  receiver : Ty
  name : String
  params : List Ty
  ty : Ty

structure TypeDeclaration where
  name : String
  ty : Ty

structure Declarations where
  symbols : List Symbol := []
  fields : List FieldDeclaration := []
  methods : List MethodDeclaration := []
  types : List TypeDeclaration := []
  isStatic : Bool := false
  /-- Whether a type name without an entry stands for the class of that name. -/
  resolveAny : Bool := false

namespace Declarations

def symbol? (declarations : Declarations) (name : String) : Option Symbol :=
  declarations.symbols.find? (·.name == name)

def field? (declarations : Declarations) (receiver : Ty) (name : String) : Option Ty :=
  (declarations.fields.find? fun field ↦
    field.receiver == receiver && field.name == name).map (·.ty)

/-- The result type of a method whose parameter types are equal to the argument types. -/
def method? (declarations : Declarations) (receiver : Ty) (name : String) (args : List Ty) :
    Option Ty :=
  (declarations.methods.find? fun method ↦
    method.receiver == receiver && method.name == name && Ty.beqArgs method.params args).map (·.ty)

def resolve (declarations : Declarations) (name : String) : Ty :=
  match declarations.types.find? (·.name == name) with
  | some declaration => declaration.ty
  | none => if declarations.resolveAny then .ofClass name else .unknown ("unresolved type " ++ name)

def environment (declarations : Declarations) : Environment where
  symbol? := declarations.symbol?
  field? := declarations.field?
  method? := declarations.method?
  resolve := declarations.resolve
  isStatic := declarations.isStatic

end Declarations

end ExprTyping
