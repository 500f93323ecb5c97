import ExprTyping.ClassName

/-!
# Primitive types

The eight machine types, in order of width, with their keywords and wrapper classes.
-/

namespace ExprTyping

inductive Primitive where
  | boolean | byte | char | short | int | long | float | double
deriving DecidableEq, Repr

namespace Primitive

def all : List Primitive := [boolean, byte, char, short, int, long, float, double]

def ordinal : Primitive → Nat
  | boolean => 0
  | byte => 1
  | char => 2
  | short => 3
  | int => 4
  | long => 5
  | float => 6
  | double => 7

def keyword : Primitive → String
  | boolean => "boolean"
  | byte => "byte"
  | char => "char"
  | short => "short"
  | int => "int"
  | long => "long"
  | float => "float"
  | double => "double"

def ofKeyword? (word : String) : Option Primitive := all.find? (·.keyword == word)

def isNumeric : Primitive → Bool
  | boolean => false
  | _ => true

def isIntegral : Primitive → Bool
  | byte | char | short | int | long => true
  | boolean | float | double => false

def isFloating : Primitive → Bool
  | float | double => true
  | _ => false

/-- The class whose instances hold one value of the primitive. -/
def wrapper : Primitive → ClassName
  | boolean => ClassName.boolean
  | byte => ClassName.byte
  | char => ClassName.character
  | short => ClassName.short
  | int => ClassName.integer
  | long => ClassName.long
  | float => ClassName.float
  | double => ClassName.double

def ofWrapper? (name : ClassName) : Option Primitive := all.find? (·.wrapper == name)

def below (kind : Primitive) : List Primitive := all.filter (·.ordinal < kind.ordinal)

theorem mem_all (kind : Primitive) : kind ∈ all := by
  cases kind <;> decide

@[simp] theorem ofKeyword?_keyword (kind : Primitive) : ofKeyword? kind.keyword = some kind := by
  cases kind <;> decide

@[simp] theorem ofWrapper?_wrapper (kind : Primitive) : ofWrapper? kind.wrapper = some kind := by
  cases kind <;> decide

end Primitive

end ExprTyping
