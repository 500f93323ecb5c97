import ExprTyping.Ty.Basic

/-!
# Numeric ranks

The numeric types in the order in which arithmetic widens them. A rank stands for a primitive and
its wrapper class alike; the two arbitrary-precision ranks have a class only.
-/

namespace ExprTyping.Numeric

inductive Rank where
  | byte | char | short | int | long | bigInteger | bigDecimal | float | double
deriving DecidableEq, Repr

namespace Rank

def all : List Rank := [byte, char, short, int, long, bigInteger, bigDecimal, float, double]

/-- Position in the widening order, from one. -/
def number : Rank → Nat
  | byte => 1
  | char => 2
  | short => 3
  | int => 4
  | long => 5
  | bigInteger => 6
  | bigDecimal => 7
  | float => 8
  | double => 9

instance : LE Rank := ⟨fun r s ↦ r.number ≤ s.number⟩
instance : LT Rank := ⟨fun r s ↦ r.number < s.number⟩
instance (r s : Rank) : Decidable (r ≤ s) := inferInstanceAs (Decidable (r.number ≤ s.number))
instance (r s : Rank) : Decidable (r < s) := inferInstanceAs (Decidable (r.number < s.number))
instance : Max Rank := ⟨fun r s ↦ if r ≤ s then s else r⟩

/-- The lowest rank that arithmetic answers with. -/
def minPromoted : Rank := int

def name : Rank → String
  | byte => "Byte"
  | char => "Char"
  | short => "Short"
  | int => "Int"
  | long => "Long"
  | bigInteger => "BigInteger"
  | bigDecimal => "BigDecimal"
  | float => "Float"
  | double => "Double"

def ofName? (name : String) : Option Rank := all.find? (·.name == name)

def primitive? : Rank → Option Primitive
  | byte => some .byte
  | char => some .char
  | short => some .short
  | int => some .int
  | long => some .long
  | bigInteger | bigDecimal => none
  | float => some .float
  | double => some .double

def reference : Rank → ClassName
  | byte => ClassName.byte
  | char => ClassName.character
  | short => ClassName.short
  | int => ClassName.integer
  | long => ClassName.long
  | bigInteger => ClassName.bigInteger
  | bigDecimal => ClassName.bigDecimal
  | float => ClassName.float
  | double => ClassName.double

def isBig : Rank → Bool
  | bigInteger | bigDecimal => true
  | _ => false

def isFloating : Rank → Bool
  | float | double => true
  | _ => false

def ofPrimitive? (kind : Primitive) : Option Rank := all.find? (·.primitive? == some kind)

def ofReference? (name : ClassName) : Option Rank := all.find? (·.reference == name)

def below (rank : Rank) : List Rank := all.filter (· < rank)

/-- The type of the rank's values; a rank without a primitive is always boxed. -/
def toTy (rank : Rank) (boxed : Bool) : Ty :=
  match boxed, rank.primitive? with
  | false, some kind => .primitive kind
  | _, _ => .ofClass rank.reference

theorem mem_all (rank : Rank) : rank ∈ all := by
  cases rank <;> decide

@[simp] theorem ofReference?_reference (rank : Rank) : ofReference? rank.reference = some rank := by
  cases rank <;> decide

end Rank

end ExprTyping.Numeric
