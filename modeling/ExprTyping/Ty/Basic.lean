import ExprTyping.Primitive

/-!
# Types

The closed set of types an expression can have, and when two of them count as equal. Equality is
coarser than identity of terms: hints and reasons are commentary, and a union is a set of members.
-/

namespace ExprTyping

inductive Ty where
  | known (name : ClassName) (args : List Ty)
  | primitive (kind : Primitive)
  /-- A value whose type is only settled when the program runs; the hint may say where it came
  from. -/
  | dynamic (hint : Option String)
  /-- Inference came to no answer, for the given reason. -/
  | unknown (reason : String)
  /-- One of several types, none of them a union. -/
  | union (members : List Ty)
  | null
  | array (component : Ty)
deriving Inhabited, Repr

namespace Ty

mutual

/-- Equality of types: hints and reasons are ignored, and unions are compared as sets. -/
protected def beq : Ty → Ty → Bool
  | known m as, known n bs => m == n && beqArgs as bs
  | primitive k, primitive l => k == l
  | dynamic _, dynamic _ => true
  | unknown _, unknown _ => true
  | union as, union bs => as.length == bs.length && allWithin bs as
  | null, null => true
  | array a, array b => Ty.beq a b
  | _, _ => false

def beqArgs : List Ty → List Ty → Bool
  | [], [] => true
  | a :: as, b :: bs => Ty.beq a b && beqArgs as bs
  | _, _ => false

/-- Every type of the second list is equal to one of the first. -/
def allWithin (bs : List Ty) : List Ty → Bool
  | [] => true
  | a :: as => bs.any (fun b ↦ Ty.beq a b) && allWithin bs as

end

instance : BEq Ty := ⟨Ty.beq⟩

def ofClass (name : ClassName) : Ty := known name []

def object : Ty := ofClass ClassName.object
def string : Ty := ofClass ClassName.string
def boolean : Ty := primitive .boolean
def int : Ty := primitive .int

def listOf (element : Ty) : Ty := known ClassName.list [element]
def mapOf (key value : Ty) : Ty := known ClassName.map [key, value]

def name? : Ty → Option ClassName
  | known name _ => some name
  | _ => none

/-- The type arguments of a class type; other types have none. -/
def args : Ty → List Ty
  | known _ args => args
  | _ => []

def primitive? : Ty → Option Primitive
  | primitive kind => some kind
  | _ => none

def members? : Ty → Option (List Ty)
  | union members => some members
  | _ => none

def isNull : Ty → Bool
  | null => true
  | _ => false

def isUnknown : Ty → Bool
  | unknown _ => true
  | _ => false

def isDynamic : Ty → Bool
  | dynamic _ => true
  | _ => false

/-- Whether the type is the named class, whatever its arguments. -/
def isNamed (name : ClassName) (ty : Ty) : Bool := ty.name? == some name

/-- Whether values of the type are text: plain strings and interpolated ones. -/
def isStringLike (ty : Ty) : Bool := ty.isNamed ClassName.string || ty.isNamed ClassName.gstring

/-- A primitive becomes its wrapper class; other types are unchanged. -/
def boxed : Ty → Ty
  | primitive kind => ofClass kind.wrapper
  | ty => ty

/-- A wrapper class becomes its primitive; other types are unchanged. -/
def unboxed : Ty → Ty
  | known name [] => match Primitive.ofWrapper? name with
    | some kind => primitive kind
    | none => known name []
  | ty => ty

@[simp] theorem unboxed_boxed_primitive (kind : Primitive) :
    (primitive kind).boxed.unboxed = primitive kind := by
  simp [boxed, unboxed, ofClass]

@[simp] theorem boxed_boxed (ty : Ty) : ty.boxed.boxed = ty.boxed := by
  cases ty <;> rfl

def oneOf (types : List Ty) (ty : Ty) : Bool := types.any (· == ty)

mutual

def size : Ty → Nat
  | known _ args => 1 + totalSize args
  | union members => 1 + totalSize members
  | array component => 1 + size component
  | primitive _ | dynamic _ | unknown _ | null => 1

def totalSize : List Ty → Nat
  | [] => 0
  | ty :: types => size ty + totalSize types

end

theorem size_pos (ty : Ty) : 0 < ty.size := by
  cases ty <;> rw [size] <;> omega

@[simp] theorem totalSize_nil : totalSize [] = 0 := by
  simp [totalSize]

@[simp] theorem totalSize_cons (ty : Ty) (types : List Ty) :
    totalSize (ty :: types) = ty.size + totalSize types := by
  simp [totalSize]

@[simp] theorem totalSize_append (as bs : List Ty) :
    totalSize (as ++ bs) = totalSize as + totalSize bs := by
  induction as with
  | nil => simp
  | cons a as ih => simp [ih]; omega

theorem size_le_totalSize {ty : Ty} {types : List Ty} (h : ty ∈ types) :
    ty.size ≤ totalSize types := by
  induction types with
  | nil => cases h
  | cons head tail ih =>
    rcases List.mem_cons.1 h with rfl | h
    · simp
    · have := ih h
      simp
      omega

end Ty

end ExprTyping
