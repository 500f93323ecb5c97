import ExprTyping.Ty.Basic

/-!
# Building unions

A union is kept flat and free of duplicates: member unions are spliced in, and of equal members
the first one stays. Building one fails when too few members are left; the failures of the whole
type algebra are listed here.
-/

namespace ExprTyping

/-- Why an operation of the type algebra has no result. -/
inductive TypeError where
  | tooFewMembers
  | emptyUnion
  | emptyJoin
deriving DecidableEq, Repr

def TypeError.message : TypeError → String
  | tooFewMembers => "invalid argument: union requires at least two distinct member types"
  | emptyUnion => "invalid argument: cannot build a union of an empty sequence"
  | emptyJoin => "invalid argument: cannot compute LUB of empty sequence"

namespace Ty

/-- The types that a type contributes to a union: the members of a union, any other type itself. -/
def parts : Ty → List Ty
  | union members => members
  | ty => [ty]

/-- Replaces each union of the list by its members. -/
def flatten (types : List Ty) : List Ty := types.flatMap parts

/-- Adds `ty` at the end of `kept` unless an equal type is there. -/
def addDistinct (kept : List Ty) (ty : Ty) : List Ty := if oneOf kept ty then kept else kept ++ [ty]

/-- The list without the types that are equal to an earlier one. -/
def distinct (types : List Ty) : List Ty := types.foldl addDistinct []

def unionOf (types : List Ty) : Except TypeError Ty :=
  match distinct (flatten types) with
  | [] | [_] => .error .tooFewMembers
  | members => .ok (union members)

/-- The union of the given types, or the one type that is left of them. -/
def unionOrSingle (types : List Ty) : Except TypeError Ty :=
  match distinct (flatten types) with
  | [] => .error .emptyUnion
  | [ty] => .ok ty
  | members => .ok (union members)

theorem totalSize_parts_le (ty : Ty) : totalSize ty.parts ≤ ty.size := by
  cases ty <;> simp [parts, size]

theorem totalSize_flatten_le (types : List Ty) : totalSize (flatten types) ≤ totalSize types := by
  induction types with
  | nil => simp [flatten]
  | cons ty types ih =>
    have := totalSize_parts_le ty
    simp only [flatten, List.flatMap_cons, totalSize_append, totalSize_cons] at *
    omega

theorem totalSize_addDistinct_le (kept : List Ty) (ty : Ty) :
    totalSize (addDistinct kept ty) ≤ totalSize kept + ty.size := by
  unfold addDistinct
  split <;> simp

theorem totalSize_foldl_addDistinct_le (types kept : List Ty) :
    totalSize (types.foldl addDistinct kept) ≤ totalSize kept + totalSize types := by
  induction types generalizing kept with
  | nil => simp
  | cons ty types ih =>
    have h := totalSize_addDistinct_le kept ty
    have := ih (addDistinct kept ty)
    simp only [List.foldl_cons, totalSize_cons]
    omega

theorem totalSize_distinct_le (types : List Ty) : totalSize (distinct types) ≤ totalSize types := by
  simpa [distinct] using totalSize_foldl_addDistinct_le types []

end Ty

end ExprTyping
