import ExprTyping.Hierarchy.Builtin
import ExprTyping.Hierarchy.Specificity
import ExprTyping.Numeric.Promotion
import ExprTyping.Ty.Union

/-!
# Least upper bounds

The join of several types is the most specific type that describes a value of any of them. Strings
and numbers have rules of their own; classes meet at their most specific common ancestor, and the
arguments of one generic class are joined position by position; what is not a class counts as the
top class.
-/

namespace ExprTyping

structure Reference where
  name : ClassName
  args : List Ty

namespace Reference

/-- The class that stands for a type: a class type itself, the top class for anything else. -/
def of : Ty → Reference
  | .known name args => ⟨name, args⟩
  | _ => ⟨ClassName.object, []⟩

def column (references : List Reference) (i : Nat) : List Ty := references.filterMap (·.args[i]?)

def arity : List Reference → Nat
  | [] => 0
  | reference :: _ => reference.args.length

/-- Whether all classes are the named one, with the same number of arguments. -/
def agree (name : ClassName) (references : List Reference) : Bool :=
  references.all fun reference ↦ reference.name == name && reference.args.length == arity references

end Reference

namespace Ty

/-- The types that take part in a join: unions are replaced by their members, nulls and
repetitions dropped. -/
def operands (types : List Ty) : List Ty := distinct ((flatten types).filter (!·.isNull))

/-- A plain and an interpolated string are joined to a plain one. -/
def joinStrings : List Ty → Option Ty
  | [a, b] =>
    if a.isNamed ClassName.string && b.isNamed ClassName.gstring ||
        a.isNamed ClassName.gstring && b.isNamed ClassName.string then
      some string
    else none
  | _ => none

/-- The join of primitives: all boolean, or all numeric, or the top class. -/
def joinPrimitives (kinds : List Primitive) : Ty :=
  if kinds.all (· == .boolean) then boolean
  else if kinds.any (· == .boolean) then object
  else (Numeric.promote (kinds.map primitive)).getD object

theorem totalSize_filter_le (p : Ty → Bool) (types : List Ty) :
    totalSize (types.filter p) ≤ totalSize types := by
  induction types with
  | nil => simp
  | cons ty types ih =>
    simp only [List.filter_cons]
    split <;> simp <;> omega

theorem totalSize_operands_le (types : List Ty) : totalSize (operands types) ≤ totalSize types :=
  calc totalSize (operands types)
    _ ≤ totalSize ((flatten types).filter (!·.isNull)) := totalSize_distinct_le _
    _ ≤ totalSize (flatten types) := totalSize_filter_le _ _
    _ ≤ totalSize types := totalSize_flatten_le _

theorem totalSize_column_le (types : List Ty) (i : Nat) :
    totalSize (Reference.column (types.map Reference.of) i) + types.length ≤ totalSize types := by
  induction types with
  | nil => simp [Reference.column]
  | cons ty types ih =>
    have hpos := ty.size_pos
    simp only [Reference.column, List.map_cons, List.filterMap_cons, List.length_cons,
      totalSize_cons] at ih ⊢
    split
    · omega
    · rename_i arg harg
      have : arg.size + 1 ≤ ty.size := by
        cases ty with
        | known name args =>
          have := size_le_totalSize (List.mem_of_getElem? harg)
          simp only [Reference.of] at this
          simp only [size]
          omega
        | _ => simp [Reference.of] at harg
      simp only [totalSize_cons]
      omega

/-- The join of any number of types; the join of none is null. -/
def join (types : List Ty) : Ty :=
  match _hops : operands types with
  | [] => null
  | [ty] => ty
  | first :: second :: rest =>
    let distinctTypes := first :: second :: rest
    match joinStrings distinctTypes, Numeric.promote distinctTypes with
    | some ty, _ => ty
    | none, some ty => ty
    | none, none =>
      if distinctTypes.all (·.primitive?.isSome) then
        joinPrimitives (distinctTypes.filterMap primitive?)
      else if distinctTypes.any (·.primitive?.isSome) then object
      else
        let references := distinctTypes.map Reference.of
        let ancestor := builtinTable.mostSpecificCommonAncestor (references.map (·.name))
        if Reference.agree ancestor references then
          known ancestor ((List.range (Reference.arity references)).map fun i ↦
            join (Reference.column references i))
        else ofClass ancestor
termination_by totalSize types
decreasing_by
  have hle := totalSize_operands_le types
  have hcol := totalSize_column_le (first :: second :: rest) i
  rw [_hops] at hle
  simp only [List.length_cons] at hcol
  omega

/-- The least upper bound of types; a single type is its own. -/
def lub : List Ty → Except TypeError Ty
  | [] => .error .emptyJoin
  | [ty] => .ok ty
  | types => .ok (join types)

def lub2 (a b : Ty) : Ty := join [a, b]

end Ty

end ExprTyping
