import Mathlib.Data.Option.Basic
import ExprTyping.Proofs.JoinCongruence
import ExprTyping.Rule.Standard

/-!
# Relations that the type algebra respects

A relation between types is compatible if it refines equality and is kept by the few operations
from which all rules build their answers. Equality decides every branch of these operations, so
both sides take the same one.
-/

namespace ExprTyping

namespace Ty

section Observations

variable {a b : Ty}

theorem isUnknown_eq_of_beq (hab : a == b) : a.isUnknown = b.isUnknown := by
  cases hab using beq_cases <;> rfl

theorem isDynamic_eq_of_beq (hab : a == b) : a.isDynamic = b.isDynamic := by
  cases hab using beq_cases <;> rfl

theorem isStringLike_eq_of_beq (hab : a == b) : a.isStringLike = b.isStringLike := by
  rw [isStringLike, isStringLike, isNamed_eq_of_beq hab, isNamed_eq_of_beq hab]

end Observations

theorem rel_orElse {R : Ty → Ty → Prop} {x y x' y' : Option Ty} (hxy : Option.Rel R x y)
    (hxy' : Option.Rel R x' y') : Option.Rel R (x <|> x') (y <|> y') := by
  cases hxy with
  | some h => exact .some h
  | none => exact hxy'

/-- The relation refines equality and is kept by joins, by classes in their arguments and by the
types that rules make up. If names are bound statically, none of these is dynamic. -/
structure Compatible (R : Ty → Ty → Prop) (static : Bool) : Prop where
  beq {a b : Ty} : R a b → a == b
  primitive (kind : Primitive) : R (primitive kind) (primitive kind)
  null : R null null
  unknown (reason : String) : R (unknown reason) (unknown reason)
  dynamic (hstatic : static = false) (hint : Option String) : R (dynamic hint) (dynamic hint)
  dynamic_of {hint hint' : Option String} :
    R (.dynamic hint) (.dynamic hint') → ∀ other, R (.dynamic other) (.dynamic other)
  known_iff {name : ClassName} {as bs : List Ty} :
    R (known name as) (known name bs) ↔ List.Forall₂ R as bs
  array {a b : Ty} : R (array a) (array b) → R a b
  join {as bs : List Ty} : List.Forall₂ R as bs → R (join as) (join bs)

namespace Compatible

variable {R : Ty → Ty → Prop} {static : Bool} {a b : Ty} (hR : Compatible R static)

include hR

theorem ofClass (name : ClassName) : R (ofClass name) (ofClass name) := hR.known_iff.2 .nil

theorem listOf (hab : R a b) : R (listOf a) (listOf b) := hR.known_iff.2 (.cons hab .nil)

theorem lub2 {c d : Ty} (hab : R a b) (hcd : R c d) : R (lub2 a c) (lub2 b d) :=
  hR.join (.cons hab (.cons hcd .nil))

/-- The boxed form of a primitive is a class, and any other type is its own boxed form. -/
theorem boxed (hab : R a b) : R a.boxed b.boxed := by
  cases hR.beq hab using beq_cases with
  | primitive kind => exact hR.ofClass kind.wrapper
  | known | dynamic | unknown | union | null | array => exact hab

theorem of_isDynamic (hab : R a b) (h : a.isDynamic) (hint : Option String) :
    R (.dynamic hint) (.dynamic hint) := by
  cases hR.beq hab using beq_cases with
  | dynamic => exact hR.dynamic_of hab hint
  | known | primitive | unknown | union | null | array => cases h

/-- Related types are equal, and equal types are the same operand of arithmetic. -/
theorem promote_eq {as bs : List Ty} (h : List.Forall₂ R as bs) :
    Numeric.promote as = Numeric.promote bs := by
  have hmap : as.map Numeric.Operand.of? = bs.map Numeric.Operand.of? := by
    induction h with
    | nil => rfl
    | cons hab _ ih =>
      rw [List.map_cons, List.map_cons, ih, Numeric.operand_eq_of_beq (hR.beq hab)]
  exact Numeric.promote_congr fun operand ↦ by rw [hmap]

/-- A promoted type is a primitive or a class without arguments. -/
theorem of_promote {types : List Ty} {ty : Ty} (h : Numeric.promote types = some ty) : R ty ty := by
  rcases Numeric.promote_cases h with ⟨kind, rfl⟩ | ⟨name, rfl⟩
  · exact hR.primitive kind
  · exact hR.ofClass name

/-! ## Elements -/

theorem mapValue? (hab : R a b) : Option.Rel R a.mapValue? b.mapValue? := by
  cases hR.beq hab using beq_cases with
  | known name as bs =>
    match as, bs, hR.known_iff.1 hab with
    | [], [], _ | [_], [_], _ | _ :: _ :: _ :: _, _ :: _ :: _ :: _, _ => exact .none
    | [_, _], [_, _], .cons _ (.cons hvalue _) =>
      simp only [Ty.mapValue?]
      split
      · exact .some hvalue
      · exact .none
  | primitive | dynamic | unknown | union | null | array => exact .none

/-- Elements are components of arrays or arguments of classes, and these are related in turn. -/
theorem element? (hab : R a b) : Option.Rel R a.element? b.element? := by
  cases hR.beq hab using beq_cases with
  | known name as bs =>
    have hvalue := hR.mapValue? hab
    match as, bs, hR.known_iff.1 hab with
    | [], [], _ | [_, _], [_, _], _ | _ :: _ :: _ :: _, _ :: _ :: _ :: _, _ => exact hvalue
    | [_], [_], .cons helement _ =>
      simp only [Ty.element?]
      split
      · exact .some helement
      · exact .none
  | array => exact .some (hR.array hab)
  | primitive | dynamic | unknown | union | null => exact .none

theorem subscript? (hab : R a b) : Option.Rel R a.subscript? b.subscript? := by
  rw [Ty.subscript?, Ty.subscript?, isStringLike_eq_of_beq (hR.beq hab)]
  split
  · exact .some (hR.ofClass ClassName.string)
  · exact rel_orElse (hR.mapValue? hab) (hR.element? hab)

/-! ## What rules make of types -/

theorem asArgument (hab : R a b) : R (Rule.asArgument a) (Rule.asArgument b) := by
  rw [Rule.asArgument, Rule.asArgument, isNull_eq_of_beq (hR.beq hab)]
  split
  · exact hR.ofClass ClassName.object
  · exact hR.boxed hab

theorem elementArgument {as bs : List Ty} (h : List.Forall₂ R as bs) :
    R (Rule.elementArgument as) (Rule.elementArgument bs) := by
  match as, bs, h with
  | [], [], _ => exact hR.ofClass ClassName.object
  | [_], [_], .cons hab _ => exact hR.asArgument hab
  | _ :: _ :: _, _ :: _ :: _, h => exact hR.asArgument (hR.join h)

theorem promoted (hab : R a b) : R (Rule.promoted a) (Rule.promoted b) := by
  have hsame := hR.promote_eq (.cons hab .nil)
  unfold Rule.promoted Numeric.promoteUnary
  rw [← hsame]
  cases h : Numeric.promote [a] with
  | none => exact hab
  | some ty => exact hR.of_promote h

/-- Both runs see text on some side, or neither does. -/
theorem sumTy {c d : Ty} (hab : R a b) (hcd : R c d) : R (Rule.sumTy a c) (Rule.sumTy b d) := by
  rw [Rule.sumTy, Rule.sumTy, isStringLike_eq_of_beq (hR.beq hab),
    isStringLike_eq_of_beq (hR.beq hcd)]
  split
  · exact hR.ofClass ClassName.string
  · exact hR.lub2 hab hcd

theorem dynamicIf (hab : R a b) (hint : Option String) :
    Option.Rel R (if a.isDynamic then some (.dynamic hint) else none)
      (if b.isDynamic then some (.dynamic hint) else none) := by
  rw [← isDynamic_eq_of_beq (hR.beq hab)]
  split
  next h => exact .some (hR.of_isDynamic hab h hint)
  · exact .none

theorem subscriptTy? (hab : R a b) : Option.Rel R (Rule.subscriptTy? a) (Rule.subscriptTy? b) :=
  rel_orElse (hR.subscript? hab) (hR.dynamicIf hab none)

theorem rangeTy {c d : Ty} (hab : R a b) (hcd : R c d) :
    R (Rule.rangeTy a c) (Rule.rangeTy b d) := by
  have hbound {x y : Ty} (hxy : R x y) : Rule.isIntBound x = Rule.isIntBound y := by
    rw [Rule.isIntBound, Rule.isIntBound, Numeric.operand_eq_of_beq (hR.beq hxy)]
  rw [Rule.rangeTy, Rule.rangeTy, hbound hab, hbound hcd]
  split
  · exact hR.ofClass ClassName.intRange
  · exact hR.known_iff.2 (.cons (hR.asArgument (hR.lub2 hab hcd)) .nil)

end Compatible

end Ty

end ExprTyping
