import ExprTyping.Ty.Basic

/-!
# Well-formed types

A union that was built by the union constructors has at least two members, no two of them equal and
none of them a union again. A type is well-formed if all its unions are like that, at any depth.
-/

namespace ExprTyping.Ty

/-- Induction over a type, with a hypothesis for each argument, member and component. -/
@[elab_as_elim, induction_eliminator]
theorem induction_parts {motive : Ty → Prop}
    (known : ∀ name args, (∀ arg ∈ args, motive arg) → motive (known name args))
    (primitive : ∀ kind, motive (primitive kind))
    (dynamic : ∀ hint, motive (dynamic hint))
    (unknown : ∀ reason, motive (unknown reason))
    (union : ∀ members, (∀ member ∈ members, motive member) → motive (union members))
    (null : motive null)
    (array : ∀ component, motive component → motive (array component)) (ty : Ty) : motive ty := by
  cases ty with
  | known name args =>
    refine known name args fun arg harg ↦ ?_
    exact induction_parts known primitive dynamic unknown union null array arg
  | primitive kind => exact primitive kind
  | dynamic hint => exact dynamic hint
  | unknown reason => exact unknown reason
  | union members =>
    refine union members fun member hmember ↦ ?_
    exact induction_parts known primitive dynamic unknown union null array member
  | null => exact null
  | array component =>
    exact array component
      (induction_parts known primitive dynamic unknown union null array component)
termination_by ty.size
decreasing_by
  · have := size_le_totalSize harg
    simp only [size]
    omega
  · have := size_le_totalSize hmember
    simp only [size]
    omega
  · simp only [size]
    omega

inductive WellFormed : Ty → Prop
  | known (name : ClassName) {args : List Ty} (hargs : ∀ arg ∈ args, WellFormed arg) :
      WellFormed (known name args)
  | primitive (kind : Primitive) : WellFormed (primitive kind)
  | dynamic (hint : Option String) : WellFormed (dynamic hint)
  | unknown (reason : String) : WellFormed (unknown reason)
  | union {members : List Ty} (htwo : 2 ≤ members.length)
      (hdistinct : members.Pairwise fun a b ↦ ¬a == b)
      (hflat : ∀ member ∈ members, member.members? = none)
      (hmembers : ∀ member ∈ members, WellFormed member) : WellFormed (union members)
  | null : WellFormed null
  | array {component : Ty} (hcomponent : WellFormed component) : WellFormed (array component)

attribute [simp] WellFormed.primitive WellFormed.dynamic WellFormed.unknown WellFormed.null

@[simp] theorem wellFormed_known_iff {name : ClassName} {args : List Ty} :
    WellFormed (known name args) ↔ ∀ arg ∈ args, WellFormed arg := by
  constructor
  · intro h
    cases h with
    | known _ hargs => exact hargs
  · exact WellFormed.known name

theorem wellFormed_union_iff {members : List Ty} :
    WellFormed (union members) ↔ 2 ≤ members.length ∧ (members.Pairwise fun a b ↦ ¬a == b) ∧
      (∀ member ∈ members, member.members? = none) ∧ ∀ member ∈ members, WellFormed member := by
  constructor
  · intro h
    cases h with
    | union htwo hdistinct hflat hmembers => exact ⟨htwo, hdistinct, hflat, hmembers⟩
  · rintro ⟨htwo, hdistinct, hflat, hmembers⟩
    exact .union htwo hdistinct hflat hmembers

@[simp] theorem wellFormed_array_iff {component : Ty} :
    WellFormed (array component) ↔ WellFormed component := by
  constructor
  · intro h
    cases h with
    | array hcomponent => exact hcomponent
  · exact .array

@[simp] theorem wellFormed_ofClass (name : ClassName) : WellFormed (ofClass name) := by
  simp [ofClass]

mutual

def isWellFormed : Ty → Bool
  | known _ args => allWellFormed args
  | union members =>
    decide (2 ≤ members.length) && decide (members.Pairwise fun a b ↦ ¬a == b) &&
      members.all (·.members?.isNone) && allWellFormed members
  | array component => isWellFormed component
  | primitive _ | dynamic _ | unknown _ | null => true

def allWellFormed : List Ty → Bool
  | [] => true
  | ty :: types => isWellFormed ty && allWellFormed types

end

theorem allWellFormed_eq_true_iff {types : List Ty} :
    allWellFormed types = true ↔ ∀ ty ∈ types, isWellFormed ty = true := by
  induction types with
  | nil => simp [allWellFormed]
  | cons ty types ih => simp [allWellFormed, ih]

/-- The test looks at all unions of a type, at any depth. -/
theorem isWellFormed_eq_true_iff {ty : Ty} : ty.isWellFormed = true ↔ ty.WellFormed := by
  induction ty with
  | known name args ih =>
    rw [isWellFormed, allWellFormed_eq_true_iff, wellFormed_known_iff]
    exact forall₂_congr ih
  | union members ih =>
    rw [isWellFormed, wellFormed_union_iff]
    simp only [Bool.and_eq_true, decide_eq_true_eq, allWellFormed_eq_true_iff, List.all_eq_true,
      Option.isNone_iff_eq_none, and_assoc, forall₂_congr ih]
  | array component ih => rw [isWellFormed, ih, wellFormed_array_iff]
  | primitive | dynamic | unknown | null => simp [isWellFormed]

instance (ty : Ty) : Decidable ty.WellFormed := decidable_of_iff _ isWellFormed_eq_true_iff

end ExprTyping.Ty
