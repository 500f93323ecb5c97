import Mathlib.Logic.Relation
import ExprTyping.Proofs.JoinEquations

/-!
# Primitives as type arguments

A type argument stands for an object, so it should not be a primitive. A join keeps this unless it
joins the arguments of one class position by position and a column of arguments, there or further
down, comes to a primitive: promotion does not box its result. Without unions such a column is one
of different boxed numbers, all of them narrower than `int`.
-/

namespace ExprTyping.Ty

/-- No class has a primitive as an argument, at any depth. -/
inductive ReferenceArgs : Ty → Prop
  | known (name : ClassName) {args : List Ty} (hreference : ∀ arg ∈ args, arg.primitive? = none)
      (hargs : ∀ arg ∈ args, ReferenceArgs arg) : ReferenceArgs (known name args)
  | primitive (kind : Primitive) : ReferenceArgs (primitive kind)
  | dynamic (hint : Option String) : ReferenceArgs (dynamic hint)
  | unknown (reason : String) : ReferenceArgs (unknown reason)
  | union {members : List Ty} (hmembers : ∀ member ∈ members, ReferenceArgs member) :
      ReferenceArgs (union members)
  | null : ReferenceArgs null
  | array {component : Ty} (hcomponent : ReferenceArgs component) :
      ReferenceArgs (array component)

attribute [simp] ReferenceArgs.primitive ReferenceArgs.dynamic ReferenceArgs.unknown
  ReferenceArgs.null

theorem referenceArgs_known_iff {name : ClassName} {args : List Ty} :
    ReferenceArgs (known name args) ↔
      ∀ arg ∈ args, arg.primitive? = none ∧ ReferenceArgs arg := by
  constructor
  · intro h arg harg
    cases h with
    | known _ hreference hargs => exact ⟨hreference arg harg, hargs arg harg⟩
  · intro h
    exact .known name (fun arg harg ↦ (h arg harg).1) fun arg harg ↦ (h arg harg).2

@[simp] theorem referenceArgs_union_iff {members : List Ty} :
    ReferenceArgs (union members) ↔ ∀ member ∈ members, ReferenceArgs member := by
  constructor
  · intro h
    cases h with
    | union hmembers => exact hmembers
  · exact .union

@[simp] theorem referenceArgs_array_iff {component : Ty} :
    ReferenceArgs (array component) ↔ ReferenceArgs component := by
  constructor
  · intro h
    cases h with
    | array hcomponent => exact hcomponent
  · exact .array

@[simp] theorem referenceArgs_ofClass (name : ClassName) : ReferenceArgs (ofClass name) :=
  .known name (by simp) (by simp)

theorem ReferenceArgs.of_mem_args {ty arg : Ty} (h : ty.ReferenceArgs) (harg : arg ∈ ty.args) :
    arg.primitive? = none ∧ arg.ReferenceArgs := by
  cases ty with
  | known => exact referenceArgs_known_iff.1 h arg harg
  | _ => cases harg

theorem ReferenceArgs.of_mem_parts {ty part : Ty} (h : ty.ReferenceArgs)
    (hpart : part ∈ ty.parts) : part.ReferenceArgs := by
  cases ty with
  | union => exact referenceArgs_union_iff.1 h part hpart
  | _ =>
    obtain rfl := List.mem_singleton.1 hpart
    exact h

/-! ## The columns of a join -/

/-- The join of `types` has the join of `column` as an argument. -/
def JoinsColumn (types column : List Ty) : Prop :=
  2 ≤ (operands types).length ∧ ∃ name arity, OneClass (operands types) name arity ∧
    ∃ i < arity, column = Reference.column ((operands types).map Reference.of) i

theorem JoinsColumn.totalSize_lt {types column : List Ty} (h : JoinsColumn types column) :
    totalSize column < totalSize types := by
  obtain ⟨htwo, _, _, _, i, _, rfl⟩ := h
  exact totalSize_operands_column_lt htwo i

theorem JoinsColumn.of_mem {types column : List Ty} (h : JoinsColumn types column) {arg : Ty}
    (harg : arg ∈ column) : ∃ source ∈ types, ∃ part ∈ source.parts, arg ∈ part.args := by
  obtain ⟨-, _, _, -, i, -, rfl⟩ := h
  obtain ⟨operand, hoperand, harg⟩ := mem_args_of_mem_column harg
  obtain ⟨source, hsource, hpart⟩ := exists_source_of_mem_operands hoperand
  exact ⟨source, hsource, operand, hpart, harg⟩

theorem JoinsColumn.referenceArgs {types column : List Ty} (h : JoinsColumn types column)
    (htypes : ∀ ty ∈ types, ty.ReferenceArgs) :
    ∀ arg ∈ column, arg.primitive? = none ∧ arg.ReferenceArgs := by
  intro arg harg
  obtain ⟨source, hsource, part, hpart, harg⟩ := h.of_mem harg
  exact ((htypes source hsource).of_mem_parts hpart).of_mem_args harg

/-- Without a column to join, the join is an operand, a primitive, null or a class without
arguments. -/
theorem referenceArgs_join_of_no_column {types : List Ty} (h : ∀ ty ∈ types, ty.ReferenceArgs)
    (hnone : ∀ column, ¬JoinsColumn types column) : (join types).ReferenceArgs := by
  match hops : operands types with
  | [] => simp [join_of_operands_eq_nil hops]
  | [ty] =>
    obtain ⟨source, hsource, hpart⟩ :=
      exists_source_of_mem_operands (hops ▸ List.mem_singleton_self ty)
    rw [join_of_operands_eq_singleton hops]
    exact (h source hsource).of_mem_parts hpart
  | first :: second :: rest =>
    have htwo : 2 ≤ (operands types).length := by simp [hops]
    rw [join_of_two_le htwo]
    rcases joinDistinct_cases htwo (pairwise_distinct _) with
      ⟨kind, -, hjoin⟩ | ⟨name, hjoin⟩ | ⟨name, arity, hpos, hclass, -⟩
    · simp [hjoin]
    · simp [hjoin]
    · exact absurd ⟨htwo, name, arity, hclass, 0, hpos, rfl⟩ (hnone _)

/-- A join has reference arguments if the joins of its columns are references and have some. -/
theorem referenceArgs_join_iff_columns {types : List Ty} (h : ∀ ty ∈ types, ty.ReferenceArgs) :
    (join types).ReferenceArgs ↔
      ∀ column, JoinsColumn types column →
        (join column).primitive? = none ∧ (join column).ReferenceArgs := by
  by_cases hcolumns : ∃ column, JoinsColumn types column
  · obtain ⟨_, htwo, name, arity, hclass, i, hi, -⟩ := hcolumns
    have hne : operands types ≠ [] :=
      List.ne_nil_of_length_pos (Nat.lt_of_lt_of_le Nat.zero_lt_two htwo)
    obtain ⟨first, hfirst⟩ := List.exists_mem_of_ne_nil _ hne
    rw [join_of_two_le htwo, joinDistinct_of_oneClass hne (Nat.zero_lt_of_lt hi) hclass,
      referenceArgs_known_iff, List.forall_mem_map]
    constructor
    · rintro hargs _ ⟨-, name', arity', hclass', j, hj, rfl⟩
      have harity : arity' = arity := (hclass' first hfirst).2.symm.trans (hclass first hfirst).2
      exact hargs j (List.mem_range.2 (harity ▸ hj))
    · intro hcolumns j hj
      exact hcolumns _ ⟨htwo, name, arity, hclass, j, List.mem_range.1 hj, rfl⟩
  · have hnone : ∀ column, ¬JoinsColumn types column := not_exists.1 hcolumns
    exact iff_of_true (referenceArgs_join_of_no_column h hnone)
      fun column hcolumn ↦ absurd hcolumn (hnone column)

/-- The join of the types is a primitive: it is the only operand, or the operands are promoted
to it. -/
def ComesToPrimitive (types : List Ty) : Prop :=
  (∃ kind, operands types = [primitive kind]) ∨
    2 ≤ (operands types).length ∧
      ∃ kind, Numeric.promote (operands types) = some (primitive kind)

/-- Only a single operand or a promotion makes a join a primitive. -/
theorem primitive?_join_eq_none_iff {types : List Ty} :
    (join types).primitive? = none ↔ ¬ComesToPrimitive types := by
  match hops : operands types with
  | [] => simp [join_of_operands_eq_nil hops, ComesToPrimitive, hops, primitive?]
  | [ty] =>
    rw [join_of_operands_eq_singleton hops, ComesToPrimitive, hops]
    cases ty <;> simp [primitive?]
  | first :: second :: rest =>
    have htwo : 2 ≤ (operands types).length := by simp [hops]
    have hiff : ComesToPrimitive types ↔
        ∃ kind, Numeric.promote (operands types) = some (primitive kind) := by
      simp [ComesToPrimitive, hops]
    rw [join_of_two_le htwo, hiff]
    constructor
    · rintro hnone ⟨kind, hpromote⟩
      rw [joinDistinct_of_promote hpromote] at hnone
      cases hnone
    · intro hpromote
      rcases joinDistinct_cases htwo (pairwise_distinct _) with
        ⟨kind, hkind, -⟩ | ⟨name, hjoin⟩ | ⟨name, arity, -, -, hjoin⟩
      · exact absurd ⟨kind, hkind⟩ hpromote
      · rw [hjoin]
        rfl
      · rw [hjoin]
        rfl

/-- A join of types with reference arguments has reference arguments, unless a column that it
joins on the way, at any depth, comes to a primitive. -/
theorem referenceArgs_join_iff {types : List Ty} (h : ∀ ty ∈ types, ty.ReferenceArgs) :
    (join types).ReferenceArgs ↔
      ∀ column, Relation.TransGen JoinsColumn types column → ¬ComesToPrimitive column := by
  induction hsize : totalSize types using Nat.strong_induction_on generalizing types with
  | _ size ih =>
    have hcolumn : ∀ column, JoinsColumn types column → ((join column).ReferenceArgs ↔
        ∀ deeper, Relation.TransGen JoinsColumn column deeper → ¬ComesToPrimitive deeper) := by
      intro column hstep
      have hargs : ∀ arg ∈ column, arg.ReferenceArgs :=
        fun arg harg ↦ (hstep.referenceArgs h arg harg).2
      exact ih _ (hsize ▸ hstep.totalSize_lt) hargs rfl
    rw [referenceArgs_join_iff_columns h]
    constructor
    · intro hcolumns deeper hpath
      obtain ⟨column, hstep, hrest⟩ := Relation.TransGen.head'_iff.1 hpath
      obtain ⟨hprimitive, hargs⟩ := hcolumns column hstep
      rcases Relation.reflTransGen_iff_eq_or_transGen.1 hrest with rfl | hrest
      · exact primitive?_join_eq_none_iff.1 hprimitive
      · exact (hcolumn column hstep).1 hargs deeper hrest
    · intro hpaths column hstep
      refine ⟨primitive?_join_eq_none_iff.2 (hpaths column (.single hstep)), ?_⟩
      exact (hcolumn column hstep).2 fun deeper hrest ↦ hpaths deeper (.head hstep hrest)

/-! ## Without unions -/

inductive UnionFree : Ty → Prop
  | known (name : ClassName) {args : List Ty} (hargs : ∀ arg ∈ args, UnionFree arg) :
      UnionFree (known name args)
  | primitive (kind : Primitive) : UnionFree (primitive kind)
  | dynamic (hint : Option String) : UnionFree (dynamic hint)
  | unknown (reason : String) : UnionFree (unknown reason)
  | null : UnionFree null
  | array {component : Ty} (hcomponent : UnionFree component) : UnionFree (array component)

attribute [simp] UnionFree.primitive UnionFree.dynamic UnionFree.unknown UnionFree.null

theorem unionFree_known_iff {name : ClassName} {args : List Ty} :
    UnionFree (known name args) ↔ ∀ arg ∈ args, UnionFree arg := by
  constructor
  · intro h
    cases h with
    | known _ hargs => exact hargs
  · exact .known name

theorem UnionFree.eq_of_mem_parts {ty part : Ty} (h : ty.UnionFree) (hpart : part ∈ ty.parts) :
    part = ty := by
  cases h <;> exact List.mem_singleton.1 hpart

def MixesNarrow (types : List Ty) : Prop :=
  2 ≤ (operands types).length ∧ ∀ ty ∈ operands types, Numeric.IsNarrowBox ty

/-- Types that are neither primitives nor unions come to a primitive by promotion, which boxes its
result unless all of them are narrow. -/
theorem comesToPrimitive_iff_mixesNarrow {types : List Ty}
    (h : ∀ ty ∈ types, ty.primitive? = none ∧ ty.UnionFree) :
    ComesToPrimitive types ↔ MixesNarrow types := by
  have hboxed : ∀ ty ∈ operands types, ty.primitive? = none := by
    intro ty hty
    obtain ⟨source, hsource, hpart⟩ := exists_source_of_mem_operands hty
    obtain ⟨hreference, hfree⟩ := h source hsource
    rw [hfree.eq_of_mem_parts hpart]
    exact hreference
  have hmany : ¬∃ kind, operands types = [primitive kind] := by
    rintro ⟨kind, hops⟩
    cases hboxed (primitive kind) (by simp [hops])
  rw [ComesToPrimitive, or_iff_right hmany, MixesNarrow]
  refine and_congr_right fun htwo ↦ Numeric.promote_eq_primitive_iff ?_ hboxed
  exact List.ne_nil_of_length_pos (Nat.lt_of_lt_of_le Nat.zero_lt_two htwo)

theorem JoinsColumn.unionFree {types column : List Ty} (h : JoinsColumn types column)
    (htypes : ∀ ty ∈ types, ty.UnionFree) : ∀ arg ∈ column, arg.UnionFree := by
  intro arg harg
  obtain ⟨source, hsource, part, hpart, harg⟩ := h.of_mem harg
  have hfree := htypes source hsource
  rw [hfree.eq_of_mem_parts hpart] at harg
  cases source with
  | known => exact unionFree_known_iff.1 hfree arg harg
  | _ => cases harg

/-- What holds of the arguments in one column holds of those in the columns below it, so without
unions different narrow numbers are all that matters at any depth. -/
theorem referenceArgs_join_iff_of_unionFree {types : List Ty}
    (h : ∀ ty ∈ types, ty.ReferenceArgs ∧ ty.UnionFree) :
    (join types).ReferenceArgs ↔
      ∀ column, Relation.TransGen JoinsColumn types column → ¬MixesNarrow column := by
  have hreference : ∀ ty ∈ types, ty.ReferenceArgs := fun ty hty ↦ (h ty hty).1
  have hfree : ∀ ty ∈ types, ty.UnionFree := fun ty hty ↦ (h ty hty).2
  have hpath {column : List Ty} (hpath : Relation.TransGen JoinsColumn types column) :
      (∀ arg ∈ column, arg.primitive? = none ∧ arg.ReferenceArgs) ∧
        ∀ arg ∈ column, arg.UnionFree := by
    induction hpath with
    | single hstep => exact ⟨hstep.referenceArgs hreference, hstep.unionFree hfree⟩
    | tail _ hstep ih =>
      exact ⟨hstep.referenceArgs fun arg harg ↦ (ih.1 arg harg).2, hstep.unionFree ih.2⟩
  rw [referenceArgs_join_iff hreference]
  refine forall₂_congr fun column hcolumn ↦ not_congr (comesToPrimitive_iff_mixesNarrow ?_)
  intro arg harg
  exact ⟨((hpath hcolumn).1 arg harg).1, (hpath hcolumn).2 arg harg⟩

end ExprTyping.Ty
