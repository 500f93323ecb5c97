import ExprTyping.Proofs.CommonAncestor
import ExprTyping.Proofs.Operands
import ExprTyping.Proofs.Promotion

/-!
# The join, case by case

The join looks at the number of its operands first, and at least two of them are joined by a
sequence of rules. Its result is made of parts of the operands, of fixed types and of classes, so
that a property which passes to the parts of a type and holds of these holds of the join as well.
-/

namespace ExprTyping.Ty

/-! ## The join of different types -/

def joinReferences (references : List Reference) : Ty :=
  let ancestor := builtinTable.mostSpecificCommonAncestor (references.map (·.name))
  if Reference.agree ancestor references then
    known ancestor ((List.range (Reference.arity references)).map fun i ↦
      join (Reference.column references i))
  else ofClass ancestor

/-- The join of at least two different types. -/
def joinDistinct (types : List Ty) : Ty :=
  match joinStrings types, Numeric.promote types with
  | some ty, _ => ty
  | none, some ty => ty
  | none, none =>
    if types.all (·.primitive?.isSome) then joinPrimitives (types.filterMap primitive?)
    else if types.any (·.primitive?.isSome) then object
    else joinReferences (types.map Reference.of)

theorem join_of_operands_eq_nil {types : List Ty} (h : operands types = []) :
    join types = null := by
  rw [join]
  split <;> simp_all

theorem join_of_operands_eq_singleton {types : List Ty} {ty : Ty} (h : operands types = [ty]) :
    join types = ty := by
  rw [join]
  split <;> simp_all

theorem join_of_two_le {types : List Ty} (h : 2 ≤ (operands types).length) :
    join types = joinDistinct (operands types) := by
  rw [join]
  split
  next hops => simp [hops] at h
  next hops => simp [hops] at h
  next hops =>
    rw [hops]
    rfl

/-! ## Columns of arguments -/

@[simp] theorem args_reference (ty : Ty) : (Reference.of ty).args = ty.args := by
  cases ty <;> rfl

theorem mem_column_iff {types : List Ty} {i : Nat} {ty : Ty} :
    ty ∈ Reference.column (types.map Reference.of) i ↔
      ∃ source ∈ types, source.args[i]? = some ty := by
  simp [Reference.column]

theorem mem_args_of_mem_column {types : List Ty} {i : Nat} {ty : Ty}
    (h : ty ∈ Reference.column (types.map Reference.of) i) :
    ∃ source ∈ types, ty ∈ source.args := by
  obtain ⟨source, hsource, harg⟩ := mem_column_iff.1 h
  exact ⟨source, hsource, List.mem_of_getElem? harg⟩

/-- A column of arguments is smaller than the types that it is taken from. -/
theorem totalSize_operands_column_lt {types : List Ty} (h : 2 ≤ (operands types).length) (i : Nat) :
    totalSize (Reference.column ((operands types).map Reference.of) i) < totalSize types := by
  have hle := totalSize_operands_le types
  have hcolumn := totalSize_column_le (operands types) i
  omega

theorem name?_eq_some_iff {ty : Ty} {name : ClassName} :
    ty.name? = some name ↔ ty = known name ty.args := by
  cases ty <;> simp [name?, args]

def OneClass (types : List Ty) (name : ClassName) (arity : Nat) : Prop :=
  ∀ ty ∈ types, ty.name? = some name ∧ ty.args.length = arity

/-! ## The rules, one by one -/

theorem joinStrings_eq (types : List Ty) :
    joinStrings types = if types.length = 2 ∧ types.any (·.isNamed ClassName.string) ∧
      types.any (·.isNamed ClassName.gstring) then some string else none := by
  have hexclusive (ty : Ty) :
      ¬(ty.isNamed ClassName.string = true ∧ ty.isNamed ClassName.gstring = true) := by
    simp only [isNamed, beq_iff_eq]
    rintro ⟨h, h'⟩
    exact absurd (h.symm.trans h') (by decide)
  rcases types with _ | ⟨a, _ | ⟨b, _ | ⟨c, rest⟩⟩⟩
  · simp [joinStrings]
  · simp [joinStrings]
  · have ha := hexclusive a
    have hb := hexclusive b
    simp only [joinStrings, List.any_cons, List.any_nil, List.length_cons, List.length_nil]
    cases ha₁ : a.isNamed ClassName.string <;> cases ha₂ : a.isNamed ClassName.gstring <;>
      cases hb₁ : b.isNamed ClassName.string <;> cases hb₂ : b.isNamed ClassName.gstring <;>
      simp_all
  · simp [joinStrings]

theorem map_primitive_filterMap {types : List Ty} (hall : types.all (·.primitive?.isSome)) :
    (types.filterMap primitive?).map primitive = types := by
  induction types with
  | nil => rfl
  | cons ty types ih =>
    simp only [List.all_cons, Bool.and_eq_true] at hall
    cases ty <;> simp_all [primitive?]

/-- Two booleans are not different, so different primitives are not all boolean. -/
theorem not_all_boolean {types : List Ty} (htwo : 2 ≤ types.length)
    (hdistinct : types.Pairwise fun a b ↦ ¬a == b) (hall : types.all (·.primitive?.isSome)) :
    ¬(types.filterMap primitive?).all (· == .boolean) := by
  intro hboolean
  have hmem : ∀ ty ∈ types, ty = boolean := by
    rw [← map_primitive_filterMap hall, List.forall_mem_map]
    intro kind hkind
    exact congrArg primitive (beq_iff_eq.1 (List.all_eq_true.1 hboolean kind hkind))
  match types, htwo, hdistinct with
  | a :: b :: _, _, hdistinct =>
    refine (List.pairwise_cons.1 hdistinct).1 b (by simp) ?_
    rw [hmem a (by simp), hmem b (by simp)]
    exact beq_refl boolean

/-- Different primitives that cannot be promoted together meet at the top class. -/
theorem joinPrimitives_eq_object {types : List Ty} (htwo : 2 ≤ types.length)
    (hdistinct : types.Pairwise fun a b ↦ ¬a == b) (hpromote : Numeric.promote types = none)
    (hall : types.all (·.primitive?.isSome)) :
    joinPrimitives (types.filterMap primitive?) = object := by
  rw [joinPrimitives, if_neg (not_all_boolean htwo hdistinct hall), map_primitive_filterMap hall,
    hpromote]
  simp

theorem agree_iff {name : ClassName} {references : List Reference} :
    Reference.agree name references ↔ ∀ reference ∈ references, reference.name = name ∧
      ∀ other ∈ references, reference.args.length = other.args.length := by
  cases references with
  | nil => simp [Reference.agree]
  | cons first rest =>
    simp only [Reference.agree, Reference.arity, List.all_eq_true, Bool.and_eq_true, beq_iff_eq]
    constructor
    · intro h reference hreference
      refine ⟨(h reference hreference).1, fun other hother ↦ ?_⟩
      rw [(h reference hreference).2, (h other hother).2]
    · intro h reference hreference
      exact ⟨(h reference hreference).1, (h reference hreference).2 first (by simp)⟩

theorem joinReferences_cases (types : List Ty) :
    (∃ name, joinReferences (types.map Reference.of) = ofClass name) ∨
      ∃ name arity, 0 < arity ∧ OneClass types name arity ∧
        joinReferences (types.map Reference.of) = known name ((List.range arity).map fun i ↦
          join (Reference.column (types.map Reference.of) i)) := by
  unfold joinReferences
  set name := builtinTable.mostSpecificCommonAncestor ((types.map Reference.of).map (·.name))
  by_cases hagree : Reference.agree name (types.map Reference.of) = true
  · rw [if_pos hagree]
    rcases Nat.eq_zero_or_pos (Reference.arity (types.map Reference.of)) with hzero | hpos
    · exact .inl ⟨name, by simp [hzero, ofClass]⟩
    · refine .inr ⟨name, _, hpos, fun ty hty ↦ ?_, rfl⟩
      simp only [Reference.agree, List.all_map, List.all_eq_true, Function.comp_apply,
        Bool.and_eq_true, beq_iff_eq, args_reference] at hagree
      obtain ⟨hname, hlength⟩ := hagree ty hty
      refine ⟨?_, hlength⟩
      cases ty with
      | known other args => exact congrArg some hname
      | _ =>
        rw [← hlength] at hpos
        simp [args] at hpos
  · rw [if_neg hagree]
    exact .inl ⟨name, rfl⟩

/-- No number has type arguments. -/
theorem promote_eq_none_of_args {types : List Ty} {ty : Ty} (hty : ty ∈ types)
    (hargs : ty.args ≠ []) : Numeric.promote types = none := by
  by_contra hsome
  obtain ⟨result, hpromote⟩ := Option.ne_none_iff_exists'.1 hsome
  obtain ⟨operand, hoperand⟩ := Numeric.exists_operand_of_promote hpromote hty
  cases ty with
  | known name args =>
    cases args with
    | nil => exact hargs rfl
    | cons arg args => cases hoperand
  | _ => exact hargs rfl

theorem joinDistinct_of_promote {types : List Ty} {ty : Ty}
    (h : Numeric.promote types = some ty) : joinDistinct types = ty := by
  have hstrings : joinStrings types = none := by
    rw [joinStrings_eq, if_neg]
    rintro ⟨-, hstring, -⟩
    obtain ⟨text, htext, hnamed⟩ := List.any_eq_true.1 hstring
    obtain ⟨operand, hoperand⟩ := Numeric.exists_operand_of_promote h htext
    obtain ⟨args, rfl⟩ : ∃ args, text = known ClassName.string args :=
      ⟨text.args, name?_eq_some_iff.1 (beq_iff_eq.1 hnamed)⟩
    cases args with
    | nil =>
      have hnone : Numeric.Operand.of? (known ClassName.string []) = none := by decide
      cases hnone.symm.trans hoperand
    | cons => cases hoperand
  simp only [joinDistinct, hstrings, h]

/-- None of the rules before the one for classes applies to a class with arguments. -/
theorem joinDistinct_of_oneClass {types : List Ty} {name : ClassName} {arity : Nat}
    (hne : types ≠ []) (hpos : 0 < arity) (h : OneClass types name arity) :
    joinDistinct types = known name ((List.range arity).map fun i ↦
      join (Reference.column (types.map Reference.of) i)) := by
  obtain ⟨first, hfirst⟩ := List.exists_mem_of_ne_nil types hne
  have hstrings : joinStrings types = none := by
    rw [joinStrings_eq, if_neg]
    simp only [isNamed, List.any_eq_true, beq_iff_eq]
    rintro ⟨-, ⟨a, ha, hstring⟩, b, hb, hgstring⟩
    have heq : some ClassName.string = some ClassName.gstring :=
      calc some ClassName.string
        _ = some name := hstring.symm.trans (h a ha).1
        _ = some ClassName.gstring := (h b hb).1.symm.trans hgstring
    exact absurd heq (by decide)
  have hargs : first.args ≠ [] := List.ne_nil_of_length_pos ((h first hfirst).2 ▸ hpos)
  have hprimitive : ∀ ty ∈ types, ty.primitive? = none := by
    intro ty hty
    rw [name?_eq_some_iff.1 (h ty hty).1]
    rfl
  have hall : types.all (·.primitive?.isSome) = false :=
    List.all_eq_false.2 ⟨first, hfirst, by simp [hprimitive first hfirst]⟩
  have hany : types.any (·.primitive?.isSome) = false :=
    List.any_eq_false.2 fun ty hty ↦ by simp [hprimitive ty hty]
  have hname : ∀ ty ∈ types, (Reference.of ty).name = name := by
    intro ty hty
    rw [name?_eq_some_iff.1 (h ty hty).1]
    rfl
  have hancestor :
      builtinTable.mostSpecificCommonAncestor ((types.map Reference.of).map (·.name)) = name := by
    refine SupertypeTable.mostSpecificCommonAncestor_of_forall_eq (by simpa using hne) ?_
    simpa using hname
  have hagree : Reference.agree name (types.map Reference.of) = true := by
    rw [agree_iff, List.forall_mem_map]
    refine fun ty hty ↦ ⟨hname ty hty, List.forall_mem_map.2 fun other hother ↦ ?_⟩
    rw [args_reference, args_reference, (h ty hty).2, (h other hother).2]
  have harity : Reference.arity (types.map Reference.of) = arity := by
    cases types with
    | nil => exact absurd rfl hne
    | cons ty types => simpa [Reference.arity] using (h ty (by simp)).2
  simp only [joinDistinct, hstrings, promote_eq_none_of_args hfirst hargs, hall, hany,
    joinReferences, hancestor, hagree, harity, Bool.false_eq_true, if_false, if_true]

/-- Different types are promoted to a primitive, meet at a class without arguments, or are one
class whose arguments are joined. -/
theorem joinDistinct_cases {types : List Ty} (htwo : 2 ≤ types.length)
    (hdistinct : types.Pairwise fun a b ↦ ¬a == b) :
    (∃ kind, Numeric.promote types = some (primitive kind) ∧
        joinDistinct types = primitive kind) ∨
      (∃ name, joinDistinct types = ofClass name) ∨
      ∃ name arity, 0 < arity ∧ OneClass types name arity ∧
        joinDistinct types = known name ((List.range arity).map fun i ↦
          join (Reference.column (types.map Reference.of) i)) := by
  unfold joinDistinct
  split
  next ty _ hstrings =>
    rw [joinStrings_eq] at hstrings
    split at hstrings
    · cases hstrings
      exact .inr (.inl ⟨_, rfl⟩)
    · cases hstrings
  next ty hstrings hpromote =>
    rcases Numeric.promote_cases hpromote with ⟨kind, rfl⟩ | ⟨name, rfl⟩
    · exact .inl ⟨kind, hpromote, rfl⟩
    · exact .inr (.inl ⟨name, rfl⟩)
  next hstrings hpromote =>
    split
    next hall => exact .inr (.inl ⟨_, joinPrimitives_eq_object htwo hdistinct hpromote hall⟩)
    · split
      · exact .inr (.inl ⟨_, rfl⟩)
      · exact .inr (joinReferences_cases types)

/-! ## Properties that a join keeps -/

/-- A property of primitives, null and classes with such arguments that passes to parts and
arguments passes to joins. -/
theorem join_invariant {P : Ty → Prop} (hprimitive : ∀ kind, P (primitive kind)) (hnull : P null)
    (hknown : ∀ name args, P (known name args) ↔ ∀ arg ∈ args, P arg)
    (hparts : ∀ ty part, P ty → part ∈ ty.parts → P part) {types : List Ty}
    (h : ∀ ty ∈ types, P ty) : P (join types) := by
  induction hsize : totalSize types using Nat.strong_induction_on generalizing types with
  | _ size ih =>
    have hoperands : ∀ ty ∈ operands types, P ty := by
      intro ty hty
      obtain ⟨source, hsource, hpart⟩ := exists_source_of_mem_operands hty
      exact hparts source ty (h source hsource) hpart
    match hops : operands types with
    | [] =>
      rw [join_of_operands_eq_nil hops]
      exact hnull
    | [ty] =>
      rw [join_of_operands_eq_singleton hops]
      exact hoperands ty (by simp [hops])
    | first :: second :: rest =>
      have htwo : 2 ≤ (operands types).length := by simp [hops]
      rw [join_of_two_le htwo]
      rcases joinDistinct_cases htwo (pairwise_distinct _) with
        ⟨kind, -, hjoin⟩ | ⟨name, hjoin⟩ | ⟨name, arity, -, -, hjoin⟩
      · rw [hjoin]
        exact hprimitive kind
      · rw [hjoin, ofClass, hknown]
        simp
      · rw [hjoin, hknown, List.forall_mem_map]
        intro i _
        refine ih _ (hsize ▸ totalSize_operands_column_lt htwo i) (fun ty hty ↦ ?_) rfl
        obtain ⟨source, hsource, harg⟩ := mem_args_of_mem_column hty
        cases source with
        | known name args => exact (hknown name args).1 (hoperands _ hsource) ty harg
        | _ => cases harg

theorem wellFormed_join {types : List Ty} (h : ∀ ty ∈ types, ty.WellFormed) :
    (join types).WellFormed :=
  join_invariant .primitive .null (fun _ _ ↦ wellFormed_known_iff)
    (fun _ _ hty hpart ↦ (wellFormed_of_mem_parts hty hpart).1) h

theorem wellFormed_of_mem_column {types : List Ty} (h : ∀ ty ∈ types, ty.WellFormed) {i : Nat}
    {ty : Ty} (hty : ty ∈ Reference.column ((operands types).map Reference.of) i) :
    ty.WellFormed := by
  obtain ⟨source, hsource, harg⟩ := mem_args_of_mem_column hty
  have hwf := wellFormed_of_mem_operands h hsource
  cases source with
  | known name args => exact wellFormed_known_iff.1 hwf ty harg
  | _ => cases harg

end ExprTyping.Ty
