import ExprTyping.Proofs.JoinCongruence

/-!
# The least upper bound as a decision table

The join is a cascade of rules, some of which overlap and some of which never get to answer. All of
them together come to a short table: each row says which operands it is for and what the answer is.
The rows cover all operands and leave no choice, so the table and the join are the same.
-/

namespace ExprTyping.Ty

/-! ## The table -/

def IsNumeric (ty : Ty) : Prop := (Numeric.Operand.of? ty).isSome = true

def IsStringPair (types : List Ty) : Prop :=
  ∃ a b, (types = [a, b] ∨ types = [b, a]) ∧ a.name? = some ClassName.string ∧
    b.name? = some ClassName.gstring

/-- The answer for classes: their most specific common ancestor. It has arguments if the classes
are one and have some, and then these are the least upper bounds of theirs, by position. -/
structure ClassRow (types : List Ty) (answer : Ty) : Prop where
  name : answer.name? = some (builtinTable.mostSpecificCommonAncestor (types.filterMap name?))
  args_ne_nil_iff : answer.args ≠ [] ↔ ∃ name arity, 0 < arity ∧ OneClass types name arity
  of_oneClass : ∀ name arity, 0 < arity → OneClass types name arity →
    answer.name? = some name ∧
      answer.args.map .ok = (List.range arity).map fun i ↦ lub (types.filterMap (·.args[i]?))

/-- The answer for the different operands of a join. From the second row on, a row applies if no
row before it does. -/
structure DecisionTable (types : List Ty) (answer : Ty) : Prop where
  nothing : types = [] → answer = null
  single : ∀ ty, types = [ty] → answer = ty
  strings : IsStringPair types → answer = string
  numbers : 2 ≤ types.length → ¬IsStringPair types → (∀ ty ∈ types, ty.IsNumeric) →
    Numeric.promote types = some answer
  mixed : 2 ≤ types.length → ¬IsStringPair types → (∃ ty ∈ types, ¬ty.IsNumeric) →
    (∃ ty ∈ types, ty.name? = none) → answer = object
  classes : 2 ≤ types.length → ¬IsStringPair types → (∃ ty ∈ types, ¬ty.IsNumeric) →
    (∀ ty ∈ types, ty.name? ≠ none) → ClassRow types answer

section Unique

variable {types : List Ty} {a b : Ty}

theorem ClassRow.unique (ha : ClassRow types a) (hb : ClassRow types b) : a = b := by
  have hargs : a.args = b.args := by
    by_cases hclass : ∃ name arity, 0 < arity ∧ OneClass types name arity
    · obtain ⟨name, arity, hpos, hclass⟩ := hclass
      have hok : a.args.map (Except.ok (ε := TypeError)) = b.args.map .ok :=
        (ha.of_oneClass name arity hpos hclass).2.trans
          (hb.of_oneClass name arity hpos hclass).2.symm
      exact List.map_injective_iff.2 (fun _ _ h ↦ Except.ok.inj h) hok
    · rw [not_ne_iff.1 (mt ha.args_ne_nil_iff.1 hclass),
        not_ne_iff.1 (mt hb.args_ne_nil_iff.1 hclass)]
  rw [name?_eq_some_iff.1 ha.name, name?_eq_some_iff.1 hb.name, hargs]

/-- The rows leave no choice. -/
theorem DecisionTable.unique (ha : DecisionTable types a) (hb : DecisionTable types b) :
    a = b := by
  rcases Nat.lt_or_ge types.length 2 with hfew | htwo
  · match types, hfew with
    | [], _ => rw [ha.nothing rfl, hb.nothing rfl]
    | [ty], _ => rw [ha.single ty rfl, hb.single ty rfl]
  by_cases hstrings : IsStringPair types
  · rw [ha.strings hstrings, hb.strings hstrings]
  by_cases hnumbers : ∀ ty ∈ types, ty.IsNumeric
  · have hsame := (ha.numbers htwo hstrings hnumbers).symm.trans (hb.numbers htwo hstrings hnumbers)
    exact Option.some.inj hsame
  push Not at hnumbers
  by_cases hclasses : ∀ ty ∈ types, ty.name? ≠ none
  · exact (ha.classes htwo hstrings hnumbers hclasses).unique
      (hb.classes htwo hstrings hnumbers hclasses)
  · push Not at hclasses
    rw [ha.mixed htwo hstrings hnumbers hclasses, hb.mixed htwo hstrings hnumbers hclasses]

end Unique

/-! ## The rules that come before the classes -/

theorem joinStrings_of_isStringPair {types : List Ty} (h : IsStringPair types) :
    joinStrings types = some string := by
  obtain ⟨a, b, rfl | rfl, ha, hb⟩ := h <;> simp [joinStrings, isNamed, ha, hb]

theorem joinStrings_of_not_isStringPair {types : List Ty} (h : ¬IsStringPair types) :
    joinStrings types = none := by
  unfold joinStrings
  split
  next a b =>
    refine if_neg fun hnamed ↦ h ?_
    simp only [isNamed, Bool.or_eq_true, Bool.and_eq_true, beq_iff_eq] at hnamed
    rcases hnamed with ⟨ha, hb⟩ | ⟨ha, hb⟩
    · exact ⟨a, b, .inl rfl, ha, hb⟩
    · exact ⟨b, a, .inr rfl, hb, ha⟩
  · rfl

theorem ne_nil_of_two_le {types : List Ty} (h : 2 ≤ types.length) : types ≠ [] :=
  List.ne_nil_of_length_pos (Nat.lt_of_lt_of_le Nat.zero_lt_two h)

theorem exists_promote {types : List Ty} (htwo : 2 ≤ types.length)
    (h : ∀ ty ∈ types, ty.IsNumeric) : ∃ ty, Numeric.promote types = some ty :=
  Option.isSome_iff_exists.1 (Numeric.isSome_promote_iff.2 ⟨ne_nil_of_two_le htwo, h⟩)

theorem promote_eq_none_of_not_isNumeric {types : List Ty} (h : ∃ ty ∈ types, ¬ty.IsNumeric) :
    Numeric.promote types = none := by
  obtain ⟨ty, hty, hnumeric⟩ := h
  rw [← Option.not_isSome_iff_eq_none, Numeric.isSome_promote_iff]
  exact fun hall ↦ hnumeric (hall.2 ty hty)

def LeftToPrimitives (types : List Ty) : Prop :=
  2 ≤ types.length ∧ joinStrings types = none ∧ Numeric.promote types = none ∧
    types.all (·.primitive?.isSome)

theorem joinDistinct_of_leftToPrimitives {types : List Ty} (h : LeftToPrimitives types) :
    joinDistinct types = joinPrimitives (types.filterMap primitive?) := by
  obtain ⟨-, hstrings, hpromote, hall⟩ := h
  simp only [joinDistinct, hstrings, hpromote, hall, if_true]

theorem isNumeric_primitive {kind : Primitive} (h : kind ≠ .boolean) :
    (primitive kind).IsNumeric := by
  cases kind with
  | boolean => exact absurd rfl h
  | _ => rfl

/-- Primitives come to their rule only if some of them are boolean and some are not. -/
theorem LeftToPrimitives.some_boolean {types : List Ty} (h : LeftToPrimitives types)
    (hdistinct : types.Pairwise fun a b ↦ ¬a == b) :
    ¬(types.filterMap primitive?).all (· == .boolean) ∧
      (types.filterMap primitive?).any (· == .boolean) := by
  obtain ⟨htwo, -, hpromote, hall⟩ := h
  refine ⟨not_all_boolean htwo hdistinct hall, ?_⟩
  by_contra hnone
  have hnumeric : ∀ ty ∈ types, ty.IsNumeric := by
    rw [← map_primitive_filterMap hall, List.forall_mem_map]
    intro kind hkind
    refine isNumeric_primitive fun hboolean ↦ hnone (List.any_eq_true.2 ⟨kind, hkind, ?_⟩)
    exact beq_iff_eq.2 hboolean
  obtain ⟨ty, hsome⟩ := exists_promote htwo hnumeric
  cases hpromote.symm.trans hsome

/-! ## Classes -/

section Classes

variable {types : List Ty}

/-- A type that is no class stands in as the top class without arguments, so the classes that agree
with it have none either. -/
theorem joinReferences_of_mixed (h : ∃ ty ∈ types, ty.name? = none) :
    joinReferences (types.map Reference.of) = object := by
  obtain ⟨ty, hty, hname⟩ := h
  have hof : Reference.of ty = ⟨ClassName.object, []⟩ := by
    cases ty with
    | known => cases hname
    | _ => rfl
  have hmem : (⟨ClassName.object, []⟩ : Reference) ∈ types.map Reference.of :=
    hof ▸ List.mem_map_of_mem hty
  have hancestor : builtinTable.mostSpecificCommonAncestor
      ((types.map Reference.of).map (·.name)) = ClassName.object :=
    SupertypeTable.mostSpecificCommonAncestor_of_mem_object (List.mem_map.2 ⟨_, hmem, rfl⟩)
  simp only [joinReferences, hancestor]
  by_cases hagree : Reference.agree ClassName.object (types.map Reference.of) = true
  · have harity : Reference.arity (types.map Reference.of) = 0 := by
      simp only [Reference.agree, List.all_eq_true, Bool.and_eq_true, beq_iff_eq] at hagree
      exact (hagree _ hmem).2.symm
    simp [harity, object, ofClass]
  · rw [if_neg hagree]
    rfl

/-- With or without arguments, classes meet at their most specific common ancestor. -/
theorem name?_joinReferences (references : List Reference) :
    (joinReferences references).name? =
      some (builtinTable.mostSpecificCommonAncestor (references.map (·.name))) := by
  unfold joinReferences
  by_cases hagree : Reference.agree (builtinTable.mostSpecificCommonAncestor
      (references.map (·.name))) references = true
  · rw [if_pos hagree]
    rfl
  · rw [if_neg hagree]
    rfl

theorem map_name_reference (h : ∀ ty ∈ types, ty.name? ≠ none) :
    (types.map Reference.of).map (·.name) = types.filterMap name? := by
  induction types with
  | nil => rfl
  | cons ty types ih =>
    rw [List.forall_mem_cons] at h
    cases ty with
    | known name args => simpa [Reference.of, name?] using ih h.2
    | _ => exact absurd rfl h.1

theorem column_map_reference (types : List Ty) (i : Nat) :
    Reference.column (types.map Reference.of) i = types.filterMap (·.args[i]?) := by
  simp [Reference.column, List.filterMap_map]

theorem OneClass.length_column {name : ClassName} {arity i : Nat} (h : OneClass types name arity)
    (hi : i < arity) : (types.filterMap (·.args[i]?)).length = types.length := by
  induction types with
  | nil => rfl
  | cons ty types ih =>
    obtain ⟨hty, hrest⟩ := List.forall_mem_cons.1 h
    have harg : ty.args[i]? = some ty.args[i] := List.getElem?_eq_getElem (hty.2.symm ▸ hi)
    simp [harg, ih hrest]

theorem joinDistinct_of_classes (hstrings : ¬IsStringPair types)
    (hpromote : Numeric.promote types = none) (htwo : 2 ≤ types.length)
    (h : ∀ ty ∈ types, ty.name? ≠ none) :
    joinDistinct types = joinReferences (types.map Reference.of) := by
  have hprimitive : ∀ ty ∈ types, ty.primitive?.isSome = false := by
    intro ty hty
    cases ty with
    | known => rfl
    | _ => exact absurd rfl (h _ hty)
  obtain ⟨first, hfirst⟩ := List.exists_mem_of_ne_nil types (ne_nil_of_two_le htwo)
  have hall : types.all (·.primitive?.isSome) = false :=
    List.all_eq_false.2 ⟨first, hfirst, by simp [hprimitive first hfirst]⟩
  have hany : types.any (·.primitive?.isSome) = false :=
    List.any_eq_false.2 fun ty hty ↦ by simp [hprimitive ty hty]
  simp only [joinDistinct, joinStrings_of_not_isStringPair hstrings, hpromote, hall, hany,
    Bool.false_eq_true, if_false]

theorem classRow_joinDistinct (hstrings : ¬IsStringPair types)
    (hpromote : Numeric.promote types = none) (htwo : 2 ≤ types.length)
    (h : ∀ ty ∈ types, ty.name? ≠ none) : ClassRow types (joinDistinct types) := by
  have hjoin := joinDistinct_of_classes hstrings hpromote htwo h
  refine ⟨?_, ⟨fun hargs ↦ ?_, ?_⟩, fun name arity hpos hclass ↦ ?_⟩
  · rw [hjoin, name?_joinReferences, map_name_reference h]
  · rw [hjoin] at hargs
    rcases joinReferences_cases types with ⟨name, hplain⟩ | ⟨name, arity, hpos, hclass, -⟩
    · rw [hplain] at hargs
      exact absurd rfl hargs
    · exact ⟨name, arity, hpos, hclass⟩
  · rintro ⟨name, arity, hpos, hclass⟩
    rw [joinDistinct_of_oneClass (ne_nil_of_two_le htwo) hpos hclass]
    simpa [args] using Nat.ne_of_gt hpos
  · rw [joinDistinct_of_oneClass (ne_nil_of_two_le htwo) hpos hclass]
    refine ⟨rfl, ?_⟩
    simp only [args, List.map_map, column_map_reference]
    refine List.map_congr_left fun i hi ↦ ?_
    have hlength := hclass.length_column (List.mem_range.1 hi)
    exact (lub_of_two_le (hlength.symm ▸ htwo)).symm

end Classes

/-! ## The join is the table -/

theorem decisionTable_joinDistinct {types : List Ty} (htwo : 2 ≤ types.length)
    (hdistinct : types.Pairwise fun a b ↦ ¬a == b) : DecisionTable types (joinDistinct types) where
  nothing hnil := by simp [hnil] at htwo
  single ty hsingle := by simp [hsingle] at htwo
  strings hstrings := by simp only [joinDistinct, joinStrings_of_isStringPair hstrings]
  numbers _ _ hnumbers := by
    obtain ⟨ty, hpromote⟩ := exists_promote htwo hnumbers
    rw [joinDistinct_of_promote hpromote, hpromote]
  mixed _ hstrings hother hmixed := by
    have hpromote := promote_eq_none_of_not_isNumeric hother
    simp only [joinDistinct, joinStrings_of_not_isStringPair hstrings, hpromote]
    split
    next hall => exact joinPrimitives_eq_object htwo hdistinct hpromote hall
    · split
      · rfl
      · exact joinReferences_of_mixed hmixed
  classes _ hstrings hother hclasses :=
    classRow_joinDistinct hstrings (promote_eq_none_of_not_isNumeric hother) htwo hclasses

theorem join_cases (types : List Ty) :
    operands types = [] ∧ join types = null ∨
      (∃ ty, operands types = [ty] ∧ join types = ty) ∨
      2 ≤ (operands types).length ∧ join types = joinDistinct (operands types) := by
  match hops : operands types with
  | [] => exact .inl ⟨rfl, join_of_operands_eq_nil hops⟩
  | [ty] => exact .inr (.inl ⟨ty, rfl, join_of_operands_eq_singleton hops⟩)
  | first :: second :: rest =>
    rw [← hops]
    have htwo : 2 ≤ (operands types).length := by simp [hops]
    exact .inr (.inr ⟨htwo, join_of_two_le htwo⟩)

theorem decisionTable_join (types : List Ty) : DecisionTable (operands types) (join types) := by
  rcases join_cases types with ⟨hops, hjoin⟩ | ⟨ty, hops, hjoin⟩ | ⟨htwo, hjoin⟩
  · rw [hops, hjoin]
    constructor <;> simp [IsStringPair]
  · rw [hops, hjoin]
    constructor <;> simp [IsStringPair]
  · rw [hjoin]
    exact decisionTable_joinDistinct htwo (pairwise_distinct _)

/-- Unions are dissolved into operands, and a join makes no new one. -/
theorem members?_join {types : List Ty} (h : ∀ ty ∈ types, ty.WellFormed) :
    (join types).members? = none := by
  rcases join_cases types with ⟨-, hjoin⟩ | ⟨ty, hops, hjoin⟩ | ⟨htwo, hjoin⟩
  · rw [hjoin]
    rfl
  · obtain ⟨source, hsource, hpart⟩ :=
      exists_source_of_mem_operands (hops ▸ List.mem_singleton_self ty)
    rw [hjoin]
    exact (wellFormed_of_mem_parts (h source hsource) hpart).2
  · rw [hjoin]
    rcases joinDistinct_cases htwo (pairwise_distinct _) with
      ⟨kind, -, hform⟩ | ⟨name, hform⟩ | ⟨name, arity, -, -, hform⟩ <;> rw [hform] <;> rfl

theorem isNull_eq_false_of_mem_operands {types : List Ty} {ty : Ty} (h : ty ∈ operands types) :
    ty.isNull = false :=
  (mem_contributions_iff.1 (mem_of_mem_distinct h)).2

/-- A well-formed type other than null brings something to a join. -/
theorem exists_part_ne_null {ty : Ty} (h : ty.WellFormed) (hne : ty ≠ null) :
    ∃ part ∈ ty.parts, part.isNull = false := by
  cases ty with
  | union members =>
    obtain ⟨htwo, hdistinct, -, -⟩ := wellFormed_union_iff.1 h
    match members, htwo, hdistinct with
    | first :: second :: rest, _, hdistinct =>
      by_cases hfirst : first = null
      · refine ⟨second, by simp [parts], ?_⟩
        have hdiffer := (List.pairwise_cons.1 hdistinct).1 second (by simp)
        rw [hfirst, null_beq_iff] at hdiffer
        cases second with
        | null => exact absurd rfl hdiffer
        | _ => rfl
      · refine ⟨first, by simp [parts], ?_⟩
        cases first with
        | null => exact absurd rfl hfirst
        | _ => rfl
  | null => exact absurd rfl hne
  | _ => exact ⟨_, List.mem_singleton_self _, rfl⟩

theorem join_eq_null_iff {types : List Ty} (h : ∀ ty ∈ types, ty.WellFormed) :
    join types = null ↔ ∀ ty ∈ types, ty = null := by
  constructor
  · intro hjoin ty hty
    have hops : operands types = [] := by
      rcases join_cases types with ⟨hops, -⟩ | ⟨only, hops, honly⟩ | ⟨htwo, hdistinct⟩
      · exact hops
      · have hnull := isNull_eq_false_of_mem_operands (hops ▸ List.mem_singleton_self only)
        simp [← honly, hjoin, isNull] at hnull
      · rw [hdistinct] at hjoin
        rcases joinDistinct_cases htwo (pairwise_distinct _) with
          ⟨kind, -, hform⟩ | ⟨name, hform⟩ | ⟨name, arity, -, -, hform⟩ <;>
          cases hform.symm.trans hjoin
    by_contra hne
    obtain ⟨part, hpart, hnull⟩ := exists_part_ne_null (h ty hty) hne
    obtain ⟨operand, hoperand, -⟩ :=
      exists_beq_mem_foldl_addDistinct [] (mem_contributions_iff.2 ⟨⟨ty, hty, hpart⟩, hnull⟩)
    change operand ∈ operands types at hoperand
    simp [hops] at hoperand
  · intro hall
    have hops : operands types = [] := by
      refine List.eq_nil_iff_forall_not_mem.2 fun ty hty ↦ ?_
      obtain ⟨source, hsource, hpart⟩ := exists_source_of_mem_operands hty
      have hnull := isNull_eq_false_of_mem_operands hty
      rw [hall source hsource] at hpart
      obtain rfl : ty = null := List.mem_singleton.1 hpart
      cases hnull
    exact join_of_operands_eq_nil hops

/-- The different types that an argument list brings to a join. -/
structure AreOperands (operands types : List Ty) : Prop where
  sublist : operands.Sublist (contributions types)
  distinct : operands.Pairwise fun a b ↦ ¬a == b
  complete : ∀ ty ∈ contributions types, ∃ operand ∈ operands, operand == ty

theorem areOperands_operands (types : List Ty) : AreOperands (operands types) types where
  sublist := distinct_sublist _
  distinct := pairwise_distinct _
  complete _ hty := exists_beq_mem_foldl_addDistinct [] hty

/-- Two or more types have a least upper bound, and it is the answer of the table for their
operands. It is no union, and null only if all the types are. Primitives that get to their own rule
are neither all boolean nor all numeric. -/
theorem lub_eq_ok_iff_decisionTable {types : List Ty} (h : Joinable types) :
    AreOperands (operands types) types ∧
      (∀ ty, lub types = .ok ty ↔ DecisionTable (operands types) ty) ∧
      (∃ ty, lub types = .ok ty ∧ ty.members? = none ∧
        (ty = null ↔ ∀ operand ∈ types, operand = null)) ∧
      (LeftToPrimitives (operands types) →
        lub types = .ok (joinPrimitives ((operands types).filterMap primitive?)) ∧
          ¬((operands types).filterMap primitive?).all (· == .boolean) ∧
          ((operands types).filterMap primitive?).any (· == .boolean)) := by
  have hlub := lub_of_two_le h.1
  refine ⟨areOperands_operands types, fun ty ↦ ?_, ?_, fun hleft ↦ ⟨?_, ?_⟩⟩
  · rw [hlub, Except.ok.injEq]
    constructor
    · rintro rfl
      exact decisionTable_join types
    · exact (decisionTable_join types).unique
  · exact ⟨join types, hlub, members?_join h.2, join_eq_null_iff h.2⟩
  · rw [hlub, join_of_two_le hleft.1, joinDistinct_of_leftToPrimitives hleft]
  · exact hleft.some_boolean (pairwise_distinct _)

/-- Lists of different boxed numbers, one of them hidden in a union beside null. -/
theorem lub_of_boxed_lists :
    let byte := ofClass ClassName.byte
    let short := ofClass ClassName.short
    let long := ofClass ClassName.long
    let types := [listOf byte, null, union [listOf short, null], listOf long, listOf byte]
    Joinable types ∧ operands types = [listOf byte, listOf short, listOf long] ∧
      ∃ ty, lub types = .ok ty ∧ ty.name? = some ClassName.list ∧
        ty.args.map .ok = [lub [byte, short, long]] := by
  intro byte short long types
  have hjoinable : Joinable types := by decide
  obtain ⟨-, htable, ⟨ty, hlub, -⟩, -⟩ := lub_eq_ok_iff_decisionTable hjoinable
  have hops : operands types = [listOf byte, listOf short, listOf long] := rfl
  have hrows := (htable ty).1 hlub
  rw [hops] at hrows
  have hstrings : ¬IsStringPair [listOf byte, listOf short, listOf long] := by
    simp [IsStringPair]
  have hlists : OneClass [listOf byte, listOf short, listOf long] ClassName.list 1 := by
    simp [OneClass, listOf, name?, args]
  have hother : ¬(listOf byte).IsNumeric := by simp [IsNumeric, listOf, Numeric.Operand.of?]
  have hclasses := hrows.classes (by simp) hstrings ⟨listOf byte, by simp, hother⟩
    (by simp [listOf, name?])
  obtain ⟨hname, hargs⟩ := hclasses.of_oneClass ClassName.list 1 Nat.one_pos hlists
  exact ⟨hjoinable, hops, ty, hlub, hname, hargs⟩

end ExprTyping.Ty
