import ExprTyping.Declarations
import ExprTyping.Proofs.JoinLaws
import ExprTyping.Proofs.NodeType

/-!
# Boxed elements of a list

The elements of a list literal are joined before the result is boxed, so it can show whether an
element was a primitive or its wrapper class. Among numbers it does not: promotion goes by ranks,
which the two share. It does in two situations. A primitive beside anything but numbers takes the
list to the top class, where its wrapper class may have an ancestor in common with the others. And
a single type is not promoted, so a boolean or a narrow number beside its own wrapper class is one
type too many. Otherwise the type of the list is the same, and in these situations it is another.
-/

namespace ExprTyping

/-! ## Promotion up to boxing -/

namespace Numeric

def rank? (ty : Ty) : Option Rank := (Operand.of? ty).map (·.rank)

theorem boxed_toTy (rank : Rank) (boxed : Bool) :
    (rank.toTy boxed).boxed = .ofClass rank.reference := by
  cases boxed <;> cases rank <;> rfl

/-- Up to boxing, the result of arithmetic is read off the ranks of the operands. -/
theorem boxed_resultTy (operands : List Operand) (top : Rank) :
    (resultTy operands top).boxed =
      if top.isFloating && (operands.map (·.rank)).any Rank.isBig then .ofClass ClassName.bigDecimal
      else if top < Rank.minPromoted then .ofClass Rank.minPromoted.reference
      else .ofClass top.reference := by
  have hany : (operands.map (·.rank)).any Rank.isBig = operands.any (·.rank.isBig) := List.any_map
  rw [hany]
  unfold resultTy
  split
  · rfl
  · split <;> exact boxed_toTy _ _

theorem isSome_promote_iff_rank? {types : List Ty} :
    (promote types).isSome = true ↔ types ≠ [] ∧ none ∉ types.map rank? := by
  rw [isSome_promote_iff]
  refine and_congr_right fun _ ↦ ?_
  simp only [List.mem_map, rank?, Option.map_eq_none_iff, not_exists, not_and,
    Option.isSome_iff_ne_none, Ne]

/-- Numbers of the same ranks have the same promotion, up to boxing. -/
theorem boxed_promote_congr {xs ys : List Ty}
    (h : ∀ rank, rank ∈ xs.map rank? ↔ rank ∈ ys.map rank?) :
    (promote xs).map Ty.boxed = (promote ys).map Ty.boxed := by
  have hnil : xs = [] ↔ ys = [] := by
    rw [← List.map_eq_nil_iff (f := rank?), ← List.map_eq_nil_iff (l := ys) (f := rank?)]
    simp only [List.eq_nil_iff_forall_not_mem, h]
  have hsome : (promote xs).isSome = true ↔ (promote ys).isSome = true := by
    rw [isSome_promote_iff_rank?, isSome_promote_iff_rank?, h, Ne, Ne, hnil]
  cases hx : promote xs with
  | none =>
    rw [hx] at hsome
    rw [Option.not_isSome_iff_eq_none.1 (mt hsome.2 (by simp))]
  | some x =>
    obtain ⟨y, hy⟩ := Option.isSome_iff_exists.1 (hsome.1 (by simp [hx]))
    obtain ⟨operands, top, hoperands, ⟨htop, hmax⟩, rfl⟩ := promote_eq_some_iff.1 hx
    obtain ⟨operands', top', hoperands', ⟨htop', hmax'⟩, rfl⟩ := promote_eq_some_iff.1 hy
    have hranks {types : List Ty} {operands : List Operand}
        (hoperands : types.map Operand.of? = operands.map some) (rank : Rank) :
        some rank ∈ types.map rank? ↔ rank ∈ operands.map (·.rank) := by
      have hmap : types.map rank? = (types.map Operand.of?).map (Option.map (·.rank)) := by
        rw [List.map_map]
        rfl
      rw [hmap, hoperands]
      simp
    have hsame : ∀ rank, rank ∈ operands.map (·.rank) ↔ rank ∈ operands'.map (·.rank) :=
      fun rank ↦ by rw [← hranks hoperands, ← hranks hoperands', h]
    obtain rfl : top = top' := by
      refine Rank.number_injective (Nat.le_antisymm ?_ ?_)
      · exact hmax' top ((hsame top).1 htop)
      · exact hmax top' ((hsame top').2 htop')
    have hbig : (operands.map (·.rank)).any Rank.isBig =
        (operands'.map (·.rank)).any Rank.isBig := by
      rw [Bool.eq_iff_iff, List.any_eq_true, List.any_eq_true]
      simp only [hsame]
    rw [hy, Option.map_some, Option.map_some, boxed_resultTy, boxed_resultTy, hbig]

end Numeric

namespace Ty

/-! ## Boxing in places -/

def BoxesTo (ty ty' : Ty) : Prop := ty' = ty ∨ ty' = ty.boxed

/-- Boxing changes primitives and nothing else. -/
theorem boxesTo_cases {a b : Ty} (h : BoxesTo a b) :
    b = a ∨ ∃ kind, a = primitive kind ∧ b = (primitive kind).boxed := by
  rcases h with rfl | rfl
  · exact .inl rfl
  · cases a with
    | primitive kind => exact .inr ⟨kind, rfl, rfl⟩
    | _ => exact .inl rfl

namespace BoxesTo

variable {a b : Ty}

theorem isNull_eq (h : BoxesTo a b) : a.isNull = b.isNull := by
  rcases boxesTo_cases h with rfl | ⟨kind, rfl, rfl⟩ <;> rfl

theorem parts (h : BoxesTo a b) : List.Forall₂ BoxesTo a.parts b.parts := by
  rcases boxesTo_cases h with rfl | ⟨kind, rfl, rfl⟩
  · exact List.forall₂_same.2 fun _ _ ↦ .inl rfl
  · exact .cons (.inr rfl) .nil

theorem rank?_eq (h : BoxesTo a b) : Numeric.rank? a = Numeric.rank? b := by
  rcases boxesTo_cases h with rfl | ⟨kind, rfl, rfl⟩
  · rfl
  · cases kind <;> rfl

theorem isNumeric_iff (h : BoxesTo a b) : a.IsNumeric ↔ b.IsNumeric := by
  have hrank := congrArg Option.isSome h.rank?_eq
  rwa [Numeric.rank?, Numeric.rank?, Option.isSome_map, Option.isSome_map, Bool.eq_iff_iff] at hrank

theorem eq_primitive {kind : Primitive} (h : BoxesTo a (primitive kind)) : a = primitive kind := by
  rcases boxesTo_cases h with heq | ⟨kind', -, hclass⟩
  · exact heq.symm
  · cases hclass

end BoxesTo

/-- What the types bring to a join is boxed in places, too. -/
theorem exists_contribution_of_boxesTo {types types' : List Ty}
    (h : List.Forall₂ BoxesTo types types') :
    (∀ ty ∈ contributions types, ∃ ty' ∈ contributions types', BoxesTo ty ty') ∧
      ∀ ty' ∈ contributions types', ∃ ty ∈ contributions types, BoxesTo ty ty' := by
  have hflat : List.Forall₂ BoxesTo (flatten types) (flatten types') :=
    List.rel_flatMap h fun _ _ hab ↦ hab.parts
  refine exists_mem_of_forall₂ (List.rel_filter (fun a b hab ↦ ?_) hflat)
  simp [hab.isNull_eq]

/-! ## Operands -/

section Operands

variable {types : List Ty} {ty : Ty} {kind : Primitive}

theorem beq_primitive_iff : ty == primitive kind ↔ ty = primitive kind := by
  refine ⟨fun h ↦ ?_, fun h ↦ h ▸ beq_refl _⟩
  have hkind := primitive?_eq_of_beq h
  cases ty <;> simp_all [primitive?]

theorem beq_ofClass_iff {name : ClassName} : ty == ofClass name ↔ ty = ofClass name := by
  refine ⟨fun h ↦ ?_, fun h ↦ h ▸ beq_refl _⟩
  have hname : ty.name? = some name := name?_eq_of_beq h
  have hargs : ty.args = [] := List.forall₂_nil_right_iff.1 (forall₂_args_of_beq h)
  rw [name?_eq_some_iff.1 hname, hargs, ofClass]

theorem ofClass_beq_iff {name : ClassName} : ofClass name == ty ↔ ty = ofClass name := by
  constructor
  · intro h
    obtain ⟨args, rfl, hargs⟩ := known_beq_iff.1 h
    rw [List.forall₂_nil_left_iff.1 hargs, ofClass]
  · rintro rfl
    exact beq_refl _

theorem mem_contributions_of_mem_operands (h : ty ∈ operands types) : ty ∈ contributions types :=
  (areOperands_operands types).sublist.mem h

/-- A type that is equal to itself only is never dropped in favour of another. -/
theorem mem_operands_iff_of_forall_eq (h : ∀ {other : Ty}, other == ty → other = ty) :
    ty ∈ operands types ↔ ty ∈ contributions types := by
  refine ⟨mem_contributions_of_mem_operands, fun hty ↦ ?_⟩
  obtain ⟨operand, hoperand, hbeq⟩ := (areOperands_operands types).complete ty hty
  rwa [← h hbeq]

theorem primitive_mem_operands_iff :
    primitive kind ∈ operands types ↔ primitive kind ∈ contributions types :=
  mem_operands_iff_of_forall_eq beq_primitive_iff.1

theorem ofClass_mem_operands_iff {name : ClassName} :
    ofClass name ∈ operands types ↔ ofClass name ∈ contributions types :=
  mem_operands_iff_of_forall_eq beq_ofClass_iff.1

/-- Whatever equal types have in common can be read off the operands. -/
theorem mem_map_operands_iff {β : Type} {f : Ty → β} (hf : ∀ {a b : Ty}, a == b → f a = f b)
    {x : β} : x ∈ (operands types).map f ↔ x ∈ (contributions types).map f := by
  constructor
  · intro hx
    obtain ⟨operand, hoperand, rfl⟩ := List.mem_map.1 hx
    exact List.mem_map_of_mem (mem_contributions_of_mem_operands hoperand)
  · intro hx
    obtain ⟨ty, hty, rfl⟩ := List.mem_map.1 hx
    obtain ⟨operand, hoperand, hbeq⟩ := (areOperands_operands types).complete ty hty
    exact List.mem_map.2 ⟨operand, hoperand, hf hbeq⟩

theorem forall_isNumeric_operands_iff : (∀ ty ∈ operands types, ty.IsNumeric) ↔
    ∀ ty ∈ contributions types, ty.IsNumeric := by
  refine ⟨fun h ty hty ↦ ?_, fun h ty hty ↦ h ty (mem_contributions_of_mem_operands hty)⟩
  obtain ⟨operand, hoperand, hbeq⟩ := (areOperands_operands types).complete ty hty
  rw [IsNumeric, ← Numeric.operand_eq_of_beq hbeq]
  exact h operand hoperand

theorem exists_not_isNumeric_operands_iff : (∃ ty ∈ operands types, ¬ty.IsNumeric) ↔
    ∃ ty ∈ contributions types, ¬ty.IsNumeric := by
  simpa using not_congr (@forall_isNumeric_operands_iff types)

theorem nodup_operands (types : List Ty) : (operands types).Nodup := by
  refine (pairwise_distinct _).imp ?_
  rintro operand _ hdiffer rfl
  exact hdiffer (beq_refl operand)

theorem two_le_length_of_ne {a b : Ty} (ha : a ∈ types) (hb : b ∈ types) (hne : a ≠ b) :
    2 ≤ types.length := by
  have hpair : [a, b] ⊆ types := by simp [ha, hb]
  exact (List.subperm_of_subset (by simpa using hne) hpair).length_le

theorem two_le_length_operands (hkind : primitive kind ∈ contributions types)
    (hother : ∃ ty ∈ contributions types, ty ≠ primitive kind) : 2 ≤ (operands types).length := by
  obtain ⟨ty, hty, hne⟩ := hother
  obtain ⟨operand, hoperand, hbeq⟩ := (areOperands_operands types).complete ty hty
  refine two_le_length_of_ne hoperand (primitive_mem_operands_iff.2 hkind) ?_
  rintro rfl
  exact hne (primitive_beq_iff.1 hbeq)

def ArePair (kind : Primitive) (operands : List Ty) : Prop :=
  operands.Perm [primitive kind, (primitive kind).boxed]

theorem ArePair.mem_iff {operands : List Ty} (h : ArePair kind operands) :
    ty ∈ operands ↔ ty = primitive kind ∨ ty = (primitive kind).boxed :=
  (List.Perm.mem_iff h).trans List.mem_pair

theorem ArePair.two_le_length {operands : List Ty} (h : ArePair kind operands) :
    2 ≤ operands.length :=
  (List.Perm.length_eq h).ge

theorem not_arePair_singleton (kind : Primitive) (ty : Ty) : ¬ArePair kind [ty] :=
  fun h ↦ absurd h.two_le_length (by simp)

theorem arePair_operands (hkind : primitive kind ∈ contributions types)
    (hboxed : (primitive kind).boxed ∈ contributions types)
    (h : ∀ ty ∈ contributions types, ty = primitive kind ∨ ty = (primitive kind).boxed) :
    ArePair kind (operands types) := by
  have hpair : [primitive kind, (primitive kind).boxed].Nodup := by simp [boxed, ofClass]
  refine (List.perm_ext_iff_of_nodup (nodup_operands types) hpair).2 fun ty ↦ ?_
  rw [List.mem_pair]
  constructor
  · exact fun hty ↦ h ty (mem_contributions_of_mem_operands hty)
  · rintro (rfl | rfl)
    · exact primitive_mem_operands_iff.2 hkind
    · exact ofClass_mem_operands_iff.2 hboxed

end Operands

/-! ## Joins with a primitive -/

section Joins

variable {types : List Ty} {kind : Primitive}

theorem not_isStringPair_of_mem {ty : Ty} (hty : ty ∈ types)
    (hstring : ty.name? ≠ some ClassName.string) (hgstring : ty.name? ≠ some ClassName.gstring) :
    ¬IsStringPair types := by
  rintro ⟨a, b, rfl | rfl, ha, hb⟩ <;>
    simp only [List.mem_cons, List.not_mem_nil, or_false] at hty <;>
    rcases hty with rfl | rfl <;> contradiction

theorem join_of_mixed (htwo : 2 ≤ (operands types).length)
    (hother : ∃ ty ∈ operands types, ¬ty.IsNumeric)
    (hmixed : ∃ ty ∈ operands types, ty.name? = none) : join types = object := by
  obtain ⟨ty, hty, hname⟩ := hmixed
  have hstrings := not_isStringPair_of_mem hty (by simp [hname]) (by simp [hname])
  exact (decisionTable_join types).mixed htwo hstrings hother ⟨ty, hty, hname⟩

theorem some_asArgument_join (htwo : 2 ≤ (operands types).length)
    (h : ∀ ty ∈ operands types, ty.IsNumeric) :
    some (Rule.asArgument (join types)) = (Numeric.promote (operands types)).map boxed := by
  obtain ⟨ty, hpromote⟩ := exists_promote htwo h
  rw [join_of_two_le htwo, joinDistinct_of_promote hpromote, hpromote, Option.map_some]
  rcases Numeric.promote_cases hpromote with ⟨kind, rfl⟩ | ⟨name, rfl⟩ <;> rfl

/-- Arithmetic answers a primitive beside its wrapper class with the class, or with an int. -/
theorem boxed_promote_pair (h : kind ≠ .boolean) :
    (Numeric.promote [primitive kind, (primitive kind).boxed]).map boxed =
      some (ofClass (if kind ∈ Primitive.int.below then ClassName.integer else kind.wrapper)) := by
  cases kind with
  | boolean => exact absurd rfl h
  | _ => rfl

/-- A primitive beside its wrapper class comes to the class, unless it is a boolean or a number
narrower than an int. -/
theorem asArgument_join_eq_boxed_iff (h : ArePair kind (operands types)) :
    Rule.asArgument (join types) = (primitive kind).boxed ↔ kind ∉ Primitive.int.below := by
  have htwo := h.two_le_length
  have hmem : primitive kind ∈ operands types := h.mem_iff.2 (.inl rfl)
  have hclass {name : ClassName} : ofClass name = (primitive kind).boxed ↔ name = kind.wrapper := by
    simp [boxed, ofClass]
  by_cases hboolean : kind = .boolean
  · subst hboolean
    have hother : ¬(primitive .boolean).IsNumeric := Bool.false_ne_true
    rw [join_of_mixed htwo ⟨_, hmem, hother⟩ ⟨_, hmem, rfl⟩]
    exact hclass.trans (by decide)
  · have hnumeric : ∀ ty ∈ operands types, ty.IsNumeric := by
      intro ty hty
      rcases h.mem_iff.1 hty with rfl | rfl
      · exact isNumeric_primitive hboolean
      · exact (BoxesTo.isNumeric_iff (.inr rfl)).1 (isNumeric_primitive hboolean)
    have hpromote : Numeric.promote (operands types) =
        Numeric.promote [primitive kind, (primitive kind).boxed] :=
      Numeric.promote_eq_of_mem_iff fun ty ↦ List.Perm.mem_iff h
    rw [← Option.some_inj, some_asArgument_join htwo hnumeric, hpromote,
      boxed_promote_pair hboolean, Option.some_inj, hclass]
    cases kind <;> decide

/-- Classes that are not all numbers meet at their common ancestor, without arguments if one of them
is a wrapper class. -/
theorem join_of_classes (hclasses : ∀ ty ∈ operands types, ty.name? ≠ none)
    (hboxed : (primitive kind).boxed ∈ operands types)
    (hother : ∃ ty ∈ operands types, ¬ty.IsNumeric) :
    join types = ofClass
      (builtinTable.mostSpecificCommonAncestor ((operands types).filterMap name?)) := by
  rcases join_cases types with ⟨hops, -⟩ | ⟨ty, hops, hjoin⟩ | ⟨htwo, -⟩
  · simp [hops] at hboxed
  · obtain rfl : (primitive kind).boxed = ty := by simpa [hops] using hboxed
    rw [hjoin, hops]
    exact congrArg ofClass (SupertypeTable.mostSpecificCommonAncestor_of_forall_eq
      (List.cons_ne_nil _ _) fun other hmem ↦ List.mem_singleton.1 hmem).symm
  · have hwrapper : ∀ name ∈ [ClassName.string, ClassName.gstring],
        (primitive kind).boxed.name? ≠ some name := by
      cases kind <;> decide
    have hstrings := not_isStringPair_of_mem hboxed (hwrapper _ (by simp)) (hwrapper _ (by simp))
    have hrow := (decisionTable_join types).classes htwo hstrings hother hclasses
    have hargs : (join types).args = [] := by
      by_contra hargs
      obtain ⟨name, arity, hpos, hclass⟩ := hrow.args_ne_nil_iff.1 hargs
      exact Nat.ne_of_gt hpos (hclass _ hboxed).2.symm
    rw [name?_eq_some_iff.1 hrow.name, hargs, ofClass]

/-- With a primitive among the operands, the joined argument is a class without arguments. -/
theorem exists_asArgument_eq_ofClass (hkind : primitive kind ∈ contributions types) :
    ∃ name, Rule.asArgument (join types) = ofClass name := by
  have hmem := primitive_mem_operands_iff.2 hkind
  rcases join_cases types with ⟨hops, -⟩ | ⟨ty, hops, hjoin⟩ | ⟨htwo, hjoin⟩
  · simp [hops] at hmem
  · obtain rfl : primitive kind = ty := by simpa [hops] using hmem
    exact ⟨kind.wrapper, by rw [hjoin]; rfl⟩
  · rw [hjoin]
    rcases joinDistinct_cases htwo (pairwise_distinct _) with
      ⟨kind', -, hform⟩ | ⟨name, hform⟩ | ⟨name, arity, -, hclass, -⟩
    · exact ⟨kind'.wrapper, by rw [hform]; rfl⟩
    · exact ⟨name, by rw [hform]; rfl⟩
    · cases (hclass _ hmem).1

end Joins

/-! ## Where boxing shows -/

/-- A primitive stands among operands that are not all numbers. When it is boxed all the operands
are classes, and they have a common ancestor below the top class. -/
structure FindsAncestor (types types' : List Ty) : Prop where
  two_le : 2 ≤ (operands types).length
  primitive : ∃ ty ∈ operands types, ty.primitive? ≠ none
  other : ∃ ty ∈ operands types, ¬ty.IsNumeric
  classes : ∀ ty ∈ operands types', ty.name? ≠ none
  ancestor : builtinTable.mostSpecificCommonAncestor ((operands types').filterMap name?) ≠
    ClassName.object

/-- A boolean or a number narrower than an int is the only operand, and boxing puts its wrapper
class beside it; or the two are there, and boxing leaves the class alone. -/
def SplitsNarrow (types types' : List Ty) : Prop :=
  ∃ kind ∈ Primitive.int.below,
    operands types = [primitive kind] ∧ ArePair kind (operands types') ∨
      ArePair kind (operands types) ∧ operands types' = [(primitive kind).boxed]

def BoxingShows (types types' : List Ty) : Prop :=
  FindsAncestor types types' ∨ SplitsNarrow types types'

section Shows

variable {types types' : List Ty} {kind : Primitive}

theorem splitsNarrow_iff_of_eq_singleton (h : operands types = [primitive kind]) :
    SplitsNarrow types types' ↔ kind ∈ Primitive.int.below ∧ ArePair kind (operands types') := by
  constructor
  · rintro ⟨kind', hnarrow, ⟨hsingle, hpair⟩ | ⟨hpair, -⟩⟩
    · obtain rfl : kind = kind' := by simpa [h] using hsingle
      exact ⟨hnarrow, hpair⟩
    · exact absurd (h ▸ hpair) (not_arePair_singleton kind' _)
  · rintro ⟨hnarrow, hpair⟩
    exact ⟨kind, hnarrow, .inl ⟨h, hpair⟩⟩

theorem splitsNarrow_iff_of_arePair (h : ArePair kind (operands types)) :
    SplitsNarrow types types' ↔
      kind ∈ Primitive.int.below ∧ operands types' = [(primitive kind).boxed] := by
  constructor
  · rintro ⟨kind', hnarrow, ⟨hsingle, -⟩ | ⟨hpair, hboxed⟩⟩
    · exact absurd (hsingle ▸ h) (not_arePair_singleton kind _)
    · obtain rfl : kind' = kind := by
        simpa [boxed, ofClass] using h.mem_iff.1 (hpair.mem_iff.2 (.inl rfl))
      exact ⟨hnarrow, hboxed⟩
  · rintro ⟨hnarrow, hboxed⟩
    exact ⟨kind, hnarrow, .inr ⟨h, hboxed⟩⟩

theorem not_splitsNarrow (htwo : 2 ≤ (operands types).length)
    (htwo' : 2 ≤ (operands types').length) : ¬SplitsNarrow types types' := by
  rintro ⟨kind, -, ⟨hsingle, -⟩ | ⟨-, hboxed⟩⟩
  · simp [hsingle] at htwo
  · simp [hboxed] at htwo'

/-- If boxing leaves nothing but classes, it shows where these have an ancestor below the top
class. -/
theorem boxingShows_iff_of_classes (htwo : 2 ≤ (operands types).length)
    (hkind : primitive kind ∈ operands types) (hother : ∃ ty ∈ operands types, ¬ty.IsNumeric)
    (hclasses : ∀ ty ∈ operands types', ty.name? ≠ none) :
    BoxingShows types types' ↔ builtinTable.mostSpecificCommonAncestor
      ((operands types').filterMap name?) ≠ ClassName.object := by
  constructor
  · rintro (hfinds | ⟨kind', -, ⟨hsingle, -⟩ | ⟨-, hsingle⟩⟩)
    · exact hfinds.ancestor
    · simp [hsingle] at htwo
    · have hwrapper : kind'.wrapper ≠ ClassName.object := by cases kind' <;> decide
      rw [hsingle]
      change builtinTable.mostSpecificCommonAncestor [kind'.wrapper] ≠ _
      rwa [SupertypeTable.mostSpecificCommonAncestor_of_forall_eq
        (List.cons_ne_nil _ _) fun other hmem ↦ List.mem_singleton.1 hmem]
  · intro hbelow
    exact .inl ⟨htwo, ⟨_, hkind, Option.some_ne_none kind⟩, hother, hclasses, hbelow⟩

theorem not_boxingShows_self (types : List Ty) : ¬BoxingShows types types := by
  rintro (h | ⟨kind, -, ⟨hsingle, hpair⟩ | ⟨hpair, hsingle⟩⟩)
  · obtain ⟨ty, hty, hprimitive⟩ := h.primitive
    have hname := h.classes ty hty
    cases ty <;> simp_all [primitive?, name?]
  · exact not_arePair_singleton kind _ (hsingle ▸ hpair)
  · exact not_arePair_singleton kind _ (hsingle ▸ hpair)

variable (h : List.Forall₂ BoxesTo types types')

include h

theorem mem_map_rank?_iff_of_boxesTo (rank : Option Numeric.Rank) :
    rank ∈ (operands types).map Numeric.rank? ↔ rank ∈ (operands types').map Numeric.rank? := by
  obtain ⟨hforth, hback⟩ := exists_contribution_of_boxesTo h
  have hrank : ∀ {a b : Ty}, a == b → Numeric.rank? a = Numeric.rank? b :=
    fun hab ↦ by rw [Numeric.rank?, Numeric.rank?, Numeric.operand_eq_of_beq hab]
  rw [mem_map_operands_iff hrank, mem_map_operands_iff hrank, List.mem_map, List.mem_map]
  constructor
  · rintro ⟨ty, hty, rfl⟩
    obtain ⟨ty', hty', hboxes⟩ := hforth ty hty
    exact ⟨ty', hty', hboxes.rank?_eq.symm⟩
  · rintro ⟨ty', hty', rfl⟩
    obtain ⟨ty, hty, hboxes⟩ := hback ty' hty'
    exact ⟨ty, hty, hboxes.rank?_eq⟩

variable (hkind : primitive kind ∈ contributions types)

include hkind

/-- The case of one primitive in any number of copies. -/
theorem asArgument_join_iff_of_forall_eq
    (hall : ∀ ty ∈ contributions types, ty = primitive kind) :
    Rule.asArgument (join types) = Rule.asArgument (join types') ↔ ¬BoxingShows types types' := by
  have hops : operands types = [primitive kind] := operands_eq_singleton hkind hall
  have harg : Rule.asArgument (join types) = (primitive kind).boxed := by
    rw [join_of_operands_eq_singleton hops]
    rfl
  have hshows : BoxingShows types types' ↔
      kind ∈ Primitive.int.below ∧ ArePair kind (operands types') := by
    rw [BoxingShows, splitsNarrow_iff_of_eq_singleton hops, or_iff_right]
    intro hfinds
    have htwo := hfinds.two_le
    simp [hops] at htwo
  have hall' : ∀ ty ∈ contributions types', ty = primitive kind ∨ ty = (primitive kind).boxed := by
    intro ty' hty'
    obtain ⟨ty, hty, hboxes⟩ := (exists_contribution_of_boxesTo h).2 ty' hty'
    obtain rfl := hall ty hty
    exact hboxes
  rw [harg, hshows, eq_comm]
  by_cases hplain : primitive kind ∈ contributions types'
  · by_cases hboxed : (primitive kind).boxed ∈ contributions types'
    · have hpair := arePair_operands hplain hboxed hall'
      rw [asArgument_join_eq_boxed_iff hpair]
      simp [hpair]
    · have hops' : operands types' = [primitive kind] := by
        refine operands_eq_singleton hplain fun ty hty ↦ (hall' ty hty).resolve_right ?_
        rintro rfl
        exact hboxed hty
      rw [join_of_operands_eq_singleton hops', hops']
      exact iff_of_true rfl fun hboth ↦ not_arePair_singleton kind _ hboth.2
  · have hall'' : ∀ ty ∈ contributions types', ty = (primitive kind).boxed := by
      refine fun ty hty ↦ (hall' ty hty).resolve_left ?_
      rintro rfl
      exact hplain hty
    obtain ⟨ty', hty', -⟩ := (exists_contribution_of_boxesTo h).1 _ hkind
    have hops' : operands types' = [(primitive kind).boxed] :=
      operands_eq_singleton (hall'' ty' hty' ▸ hty') hall''
    rw [join_of_operands_eq_singleton hops', hops']
    exact iff_of_true rfl fun hboth ↦ not_arePair_singleton kind _ hboth.2

/-- If all the boxed numbers are one type, then that is the wrapper class of the primitive, and the
numbers are the two. -/
theorem arePair_of_operands_eq_singleton (hnumbers : ∀ ty ∈ contributions types, ty.IsNumeric)
    (hother : ∃ ty ∈ contributions types, ty ≠ primitive kind) {single : Ty}
    (hops' : operands types' = [single]) :
    ArePair kind (operands types) ∧ operands types' = [(primitive kind).boxed] := by
  obtain ⟨hforth, hback⟩ := exists_contribution_of_boxesTo h
  have hall : ∀ ty' ∈ contributions types', ty' = single := by
    intro ty' hty'
    obtain ⟨operand, hoperand, hbeq⟩ := (areOperands_operands types').complete ty' hty'
    obtain rfl : operand = single := by simpa [hops'] using hoperand
    obtain ⟨ty, hty, hboxes⟩ := hback _ (mem_contributions_of_mem_operands hoperand)
    have hnumeric : operand.IsNumeric := hboxes.isNumeric_iff.1 (hnumbers ty hty)
    exact IsNumberOrNull.eq_of_beq (.inl (Numeric.isSome_operand_iff.1 hnumeric)) hbeq
  have hboxes : ∀ ty ∈ contributions types, BoxesTo ty single := by
    intro ty hty
    obtain ⟨ty', hty', hboxes⟩ := hforth ty hty
    rwa [hall ty' hty'] at hboxes
  obtain ⟨other, hmem, hne⟩ := hother
  have hsingle : single = (primitive kind).boxed := by
    refine (hboxes _ hkind).resolve_left ?_
    rintro rfl
    exact hne (hboxes other hmem).eq_primitive
  subst hsingle
  have hpair : ∀ ty ∈ contributions types, ty = primitive kind ∨ ty = (primitive kind).boxed := by
    intro ty hty
    rcases boxesTo_cases (hboxes ty hty) with heq | ⟨kind', rfl, hclass⟩
    · exact .inr heq.symm
    · have hkinds := congrArg unboxed hclass
      rw [unboxed_boxed_primitive, unboxed_boxed_primitive] at hkinds
      exact .inl hkinds.symm
  refine ⟨arePair_operands hkind ?_ hpair, hops'⟩
  exact (hpair other hmem).resolve_left hne ▸ hmem

/-- The case of different numbers: their ranks decide, unless boxing makes one type of two. -/
theorem asArgument_join_iff_of_numbers (hnumbers : ∀ ty ∈ contributions types, ty.IsNumeric)
    (hother : ∃ ty ∈ contributions types, ty ≠ primitive kind) :
    Rule.asArgument (join types) = Rule.asArgument (join types') ↔ ¬BoxingShows types types' := by
  obtain ⟨hforth, hback⟩ := exists_contribution_of_boxesTo h
  have htwo := two_le_length_operands hkind hother
  have hnumbers' : ∀ ty' ∈ contributions types', ty'.IsNumeric := by
    intro ty' hty'
    obtain ⟨ty, hty, hboxes⟩ := hback ty' hty'
    exact hboxes.isNumeric_iff.1 (hnumbers ty hty)
  have hfinds : ¬FindsAncestor types types' := by
    rintro ⟨-, -, ⟨ty, hty, hnot⟩, -, -⟩
    exact hnot (hnumbers ty (mem_contributions_of_mem_operands hty))
  rw [BoxingShows, or_iff_right hfinds]
  rcases Nat.lt_or_ge (operands types').length 2 with hfew | htwo'
  · obtain ⟨single, hops'⟩ : ∃ single, operands types' = [single] := by
      obtain ⟨ty', hty', -⟩ := hforth _ hkind
      obtain ⟨operand, hoperand, -⟩ := (areOperands_operands types').complete ty' hty'
      have hpos := List.length_pos_of_mem hoperand
      exact List.length_eq_one_iff.1 (by omega)
    obtain ⟨hpair, hboxed⟩ := arePair_of_operands_eq_singleton h hkind hnumbers hother hops'
    rw [splitsNarrow_iff_of_arePair hpair, join_of_operands_eq_singleton hboxed]
    change _ = (primitive kind).boxed ↔ _
    rw [asArgument_join_eq_boxed_iff hpair]
    simp [hboxed]
  · refine iff_of_true ?_ (not_splitsNarrow htwo htwo')
    rw [← Option.some_inj, some_asArgument_join htwo (forall_isNumeric_operands_iff.2 hnumbers),
      some_asArgument_join htwo' (forall_isNumeric_operands_iff.2 hnumbers'),
      Numeric.boxed_promote_congr (mem_map_rank?_iff_of_boxesTo h)]

/-- A type that is no class is not alone: the primitive it may be was not, and a wrapper class
differs from it. -/
theorem two_le_length_operands_of_boxesTo
    (hdiffer : ∃ ty ∈ contributions types, ty ≠ primitive kind) {mixed : Ty}
    (hmixed : mixed ∈ operands types') (hname : mixed.name? = none) :
    2 ≤ (operands types').length := by
  obtain ⟨hforth, -⟩ := exists_contribution_of_boxesTo h
  obtain ⟨ty', hty', hboxes⟩ := hforth _ hkind
  rcases hboxes with rfl | rfl
  · obtain ⟨other, hmem, hne⟩ := hdiffer
    obtain ⟨other', hmem', hboxes⟩ := hforth other hmem
    refine two_le_length_operands hty' ⟨other', hmem', ?_⟩
    rintro rfl
    exact hne hboxes.eq_primitive
  · refine two_le_length_of_ne hmixed (ofClass_mem_operands_iff.2 hty') ?_
    rintro rfl
    cases hname

/-- The case of a primitive among types that are not all numbers. Once all of these are classes, the
primitive was boxed, and its wrapper class is one of them. -/
theorem asArgument_join_iff_of_others (hother : ∃ ty ∈ contributions types, ¬ty.IsNumeric)
    (hdiffer : ∃ ty ∈ contributions types, ty ≠ primitive kind) :
    Rule.asArgument (join types) = Rule.asArgument (join types') ↔ ¬BoxingShows types types' := by
  obtain ⟨hforth, -⟩ := exists_contribution_of_boxesTo h
  have htwo := two_le_length_operands hkind hdiffer
  have hmem := primitive_mem_operands_iff.2 hkind
  have hothers := exists_not_isNumeric_operands_iff.2 hother
  have hothers' : ∃ ty ∈ operands types', ¬ty.IsNumeric := by
    obtain ⟨ty, hty, hnot⟩ := hother
    obtain ⟨ty', hty', hboxes⟩ := hforth ty hty
    exact exists_not_isNumeric_operands_iff.2 ⟨ty', hty', mt hboxes.isNumeric_iff.2 hnot⟩
  rw [join_of_mixed htwo hothers ⟨_, hmem, rfl⟩]
  by_cases hclasses : ∀ ty ∈ operands types', ty.name? ≠ none
  · have hboxed : (primitive kind).boxed ∈ operands types' := by
      obtain ⟨ty', hty', rfl | rfl⟩ := hforth _ hkind
      · exact absurd rfl (hclasses _ (primitive_mem_operands_iff.2 hty'))
      · exact ofClass_mem_operands_iff.2 hty'
    rw [join_of_classes hclasses hboxed hothers',
      boxingShows_iff_of_classes htwo hmem hothers hclasses, not_not]
    change ofClass _ = ofClass _ ↔ _
    simp [ofClass, eq_comm]
  · push Not at hclasses
    obtain ⟨mixed, hmixed, hname⟩ := hclasses
    have htwo' := two_le_length_operands_of_boxesTo h hkind hdiffer hmixed hname
    rw [join_of_mixed htwo' hothers' ⟨mixed, hmixed, hname⟩]
    refine iff_of_true rfl ?_
    rintro (hfinds | hsplits)
    · exact hfinds.classes mixed hmixed hname
    · exact not_splitsNarrow htwo htwo' hsplits

theorem asArgument_join_eq_iff :
    Rule.asArgument (join types) = Rule.asArgument (join types') ↔ ¬BoxingShows types types' := by
  by_cases hall : ∀ ty ∈ contributions types, ty = primitive kind
  · exact asArgument_join_iff_of_forall_eq h hkind hall
  · push Not at hall
    by_cases hnumbers : ∀ ty ∈ contributions types, ty.IsNumeric
    · exact asArgument_join_iff_of_numbers h hkind hnumbers hall
    · push Not at hnumbers
      exact asArgument_join_iff_of_others h hkind hnumbers hall

theorem asArgument_join_beq_iff :
    Rule.asArgument (join types) == Rule.asArgument (join types') ↔ ¬BoxingShows types types' := by
  obtain ⟨name, hname⟩ := exists_asArgument_eq_ofClass hkind
  rw [← asArgument_join_eq_iff h hkind, hname, ofClass_beq_iff, eq_comm]

end Shows

/-! ## List literals -/

section Literals

variable {types types' : List Ty}

theorem elementArgument_of_two_le (h : 2 ≤ types.length) :
    Rule.elementArgument types = Rule.asArgument (join types) := by
  rw [Rule.elementArgument, lub_of_two_le h]

theorem elementArgument_primitive (kind : Primitive) :
    Rule.elementArgument [primitive kind] = Rule.asArgument (join [primitive kind]) := by
  rw [join_singleton rfl]
  rfl

/-- A list in which nothing is a primitive stays what it is. -/
theorem eq_of_forall₂_boxesTo (h : List.Forall₂ BoxesTo types types')
    (hnone : ∀ kind, primitive kind ∉ types) : types = types' := by
  induction h with
  | nil => rfl
  | cons hab _ ih =>
    rcases boxesTo_cases hab with rfl | ⟨kind, rfl, -⟩
    · rw [ih fun kind hkind ↦ hnone kind (List.mem_cons_of_mem _ hkind)]
    · exact absurd List.mem_cons_self (hnone kind)

/-- Without a primitive there is nothing to box; with one the join decides, also for a list of one
element. -/
theorem elementArgument_beq_iff (h : List.Forall₂ BoxesTo types types') :
    Rule.elementArgument types == Rule.elementArgument types' ↔ ¬BoxingShows types types' := by
  by_cases hnone : ∀ kind, primitive kind ∉ types
  · obtain rfl := eq_of_forall₂_boxesTo h hnone
    exact iff_of_true (beq_refl _) (not_boxingShows_self types)
  · push Not at hnone
    obtain ⟨kind, hmem⟩ := hnone
    have hkind : primitive kind ∈ contributions types :=
      mem_contributions_iff.2 ⟨⟨_, hmem, List.mem_singleton_self _⟩, rfl⟩
    have hjoin : Rule.elementArgument types = Rule.asArgument (join types) ∧
        Rule.elementArgument types' = Rule.asArgument (join types') := by
      by_cases hlength : types.length = 1
      · obtain ⟨ty, rfl⟩ := List.length_eq_one_iff.1 hlength
        obtain rfl := List.mem_singleton.1 hmem
        obtain ⟨ty', _, hboxes, hnil, rfl⟩ := List.forall₂_cons_left_iff.1 h
        obtain rfl := List.forall₂_nil_left_iff.1 hnil
        refine ⟨elementArgument_primitive kind, ?_⟩
        rcases hboxes with rfl | rfl
        · exact elementArgument_primitive kind
        · rw [join_singleton rfl]
          rfl
      · have hpos := List.length_pos_of_mem hmem
        have htwo : 2 ≤ types.length := by omega
        exact ⟨elementArgument_of_two_le htwo, elementArgument_of_two_le (h.length_eq ▸ htwo)⟩
    rw [hjoin.1, hjoin.2]
    exact asArgument_join_beq_iff h hkind

theorem listOf_beq_iff {a b : Ty} : listOf a == listOf b ↔ a == b := by
  simp [listOf, known_beq_iff]

end Literals

end Ty

theorem Registry.value_infer_list_of_two_le (environment : Environment) {elements : List Expr}
    (h : 2 ≤ elements.length) :
    (standard.infer environment (.single .list (.list elements))).value =
      .listOf (Rule.asArgument
        (.join (elements.map fun element ↦ (standard.infer environment element).value))) := by
  rw [value_infer_list, Ty.elementArgument_of_two_le (by simpa using h)]

/-- If in a list literal some elements of primitive types are replaced by elements of their wrapper
classes, then the type of the list stays the same up to equality, unless the replacement lets the
classes find an ancestor below the top class, or puts a boolean or a narrow number beside its
wrapper class or leaves the class alone. In these situations the type of the list is another. -/
theorem infer_list_beq_iff_not_boxingShows :
    (∀ types types' : List Ty, List.Forall₂ Ty.BoxesTo types types' →
      (Rule.elementArgument types == Rule.elementArgument types' ↔
        ¬Ty.BoxingShows types types')) ∧
    ∀ (environment environment' : Environment) (e e' : Expr) (elements elements' : List Expr),
      e.kind = .list → e.list? = some elements → e'.kind = .list → e'.list? = some elements' →
      let types := elements.map fun element ↦ (Registry.standard.infer environment element).value
      let types' := elements'.map fun element ↦ (Registry.standard.infer environment' element).value
      List.Forall₂ Ty.BoxesTo types types' →
        ((Registry.standard.infer environment e).value ==
            (Registry.standard.infer environment' e').value ↔
          ¬Ty.BoxingShows types types') := by
  refine ⟨fun _ _ h ↦ Ty.elementArgument_beq_iff h, ?_⟩
  intro environment environment' e e' elements elements' hkind helements hkind' helements' types
    types' h
  rw [Registry.value_infer_of_list? hkind helements,
    Registry.value_infer_of_list? hkind' helements', Ty.listOf_beq_iff]
  exact Ty.elementArgument_beq_iff h

/-- A byte, a null and a short make a list of integers, also if the byte is boxed. -/
theorem infer_list_of_boxed_byte :
    let environment :=
      { symbols := [⟨"b", .local, .ofClass ClassName.byte⟩] : Declarations }.environment
    let others : List Expr :=
      [.single .literal (.literal .null), .single .literal (.literal (.short 2))]
    let plain : List Expr := .single .literal (.literal (.byte 1)) :: others
    let boxed : List Expr := .single .ident (.ident "b") :: others
    let typesOf := fun elements : List Expr ↦
      elements.map fun element ↦ (Registry.standard.infer environment element).value
    let typeOf := fun elements ↦
      (Registry.standard.infer environment (.single .list (.list elements))).value
    List.Forall₂ Ty.BoxesTo (typesOf plain) (typesOf boxed) ∧
      ¬Ty.BoxingShows (typesOf plain) (typesOf boxed) ∧
      typeOf plain == typeOf boxed ∧ typeOf plain = .listOf (.ofClass ClassName.integer) := by
  intro environment others plain boxed typesOf typeOf
  have hsymbol : environment.symbol? "b" = some ⟨"b", .local, .ofClass ClassName.byte⟩ := rfl
  have hplain : typesOf plain = [.primitive .byte, .null, .primitive .short] := by
    simp [typesOf, plain, others, Registry.value_infer_literal, Literal.ty]
  have hboxed : typesOf boxed = [.ofClass ClassName.byte, .null, .primitive .short] := by
    simp [typesOf, boxed, others, Registry.value_infer_literal, Literal.ty,
      Registry.value_infer_ident rfl hsymbol]
  have hboxes : List.Forall₂ Ty.BoxesTo (typesOf plain) (typesOf boxed) := by
    rw [hplain, hboxed]
    exact .cons (.inr rfl) (.cons (.inl rfl) (.cons (.inl rfl) .nil))
  have hshows : ¬Ty.BoxingShows (typesOf plain) (typesOf boxed) := by
    rw [hplain, hboxed]
    rintro (⟨-, -, ⟨ty, hty, hnot⟩, -, -⟩ | hsplits)
    · rcases List.mem_pair.1 hty with rfl | rfl <;> exact hnot rfl
    · exact Ty.not_splitsNarrow (by decide) (by decide) hsplits
  refine ⟨hboxes, hshows, ?_, ?_⟩
  · exact (infer_list_beq_iff_not_boxingShows.2 environment environment _ _ plain boxed
      rfl rfl rfl rfl hboxes).2 hshows
  · have hjoin : Ty.join (typesOf plain) = .int := by
      rw [hplain, Ty.join_of_two_le (by decide)]
      exact Ty.joinDistinct_of_promote rfl
    exact (Registry.value_infer_list_of_two_le environment (by decide)).trans
      (congrArg (fun ty ↦ Ty.listOf (Rule.asArgument ty)) hjoin)

/-- A boolean and a string have no class in common but the top one, and their classes have. -/
theorem infer_list_of_boxed_boolean :
    let environment :=
      { symbols := [⟨"flag", .local, .ofClass ClassName.boolean⟩] : Declarations }.environment
    let text : Expr := .single .literal (.literal (.string "a"))
    let plain : List Expr := [.single .literal (.literal (.boolean true)), text]
    let boxed : List Expr := [.single .ident (.ident "flag"), text]
    let typesOf := fun elements : List Expr ↦
      elements.map fun element ↦ (Registry.standard.infer environment element).value
    let typeOf := fun elements ↦
      (Registry.standard.infer environment (.single .list (.list elements))).value
    List.Forall₂ Ty.BoxesTo (typesOf plain) (typesOf boxed) ∧
      typeOf plain = .listOf .object ∧ typeOf boxed = .listOf (.ofClass ClassName.comparable) ∧
      ¬typeOf plain == typeOf boxed := by
  intro environment text plain boxed typesOf typeOf
  have hsymbol : environment.symbol? "flag" =
    some ⟨"flag", .local, .ofClass ClassName.boolean⟩ := rfl
  have hplain : typesOf plain = [.primitive .boolean, .string] := by
    simp [typesOf, plain, text, Registry.value_infer_literal, Literal.ty]
  have hboxed : typesOf boxed = [.ofClass ClassName.boolean, .string] := by
    simp [typesOf, boxed, text, Registry.value_infer_literal, Literal.ty,
      Registry.value_infer_ident rfl hsymbol]
  have hobject : typeOf plain = .listOf .object := by
    have hjoin : Ty.join (typesOf plain) = .object := by
      rw [hplain]
      exact Ty.join_of_mixed (by decide) ⟨_, List.mem_cons_self, Bool.false_ne_true⟩
        ⟨_, List.mem_cons_self, rfl⟩
    exact (Registry.value_infer_list_of_two_le environment (by decide)).trans
      (congrArg (fun ty ↦ Ty.listOf (Rule.asArgument ty)) hjoin)
  have hcomparable : typeOf boxed = .listOf (.ofClass ClassName.comparable) := by
    have hancestor : builtinTable.mostSpecificCommonAncestor [ClassName.boolean, ClassName.string] =
        ClassName.comparable := by
      decide +kernel
    have hjoin : Ty.join (typesOf boxed) = .ofClass ClassName.comparable := by
      rw [hboxed, ← hancestor]
      refine Ty.join_of_classes ?_ (List.mem_cons_self : (Ty.primitive .boolean).boxed ∈ _) ?_
      · intro ty hty
        rcases List.mem_pair.1 hty with rfl | rfl <;> exact Option.some_ne_none _
      · exact ⟨_, List.mem_cons_self, Bool.false_ne_true⟩
    exact (Registry.value_infer_list_of_two_le environment (by decide)).trans
      (congrArg (fun ty ↦ Ty.listOf (Rule.asArgument ty)) hjoin)
  refine ⟨?_, hobject, hcomparable, ?_⟩
  · rw [hplain, hboxed]
    exact .cons (.inr rfl) (.cons (.inl rfl) .nil)
  · rw [hobject, hcomparable]
    decide

end ExprTyping
