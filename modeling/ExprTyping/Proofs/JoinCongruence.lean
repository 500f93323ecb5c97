import ExprTyping.Proofs.CommonAncestor
import ExprTyping.Proofs.JoinEquations
import ExprTyping.Proofs.Promotion

/-!
# A join is a function of a set

Every question that the join asks about its operands has the same answer for the same set of
types: how many there are, whether some or all of them are of a certain form, which names and
numbers of arguments occur. What is left are the columns of arguments, which are again the same
sets, of smaller types.
-/

namespace ExprTyping.Ty

/-! ## Questions about the same set -/

namespace SameTypes

variable {as bs : List Ty}

theorem mem_map_iff {β : Type} {f : Ty → β} (hf : ∀ {a b : Ty}, a == b → f a = f b)
    (h : SameTypes as bs) {x : β} : x ∈ as.map f ↔ x ∈ bs.map f := by
  constructor
  · intro hx
    obtain ⟨a, ha, rfl⟩ := List.mem_map.1 hx
    obtain ⟨b, hb, hab⟩ := h.1 a ha
    exact List.mem_map.2 ⟨b, hb, (hf hab).symm⟩
  · intro hx
    obtain ⟨b, hb, rfl⟩ := List.mem_map.1 hx
    obtain ⟨a, ha, hba⟩ := h.2 b hb
    exact List.mem_map.2 ⟨a, ha, (hf hba).symm⟩

theorem any_eq {p : Ty → Bool} (hp : ∀ {a b : Ty}, a == b → p a = p b) (h : SameTypes as bs) :
    as.any p = bs.any p := by
  have hiff := h.mem_map_iff hp (x := true)
  rw [Bool.eq_iff_iff, List.any_eq_true, List.any_eq_true]
  simpa only [List.mem_map] using hiff

theorem all_eq {p : Ty → Bool} (hp : ∀ {a b : Ty}, a == b → p a = p b) (h : SameTypes as bs) :
    as.all p = bs.all p := by
  rw [List.all_eq_not_any_not, List.all_eq_not_any_not, h.any_eq]
  intro a b hab
  rw [hp hab]

end SameTypes

/-- The rule for strings counts the operands and asks which names there are. -/
theorem joinStrings_congr {as bs : List Ty} (h : SameTypes as bs)
    (hlength : as.length = bs.length) : joinStrings as = joinStrings bs := by
  have hany (name : ClassName) : as.any (·.isNamed name) = bs.any (·.isNamed name) :=
    h.any_eq fun hab ↦ isNamed_eq_of_beq hab name
  rw [joinStrings_eq, joinStrings_eq, hlength, hany, hany]

theorem promote_eq_of_sameTypes {as bs : List Ty} (h : SameTypes as bs) :
    Numeric.promote as = Numeric.promote bs :=
  Numeric.promote_congr fun _ ↦ h.mem_map_iff Numeric.operand_eq_of_beq

theorem joinPrimitives_congr {kinds kinds' : List Primitive}
    (h : ∀ kind, kind ∈ kinds ↔ kind ∈ kinds') : joinPrimitives kinds = joinPrimitives kinds' := by
  have hall : kinds.all (· == .boolean) = kinds'.all (· == .boolean) := by
    rw [Bool.eq_iff_iff, List.all_eq_true, List.all_eq_true]
    simp only [h]
  have hany : kinds.any (· == .boolean) = kinds'.any (· == .boolean) := by
    rw [Bool.eq_iff_iff, List.any_eq_true, List.any_eq_true]
    simp only [h]
  have hpromote : Numeric.promote (kinds.map primitive) =
      Numeric.promote (kinds'.map primitive) := by
    refine Numeric.promote_congr fun operand ↦ ?_
    simp only [List.map_map, List.mem_map, h]
  rw [joinPrimitives, joinPrimitives, hall, hany, hpromote]

theorem joinPrimitives_eq_of_sameTypes {as bs : List Ty} (h : SameTypes as bs) :
    joinPrimitives (as.filterMap primitive?) = joinPrimitives (bs.filterMap primitive?) := by
  refine joinPrimitives_congr fun kind ↦ ?_
  have hiff := h.mem_map_iff primitive?_eq_of_beq (x := some kind)
  simpa only [List.mem_filterMap, List.mem_map] using hiff

/-! ## Classes and their columns -/

theorem name_reference_eq_of_beq {a b : Ty} (hab : a == b) :
    (Reference.of a).name = (Reference.of b).name := by
  cases hab using beq_cases <;> rfl

/-- Whether classes agree depends on the pairs of a name and a number of arguments that occur. -/
theorem agree_congr {as bs : List Ty} (h : SameTypes as bs) (name : ClassName) :
    Reference.agree name (as.map Reference.of) = Reference.agree name (bs.map Reference.of) := by
  have hiff {x : ClassName × Nat} := h.mem_map_iff (x := x)
    (f := fun ty ↦ ((Reference.of ty).name, ty.args.length)) (by
      intro a b hab
      rw [name_reference_eq_of_beq hab, (forall₂_args_of_beq hab).length_eq])
  have hagree (types : List Ty) : Reference.agree name (types.map Reference.of) ↔
      ∀ x ∈ types.map fun ty ↦ ((Reference.of ty).name, ty.args.length), x.1 = name ∧
        ∀ y ∈ types.map fun ty ↦ ((Reference.of ty).name, ty.args.length), x.2 = y.2 := by
    simp only [agree_iff, List.forall_mem_map, args_reference]
  rw [Bool.eq_iff_iff, hagree, hagree]
  simp only [hiff]

theorem exists_column_of_within {as bs : List Ty} (h : ∀ a ∈ as, ∃ b ∈ bs, a == b) {i : Nat}
    {ty : Ty} (hty : ty ∈ Reference.column (as.map Reference.of) i) :
    ∃ ty' ∈ Reference.column (bs.map Reference.of) i, ty == ty' := by
  obtain ⟨a, ha, harg⟩ := mem_column_iff.1 hty
  obtain ⟨b, hb, hab⟩ := h a ha
  have hargs := forall₂_args_of_beq hab
  obtain ⟨hi, rfl⟩ := List.getElem?_eq_some_iff.1 harg
  have hi' : i < b.args.length := Nat.lt_of_lt_of_eq hi hargs.length_eq
  exact ⟨b.args[i], mem_column_iff.2 ⟨b, hb, List.getElem?_eq_getElem hi'⟩, hargs.get hi hi'⟩

/-- Columns of arguments at the same position are the same sets again. -/
theorem SameTypes.column {as bs : List Ty} (h : SameTypes as bs) (i : Nat) :
    SameTypes (Reference.column (as.map Reference.of) i)
      (Reference.column (bs.map Reference.of) i) :=
  ⟨fun _ hty ↦ exists_column_of_within h.1 hty, fun _ hty ↦ exists_column_of_within h.2 hty⟩

theorem arity_eq_of_agree {as bs : List Ty} (h : SameTypes as bs) {name : ClassName}
    (hbs : Reference.agree name (bs.map Reference.of)) :
    Reference.arity (as.map Reference.of) = Reference.arity (bs.map Reference.of) := by
  cases as with
  | nil =>
    cases bs with
    | nil => rfl
    | cons b bs => simpa using h.2 b (by simp)
  | cons a as =>
    obtain ⟨b, hb, hab⟩ := h.1 a (by simp)
    cases bs with
    | nil => cases hb
    | cons first bs =>
      have hlength := (agree_iff.1 hbs _ (List.mem_map_of_mem hb)).2 (Reference.of first) (by simp)
      simp only [args_reference] at hlength
      simp [Reference.arity, (forall₂_args_of_beq hab).length_eq, hlength]

theorem joinReferences_beq {as bs : List Ty} (h : SameTypes as bs)
    (hcolumns : ∀ i, join (Reference.column (as.map Reference.of) i) ==
      join (Reference.column (bs.map Reference.of) i)) :
    joinReferences (as.map Reference.of) == joinReferences (bs.map Reference.of) := by
  have hname : builtinTable.mostSpecificCommonAncestor ((as.map Reference.of).map (·.name)) =
      builtinTable.mostSpecificCommonAncestor ((bs.map Reference.of).map (·.name)) := by
    refine SupertypeTable.mostSpecificCommonAncestor_congr _ fun name ↦ ?_
    rw [List.map_map, List.map_map]
    exact h.mem_map_iff name_reference_eq_of_beq
  simp only [joinReferences, hname, agree_congr h]
  split
  next hagree =>
    rw [arity_eq_of_agree h hagree]
    refine known_beq_iff.2 ⟨_, rfl, ?_⟩
    rw [List.forall₂_map_left_iff, List.forall₂_map_right_iff]
    exact List.forall₂_same.2 fun i _ ↦ hcolumns i
  · exact beq_refl _

/-- Different operands give equal joins if the columns of their arguments do. -/
theorem joinDistinct_beq {as bs : List Ty} (h : SameTypes as bs) (hlength : as.length = bs.length)
    (hcolumns : ∀ i, join (Reference.column (as.map Reference.of) i) ==
      join (Reference.column (bs.map Reference.of) i)) :
    joinDistinct as == joinDistinct bs := by
  have hprimitive : ∀ {a b : Ty}, a == b → a.primitive?.isSome = b.primitive?.isSome :=
    fun hab ↦ congrArg Option.isSome (primitive?_eq_of_beq hab)
  rw [joinDistinct, joinDistinct, joinStrings_congr h hlength, promote_eq_of_sameTypes h,
    h.all_eq hprimitive, h.any_eq hprimitive, joinPrimitives_eq_of_sameTypes h]
  split
  · exact beq_refl _
  · exact beq_refl _
  · split
    · exact beq_refl _
    · split
      · exact beq_refl _
      · exact joinReferences_beq h hcolumns

/-! ## The join and the least upper bound -/

/-- The join depends on the set of the operands only. The induction is on their total size, because
the columns of arguments are joined in turn. -/
theorem join_beq {xs ys : List Ty} (hxs : ∀ x ∈ xs, x.WellFormed) (hys : ∀ y ∈ ys, y.WellFormed)
    (h : SameOperands xs ys) : join xs == join ys := by
  induction hsize : totalSize xs using Nat.strong_induction_on generalizing xs ys with
  | _ size ih =>
    have hoperands := h.operands hxs hys
    have hlength := h.length_eq hxs hys
    rcases Nat.lt_or_ge (operands xs).length 2 with htwo | htwo
    · match hx : operands xs, hy : operands ys, hlength, htwo with
      | [], [], _, _ =>
        rw [join_of_operands_eq_nil hx, join_of_operands_eq_nil hy]
        exact beq_refl null
      | [x], [y], _, _ =>
        rw [join_of_operands_eq_singleton hx, join_of_operands_eq_singleton hy]
        rw [hx, hy] at hoperands
        simpa using hoperands.1
    · rw [join_of_two_le htwo, join_of_two_le (hlength ▸ htwo)]
      refine joinDistinct_beq hoperands hlength fun i ↦ ?_
      exact ih _ (hsize ▸ totalSize_operands_column_lt htwo i)
        (fun _ hty ↦ wellFormed_of_mem_column hxs hty)
        (fun _ hty ↦ wellFormed_of_mem_column hys hty) (hoperands.column i).sameOperands rfl

def Joinable (types : List Ty) : Prop := 2 ≤ types.length ∧ ∀ ty ∈ types, ty.WellFormed

instance (types : List Ty) : Decidable (Joinable types) := inferInstanceAs (Decidable (_ ∧ _))

def SameLub (xs ys : List Ty) : Prop := ∃ x y, lub xs = .ok x ∧ lub ys = .ok y ∧ x == y

theorem lub_of_two_le {types : List Ty} (h : 2 ≤ types.length) : lub types = .ok (join types) := by
  match types, h with
  | _ :: _ :: _, _ => rfl

theorem sameLub_of_sameOperands {xs ys : List Ty} (hxs : Joinable xs) (hys : Joinable ys)
    (h : SameOperands xs ys) : SameLub xs ys :=
  ⟨join xs, join ys, lub_of_two_le hxs.1, lub_of_two_le hys.1, join_beq hxs.2 hys.2 h⟩

theorem sameOperands_of_union {members : List Ty} (h : (union members).WellFormed) :
    SameOperands [union members] members := by
  have hflat := flatten_eq_self (wellFormed_union_iff.1 h).2.2.1
  have hcontributions : contributions [union members] = contributions members := by
    rw [contributions, contributions, hflat]
    simp [flatten, parts]
  rw [SameOperands, hcontributions]
  exact .of_subset (List.Subset.refl _) (List.Subset.refl _)

/-- A union brings the types that it was built from. -/
theorem sameOperands_of_unionOf {types : List Ty} {ty : Ty} (h : ∀ ty ∈ types, ty.WellFormed)
    (hunion : unionOf types = .ok ty) : ty.WellFormed ∧ SameOperands [ty] types := by
  obtain ⟨htwo, rfl⟩ := unionOf_eq_ok_iff.1 hunion
  refine ⟨wellFormed_union_distinct h htwo, ?_⟩
  have hsame := sameTypes_distinct fun _ hty ↦ (wellFormed_of_mem_flatten h hty).1
  have hfilter := hsame.filter (p := fun ty ↦ !ty.isNull) fun hab ↦ by rw [isNull_eq_of_beq hab]
  simpa [SameOperands, contributions, flatten, parts] using hfilter

theorem sameLub_of_mem_iff {xs ys : List Ty} (hxs : Joinable xs) (htwo : 2 ≤ ys.length)
    (h : ∀ ty, ty ∈ xs ↔ ty ∈ ys) : SameLub xs ys := by
  have hys : Joinable ys := ⟨htwo, fun ty hty ↦ hxs.2 ty ((h ty).2 hty)⟩
  refine sameLub_of_sameOperands hxs hys (SameTypes.sameOperands (.of_subset ?_ ?_))
  · exact fun ty hty ↦ (h ty).1 hty
  · exact fun ty hty ↦ (h ty).2 hty

/-- Any part of the arguments can be replaced by one that brings the same types. -/
theorem sameLub_middle {left right xs ys : List Ty} (hxs : Joinable (left ++ xs ++ right))
    (hys : ∀ y ∈ ys, y.WellFormed) (htwo : 2 ≤ (left ++ ys ++ right).length)
    (h : SameOperands xs ys) : SameLub (left ++ xs ++ right) (left ++ ys ++ right) := by
  have hjoinable : Joinable (left ++ ys ++ right) := by
    refine ⟨htwo, fun ty hty ↦ ?_⟩
    simp only [List.mem_append] at hty
    rcases hty with (hty | hty) | hty
    · exact hxs.2 ty (by simp [hty])
    · exact hys ty hty
    · exact hxs.2 ty (by simp [hty])
  exact sameLub_of_sameOperands hxs hjoinable (h.middle left right)

theorem sameLub_repeat {left right : List Ty} {x : Ty} (h : Joinable (left ++ right))
    (hx : x ∈ left ++ right) : SameLub (left ++ right) (left ++ [x] ++ right) := by
  refine sameLub_of_mem_iff h ?_ fun ty ↦ ?_
  · have htwo := h.1
    simp only [List.length_append, List.length_cons, List.length_nil] at htwo ⊢
    omega
  · simp only [List.mem_append, List.mem_singleton] at hx ⊢
    constructor
    · rintro (hty | hty)
      · exact .inl (.inl hty)
      · exact .inr hty
    · rintro ((hty | rfl) | hty)
      · exact .inl hty
      · exact hx
      · exact .inr hty

/-- Null brings nothing. -/
theorem sameLub_null {left right : List Ty} (h : Joinable (left ++ right)) :
    SameLub (left ++ right) (left ++ [null] ++ right) := by
  have hsame : SameOperands [] [null] := .of_subset (List.Subset.refl _) (List.Subset.refl _)
  have hnil : Joinable (left ++ [] ++ right) := by simpa using h
  have htwo : 2 ≤ (left ++ [null] ++ right).length := by
    have htwo := h.1
    simp only [List.length_append, List.length_cons, List.length_nil] at htwo ⊢
    omega
  simpa using sameLub_middle hnil (by simp) htwo hsame

theorem sameLub_spellOut {left right members : List Ty}
    (h : Joinable (left ++ [union members] ++ right)) :
    SameLub (left ++ [union members] ++ right) (left ++ members ++ right) := by
  have hunion : (union members).WellFormed := h.2 _ (by simp)
  obtain ⟨htwo, -, -, hmembers⟩ := wellFormed_union_iff.1 hunion
  refine sameLub_middle h hmembers ?_ (sameOperands_of_union hunion)
  simp only [List.length_append]
  omega

theorem sameLub_group {left right types : List Ty} {ty : Ty}
    (h : Joinable (left ++ types ++ right)) (htwo : 2 ≤ (left ++ [ty] ++ right).length)
    (hunion : unionOf types = .ok ty) :
    SameLub (left ++ types ++ right) (left ++ [ty] ++ right) := by
  have htypes : ∀ ty ∈ types, ty.WellFormed := fun ty hty ↦ h.2 ty (by simp [hty])
  obtain ⟨hwf, hsame⟩ := sameOperands_of_unionOf htypes hunion
  exact sameLub_middle h (by simpa using hwf) htwo hsame.symm

theorem sameLub_replace {left right : List Ty} {x y : Ty} (h : Joinable (left ++ [x] ++ right))
    (hy : y.WellFormed) (hxy : x == y) :
    SameLub (left ++ [x] ++ right) (left ++ [y] ++ right) := by
  have hx : x.WellFormed := h.2 x (by simp)
  have hsame : SameTypes [x] [y] :=
    .of_forall₂ (by simpa using hx) (by simpa using hy) (.cons hxy .nil)
  exact sameLub_middle h (by simpa using hy) (by simpa using h.1) hsame.sameOperands

theorem lub2_beq_swap {a b : Ty} (ha : a.WellFormed) (hb : b.WellFormed) :
    lub2 a b == lub2 b a := by
  refine join_beq (by simp [ha, hb]) (by simp [ha, hb]) (SameTypes.sameOperands ?_)
  exact .of_subset (by simp) (by simp)

/-- The least upper bound of two or more types depends on the set of their operands only. -/
theorem lub_congr_of_operand_set :
    (∀ xs ys, Joinable xs → Joinable ys → SameOperands xs ys → SameLub xs ys) ∧
      (∀ xs ys, Joinable xs → xs.Perm ys → SameLub xs ys) ∧
      (∀ left right x, Joinable (left ++ right) → x ∈ left ++ right →
        SameLub (left ++ right) (left ++ [x] ++ right)) ∧
      (∀ left right, Joinable (left ++ right) →
        SameLub (left ++ right) (left ++ [null] ++ right)) ∧
      (∀ left right members, Joinable (left ++ [union members] ++ right) →
        SameLub (left ++ [union members] ++ right) (left ++ members ++ right)) ∧
      (∀ left right types ty, Joinable (left ++ types ++ right) →
        2 ≤ (left ++ [ty] ++ right).length → unionOf types = .ok ty →
        SameLub (left ++ types ++ right) (left ++ [ty] ++ right)) ∧
      (∀ left right x y, Joinable (left ++ [x] ++ right) → y.WellFormed → x == y →
        SameLub (left ++ [x] ++ right) (left ++ [y] ++ right)) ∧
      ∀ a b : Ty, a.WellFormed → b.WellFormed → lub2 a b == lub2 b a := by
  refine ⟨fun xs ys ↦ sameLub_of_sameOperands, fun xs ys hxs hperm ↦ ?_,
    fun left right x ↦ sameLub_repeat, fun left right ↦ sameLub_null,
    fun left right members ↦ sameLub_spellOut, fun left right types ty ↦ sameLub_group,
    fun left right x y ↦ sameLub_replace, fun a b ↦ lub2_beq_swap⟩
  exact sameLub_of_mem_iff hxs (hperm.length_eq ▸ hxs.1) fun ty ↦ hperm.mem_iff

theorem sameLub_of_lists_regrouped :
    Joinable [listOf (union [int, string]), listOf string] ∧
      Joinable [null, union [listOf string, listOf (union [string, int])]] ∧
      SameOperands [listOf (union [int, string]), listOf string]
        [null, union [listOf string, listOf (union [string, int])]] ∧
      SameLub [listOf (union [int, string]), listOf string]
        [null, union [listOf string, listOf (union [string, int])]] :=
  ⟨by decide, by decide, by decide,
    lub_congr_of_operand_set.1 _ _ (by decide) (by decide) (by decide)⟩

end ExprTyping.Ty
