import Mathlib.Data.Fintype.Defs
import Mathlib.Order.Bounds.Basic
import ExprTyping.Proofs.Promotion

/-!
# Promotion as a least upper bound

Promotion is no maximum of ranks: beside an operand of arbitrary precision, a floating one takes the
result back to a lower rank. It is a maximum all the same, in another order. There the decimals of
arbitrary precision stand above the floating ranks, the integers of arbitrary precision are not
comparable with these, and a boxed operand stands above a plain one of its rank. What promotion
does to a list then follows from what a least upper bound does to a set.
-/

namespace ExprTyping

inductive Ty.IsNumber : Ty → Prop
  | primitive (kind : Primitive) (h : kind.isNumeric = true) : IsNumber (.primitive kind)
  | wrapper (kind : Primitive) (h : kind.isNumeric = true) : IsNumber (.ofClass kind.wrapper)
  | bigInteger : IsNumber (.ofClass ClassName.bigInteger)
  | bigDecimal : IsNumber (.ofClass ClassName.bigDecimal)

def Ty.IsBig (ty : Ty) : Prop :=
  ty = .ofClass ClassName.bigInteger ∨ ty = .ofClass ClassName.bigDecimal

namespace Numeric

/-! ## Types as operands -/

theorem Rank.reference_of_primitive? {rank : Rank} {kind : Primitive}
    (h : rank.primitive? = some kind) :
    kind.isNumeric = true ∧ rank.reference = kind.wrapper := by
  cases rank <;> cases h <;> exact ⟨rfl, rfl⟩

theorem isNumber_reference (rank : Rank) : (Ty.ofClass rank.reference).IsNumber := by
  cases hkind : rank.primitive? with
  | some kind =>
    obtain ⟨hnumeric, hreference⟩ := Rank.reference_of_primitive? hkind
    rw [hreference]
    exact .wrapper kind hnumeric
  | none =>
    cases rank with
    | bigInteger => exact .bigInteger
    | bigDecimal => exact .bigDecimal
    | _ => cases hkind

theorem isSome_operand_iff {ty : Ty} : (Operand.of? ty).isSome = true ↔ ty.IsNumber := by
  constructor
  · intro h
    obtain ⟨operand, hoperand⟩ := Option.isSome_iff_exists.1 h
    cases hkind : ty.primitive? with
    | none =>
      rw [(boxed_of_operand hkind hoperand).2]
      exact isNumber_reference operand.rank
    | some kind =>
      obtain rfl : ty = .primitive kind := by
        cases ty <;> cases hkind
        rfl
      refine .primitive kind ?_
      cases kind with
      | boolean => cases hoperand
      | _ => rfl
  · intro h
    cases h with
    | primitive kind h | wrapper kind h =>
      cases kind with
      | boolean => cases h
      | _ => rfl
    | bigInteger | bigDecimal => rfl

/-- The numbers of arbitrary precision are always boxed. -/
theorem eq_reference_of_isBig {ty : Ty} {operand : Operand} (h : Operand.of? ty = some operand)
    (hbig : operand.rank.isBig = true) : ty = .ofClass operand.rank.reference := by
  refine (boxed_of_operand ?_ h).2
  cases ty with
  | primitive kind => cases kind <;> cases h <;> cases hbig
  | _ => rfl

theorem eq_reference_iff_of_operand {ty : Ty} {operand : Operand}
    (h : Operand.of? ty = some operand) (rank : Rank) (hbig : rank.isBig = true) :
    ty = .ofClass rank.reference ↔ operand.rank = rank := by
  constructor
  · rintro rfl
    cases (operand_reference rank).symm.trans h
    rfl
  · rintro rfl
    exact eq_reference_of_isBig h hbig

theorem isBig_iff_of_operand {ty : Ty} {operand : Operand} (h : Operand.of? ty = some operand) :
    ty.IsBig ↔ operand.rank.isBig = true := by
  have hinteger := eq_reference_iff_of_operand h .bigInteger (by decide)
  have hdecimal := eq_reference_iff_of_operand h .bigDecimal (by decide)
  refine (or_congr hinteger hdecimal).trans ?_
  cases operand.rank <;> decide

namespace Operand

/-! ## The order of the operands -/

/-- The lowest operand above both, before anything is widened. -/
def sup (a b : Operand) : Operand :=
  if a.rank.isBig && b.rank.isFloating || a.rank.isFloating && b.rank.isBig then
    ⟨.bigDecimal, true⟩
  else if a.rank < b.rank then b
  else if b.rank < a.rank then a
  else ⟨a.rank, a.boxed || b.boxed⟩

def all : List Operand := Rank.all.flatMap fun rank ↦ [⟨rank, false⟩, ⟨rank, true⟩]

theorem mem_all (operand : Operand) : operand ∈ all := by
  obtain ⟨rank, boxed⟩ := operand
  refine List.mem_flatMap.2 ⟨rank, rank.mem_all, ?_⟩
  cases boxed <;> simp

instance : Fintype Operand := ⟨⟨all, by decide⟩, mem_all⟩

theorem sup_comm : ∀ a b : Operand, a.sup b = b.sup a := by
  decide +kernel

/-- There are few operands, so the laws of the order are checked on all of them. -/
theorem sup_assoc : ∀ a b c : Operand, (a.sup b).sup c = a.sup (b.sup c) := by
  decide +kernel

theorem sup_idem : ∀ a : Operand, a.sup a = a := by
  decide +kernel

instance : Max Operand := ⟨sup⟩

instance : SemilatticeSup Operand := SemilatticeSup.mk' sup_comm sup_assoc sup_idem

instance (a b : Operand) : Decidable (a ≤ b) := inferInstanceAs (Decidable (a ⊔ b = b))

/-- An operand is below those of its rank that are boxed if it is, and below those of higher rank;
only the decimals of arbitrary precision do not go by rank. -/
theorem le_iff : ∀ {a b : Operand}, a ≤ b ↔
    b = ⟨.bigDecimal, true⟩ ∨ a.rank = b.rank ∧ (a.boxed = true → b.boxed = true) ∨
      a.rank < b.rank ∧ ¬(a.rank.isBig = true ∧ b.rank.isFloating = true) := by
  decide +kernel

theorem sup_of_isBig_of_isFloating {a b : Operand} (ha : a.rank.isBig = true)
    (hb : b.rank.isFloating = true) : a ⊔ b = ⟨.bigDecimal, true⟩ := by
  change a.sup b = _
  simp [sup, ha, hb]

/-! ## Widening -/

/-- The operand that arithmetic on operands with the given least upper bound answers with: not below
an int, and boxed if its rank has no primitive. -/
def promoted (operand : Operand) : Operand :=
  if operand.rank < Rank.minPromoted then ⟨Rank.minPromoted, false⟩
  else ⟨operand.rank, operand.boxed || operand.rank.isBig⟩

def toTy (operand : Operand) : Ty := operand.rank.toTy operand.boxed

/-- Widening goes through least upper bounds, so it can be put off to the end. -/
theorem promoted_sup : ∀ a b : Operand, (a ⊔ b).promoted = a.promoted ⊔ b.promoted := by
  decide +kernel

theorem promoted_promoted : ∀ a : Operand, a.promoted.promoted = a.promoted := by
  decide +kernel

theorem minPromoted_le_rank_promoted : ∀ a : Operand, Rank.minPromoted ≤ a.promoted.rank := by
  decide +kernel

theorem toTy_promoted (rank : Rank) (boxed : Bool) : (⟨rank, boxed⟩ : Operand).promoted.toTy =
    if rank < Rank.minPromoted then Rank.minPromoted.toTy false else rank.toTy boxed := by
  cases rank <;> cases boxed <;> rfl

@[simp] theorem of?_toTy_promoted :
    ∀ a : Operand, Operand.of? a.promoted.toTy = some a.promoted := by
  decide +kernel

end Operand

/-! ## Promotion -/

section Highest

variable {operands : List Operand} {top : Rank}

/-- A floating rank is the highest, and an operand of arbitrary precision overrides it. -/
theorem isLUB_of_isBig_of_isFloating (htop : top ∈ operands.map (·.rank))
    (hfloating : top.isFloating = true) (hbig : ∃ operand ∈ operands, operand.rank.isBig = true) :
    IsLUB {operand | operand ∈ operands} ⟨.bigDecimal, true⟩ := by
  obtain ⟨big, hmem, hbig⟩ := hbig
  obtain ⟨highest, hhighest, rfl⟩ := List.mem_map.1 htop
  refine ⟨fun operand _ ↦ Operand.le_iff.2 (.inl rfl), fun bound hbound ↦ ?_⟩
  rw [← Operand.sup_of_isBig_of_isFloating hbig hfloating]
  exact sup_le (hbound hmem) (hbound hhighest)

/-- Some operand has the highest rank, and is boxed if one of that rank is. -/
theorem mem_of_highest (htop : top ∈ operands.map (·.rank)) :
    ⟨top, operands.any fun operand ↦ operand.rank == top && operand.boxed⟩ ∈ operands := by
  cases hany : operands.any fun operand ↦ operand.rank == top && operand.boxed with
  | true =>
    obtain ⟨⟨rank, boxed⟩, hoperand, h⟩ := List.any_eq_true.1 hany
    obtain ⟨rfl, rfl⟩ : rank = top ∧ boxed = true := by simpa using h
    exact hoperand
  | false =>
    obtain ⟨⟨rank, boxed⟩, hoperand, rfl⟩ := List.mem_map.1 htop
    obtain rfl : boxed = false := by simpa using List.any_eq_false.1 hany _ hoperand
    exact hoperand

/-- Nothing overrides the highest rank. -/
theorem isGreatest_of_highest (htop : top ∈ operands.map (·.rank))
    (hmax : ∀ rank ∈ operands.map (·.rank), rank ≤ top)
    (hexact : ¬(top.isFloating = true ∧ ∃ operand ∈ operands, operand.rank.isBig = true)) :
    IsGreatest {operand | operand ∈ operands}
      ⟨top, operands.any fun operand ↦ operand.rank == top && operand.boxed⟩ := by
  refine ⟨mem_of_highest htop, fun operand hoperand ↦ Operand.le_iff.2 (.inr ?_)⟩
  rcases Nat.lt_or_eq_of_le (hmax operand.rank (List.mem_map_of_mem hoperand)) with hlt | heq
  · exact .inr ⟨hlt, fun h ↦ hexact ⟨h.2, operand, hoperand, h.1⟩⟩
  · have hrank : operand.rank = top := Rank.number_injective heq
    refine .inl ⟨hrank, fun hboxed ↦ List.any_eq_true.2 ⟨operand, hoperand, ?_⟩⟩
    simp [hrank, hboxed]

theorem exists_isLUB_resultTy (htop : top ∈ operands.map (·.rank))
    (hmax : ∀ rank ∈ operands.map (·.rank), rank ≤ top) :
    ∃ bound, IsLUB {operand | operand ∈ operands} bound ∧
      resultTy operands top = bound.promoted.toTy := by
  by_cases hbig : top.isFloating = true ∧ ∃ operand ∈ operands, operand.rank.isBig = true
  · refine ⟨_, isLUB_of_isBig_of_isFloating htop hbig.1 hbig.2, ?_⟩
    have hany : operands.any (·.rank.isBig) = true := List.any_eq_true.2 hbig.2
    simp only [resultTy, hbig.1, hany, Bool.and_self, if_true]
    rfl
  · refine ⟨_, (isGreatest_of_highest htop hmax hbig).isLUB, ?_⟩
    have hany : ¬(top.isFloating && operands.any (·.rank.isBig)) = true := by
      simpa only [Bool.and_eq_true, List.any_eq_true] using hbig
    rw [resultTy, if_neg hany, Operand.toTy_promoted]

end Highest

theorem isSome_promote_iff_numbers {types : List Ty} :
    (promote types).isSome = true ↔ types ≠ [] ∧ ∀ ty ∈ types, ty.IsNumber := by
  simp only [isSome_promote_iff, isSome_operand_iff]

theorem exists_promote_eq_some {types : List Ty} (hne : types ≠ [])
    (h : ∀ ty ∈ types, ty.IsNumber) : ∃ ty, promote types = some ty :=
  Option.isSome_iff_exists.1 (isSome_promote_iff_numbers.2 ⟨hne, h⟩)

def operandsOf (types : List Ty) : Set Operand :=
  {operand | ∃ ty ∈ types, Operand.of? ty = some operand}

theorem operandsOf_append (xs ys : List Ty) :
    operandsOf (xs ++ ys) = operandsOf xs ∪ operandsOf ys := by
  ext operand
  simp [operandsOf, or_and_right, exists_or]

/-- Promotion widens the least upper bound of the operands. -/
theorem promote_eq_some_iff_isLUB {types : List Ty} {ty : Ty} :
    promote types = some ty ↔ types ≠ [] ∧ (∀ ty ∈ types, ty.IsNumber) ∧
      ∃ bound, IsLUB (operandsOf types) bound ∧ bound.promoted.toTy = ty := by
  have hbound {ty : Ty} (h : promote types = some ty) :
      ∃ bound, IsLUB (operandsOf types) bound ∧ bound.promoted.toTy = ty := by
    obtain ⟨operands, top, hoperands, ⟨htop, hmax⟩, rfl⟩ := promote_eq_some_iff.1 h
    have hset : operandsOf types = {operand | operand ∈ operands} := by
      ext operand
      have hmem : some operand ∈ types.map Operand.of? ↔ some operand ∈ operands.map some := by
        rw [hoperands]
      simpa [operandsOf] using hmem
    obtain ⟨bound, hlub, hresult⟩ := exists_isLUB_resultTy htop hmax
    exact ⟨bound, hset ▸ hlub, hresult.symm⟩
  constructor
  · intro h
    obtain ⟨hne, hnumbers⟩ := isSome_promote_iff_numbers.1 (Option.isSome_of_eq_some h)
    exact ⟨hne, hnumbers, hbound h⟩
  · rintro ⟨hne, hnumbers, bound, hlub, rfl⟩
    obtain ⟨ty, hpromote⟩ := exists_promote_eq_some hne hnumbers
    obtain ⟨bound', hlub', rfl⟩ := hbound hpromote
    rw [hpromote, hlub.unique hlub']

/-! ## Laws of promotion -/

theorem promote_eq_none_iff {types : List Ty} :
    promote types = none ↔ types = [] ∨ ∃ ty ∈ types, ¬ty.IsNumber := by
  rw [← Option.not_isSome_iff_eq_none, isSome_promote_iff_numbers, not_and_or, not_not]
  simp only [not_forall, exists_prop]

theorem promote_eq_of_mem_iff {xs ys : List Ty} (h : ∀ ty, ty ∈ xs ↔ ty ∈ ys) :
    promote xs = promote ys := by
  refine promote_congr fun operand ↦ ?_
  simp only [List.mem_map, h]

theorem Operand.isNumber_toTy_promoted (a : Operand) : a.promoted.toTy.IsNumber := by
  rw [← isSome_operand_iff, of?_toTy_promoted, Option.isSome_some]

theorem isNumber_of_promote {types : List Ty} {ty : Ty} (h : promote types = some ty) :
    ty.IsNumber := by
  obtain ⟨-, -, bound, -, rfl⟩ := promote_eq_some_iff_isLUB.1 h
  exact bound.isNumber_toTy_promoted

theorem promote_pair_promoted (a b : Operand) :
    promote [a.promoted.toTy, b.promoted.toTy] = some (a ⊔ b).promoted.toTy := by
  have hoperands : operandsOf [a.promoted.toTy, b.promoted.toTy] = {a.promoted, b.promoted} := by
    ext operand
    simp [operandsOf, eq_comm]
  refine promote_eq_some_iff_isLUB.2 ⟨by simp, ?_, a.promoted ⊔ b.promoted, ?_, ?_⟩
  · simp [Operand.isNumber_toTy_promoted]
  · rw [hoperands]
    exact isLUB_pair
  · rw [← Operand.promoted_sup, Operand.promoted_promoted]

section Laws

variable {xs ys : List Ty} {x y : Ty}

theorem promote_append (hx : promote xs = some x) (hy : promote ys = some y) :
    promote (xs ++ ys) = promote [x, y] := by
  obtain ⟨hne, hxs, a, ha, rfl⟩ := promote_eq_some_iff_isLUB.1 hx
  obtain ⟨-, hys, b, hb, rfl⟩ := promote_eq_some_iff_isLUB.1 hy
  rw [promote_pair_promoted, promote_eq_some_iff_isLUB]
  refine ⟨by simp [hne], List.forall_mem_append.2 ⟨hxs, hys⟩, a ⊔ b, ?_, rfl⟩
  rw [operandsOf_append]
  exact ha.union hb

theorem promote_singleton (hx : promote xs = some x) : promote [x] = some x := by
  have hpair : promote [x] = promote [x, x] := promote_eq_of_mem_iff (by simp)
  obtain ⟨-, -, a, -, rfl⟩ := promote_eq_some_iff_isLUB.1 hx
  rw [hpair, promote_pair_promoted, sup_idem]

/-- A part of a list can be promoted first. -/
theorem promote_cons_of_promote (hx : promote xs = some x) (hys : ∀ ty ∈ ys, ty.IsNumber) :
    promote (x :: ys) = promote (xs ++ ys) := by
  cases ys with
  | nil => rw [promote_singleton hx, List.append_nil, hx]
  | cons first rest =>
    obtain ⟨y, hy⟩ := exists_promote_eq_some (List.cons_ne_nil first rest) hys
    rw [promote_append hx hy, ← List.singleton_append, promote_append (promote_singleton hx) hy]

end Laws

/-! ## Precision -/

namespace Operand

theorem le_double_iff : ∀ {a : Operand}, a ≤ ⟨.double, true⟩ ↔ ¬a.rank.isBig = true := by
  decide +kernel

theorem le_bigInteger_iff :
    ∀ {a : Operand}, a ≤ ⟨.bigInteger, true⟩ ↔ a.rank ≤ Rank.bigInteger := by
  decide +kernel

theorem isBig_rank_promoted : ∀ a : Operand, a.promoted.rank.isBig = a.rank.isBig := by
  decide +kernel

theorem rank_promoted_eq_bigInteger_iff : ∀ {a : Operand}, a.promoted.rank.isBig = true →
    (a.promoted.rank = .bigInteger ↔ a.rank ≤ Rank.bigInteger) := by
  decide +kernel

end Operand

section Bound

variable {operands : Set Operand} {bound : Operand}

/-- Operands without arbitrary precision are all below a boxed double, so they have no bound of
arbitrary precision as the least one. -/
theorem isBig_bound_iff (h : IsLUB operands bound) :
    bound.rank.isBig = true ↔ ∃ operand ∈ operands, operand.rank.isBig = true := by
  rw [← not_iff_not, ← Operand.le_double_iff, isLUB_le_iff h]
  simp only [mem_upperBounds, Operand.le_double_iff, not_exists, not_and]

theorem bound_le_bigInteger_iff (h : IsLUB operands bound) :
    bound.rank ≤ Rank.bigInteger ↔ ∀ operand ∈ operands, operand.rank ≤ Rank.bigInteger := by
  rw [← Operand.le_bigInteger_iff, isLUB_le_iff h]
  simp only [mem_upperBounds, Operand.le_bigInteger_iff]

end Bound

theorem exists_isBig_operand_iff {types : List Ty} :
    (∃ operand ∈ operandsOf types, operand.rank.isBig = true) ↔ ∃ ty ∈ types, ty.IsBig := by
  constructor
  · rintro ⟨operand, ⟨ty, hty, hoperand⟩, hbig⟩
    exact ⟨ty, hty, (isBig_iff_of_operand hoperand).2 hbig⟩
  · rintro ⟨ty, hty, hbig⟩
    obtain ⟨operand, hoperand⟩ : ∃ operand, Operand.of? ty = some operand := by
      rcases hbig with rfl | rfl
      · exact ⟨_, operand_reference .bigInteger⟩
      · exact ⟨_, operand_reference .bigDecimal⟩
    exact ⟨operand, ⟨ty, hty, hoperand⟩, (isBig_iff_of_operand hoperand).1 hbig⟩

structure PromotionLaws (xs : List Ty) (x : Ty) : Prop where
  append : ∀ ys, ys ≠ [] → (∀ ty ∈ ys, ty.IsNumber) →
    ∃ y, promote ys = some y ∧ promote (xs ++ ys) = promote [x, y]
  of_mem_iff : ∀ ys, (∀ ty, ty ∈ ys ↔ ty ∈ xs) → promote ys = some x
  again : promote [x] = some x
  widened : ∃ operand, Operand.of? x = some operand ∧ Rank.int ≤ operand.rank
  isBig_iff : x.IsBig ↔ ∃ ty ∈ xs, ty.IsBig
  eq_bigInteger_iff : x.IsBig →
    (x = .ofClass ClassName.bigInteger ↔ ∀ operand ∈ operandsOf xs, operand.rank ≤ Rank.bigInteger)

/-- Numbers can be promoted, and nothing else. Promoting them part by part, in another order or
repeatedly changes nothing, and no exact digits are lost. -/
theorem promote_homomorphic :
    (∀ types, promote types = none ↔ types = [] ∨ ∃ ty ∈ types, ¬ty.IsNumber) ∧
      ∀ xs, xs ≠ [] → (∀ ty ∈ xs, ty.IsNumber) →
        ∃ x, promote xs = some x ∧ PromotionLaws xs x := by
  refine ⟨fun types ↦ promote_eq_none_iff, fun xs hne hxs ↦ ?_⟩
  obtain ⟨x, hx⟩ := exists_promote_eq_some hne hxs
  obtain ⟨-, -, bound, hbound, rfl⟩ := promote_eq_some_iff_isLUB.1 hx
  have hoperand := bound.of?_toTy_promoted
  have hbig := isBig_iff_of_operand hoperand
  refine ⟨_, hx, ⟨fun ys hys hnumbers ↦ ?_, fun ys hys ↦ ?_, ?_, ?_, ?_, fun h ↦ ?_⟩⟩
  · obtain ⟨y, hy⟩ := exists_promote_eq_some hys hnumbers
    exact ⟨y, hy, promote_append hx hy⟩
  · rw [promote_eq_of_mem_iff hys, hx]
  · exact promote_singleton hx
  · exact ⟨_, hoperand, bound.minPromoted_le_rank_promoted⟩
  · rw [hbig, bound.isBig_rank_promoted, isBig_bound_iff hbound, exists_isBig_operand_iff]
  · rw [← bound_le_bigInteger_iff hbound,
      ← Operand.rank_promoted_eq_bigInteger_iff (hbig.1 h)]
    exact eq_reference_iff_of_operand hoperand .bigInteger (by decide)

/-- The rank of a promoted type can be lower than that of an operand, and goes up no more when
further floating operands follow. -/
theorem promote_of_bigInteger_beside_floating :
    let integer : Ty := .ofClass ClassName.bigInteger
    let decimal : Ty := .ofClass ClassName.bigDecimal
    let double : Ty := .ofClass ClassName.double
    let xs := [integer, .primitive .float]
    (∀ ty ∈ xs ++ [double], ty.IsNumber) ∧ promote xs = some decimal ∧
      promote (xs ++ [double]) = promote [decimal, double] ∧
      ¬∀ operand ∈ operandsOf xs, operand.rank ≤ Rank.bigInteger := by
  intro integer decimal double xs
  have hdouble : double.IsNumber := .wrapper .double rfl
  have hxs : ∀ ty ∈ xs, ty.IsNumber := by
    simp only [xs, List.forall_mem_cons]
    exact ⟨.bigInteger, .primitive .float rfl, List.forall_mem_nil _⟩
  obtain ⟨x, hx, hlaws⟩ := promote_homomorphic.2 xs (List.cons_ne_nil _ _) hxs
  obtain rfl : x = decimal := Option.some.inj (hx.symm.trans rfl)
  obtain ⟨y, hy, happend⟩ := hlaws.append [double] (List.cons_ne_nil _ _) (by simpa using hdouble)
  obtain rfl : y = double := Option.some.inj (hy.symm.trans rfl)
  refine ⟨?_, hx, happend, fun hranks ↦ ?_⟩
  · exact List.forall_mem_append.2 ⟨hxs, by simpa using hdouble⟩
  · have hinteger := (hlaws.eq_bigInteger_iff (.inr rfl)).2 hranks
    exact absurd (Ty.known.inj hinteger).1 (by decide)

end Numeric

end ExprTyping
