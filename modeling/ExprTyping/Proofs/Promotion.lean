import Mathlib.Data.Set.List
import ExprTyping.Numeric.Promotion
import ExprTyping.Proofs.Equality

/-!
# Promotion as a function of a set

The promoted type is read off the highest rank and two questions whether some operand is of a
certain kind, so it depends on which operands there are and on nothing else.
-/

namespace ExprTyping.Numeric

namespace Rank

theorem le_iff {r s : Rank} : r ≤ s ↔ r.number ≤ s.number := Iff.rfl

theorem number_injective {r s : Rank} (h : r.number = s.number) : r = s := by
  cases r <;> cases s <;> first | rfl | cases h

instance : Std.IsLinearOrder Rank where
  le_refl _ := Nat.le_refl _
  le_trans _ _ _ := Nat.le_trans
  le_antisymm _ _ h h' := number_injective (Nat.le_antisymm h h')
  le_total _ _ := Nat.le_total _ _

instance : Std.LawfulOrderMax Rank where
  max_eq_or r s := by
    change (if r ≤ s then s else r) = r ∨ (if r ≤ s then s else r) = s
    split <;> simp
  max_le_iff r s t := by
    change (if r ≤ s then s else r) ≤ t ↔ _
    simp only [le_iff]
    split <;> omega

end Rank

theorem mapM_operand_eq_some_iff {types : List Ty} {operands : List Operand} :
    types.mapM Operand.of? = some operands ↔ types.map Operand.of? = operands.map some := by
  induction types generalizing operands with
  | nil => cases operands <;> simp
  | cons ty types ih =>
    cases hty : Operand.of? ty with
    | none => cases operands <;> simp [hty]
    | some operand =>
      cases operands with
      | nil => cases hrest : types.mapM Operand.of? <;> simp [hty, hrest]
      | cons operand' operands =>
        simp only [List.mapM_cons, hty, Option.bind_eq_bind, Option.bind_some, List.map_cons,
          List.cons.injEq, ← ih]
        cases types.mapM Operand.of? <;> simp

theorem promote_eq_some_iff {types : List Ty} {ty : Ty} :
    promote types = some ty ↔ ∃ operands top, types.map Operand.of? = operands.map some ∧
      (top ∈ operands.map (·.rank) ∧ ∀ rank ∈ operands.map (·.rank), rank ≤ top) ∧
      resultTy operands top = ty := by
  simp only [promote, Option.bind_eq_bind, Option.bind_eq_some_iff, mapM_operand_eq_some_iff,
    List.max?_eq_some_iff, Option.pure_def, Option.some.injEq]
  constructor
  · rintro ⟨operands, hoperands, top, htop, rfl⟩
    exact ⟨operands, top, hoperands, htop, rfl⟩
  · rintro ⟨operands, top, hoperands, htop, rfl⟩
    exact ⟨operands, hoperands, top, htop, rfl⟩

theorem exists_operand_of_promote {types : List Ty} {result : Ty} (h : promote types = some result)
    {ty : Ty} (hty : ty ∈ types) : ∃ operand, Operand.of? ty = some operand := by
  obtain ⟨operands, _, hoperands, -⟩ := promote_eq_some_iff.1 h
  have hmem : Operand.of? ty ∈ operands.map some := hoperands ▸ List.mem_map_of_mem hty
  obtain ⟨operand, -, hoperand⟩ := List.mem_map.1 hmem
  exact ⟨operand, hoperand.symm⟩

theorem isSome_promote_iff {types : List Ty} :
    (promote types).isSome ↔ types ≠ [] ∧ ∀ ty ∈ types, (Operand.of? ty).isSome := by
  constructor
  · intro h
    obtain ⟨result, hpromote⟩ := Option.isSome_iff_exists.1 h
    refine ⟨?_, fun ty hty ↦ ?_⟩
    · rintro rfl
      cases hpromote
    · exact Option.isSome_iff_exists.2 (exists_operand_of_promote hpromote hty)
  · rintro ⟨hne, hnumeric⟩
    obtain ⟨operands, hoperands⟩ : types.map Operand.of? ∈ Set.range (List.map some) := by
      rw [Set.range_list_map]
      intro operand hoperand
      obtain ⟨ty, hty, rfl⟩ := List.mem_map.1 hoperand
      exact (Option.isSome_iff_exists.1 (hnumeric ty hty)).imp fun _ h ↦ h.symm
    have hranks : operands.map (·.rank) ≠ [] := by
      intro hnil
      rw [List.map_eq_nil_iff] at hnil
      subst hnil
      exact hne (by simpa using hoperands.symm)
    obtain ⟨top, htop⟩ := Option.ne_none_iff_exists'.1 (mt List.max?_eq_none_iff.1 hranks)
    refine Option.isSome_iff_exists.2 ⟨resultTy operands top, promote_eq_some_iff.2 ?_⟩
    exact ⟨operands, top, hoperands.symm, List.max?_eq_some_iff.1 htop, rfl⟩

theorem toTy_cases (rank : Rank) (boxed : Bool) :
    (∃ kind, rank.toTy boxed = .primitive kind) ∨ ∃ name, rank.toTy boxed = .ofClass name := by
  unfold Rank.toTy
  split
  · exact .inl ⟨_, rfl⟩
  · exact .inr ⟨_, rfl⟩

/-- A promoted type is a primitive or a class without arguments. -/
theorem promote_cases {types : List Ty} {ty : Ty} (h : promote types = some ty) :
    (∃ kind, ty = .primitive kind) ∨ ∃ name, ty = .ofClass name := by
  obtain ⟨operands, top, -, -, rfl⟩ := promote_eq_some_iff.1 h
  unfold resultTy
  split
  · exact .inr ⟨_, rfl⟩
  · split
    · exact toTy_cases _ _
    · exact toTy_cases _ _

theorem resultTy_congr {operands operands' : List Operand}
    (h : ∀ operand, operand ∈ operands ↔ operand ∈ operands') (top : Rank) :
    resultTy operands top = resultTy operands' top := by
  have hany (p : Operand → Bool) : operands.any p = operands'.any p := by
    rw [Bool.eq_iff_iff, List.any_eq_true, List.any_eq_true]
    simp only [h]
  simp only [resultTy, hany]

theorem promote_eq_some_of_mem_iff {types types' : List Ty} {ty : Ty}
    (h : ∀ operand, operand ∈ types.map Operand.of? ↔ operand ∈ types'.map Operand.of?)
    (hpromote : promote types = some ty) : promote types' = some ty := by
  obtain ⟨operands, top, hoperands, htop, rfl⟩ := promote_eq_some_iff.1 hpromote
  obtain ⟨operands', hoperands'⟩ : types'.map Operand.of? ∈ Set.range (List.map some) := by
    rw [Set.range_list_map]
    intro operand hoperand
    rw [← h, hoperands] at hoperand
    obtain ⟨operand, _, rfl⟩ := List.mem_map.1 hoperand
    exact ⟨operand, rfl⟩
  have hmem : ∀ operand, operand ∈ operands ↔ operand ∈ operands' := by
    intro operand
    have := h (some operand)
    rw [hoperands, ← hoperands'] at this
    simpa using this
  refine promote_eq_some_iff.2 ⟨operands', top, hoperands'.symm, ?_, (resultTy_congr hmem top).symm⟩
  simpa only [List.mem_map, hmem] using htop

/-- Neither the order of the operands nor a repetition makes a difference. -/
theorem promote_congr {types types' : List Ty}
    (h : ∀ operand, operand ∈ types.map Operand.of? ↔ operand ∈ types'.map Operand.of?) :
    promote types = promote types' := by
  refine Option.ext fun ty ↦ ⟨promote_eq_some_of_mem_iff h, promote_eq_some_of_mem_iff ?_⟩
  exact fun operand ↦ (h operand).symm

theorem operand_eq_of_beq {a b : Ty} (hab : a == b) : Operand.of? a = Operand.of? b := by
  cases hab using Ty.beq_cases with
  | known name as bs h hargs => cases hargs <;> rfl
  | primitive | dynamic | unknown | union | null | array => rfl

/-! ## Boxed operands -/

@[simp] theorem operand_reference (rank : Rank) :
    Operand.of? (.ofClass rank.reference) = some ⟨rank, true⟩ := by
  simp [Operand.of?, Ty.ofClass]

/-- A number that is no primitive is the reference class of its rank. -/
theorem boxed_of_operand {ty : Ty} {operand : Operand} (hprimitive : ty.primitive? = none)
    (h : Operand.of? ty = some operand) :
    operand.boxed = true ∧ ty = .ofClass operand.rank.reference := by
  cases ty with
  | known name args =>
    cases args with
    | cons => cases h
    | nil =>
      obtain ⟨rank, hrank, rfl⟩ := Option.map_eq_some_iff.1 h
      have hname : rank.reference = name := by simpa using List.find?_some hrank
      exact ⟨rfl, by rw [hname, Ty.ofClass]⟩
  | primitive => cases hprimitive
  | _ => cases h

/-- A boxed number of a rank that arithmetic never answers with. -/
def IsNarrowBox (ty : Ty) : Prop := ∃ rank < Rank.minPromoted, ty = .ofClass rank.reference

/-- Boxed operands come to a primitive exactly if they are widened. -/
theorem resultTy_eq_primitive_iff {operands : List Operand} {top : Rank}
    (hboxed : ∀ operand ∈ operands, operand.boxed = true)
    (htop : top ∈ operands.map (·.rank)) :
    (∃ kind, resultTy operands top = .primitive kind) ↔ top < Rank.minPromoted := by
  by_cases hnarrow : top < Rank.minPromoted
  · have hexact : top.isFloating = false := by
      revert hnarrow
      cases top <;> decide
    simp only [resultTy, hexact, hnarrow, Bool.false_and, Bool.false_eq_true, if_false, if_true,
      iff_true]
    exact ⟨.int, rfl⟩
  · obtain ⟨operand, hoperand, rfl⟩ := List.mem_map.1 htop
    have hany : operands.any (fun other ↦ other.rank == operand.rank && other.boxed) = true :=
      List.any_eq_true.2 ⟨operand, hoperand, by simp [hboxed operand hoperand]⟩
    have hclass : operand.rank.toTy true = .ofClass operand.rank.reference := rfl
    simp only [resultTy, hnarrow, hany, hclass, if_false, iff_false]
    rintro ⟨kind, hresult⟩
    split at hresult <;> cases hresult

/-- Promotion of boxed numbers unboxes them if they are all narrow, and only then. -/
theorem promote_eq_primitive_iff {types : List Ty} (hne : types ≠ [])
    (hboxed : ∀ ty ∈ types, ty.primitive? = none) :
    (∃ kind, promote types = some (.primitive kind)) ↔ ∀ ty ∈ types, IsNarrowBox ty := by
  constructor
  · rintro ⟨kind, hpromote⟩
    obtain ⟨operands, top, hoperands, ⟨htop, hmax⟩, hresult⟩ := promote_eq_some_iff.1 hpromote
    have hoperand : ∀ operand ∈ operands, operand.boxed = true := by
      intro operand hoperand
      have hmem : some operand ∈ types.map Operand.of? := by simpa [hoperands] using hoperand
      obtain ⟨ty, hty, hof⟩ := List.mem_map.1 hmem
      exact (boxed_of_operand (hboxed ty hty) hof).1
    have hnarrow := (resultTy_eq_primitive_iff hoperand htop).1 ⟨kind, hresult⟩
    intro ty hty
    have hmem : Operand.of? ty ∈ operands.map some := hoperands ▸ List.mem_map_of_mem hty
    obtain ⟨operand, hoperand, hof⟩ := List.mem_map.1 hmem
    refine ⟨operand.rank, ?_, (boxed_of_operand (hboxed ty hty) hof.symm).2⟩
    exact Nat.lt_of_le_of_lt (hmax operand.rank (List.mem_map_of_mem hoperand)) hnarrow
  · intro hnarrow
    have : Inhabited Rank := ⟨Rank.minPromoted⟩
    choose! rank hrank hreference using hnarrow
    obtain ⟨top, htop⟩ : ∃ top, (types.map rank).max? = some top := by
      refine Option.ne_none_iff_exists'.1 ?_
      simpa [List.max?_eq_none_iff] using hne
    obtain ⟨hmem, hmax⟩ := List.max?_eq_some_iff.1 htop
    obtain ⟨widest, hwidest, rfl⟩ := List.mem_map.1 hmem
    set operands := types.map fun ty ↦ (⟨rank ty, true⟩ : Operand)
    have hranks : operands.map (·.rank) = types.map rank := by simp [operands]
    have hoperands : types.map Operand.of? = operands.map some := by
      rw [List.map_map]
      refine List.map_congr_left fun ty hty ↦ ?_
      exact (congrArg Operand.of? (hreference ty hty)).trans (operand_reference (rank ty))
    have hoperand : ∀ operand ∈ operands, operand.boxed = true := by simp [operands]
    obtain ⟨kind, hresult⟩ :=
      (resultTy_eq_primitive_iff hoperand (hranks ▸ hmem)).2 (hrank widest hwidest)
    exact ⟨kind, promote_eq_some_iff.2
      ⟨operands, rank widest, hoperands, hranks ▸ ⟨hmem, hmax⟩, hresult⟩⟩

end ExprTyping.Numeric
