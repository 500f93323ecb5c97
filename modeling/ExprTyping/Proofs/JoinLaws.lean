import ExprTyping.Proofs.JoinTable
import ExprTyping.Proofs.PromotionOrder

/-!
# Repeated and bracketed joins

A type joined with itself is the type again, unless it is a union: the members of a union are joined
like any other operands, and what they come to is no union.

Numbers can be joined in any grouping. A single number is left as it is, however narrow, and several
different ones are promoted, so a part of a list may be answered with a type that arithmetic would
widen. It is widened as soon as a different number joins it, and then the parts do not matter.
-/

namespace ExprTyping.Ty

/-! ## Copies of one type -/

theorem operands_eq_singleton {types : List Ty} {ty : Ty} (hmem : ty ∈ contributions types)
    (h : ∀ other ∈ contributions types, other = ty) : operands types = [ty] := by
  have hoperands := areOperands_operands types
  have heq : ∀ operand ∈ operands types, operand = ty :=
    fun operand hoperand ↦ h operand (hoperands.sublist.mem hoperand)
  match hops : operands types with
  | [] =>
    obtain ⟨operand, hoperand, -⟩ := hoperands.complete ty hmem
    simp [hops] at hoperand
  | [only] => rw [heq only (by simp [hops])]
  | first :: second :: rest =>
    have hdiffer := (List.pairwise_cons.1 (hops ▸ hoperands.distinct)).1 second (by simp)
    rw [heq first (by simp [hops]), heq second (by simp [hops])] at hdiffer
    exact absurd (beq_refl ty) hdiffer

theorem mem_contributions_iff_of_forall {types : List Ty} (h : ∀ ty ∈ types, ty.members? = none)
    {ty : Ty} : ty ∈ contributions types ↔ ty ∈ types ∧ ty.isNull = false := by
  rw [contributions, flatten_eq_self h]
  simp

theorem join_of_forall_eq {types : List Ty} {ty : Ty} (hne : types ≠ [])
    (h : ∀ other ∈ types, other = ty) (hmembers : ty.members? = none) : join types = ty := by
  by_cases hnull : ty = null
  · subst hnull
    refine (join_eq_null_iff fun other hother ↦ ?_).2 h
    rw [h other hother]
    exact .null
  · obtain ⟨first, hfirst⟩ := List.exists_mem_of_ne_nil types hne
    have hmem : ∀ {other}, other ∈ contributions types ↔ other ∈ types ∧ other.isNull = false :=
      mem_contributions_iff_of_forall fun other hother ↦ by rw [h other hother, hmembers]
    have hsome : ty.isNull = false := by
      cases ty with
      | null => exact absurd rfl hnull
      | _ => rfl
    refine join_of_operands_eq_singleton (operands_eq_singleton ?_ fun other hother ↦ ?_)
    · exact hmem.2 ⟨h first hfirst ▸ hfirst, hsome⟩
    · exact h other (hmem.1 hother).1

theorem join_singleton {ty : Ty} (h : ty.members? = none) : join [ty] = ty :=
  join_of_forall_eq (List.cons_ne_nil ty []) (fun _ hother ↦ List.mem_singleton.1 hother) h

theorem isSome_members?_eq_of_beq {a b : Ty} (hab : a == b) :
    a.members?.isSome = b.members?.isSome := by
  cases hab using beq_cases <;> rfl

theorem not_join_beq_union {types members : List Ty} (h : ∀ ty ∈ types, ty.WellFormed) :
    ¬join types == union members := by
  intro hbeq
  have hsome := isSome_members?_eq_of_beq hbeq
  rw [members?_join h] at hsome
  cases hsome

section Copies

variable {ty : Ty} {n : Nat}

theorem lub_replicate_of_two_le (ty : Ty) (hn : 2 ≤ n) :
    lub (List.replicate n ty) = .ok (join (List.replicate n ty)) :=
  lub_of_two_le (hn.trans_eq List.length_replicate.symm)

theorem lub_replicate_of_members?_eq_none (h : ty.members? = none) (hn : 1 ≤ n) :
    lub (List.replicate n ty) = .ok ty := by
  rcases Nat.eq_or_lt_of_le hn with rfl | htwo
  · rfl
  · rw [lub_replicate_of_two_le ty htwo]
    refine congrArg Except.ok (join_of_forall_eq ?_ (fun _ h ↦ List.eq_of_mem_replicate h) h)
    simpa using Nat.ne_of_gt hn

/-- Copies of a union are joined to what its members are joined to. -/
theorem join_replicate_union_beq {members : List Ty} (h : (union members).WellFormed)
    (hn : 1 ≤ n) : join (List.replicate n (union members)) == join members := by
  have hcopies : SameTypes (List.replicate n (union members)) [union members] := by
    refine .of_subset (fun other hother ↦ ?_) ?_
    · simpa using List.eq_of_mem_replicate hother
    · simpa using Nat.ne_of_gt hn
  refine join_beq (fun other hother ↦ ?_) (wellFormed_union_iff.1 h).2.2.2
    (hcopies.sameOperands.trans (sameOperands_of_union h))
  rwa [List.eq_of_mem_replicate hother]

/-- Any number of copies of a type have a least upper bound, and it is the type itself if that is no
union or there is one copy only. Otherwise it is the least upper bound of the union's members. -/
theorem lub_replicate_beq_iff (hty : ty.WellFormed) (hn : 1 ≤ n) :
    ∃ result, lub (List.replicate n ty) = .ok result ∧
      (result == ty ↔ ty.members? = none ∨ n = 1) ∧
      (ty.members? = none ∨ n = 1 → result = ty) ∧
      ∀ members, ty = union members → 2 ≤ n →
        ∃ joined, lub members = .ok joined ∧ result == joined := by
  cases hmembers : ty.members? with
  | none =>
    refine ⟨ty, lub_replicate_of_members?_eq_none hmembers hn, by simp, fun _ ↦ rfl,
      fun members hunion ↦ ?_⟩
    rw [hunion] at hmembers
    cases hmembers
  | some members =>
    obtain rfl : ty = union members := by
      cases ty <;> cases hmembers
      rfl
    rcases Nat.eq_or_lt_of_le hn with rfl | htwo
    · exact ⟨_, rfl, by simp, fun _ ↦ rfl, fun _ _ h ↦ absurd h (by decide)⟩
    · have hmany : n ≠ 1 := Nat.ne_of_gt htwo
      refine ⟨_, lub_replicate_of_two_le _ htwo, ?_, by simp [hmany], ?_⟩
      · have hcopies : ∀ other ∈ List.replicate n (union members), other.WellFormed := by
          intro other hother
          rwa [List.eq_of_mem_replicate hother]
        simp [not_join_beq_union hcopies, hmany]
      · rintro _ ⟨⟩ -
        exact ⟨_, lub_of_two_le (wellFormed_union_iff.1 hty).1, join_replicate_union_beq hty hn⟩

/-- Copies of a union with null come to the other member. -/
theorem lub_of_nullable_copies :
    let ty := union [string, null]
    ty.WellFormed ∧
      ∃ result, lub (List.replicate 3 ty) = .ok result ∧ result == string ∧ ¬result == ty := by
  intro ty
  have hty : ty.WellFormed := by decide
  obtain ⟨result, hlub, hbeq, -, hunion⟩ := lub_replicate_beq_iff hty (show 1 ≤ 3 by decide)
  obtain ⟨joined, hjoined, hsame⟩ := hunion [string, null] rfl (by decide)
  have hstring : lub [string, null] = .ok string :=
    congrArg Except.ok (join_of_operands_eq_singleton rfl)
  obtain rfl : joined = string := Except.ok.inj (hjoined.symm.trans hstring)
  refine ⟨hty, result, hlub, hsame, fun h ↦ ?_⟩
  have hfew := hbeq.1 h
  simp [ty, members?] at hfew

/-- Two copies of a union: its members meet at the top class. -/
theorem lub_of_union_twice :
    let ty := union [int, string]
    ty.WellFormed ∧ lub (List.replicate 2 ty) = .ok object ∧ ¬object == ty := by
  intro ty
  refine ⟨by decide, ?_, by decide⟩
  have hops : operands (List.replicate 2 ty) = [int, string] := rfl
  have htwo : 2 ≤ (operands (List.replicate 2 ty)).length := by
    rw [hops]
    decide
  rw [lub_replicate_of_two_le ty (Nat.le_refl 2), join_of_two_le htwo, hops]
  rfl

end Copies

/-! ## Numbers -/

def IsNumberOrNull (ty : Ty) : Prop := ty.IsNumber ∨ ty = null

theorem isNumber_cases {ty : Ty} (h : ty.IsNumber) :
    (∃ kind, ty = primitive kind) ∨ ∃ name, ty = ofClass name := by
  cases h with
  | primitive kind => exact .inl ⟨kind, rfl⟩
  | wrapper | bigInteger | bigDecimal => exact .inr ⟨_, rfl⟩

namespace IsNumberOrNull

variable {ty other : Ty}

theorem wellFormed (h : ty.IsNumberOrNull) : ty.WellFormed := by
  rcases h with h | rfl
  · rcases isNumber_cases h with ⟨kind, rfl⟩ | ⟨name, rfl⟩ <;> simp
  · exact .null

theorem members?_eq_none (h : ty.IsNumberOrNull) : ty.members? = none := by
  rcases h with h | rfl
  · rcases isNumber_cases h with ⟨kind, rfl⟩ | ⟨name, rfl⟩ <;> rfl
  · rfl

/-- Numbers have nothing in them that equality would overlook. -/
theorem eq_of_beq (h : ty.IsNumberOrNull) (hbeq : ty == other) : other = ty := by
  rcases h with h | rfl
  · rcases isNumber_cases h with ⟨kind, rfl⟩ | ⟨name, rfl⟩
    · exact primitive_beq_iff.1 hbeq
    · obtain ⟨args, rfl, hargs⟩ := known_beq_iff.1 hbeq
      rw [List.forall₂_nil_left_iff.1 hargs, ofClass]
  · exact null_beq_iff.1 hbeq

theorem isNumber_of_isNull_eq_false (h : ty.IsNumberOrNull) (hnull : ty.isNull = false) :
    ty.IsNumber := by
  rcases h with h | rfl
  · exact h
  · cases hnull

end IsNumberOrNull

section Numbers

variable {types xs ys : List Ty}

theorem contributions_cons_of_isNumber {ty : Ty} (h : ty.IsNumber) (types : List Ty) :
    contributions (ty :: types) = ty :: contributions types := by
  have hparts := parts_eq_singleton (IsNumberOrNull.members?_eq_none (.inl h))
  have hnull : ty.isNull = false := by
    rcases isNumber_cases h with ⟨kind, rfl⟩ | ⟨name, rfl⟩ <;> rfl
  simp [contributions, flatten, hparts, hnull]

theorem isNumber_of_mem_contributions (h : ∀ ty ∈ types, ty.IsNumberOrNull) {ty : Ty}
    (hty : ty ∈ contributions types) : ty.IsNumber := by
  obtain ⟨hmem, hnull⟩ :=
    (mem_contributions_iff_of_forall fun other hother ↦ (h other hother).members?_eq_none).1 hty
  exact (h ty hmem).isNumber_of_isNull_eq_false hnull

/-- Numbers are joined to null if there are none, to the only one of them, or to the promotion of at
least two different ones. -/
theorem join_numbers_cases (h : ∀ ty ∈ types, ty.IsNumberOrNull) :
    contributions types = [] ∧ join types = null ∨
      (join types ∈ contributions types ∧ ∀ ty ∈ contributions types, ty = join types) ∨
      (¬∃ ty, ∀ other ∈ contributions types, other = ty) ∧
        Numeric.promote (contributions types) = some (join types) := by
  have hoperands := areOperands_operands types
  have hcontributes : ∀ {ty}, ty ∈ operands types → ty ∈ contributions types :=
    fun hty ↦ hoperands.sublist.mem hty
  rcases join_cases types with ⟨hops, hjoin⟩ | ⟨ty, hops, hjoin⟩ | ⟨htwo, hjoin⟩
  · refine .inl ⟨List.eq_nil_iff_forall_not_mem.2 fun ty hty ↦ ?_, hjoin⟩
    obtain ⟨operand, hoperand, -⟩ := hoperands.complete ty hty
    simp [hops] at hoperand
  · have hty : ty ∈ contributions types := hcontributes (by simp [hops])
    rw [hjoin]
    refine .inr (.inl ⟨hty, fun other hother ↦ ?_⟩)
    obtain ⟨operand, hoperand, hbeq⟩ := hoperands.complete other hother
    obtain rfl : operand = ty := by simpa [hops] using hoperand
    exact IsNumberOrNull.eq_of_beq (.inl (isNumber_of_mem_contributions h hty)) hbeq
  · obtain ⟨first, hfirst⟩ := List.exists_mem_of_ne_nil _ (ne_nil_of_two_le htwo)
    refine .inr (.inr ⟨?_, ?_⟩)
    · rintro ⟨ty, hall⟩
      obtain rfl := hall first (hcontributes hfirst)
      rw [operands_eq_singleton (hcontributes hfirst) hall] at htwo
      simp at htwo
    · have hsame : SameTypes (operands types) (contributions types) :=
        sameTypes_distinct fun ty hty ↦
          wellFormed_of_mem_contributions (fun ty hty ↦ (h ty hty).wellFormed) hty
      obtain ⟨result, hpromote⟩ := Numeric.exists_promote_eq_some (ne_nil_of_two_le htwo)
        fun ty hty ↦ isNumber_of_mem_contributions h (hcontributes hty)
      rw [hjoin, joinDistinct_of_promote hpromote, ← promote_eq_of_sameTypes hsame, hpromote]

theorem isNumberOrNull_join (h : ∀ ty ∈ types, ty.IsNumberOrNull) :
    (join types).IsNumberOrNull := by
  rcases join_numbers_cases h with ⟨-, hjoin⟩ | ⟨hmem, -⟩ | ⟨-, hpromote⟩
  · exact .inr hjoin
  · exact .inl (isNumber_of_mem_contributions h hmem)
  · exact .inl (Numeric.isNumber_of_promote hpromote)

theorem join_eq_of_sameOperands (hxs : ∀ x ∈ xs, x.IsNumberOrNull)
    (hys : ∀ y ∈ ys, y.IsNumberOrNull) (h : SameOperands xs ys) : join xs = join ys := by
  have hbeq := join_beq (fun x hx ↦ (hxs x hx).wellFormed) (fun y hy ↦ (hys y hy).wellFormed) h
  exact ((isNumberOrNull_join hxs).eq_of_beq hbeq).symm

/-- The promotion of numbers is their join, unless they are all the same narrow one. -/
theorem join_eq_of_promote {ty : Ty} (h : ∀ ty ∈ types, ty.IsNumberOrNull)
    (hpromote : Numeric.promote (contributions types) = some ty)
    (hwide : ∀ ty, (∀ other ∈ contributions types, other = ty) → Numeric.promote [ty] = some ty) :
    join types = ty := by
  rcases join_numbers_cases h with ⟨hnil, -⟩ | ⟨hmem, hall⟩ | ⟨-, hjoin⟩
  · rw [hnil] at hpromote
    cases hpromote
  · have hsame : Numeric.promote (contributions types) = Numeric.promote [join types] := by
      refine Numeric.promote_eq_of_mem_iff fun other ↦ ?_
      rw [List.mem_singleton]
      exact ⟨hall other, fun heq ↦ heq ▸ hmem⟩
    rw [hsame, hwide _ hall] at hpromote
    exact Option.some.inj hpromote
  · exact Option.some.inj (hjoin.symm.trans hpromote)

theorem sameOperands_join_or_promote (h : ∀ ty ∈ types, ty.IsNumberOrNull) :
    SameOperands [join types] types ∨
      (¬∃ ty, ∀ other ∈ contributions types, other = ty) ∧
        Numeric.promote (contributions types) = some (join types) := by
  rcases join_numbers_cases h with ⟨hnil, hjoin⟩ | ⟨hmem, hall⟩ | hmixed
  · left
    rw [SameOperands, hjoin, hnil]
    exact .of_subset (List.Subset.refl []) (List.Subset.refl [])
  · left
    have honly := contributions_cons_of_isNumber (isNumber_of_mem_contributions h hmem) []
    rw [SameOperands, honly]
    refine .of_subset (fun ty hty ↦ ?_) fun ty hty ↦ ?_
    · rwa [List.mem_singleton.1 hty]
    · exact List.mem_singleton.2 (hall ty hty)
  · exact .inr hmixed

/-- A part of a list can be joined first. If that promotes it, then both lists have the same
promotion, and neither consists of copies of one narrow number. -/
theorem join_cons_join (hxs : ∀ x ∈ xs, x.IsNumberOrNull) (hys : ∀ y ∈ ys, y.IsNumberOrNull) :
    join (join xs :: ys) = join (xs ++ ys) := by
  have hcons : ∀ ty ∈ join xs :: ys, ty.IsNumberOrNull :=
    List.forall_mem_cons.2 ⟨isNumberOrNull_join hxs, hys⟩
  have happend : ∀ ty ∈ xs ++ ys, ty.IsNumberOrNull := List.forall_mem_append.2 ⟨hxs, hys⟩
  rcases sameOperands_join_or_promote hxs with hsame | ⟨hmixed, hpromote⟩
  · exact join_eq_of_sameOperands hcons happend (by simpa using hsame.middle [] ys)
  · have hfirst := contributions_cons_of_isNumber (Numeric.isNumber_of_promote hpromote) ys
    have hpromotions : Numeric.promote (contributions (join xs :: ys)) =
        Numeric.promote (contributions (xs ++ ys)) := by
      rw [hfirst, contributions_append]
      exact Numeric.promote_cons_of_promote hpromote fun y hy ↦ isNumber_of_mem_contributions hys hy
    obtain ⟨result, hresult⟩ : ∃ result, Numeric.promote (contributions (join xs :: ys)) =
        some result := by
      refine Numeric.exists_promote_eq_some ?_ fun ty hty ↦ isNumber_of_mem_contributions hcons hty
      rw [hfirst]
      exact List.cons_ne_nil _ _
    rw [join_eq_of_promote hcons hresult, join_eq_of_promote happend (hpromotions ▸ hresult)]
    · intro ty hall
      refine absurd ⟨ty, fun other hother ↦ hall other ?_⟩ hmixed
      rw [contributions_append]
      exact List.mem_append_left _ hother
    · intro ty hall
      rw [← hall (join xs) (by simp [hfirst])]
      exact Numeric.promote_singleton hpromote

theorem join_append_comm (hxs : ∀ x ∈ xs, x.IsNumberOrNull) (hys : ∀ y ∈ ys, y.IsNumberOrNull) :
    join (xs ++ ys) = join (ys ++ xs) := by
  refine join_eq_of_sameOperands (List.forall_mem_append.2 ⟨hxs, hys⟩)
    (List.forall_mem_append.2 ⟨hys, hxs⟩) (SameTypes.sameOperands ?_)
  exact .of_subset (by simp) (by simp)

theorem join_append (hxs : ∀ x ∈ xs, x.IsNumberOrNull) (hys : ∀ y ∈ ys, y.IsNumberOrNull) :
    join (xs ++ ys) = lub2 (join xs) (join ys) := by
  have hlast : ∀ y ∈ [join ys], y.IsNumberOrNull := by simpa using isNumberOrNull_join hys
  calc join (xs ++ ys)
    _ = join (ys ++ xs) := join_append_comm hxs hys
    _ = join ([join ys] ++ xs) := (join_cons_join hys hxs).symm
    _ = join (xs ++ [join ys]) := join_append_comm hlast hxs
    _ = lub2 (join xs) (join ys) := (join_cons_join hxs hlast).symm

/-- A fold takes the first two types together first. -/
theorem foldl_lub2_eq {first : Ty} {rest : List Ty} (h : ∀ ty ∈ first :: rest, ty.IsNumberOrNull) :
    rest.foldl lub2 first = join (first :: rest) := by
  induction rest generalizing first with
  | nil => exact (join_singleton (h first (List.mem_singleton_self first)).members?_eq_none).symm
  | cons second rest ih =>
    obtain ⟨hpair, hrest⟩ : (∀ ty ∈ [first, second], ty.IsNumberOrNull) ∧
        ∀ ty ∈ rest, ty.IsNumberOrNull := List.forall_mem_append.1 h
    have hlub2 : (lub2 first second).IsNumberOrNull := isNumberOrNull_join hpair
    rw [List.foldl_cons, ih (List.forall_mem_cons.2 ⟨hlub2, hrest⟩)]
    exact join_cons_join hpair hrest

theorem lub_of_numbers (hne : types ≠ []) (h : ∀ ty ∈ types, ty.IsNumberOrNull) :
    lub types = .ok (join types) := by
  match types, hne with
  | [ty], _ => rw [join_singleton (h ty (List.mem_singleton_self ty)).members?_eq_none, lub]
  | first :: second :: rest, _ => exact lub_of_two_le (by simp)

theorem lub_of_perm (hne : xs ≠ []) (hxs : ∀ x ∈ xs, x.IsNumberOrNull) (hperm : xs.Perm ys) :
    lub ys = .ok (join xs) := by
  have hys : ∀ y ∈ ys, y.IsNumberOrNull := fun y hy ↦ hxs y (hperm.mem_iff.2 hy)
  have hsame : SameTypes ys xs := .of_subset hperm.symm.subset hperm.subset
  rw [lub_of_numbers (fun hnil ↦ hne (hnil ▸ hperm).eq_nil) hys,
    join_eq_of_sameOperands hys hxs hsame.sameOperands]

end Numbers

/-! ## Groupings -/

/-- A way to join types two at a time: which of them are taken together first. -/
inductive Grouping where
  | single (ty : Ty)
  | pair (left right : Grouping)

namespace Grouping

def types : Grouping → List Ty
  | single ty => [ty]
  | pair left right => left.types ++ right.types

def joined : Grouping → Ty
  | single ty => ty
  | pair left right => lub2 left.joined right.joined

theorem types_ne_nil (grouping : Grouping) : grouping.types ≠ [] := by
  induction grouping with
  | single ty => exact List.cons_ne_nil ty []
  | pair left right ihleft _ => exact List.append_ne_nil_of_left_ne_nil ihleft _

theorem joined_eq {grouping : Grouping} (h : ∀ ty ∈ grouping.types, ty.IsNumberOrNull) :
    grouping.joined = join grouping.types := by
  induction grouping with
  | single ty => exact (join_singleton (h ty (List.mem_singleton_self ty)).members?_eq_none).symm
  | pair left right ihleft ihright =>
    obtain ⟨hleft, hright⟩ := List.forall_mem_append.1 h
    rw [joined, ihleft hleft, ihright hright, types, join_append hleft hright]

end Grouping

/-- The least upper bound of numbers is put together from those of any two parts. So it is what
joining the numbers two at a time comes to, one after the other or in any grouping, and in any
order. -/
theorem lub_of_numbers_grouped :
    (∀ xs ys : List Ty, xs ≠ [] → ys ≠ [] → (∀ ty ∈ xs ++ ys, ty.IsNumberOrNull) →
        ∃ x y, lub xs = .ok x ∧ lub ys = .ok y ∧ lub (xs ++ ys) = .ok (lub2 x y)) ∧
      ∀ types : List Ty, (∀ ty ∈ types, ty.IsNumberOrNull) →
        (∀ first rest, (first :: rest).Perm types → lub types = .ok (rest.foldl lub2 first)) ∧
          ∀ grouping : Grouping, grouping.types.Perm types → lub types = .ok grouping.joined := by
  refine ⟨fun xs ys hxs hys h ↦ ?_, fun types h ↦ ⟨fun first rest hperm ↦ ?_,
    fun grouping hperm ↦ ?_⟩⟩
  · obtain ⟨hx, hy⟩ := List.forall_mem_append.1 h
    refine ⟨join xs, join ys, lub_of_numbers hxs hx, lub_of_numbers hys hy, ?_⟩
    rw [lub_of_numbers (List.append_ne_nil_of_left_ne_nil hxs ys) h, join_append hx hy]
  · have hnumbers : ∀ ty ∈ first :: rest, ty.IsNumberOrNull :=
      fun ty hty ↦ h ty (hperm.mem_iff.1 hty)
    rw [foldl_lub2_eq hnumbers, lub_of_perm (List.cons_ne_nil first rest) hnumbers hperm]
  · have hnumbers : ∀ ty ∈ grouping.types, ty.IsNumberOrNull :=
      fun ty hty ↦ h ty (hperm.mem_iff.1 hty)
    rw [Grouping.joined_eq hnumbers, lub_of_perm grouping.types_ne_nil hnumbers hperm]

/-- Boxed and plain numbers narrower than an int, with a null among them. -/
theorem lub_of_narrow_numbers_grouped :
    let byte := ofClass ClassName.byte
    let short := primitive .short
    (∀ ty ∈ [byte, byte] ++ [null, short], ty.IsNumberOrNull) ∧
      lub ([byte, byte] ++ [null, short]) = .ok (lub2 byte short) ∧
      lub ([byte, byte] ++ [null, short]) = .ok (lub2 (lub2 (lub2 short null) byte) byte) ∧
      lub ([byte, byte] ++ [null, short]) = .ok (lub2 (lub2 byte short) (lub2 null byte)) := by
  intro byte short
  have hbyte : byte.IsNumberOrNull := .inl (.wrapper .byte rfl)
  have hshort : short.IsNumberOrNull := .inl (.primitive .short rfl)
  have hnumbers : ∀ ty ∈ [byte, byte] ++ [null, short], ty.IsNumberOrNull := by
    simp only [List.cons_append, List.nil_append, List.forall_mem_cons]
    exact ⟨hbyte, hbyte, .inr rfl, hshort, List.forall_mem_nil _⟩
  obtain ⟨x, y, hx, hy, happend⟩ := lub_of_numbers_grouped.1 [byte, byte] [null, short]
    (List.cons_ne_nil _ _) (List.cons_ne_nil _ _) hnumbers
  have hbytes : lub [byte, byte] = .ok byte :=
    congrArg Except.ok (join_of_operands_eq_singleton rfl)
  have hshorts : lub [null, short] = .ok short :=
    congrArg Except.ok (join_of_operands_eq_singleton rfl)
  obtain rfl : x = byte := Except.ok.inj (hx.symm.trans hbytes)
  obtain rfl : y = short := Except.ok.inj (hy.symm.trans hshorts)
  obtain ⟨hfold, hgrouping⟩ := lub_of_numbers_grouped.2 _ hnumbers
  refine ⟨hnumbers, happend, hfold short [null, byte, byte] ?_, hgrouping
    (.pair (.pair (.single byte) (.single short)) (.pair (.single null) (.single byte))) ?_⟩
  · exact List.reverse_perm [byte, byte, null, short]
  · exact (List.reverse_perm [byte, null, short]).cons byte

end ExprTyping.Ty
