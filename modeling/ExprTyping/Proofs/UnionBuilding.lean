import Mathlib.Data.List.Induction
import ExprTyping.Proofs.Operands

/-!
# Building unions

Types are added to a union one after the other, and each is compared with those that were kept.
Since equality is transitive, it could as well be compared with all that came before, so what is
kept can be read off the list of the flattened types. A union that was built has nothing left to
flatten or to drop, and this is why parts of a list can be built first without any trace of it in
the result.
-/

namespace ExprTyping.Ty

/-! ## First occurrences -/

/-- The types that are equal to no earlier type of the list. -/
def firstSeen (types : List Ty) : List Ty :=
  (types.zipIdx.filter fun entry ↦ !oneOf (types.take entry.2) entry.1).map (·.1)

theorem distinct_concat (types : List Ty) (ty : Ty) :
    distinct (types ++ [ty]) = addDistinct (distinct types) ty := by
  simp [distinct]

theorem firstSeen_concat (types : List Ty) (ty : Ty) :
    firstSeen (types ++ [ty]) = firstSeen types ++ if oneOf types ty then [] else [ty] := by
  have hearlier : types.zipIdx.filter (fun entry ↦ !oneOf ((types ++ [ty]).take entry.2) entry.1) =
      types.zipIdx.filter fun entry ↦ !oneOf (types.take entry.2) entry.1 := by
    refine List.filter_congr fun entry hentry ↦ ?_
    rw [List.take_append_of_le_length (Nat.le_of_lt (List.snd_lt_of_mem_zipIdx hentry))]
  rw [firstSeen, List.zipIdx_append, List.filter_append, hearlier, List.map_append]
  by_cases hold : oneOf types ty = true <;> simp [firstSeen, hold]

/-- What is equal to a type that was dropped is equal to the one that was kept in its place. -/
theorem oneOf_distinct (types : List Ty) (ty : Ty) :
    oneOf (distinct types) ty = oneOf types ty := by
  rw [Bool.eq_iff_iff, oneOf_eq_true_iff, oneOf_eq_true_iff]
  constructor
  · rintro ⟨other, hother, hbeq⟩
    exact ⟨other, mem_of_mem_distinct hother, hbeq⟩
  · rintro ⟨other, hother, hbeq⟩
    obtain ⟨kept, hkept, hsame⟩ := exists_beq_mem_foldl_addDistinct [] hother
    exact ⟨kept, hkept, beq_trans hsame hbeq⟩

theorem distinct_eq_firstSeen (types : List Ty) : distinct types = firstSeen types := by
  induction types using List.reverseRecOn with
  | nil => rfl
  | append_singleton types ty ih =>
    rw [distinct_concat, firstSeen_concat, addDistinct, oneOf_distinct, ih]
    by_cases hold : oneOf types ty = true <;> simp [hold]

/-- Adding types leaves out the repetitions among them, so these can be left out before. -/
theorem foldl_addDistinct_distinct (types kept : List Ty) :
    (distinct types).foldl addDistinct kept = types.foldl addDistinct kept := by
  induction types using List.reverseRecOn with
  | nil => rfl
  | append_singleton types ty ih =>
    rw [distinct_concat, addDistinct, oneOf_distinct, List.foldl_append, ← ih]
    by_cases hold : oneOf types ty = true
    · obtain ⟨earlier, hearlier, hbeq⟩ := oneOf_eq_true_iff.1 hold
      obtain ⟨other, hother, hsame⟩ := exists_beq_mem_foldl_addDistinct kept hearlier
      have hagain : oneOf ((distinct types).foldl addDistinct kept) ty = true :=
        oneOf_eq_true_iff.2 ⟨other, ih ▸ hother, beq_trans hsame hbeq⟩
      rw [if_pos hold, List.foldl_cons, List.foldl_nil, addDistinct, if_pos hagain]
    · rw [if_neg hold, List.foldl_append]

theorem distinct_append_distinct (as bs : List Ty) :
    distinct (distinct as ++ distinct bs) = distinct (as ++ bs) := by
  simp only [distinct, List.foldl_append]
  exact (foldl_addDistinct_distinct bs _).trans
    (congrArg (bs.foldl addDistinct) (foldl_addDistinct_distinct as []))

theorem distinct_eq_self {types : List Ty} (h : types.Pairwise fun a b ↦ ¬a == b) :
    distinct types = types := by
  induction types using List.reverseRecOn with
  | nil => rfl
  | append_singleton types ty ih =>
    obtain ⟨htypes, -, hnew⟩ := List.pairwise_append.1 h
    have hfresh : ¬oneOf types ty = true := by
      rw [oneOf_eq_true_iff]
      rintro ⟨other, hother, hbeq⟩
      exact hnew other hother ty (List.mem_singleton_self ty) hbeq
    rw [distinct_concat, ih htypes, addDistinct, if_neg hfresh]

/-! ## Parts -/

theorem parts_ne_nil {ty : Ty} (h : ty.WellFormed) : ty.parts ≠ [] := by
  cases ty with
  | union members =>
    have htwo := (wellFormed_union_iff.1 h).1
    exact List.ne_nil_of_length_pos (Nat.lt_of_lt_of_le Nat.zero_lt_two htwo)
  | _ => exact List.cons_ne_nil _ _

/-- A well-formed type is determined by its parts: one part is the type, more are a union. -/
theorem eq_of_parts_eq {a b : Ty} (ha : a.WellFormed) (hb : b.WellFormed)
    (h : a.parts = b.parts) : a = b := by
  have hlength {ty : Ty} (hty : ty.WellFormed) : ty.members? = none ↔ ty.parts.length = 1 := by
    cases ty with
    | union members =>
      have htwo := (wellFormed_union_iff.1 hty).1
      simp only [members?, parts, reduceCtorEq, false_iff]
      omega
    | _ => simp [members?, parts]
  cases hmembers : a.members? with
  | none =>
    have hmembers' : b.members? = none := by rwa [hlength hb, ← h, ← hlength ha]
    rw [parts_eq_singleton hmembers, parts_eq_singleton hmembers'] at h
    exact List.singleton_injective h
  | some members =>
    have hmembers' : b.members? ≠ none := by
      rw [Ne, hlength hb, ← h, ← hlength ha, hmembers]
      exact Option.some_ne_none members
    cases a with
    | union as =>
      cases b with
      | union bs => exact congrArg union h
      | _ => exact absurd rfl hmembers'
    | _ => cases hmembers

theorem flatten_eq_nil_iff {types : List Ty} (h : ∀ ty ∈ types, ty.WellFormed) :
    flatten types = [] ↔ types = [] := by
  cases types with
  | nil => simp [flatten]
  | cons ty types => simp [flatten, parts_ne_nil (h ty (List.mem_cons_self))]

theorem distinct_eq_nil_iff {types : List Ty} : distinct types = [] ↔ types = [] := by
  constructor
  · intro hnil
    refine List.eq_nil_iff_forall_not_mem.2 fun ty hty ↦ ?_
    obtain ⟨other, hother, -⟩ := exists_beq_mem_foldl_addDistinct [] hty
    change other ∈ distinct types at hother
    simp [hnil] at hother
  · rintro rfl
    rfl

/-! ## Results -/

section Results

variable {types types' : List Ty}

theorem unionOf_eq_error_iff {error : TypeError} : unionOf types = .error error ↔
    error = .tooFewMembers ∧ (distinct (flatten types)).length < 2 := by
  unfold unionOf
  match distinct (flatten types) with
  | [] | [_] => simp [eq_comm]
  | _ :: _ :: _ => simp

theorem unionOrSingle_eq_error_iff (h : ∀ ty ∈ types, ty.WellFormed) {error : TypeError} :
    unionOrSingle types = .error error ↔ error = .emptyUnion ∧ types = [] := by
  rw [← flatten_eq_nil_iff h, ← distinct_eq_nil_iff]
  unfold unionOrSingle
  match distinct (flatten types) with
  | [] => simp [eq_comm]
  | [_] | _ :: _ :: _ => simp

theorem parts_of_unionOrSingle (h : ∀ ty ∈ types, ty.WellFormed) {ty : Ty}
    (hty : unionOrSingle types = .ok ty) :
    ty.WellFormed ∧ ty.parts = distinct (flatten types) := by
  have hmembers : ∀ member ∈ distinct (flatten types),
      member.WellFormed ∧ member.members? = none :=
    fun member hmember ↦ wellFormed_of_mem_flatten h (mem_of_mem_distinct hmember)
  have hunion := wellFormed_union_distinct h
  unfold unionOrSingle at hty
  match hdistinct : distinct (flatten types), hty with
  | [single], rfl =>
    obtain ⟨hwf, hnone⟩ := hmembers single (by simp [hdistinct])
    exact ⟨hwf, parts_eq_singleton hnone⟩
  | first :: second :: rest, rfl =>
    rw [hdistinct] at hunion
    exact ⟨hunion (by simp), rfl⟩

theorem exists_unionOrSingle (h : ∀ ty ∈ types, ty.WellFormed) (hne : types ≠ []) :
    ∃ ty, unionOrSingle types = .ok ty := by
  cases hresult : unionOrSingle types with
  | ok ty => exact ⟨ty, rfl⟩
  | error error => exact absurd ((unionOrSingle_eq_error_iff h).1 hresult).2 hne

theorem unionOrSingle_eq_ok_iff (h : ∀ ty ∈ types, ty.WellFormed) {ty : Ty} :
    unionOrSingle types = .ok ty ↔ ty.WellFormed ∧ ty.parts = distinct (flatten types) := by
  refine ⟨parts_of_unionOrSingle h, fun ⟨hwf, hparts⟩ ↦ ?_⟩
  have hne : types ≠ [] := by
    rintro rfl
    exact parts_ne_nil hwf hparts
  obtain ⟨result, hresult⟩ := exists_unionOrSingle h hne
  obtain ⟨hwf', hparts'⟩ := parts_of_unionOrSingle h hresult
  rw [hresult, eq_of_parts_eq hwf' hwf (hparts'.trans hparts.symm)]

/-- Parts of a list can be built first. -/
theorem unionOrSingle_pair {xs ys : List Ty} {x y : Ty} (hxs : ∀ ty ∈ xs, ty.WellFormed)
    (hys : ∀ ty ∈ ys, ty.WellFormed) (hx : unionOrSingle xs = .ok x)
    (hy : unionOrSingle ys = .ok y) : unionOrSingle [x, y] = unionOrSingle (xs ++ ys) := by
  obtain ⟨-, hpartsx⟩ := parts_of_unionOrSingle hxs hx
  obtain ⟨-, hpartsy⟩ := parts_of_unionOrSingle hys hy
  have hsame : distinct (flatten [x, y]) = distinct (flatten (xs ++ ys)) := by
    calc distinct (flatten [x, y])
      _ = distinct (distinct (flatten xs) ++ distinct (flatten ys)) := by
        simp [flatten, hpartsx, hpartsy]
      _ = distinct (flatten xs ++ flatten ys) := distinct_append_distinct _ _
      _ = distinct (flatten (xs ++ ys)) := by simp [flatten]
  rw [unionOrSingle, unionOrSingle, hsame]

theorem unionOf_members {members : List Ty} (h : (union members).WellFormed) :
    unionOf members = .ok (union members) := by
  obtain ⟨htwo, hdistinct, hflat, -⟩ := wellFormed_union_iff.1 h
  rw [unionOf_eq_ok_iff, flatten_eq_self hflat, distinct_eq_self hdistinct]
  exact ⟨htwo, rfl⟩

/-- Both fail for the same reason, or both have a result and the two are equal. -/
def SameOutcome : Except TypeError Ty → Except TypeError Ty → Prop
  | .ok a, .ok b => a == b
  | .error error, .error error' => error = error'
  | _, _ => False

/-- Lists that flatten to the same set fail for the same reason or give equal unions. -/
theorem sameOutcome_of_sameTypes (h : ∀ ty ∈ types, ty.WellFormed)
    (h' : ∀ ty ∈ types', ty.WellFormed) (hsame : SameTypes (flatten types) (flatten types')) :
    SameOutcome (unionOf types) (unionOf types') ∧
      SameOutcome (unionOrSingle types) (unionOrSingle types') := by
  have hwf {types : List Ty} (h : ∀ ty ∈ types, ty.WellFormed) :
      ∀ ty ∈ flatten types, ty.WellFormed := fun _ hty ↦ (wellFormed_of_mem_flatten h hty).1
  have hdistinct : SameTypes (distinct (flatten types)) (distinct (flatten types')) :=
    (sameTypes_distinct (hwf h)).trans (hsame.trans (sameTypes_distinct (hwf h')).symm)
  have hlength := hdistinct.length_eq (fun ty hty ↦ hwf h ty (mem_of_mem_distinct hty))
    (fun ty hty ↦ hwf h' ty (mem_of_mem_distinct hty)) (pairwise_distinct _) (pairwise_distinct _)
  have hunion : union (distinct (flatten types)) == union (distinct (flatten types')) :=
    union_beq_iff.2 ⟨_, rfl, hlength, hdistinct.1⟩
  unfold unionOf unionOrSingle
  match distinct (flatten types), distinct (flatten types'), hlength, hdistinct, hunion with
  | [], [], _, _, _ => exact ⟨rfl, rfl⟩
  | [a], [b], _, hdistinct, _ => exact ⟨rfl, by simpa [SameOutcome] using hdistinct.1⟩
  | _ :: _ :: _, _ :: _ :: _, _, _, hunion => exact ⟨hunion, hunion⟩

end Results

/-! ## Laws -/

structure UnionLaws (types : List Ty) : Prop where
  unionOf_error : ∀ error, unionOf types = .error error ↔
    error = .tooFewMembers ∧ (firstSeen (flatten types)).length < 2
  unionOf_ok : ∀ ty, unionOf types = .ok ty ↔
    2 ≤ (firstSeen (flatten types)).length ∧ ty = union (firstSeen (flatten types))
  single_error : ∀ error, unionOrSingle types = .error error ↔ error = .emptyUnion ∧ types = []
  single_ok : ∀ ty, unionOrSingle types = .ok ty ↔
    ty.WellFormed ∧ ty.parts = firstSeen (flatten types)
  append : types ≠ [] → ∀ others, others ≠ [] → (∀ ty ∈ others, ty.WellFormed) →
    ∃ first second whole, unionOrSingle types = .ok first ∧ unionOrSingle others = .ok second ∧
      unionOrSingle (types ++ others) = .ok whole ∧ unionOrSingle [first, second] = .ok whole
  perm : ∀ others, types.Perm others → SameOutcome (unionOf types) (unionOf others) ∧
    SameOutcome (unionOrSingle types) (unionOrSingle others)

/-- A union has the first of each kind of equal types, in their order, and it fails only for want of
members. Building parts of a list first makes no difference at all, reordering it none to equality,
and the members of a union give the same union back. -/
theorem unionLaws_of_wellFormed :
    (∀ types, (∀ ty ∈ types, ty.WellFormed) → UnionLaws types) ∧
      ∀ members, (union members).WellFormed → unionOf members = .ok (union members) := by
  refine ⟨fun types h ↦ ?_, fun members ↦ unionOf_members⟩
  refine ⟨?_, ?_, ?_, ?_, fun hne others hne' hothers ↦ ?_, fun others hperm ↦ ?_⟩
  · intro error
    rw [← distinct_eq_firstSeen, unionOf_eq_error_iff]
  · intro ty
    rw [← distinct_eq_firstSeen, unionOf_eq_ok_iff]
  · exact fun error ↦ unionOrSingle_eq_error_iff h
  · intro ty
    rw [← distinct_eq_firstSeen, unionOrSingle_eq_ok_iff h]
  · obtain ⟨first, hfirst⟩ := exists_unionOrSingle h hne
    obtain ⟨second, hsecond⟩ := exists_unionOrSingle hothers hne'
    obtain ⟨whole, hwhole⟩ := exists_unionOrSingle (List.forall_mem_append.2 ⟨h, hothers⟩)
      (List.append_ne_nil_of_left_ne_nil hne others)
    refine ⟨first, second, whole, hfirst, hsecond, hwhole, ?_⟩
    rw [unionOrSingle_pair h hothers hfirst hsecond, hwhole]
  · have hothers : ∀ ty ∈ others, ty.WellFormed := fun ty hty ↦ h ty (hperm.mem_iff.2 hty)
    have hflat : (flatten types).Perm (flatten others) := hperm.flatMap_right parts
    exact sameOutcome_of_sameTypes h hothers (.of_subset hflat.subset hflat.symm.subset)

/-- Types that differ in their hints only: the first one is kept, wherever the list is cut. -/
theorem unionOrSingle_of_hinted_members :
    let first := [union [dynamic (some "first"), string], dynamic (some "second")]
    let second := [union [int, dynamic none], union [string, dynamic (some "third"), int]]
    let whole := union [dynamic (some "first"), string, int]
    (∀ ty ∈ first ++ second, ty.WellFormed) ∧ unionOrSingle (first ++ second) = .ok whole ∧
      unionOrSingle [union [dynamic (some "first"), string],
        union [int, dynamic none, string]] = .ok whole ∧
      unionOf [dynamic (some "first"), string, int] = .ok whole ∧
      SameOutcome (.ok whole) (unionOrSingle (first ++ second).reverse) := by
  intro first second whole
  have hfirst : ∀ ty ∈ first, ty.WellFormed := by decide
  have hsecond : ∀ ty ∈ second, ty.WellFormed := by decide
  have hboth := List.forall_mem_append.2 ⟨hfirst, hsecond⟩
  obtain ⟨hlaws, hrebuild⟩ := unionLaws_of_wellFormed
  obtain ⟨x, y, ty, hx, hy, hty, hpair⟩ := (hlaws first hfirst).append
    (List.cons_ne_nil _ _) second (List.cons_ne_nil _ _) hsecond
  have hwhole : unionOrSingle (first ++ second) = .ok whole :=
    ((hlaws _ hboth).single_ok whole).2 ⟨by decide, rfl⟩
  obtain rfl : ty = whole := Except.ok.inj (hty.symm.trans hwhole)
  obtain rfl : x = union [dynamic (some "first"), string] := Except.ok.inj (hx.symm.trans rfl)
  obtain rfl : y = union [int, dynamic none, string] := Except.ok.inj (hy.symm.trans rfl)
  refine ⟨hboth, hwhole, hpair, hrebuild _ (by decide), ?_⟩
  rw [← hwhole]
  exact ((hlaws _ hboth).perm _ (List.reverse_perm _).symm).2

end ExprTyping.Ty
