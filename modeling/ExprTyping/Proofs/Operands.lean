import ExprTyping.Join
import ExprTyping.Proofs.Equality

/-!
# Lists of types as sets

Two lists are the same set of types if each type of either is equal to one of the other. Flattening
respects this, and dropping repetitions gives a list without equal types that is the same set. The
operands of a join are therefore as many as there are different types in its arguments.
-/

namespace ExprTyping.Ty

/-- Each type of either list is equal to one of the other. -/
def SameTypes (as bs : List Ty) : Prop :=
  (∀ a ∈ as, ∃ b ∈ bs, a == b) ∧ ∀ b ∈ bs, ∃ a ∈ as, b == a

instance (as bs : List Ty) : Decidable (SameTypes as bs) := inferInstanceAs (Decidable (_ ∧ _))

namespace SameTypes

variable {as bs cs : List Ty}

theorem symm (h : SameTypes as bs) : SameTypes bs as := ⟨h.2, h.1⟩

theorem trans (hab : SameTypes as bs) (hbc : SameTypes bs cs) : SameTypes as cs := by
  constructor
  · intro a ha
    obtain ⟨b, hb, hab⟩ := hab.1 a ha
    obtain ⟨c, hc, hbc⟩ := hbc.1 b hb
    exact ⟨c, hc, beq_trans hab hbc⟩
  · intro c hc
    obtain ⟨b, hb, hcb⟩ := hbc.2 c hc
    obtain ⟨a, ha, hba⟩ := hab.2 b hb
    exact ⟨a, ha, beq_trans hcb hba⟩

theorem of_subset (hab : as ⊆ bs) (hba : bs ⊆ as) : SameTypes as bs :=
  ⟨fun a ha ↦ ⟨a, hab ha, beq_refl a⟩, fun b hb ↦ ⟨b, hba hb, beq_refl b⟩⟩

/-- On well-formed types it is enough to give the equalities one way round. -/
theorem of_within (has : ∀ a ∈ as, a.WellFormed) (hbs : ∀ b ∈ bs, b.WellFormed)
    (hab : ∀ a ∈ as, ∃ b ∈ bs, a == b) (hba : ∀ b ∈ bs, ∃ a ∈ as, a == b) : SameTypes as bs := by
  refine ⟨hab, fun b hb ↦ ?_⟩
  obtain ⟨a, ha, h⟩ := hba b hb
  exact ⟨a, ha, beq_symm (has a ha) (hbs b hb) h⟩

theorem of_forall₂ (has : ∀ a ∈ as, a.WellFormed) (hbs : ∀ b ∈ bs, b.WellFormed)
    (h : List.Forall₂ (fun a b ↦ a == b) as bs) : SameTypes as bs :=
  of_within has hbs (exists_mem_of_forall₂ h).1 (exists_mem_of_forall₂ h).2

theorem append {ds : List Ty} (hab : SameTypes as bs) (hcd : SameTypes cs ds) :
    SameTypes (as ++ cs) (bs ++ ds) := by
  have happend {xs ys zs ws : List Ty} (h : ∀ x ∈ xs, ∃ y ∈ ys, x == y)
      (h' : ∀ z ∈ zs, ∃ w ∈ ws, z == w) : ∀ x ∈ xs ++ zs, ∃ y ∈ ys ++ ws, x == y := by
    intro x hx
    rcases List.mem_append.1 hx with hx | hx
    · obtain ⟨y, hy, hxy⟩ := h x hx
      exact ⟨y, List.mem_append_left ws hy, hxy⟩
    · obtain ⟨w, hw, hxw⟩ := h' x hx
      exact ⟨w, List.mem_append_right ys hw, hxw⟩
  exact ⟨happend hab.1 hcd.1, happend hab.2 hcd.2⟩

/-- A property that equal types share keeps the same types of both lists. -/
theorem filter {p : Ty → Bool} (hp : ∀ {a b : Ty}, a == b → p a = p b) (h : SameTypes as bs) :
    SameTypes (as.filter p) (bs.filter p) := by
  have hfilter {xs ys : List Ty} (h : ∀ x ∈ xs, ∃ y ∈ ys, x == y) :
      ∀ x ∈ xs.filter p, ∃ y ∈ ys.filter p, x == y := by
    intro x hx
    obtain ⟨hx, hpx⟩ := List.mem_filter.1 hx
    obtain ⟨y, hy, hxy⟩ := h x hx
    exact ⟨y, List.mem_filter.2 ⟨hy, hp hxy ▸ hpx⟩, hxy⟩
  exact ⟨hfilter h.1, hfilter h.2⟩

/-- The same set without repetitions has the same number of members. -/
theorem length_eq (has : ∀ a ∈ as, a.WellFormed) (hbs : ∀ b ∈ bs, b.WellFormed)
    (hdistinct : as.Pairwise fun a b ↦ ¬a == b) (hdistinct' : bs.Pairwise fun a b ↦ ¬a == b)
    (h : SameTypes as bs) : as.length = bs.length :=
  Nat.le_antisymm (length_le_of_within has hbs hdistinct h.1)
    (length_le_of_within hbs has hdistinct' h.2)

end SameTypes

/-! ## Dropping repetitions -/

theorem mem_of_mem_foldl_addDistinct {types kept : List Ty} {ty : Ty}
    (h : ty ∈ types.foldl addDistinct kept) : ty ∈ kept ∨ ty ∈ types := by
  induction types generalizing kept with
  | nil => exact .inl h
  | cons first types ih =>
    rcases ih h with h | h
    · unfold addDistinct at h
      split at h
      · exact .inl h
      · rcases List.mem_append.1 h with h | h
        · exact .inl h
        · exact .inr (by simp_all)
    · exact .inr (List.mem_cons_of_mem first h)

/-- A type is added only if it is equal to none that was kept. -/
theorem pairwise_foldl_addDistinct {types kept : List Ty}
    (h : kept.Pairwise fun a b ↦ ¬a == b) :
    (types.foldl addDistinct kept).Pairwise fun a b ↦ ¬a == b := by
  induction types generalizing kept with
  | nil => exact h
  | cons first types ih =>
    refine ih ?_
    unfold addDistinct
    split
    · exact h
    next hnew =>
      refine List.pairwise_append.2 ⟨h, List.pairwise_singleton _ _, ?_⟩
      rintro a ha b hb hab
      obtain rfl := List.mem_singleton.1 hb
      exact hnew (oneOf_eq_true_iff.2 ⟨a, ha, hab⟩)

theorem foldl_addDistinct_sublist (types kept : List Ty) :
    (types.foldl addDistinct kept).Sublist (kept ++ types) := by
  induction types generalizing kept with
  | nil => simp
  | cons first types ih =>
    refine (ih (addDistinct kept first)).trans ?_
    unfold addDistinct
    split
    · exact (List.sublist_cons_self first types).append_left kept
    · simp

theorem distinct_sublist (types : List Ty) : (distinct types).Sublist types :=
  foldl_addDistinct_sublist types []

theorem subset_foldl_addDistinct (types kept : List Ty) : kept ⊆ types.foldl addDistinct kept := by
  induction types generalizing kept with
  | nil => exact List.Subset.refl kept
  | cons first types ih =>
    refine List.Subset.trans ?_ (ih (addDistinct kept first))
    unfold addDistinct
    split
    · exact List.Subset.refl kept
    · exact List.subset_append_left kept [first]

/-- A type that is left out is equal to one that was kept. -/
theorem exists_beq_mem_foldl_addDistinct {types : List Ty} (kept : List Ty) {ty : Ty}
    (h : ty ∈ types) : ∃ other ∈ types.foldl addDistinct kept, other == ty := by
  induction types generalizing kept with
  | nil => cases h
  | cons first types ih =>
    rcases List.mem_cons.1 h with rfl | h
    · have hsub := subset_foldl_addDistinct types (addDistinct kept ty)
      rw [List.foldl_cons]
      by_cases hold : oneOf kept ty = true
      · obtain ⟨other, hother, hbeq⟩ := oneOf_eq_true_iff.1 hold
        exact ⟨other, hsub (by simpa [addDistinct, hold] using hother), hbeq⟩
      · exact ⟨ty, hsub (by simp [addDistinct, hold]), beq_refl ty⟩
    · exact ih (addDistinct kept first) h

theorem mem_of_mem_distinct {types : List Ty} {ty : Ty} (h : ty ∈ distinct types) : ty ∈ types := by
  simpa using mem_of_mem_foldl_addDistinct h

theorem pairwise_distinct (types : List Ty) : (distinct types).Pairwise fun a b ↦ ¬a == b :=
  pairwise_foldl_addDistinct .nil

/-- Dropping repetitions changes the list, and not the set. -/
theorem sameTypes_distinct {types : List Ty} (h : ∀ ty ∈ types, ty.WellFormed) :
    SameTypes (distinct types) types :=
  .of_within (fun ty hty ↦ h ty (mem_of_mem_distinct hty)) h
    (fun ty hty ↦ ⟨ty, mem_of_mem_distinct hty, beq_refl ty⟩)
    (fun _ hty ↦ exists_beq_mem_foldl_addDistinct [] hty)

/-! ## Building unions -/

theorem wellFormed_of_mem_parts {ty part : Ty} (h : ty.WellFormed) (hpart : part ∈ ty.parts) :
    part.WellFormed ∧ part.members? = none := by
  cases ty with
  | union members =>
    obtain ⟨-, -, hflat, hmembers⟩ := wellFormed_union_iff.1 h
    exact ⟨hmembers part hpart, hflat part hpart⟩
  | _ =>
    obtain rfl := List.mem_singleton.1 hpart
    exact ⟨h, rfl⟩

/-- Equal types have equal parts, in some order. -/
theorem exists_part_of_beq {a b part : Ty} (hab : a == b) (hpart : part ∈ a.parts) :
    ∃ part' ∈ b.parts, part == part' := by
  cases hab using beq_cases with
  | union as bs h hlength hwithin => exact hwithin part hpart
  | known | primitive | dynamic | unknown | null | array =>
    obtain rfl := List.mem_singleton.1 hpart
    exact ⟨_, List.mem_singleton_self _, ‹_›⟩

/-- One level of flattening is enough for well-formed types. -/
theorem wellFormed_of_mem_flatten {types : List Ty} (h : ∀ ty ∈ types, ty.WellFormed) {ty : Ty}
    (hty : ty ∈ flatten types) : ty.WellFormed ∧ ty.members? = none := by
  obtain ⟨source, hsource, hpart⟩ := List.mem_flatMap.1 hty
  exact wellFormed_of_mem_parts (h source hsource) hpart

theorem parts_eq_singleton {ty : Ty} (h : ty.members? = none) : ty.parts = [ty] := by
  cases ty with
  | union members => cases h
  | _ => rfl

theorem flatten_eq_self {types : List Ty} (h : ∀ ty ∈ types, ty.members? = none) :
    flatten types = types := by
  induction types with
  | nil => rfl
  | cons ty types ih =>
    rw [List.forall_mem_cons] at h
    rw [flatten, List.flatMap_cons, parts_eq_singleton h.1]
    exact congrArg (ty :: ·) (ih h.2)

/-- A union is built from at least two different types, after flattening. -/
theorem unionOf_eq_ok_iff {types : List Ty} {ty : Ty} :
    unionOf types = .ok ty ↔
      2 ≤ (distinct (flatten types)).length ∧ ty = union (distinct (flatten types)) := by
  unfold unionOf
  match distinct (flatten types) with
  | [] | [_] => simp
  | _ :: _ :: _ => simp [eq_comm]

theorem wellFormed_union_distinct {types : List Ty} (h : ∀ ty ∈ types, ty.WellFormed)
    (htwo : 2 ≤ (distinct (flatten types)).length) :
    (union (distinct (flatten types))).WellFormed :=
  .union htwo (pairwise_distinct _)
    (fun _ hmember ↦ (wellFormed_of_mem_flatten h (mem_of_mem_distinct hmember)).2)
    (fun _ hmember ↦ (wellFormed_of_mem_flatten h (mem_of_mem_distinct hmember)).1)

/-! ## What the arguments of a join contribute -/

/-- The types that an argument list brings to a join, repetitions included. -/
def contributions (types : List Ty) : List Ty := (flatten types).filter (!·.isNull)

theorem mem_contributions_iff {types : List Ty} {ty : Ty} :
    ty ∈ contributions types ↔ (∃ source ∈ types, ty ∈ source.parts) ∧ ty.isNull = false := by
  simp [contributions, flatten]

theorem exists_source_of_mem_operands {types : List Ty} {ty : Ty} (h : ty ∈ operands types) :
    ∃ source ∈ types, ty ∈ source.parts :=
  (mem_contributions_iff.1 (mem_of_mem_distinct h)).1

theorem contributions_append (as bs : List Ty) :
    contributions (as ++ bs) = contributions as ++ contributions bs := by
  simp [contributions, flatten]

theorem wellFormed_of_mem_contributions {types : List Ty} (h : ∀ ty ∈ types, ty.WellFormed)
    {ty : Ty} (hty : ty ∈ contributions types) : ty.WellFormed := by
  obtain ⟨⟨source, hsource, hpart⟩, -⟩ := mem_contributions_iff.1 hty
  exact (wellFormed_of_mem_parts (h source hsource) hpart).1

theorem wellFormed_of_mem_operands {types : List Ty} (h : ∀ ty ∈ types, ty.WellFormed)
    {ty : Ty} (hty : ty ∈ operands types) : ty.WellFormed :=
  wellFormed_of_mem_contributions h (mem_of_mem_distinct hty)

def SameOperands (xs ys : List Ty) : Prop := SameTypes (contributions xs) (contributions ys)

instance (xs ys : List Ty) : Decidable (SameOperands xs ys) :=
  inferInstanceAs (Decidable (SameTypes _ _))

theorem exists_contribution_of_within {xs ys : List Ty} (h : ∀ x ∈ xs, ∃ y ∈ ys, x == y) {ty : Ty}
    (hty : ty ∈ contributions xs) : ∃ ty' ∈ contributions ys, ty == ty' := by
  obtain ⟨⟨x, hx, hpart⟩, hnull⟩ := mem_contributions_iff.1 hty
  obtain ⟨y, hy, hxy⟩ := h x hx
  obtain ⟨part', hpart', hbeq⟩ := exists_part_of_beq hxy hpart
  refine ⟨part', mem_contributions_iff.2 ⟨⟨y, hy, hpart'⟩, ?_⟩, hbeq⟩
  rw [← isNull_eq_of_beq hbeq, hnull]

theorem SameTypes.sameOperands {xs ys : List Ty} (h : SameTypes xs ys) : SameOperands xs ys :=
  ⟨fun _ hty ↦ exists_contribution_of_within h.1 hty,
    fun _ hty ↦ exists_contribution_of_within h.2 hty⟩

theorem SameOperands.middle {xs ys : List Ty} (h : SameOperands xs ys) (left right : List Ty) :
    SameOperands (left ++ xs ++ right) (left ++ ys ++ right) := by
  have hrefl (types : List Ty) : SameTypes types types :=
    .of_subset (List.Subset.refl types) (List.Subset.refl types)
  simp only [SameOperands, contributions_append]
  exact ((hrefl _).append h).append (hrefl _)

theorem SameOperands.operands {xs ys : List Ty} (hxs : ∀ x ∈ xs, x.WellFormed)
    (hys : ∀ y ∈ ys, y.WellFormed) (h : SameOperands xs ys) :
    SameTypes (operands xs) (operands ys) :=
  have hx := sameTypes_distinct fun _ h ↦ wellFormed_of_mem_contributions hxs h
  have hy := sameTypes_distinct fun _ h ↦ wellFormed_of_mem_contributions hys h
  hx.trans (h.trans hy.symm)

theorem SameOperands.length_eq {xs ys : List Ty} (hxs : ∀ x ∈ xs, x.WellFormed)
    (hys : ∀ y ∈ ys, y.WellFormed) (h : SameOperands xs ys) :
    (Ty.operands xs).length = (Ty.operands ys).length :=
  SameTypes.length_eq (fun _ hx ↦ wellFormed_of_mem_operands hxs hx)
    (fun _ hy ↦ wellFormed_of_mem_operands hys hy) (pairwise_distinct _) (pairwise_distinct _)
    (h.operands hxs hys)

end ExprTyping.Ty
