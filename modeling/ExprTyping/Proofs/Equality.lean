import Mathlib.Data.List.Forall2
import Mathlib.Data.List.Perm.Subperm
import ExprTyping.Proofs.WellFormed

/-!
# Equality of types

Reflexivity and transitivity of the equality test hold of all types. Symmetry does not: two unions
are compared by their lengths and by containment one way only, and the way back is a counting
argument that needs the members of each to be distinct.
-/

namespace ExprTyping.Ty

/-! ## The test, form by form -/

theorem beqArgs_iff {as bs : List Ty} :
    beqArgs as bs = true ↔ List.Forall₂ (fun a b ↦ a == b) as bs := by
  induction as generalizing bs with
  | nil => cases bs <;> simp [beqArgs]
  | cons a as ih =>
    cases bs with
    | nil => simp [beqArgs]
    | cons b bs =>
      rw [beqArgs, Bool.and_eq_true, ih, List.forall₂_cons]
      rfl

theorem allWithin_iff {as bs : List Ty} :
    allWithin bs as = true ↔ ∀ a ∈ as, ∃ b ∈ bs, a == b := by
  induction as with
  | nil => simp [allWithin]
  | cons a as ih =>
    rw [allWithin, Bool.and_eq_true, ih, List.any_eq_true, List.forall_mem_cons]
    rfl

theorem known_beq_iff {name : ClassName} {args : List Ty} {ty : Ty} :
    known name args == ty ↔
      ∃ args', ty = known name args' ∧ List.Forall₂ (fun a b ↦ a == b) args args' := by
  change Ty.beq _ _ = true ↔ _
  cases ty with
  | known name' args' =>
    simp only [Ty.beq, Bool.and_eq_true, beq_iff_eq, beqArgs_iff, known.injEq]
    constructor
    · rintro ⟨rfl, hargs⟩
      exact ⟨args', ⟨rfl, rfl⟩, hargs⟩
    · rintro ⟨_, ⟨rfl, rfl⟩, hargs⟩
      exact ⟨rfl, hargs⟩
  | _ => simp [Ty.beq]

/-- Unions are compared by their lengths and by containment one way. -/
theorem union_beq_iff {members : List Ty} {ty : Ty} :
    union members == ty ↔ ∃ members', ty = union members' ∧
      members.length = members'.length ∧ ∀ a ∈ members, ∃ b ∈ members', a == b := by
  change Ty.beq _ _ = true ↔ _
  cases ty with
  | union members' =>
    simp only [Ty.beq, Bool.and_eq_true, beq_iff_eq, allWithin_iff, union.injEq]
    constructor
    · rintro ⟨hlength, hwithin⟩
      exact ⟨members', rfl, hlength, hwithin⟩
    · rintro ⟨_, rfl, hlength, hwithin⟩
      exact ⟨hlength, hwithin⟩
  | _ => simp [Ty.beq]

theorem array_beq_iff {component ty : Ty} :
    array component == ty ↔ ∃ component', ty = array component' ∧ component == component' := by
  change Ty.beq _ _ = true ↔ _
  cases ty with
  | array component' =>
    simp only [Ty.beq, array.injEq, exists_eq_left']
    rfl
  | _ => simp [Ty.beq]

@[simp] theorem primitive_beq_iff {kind : Primitive} {ty : Ty} :
    primitive kind == ty ↔ ty = primitive kind := by
  change Ty.beq _ _ = true ↔ _
  cases ty with
  | primitive kind' =>
    rw [Ty.beq, beq_iff_eq, primitive.injEq]
    exact eq_comm
  | _ => simp [Ty.beq]

@[simp] theorem dynamic_beq_iff {hint : Option String} {ty : Ty} :
    dynamic hint == ty ↔ ∃ hint', ty = dynamic hint' := by
  change Ty.beq _ _ = true ↔ _
  cases ty <;> simp [Ty.beq]

@[simp] theorem unknown_beq_iff {reason : String} {ty : Ty} :
    unknown reason == ty ↔ ∃ reason', ty = unknown reason' := by
  change Ty.beq _ _ = true ↔ _
  cases ty <;> simp [Ty.beq]

@[simp] theorem null_beq_iff {ty : Ty} : null == ty ↔ ty = null := by
  change Ty.beq _ _ = true ↔ _
  cases ty <;> simp [Ty.beq]

/-- Equal types have the same form. -/
@[elab_as_elim]
theorem beq_cases {motive : (a b : Ty) → (a == b) = true → Prop}
    (known : ∀ name as bs h, List.Forall₂ (fun a b ↦ a == b) as bs →
      motive (known name as) (known name bs) h)
    (primitive : ∀ kind h, motive (primitive kind) (primitive kind) h)
    (dynamic : ∀ hint hint' h, motive (dynamic hint) (dynamic hint') h)
    (unknown : ∀ reason reason' h, motive (unknown reason) (unknown reason') h)
    (union : ∀ as bs h, as.length = bs.length → (∀ a ∈ as, ∃ b ∈ bs, a == b) →
      motive (union as) (union bs) h)
    (null : ∀ h, motive null null h)
    (array : ∀ component component' h, component == component' →
      motive (array component) (array component') h)
    {a b : Ty} (hab : a == b) : motive a b hab := by
  cases a with
  | known name args =>
    obtain ⟨args', rfl, hargs⟩ := known_beq_iff.1 hab
    exact known name args args' hab hargs
  | primitive kind =>
    obtain rfl := primitive_beq_iff.1 hab
    exact primitive kind hab
  | dynamic hint =>
    obtain ⟨hint', rfl⟩ := dynamic_beq_iff.1 hab
    exact dynamic hint hint' hab
  | unknown reason =>
    obtain ⟨reason', rfl⟩ := unknown_beq_iff.1 hab
    exact unknown reason reason' hab
  | union members =>
    obtain ⟨members', rfl, hlength, hwithin⟩ := union_beq_iff.1 hab
    exact union members members' hab hlength hwithin
  | null =>
    obtain rfl := null_beq_iff.1 hab
    exact null hab
  | array component =>
    obtain ⟨component', rfl, hcomponent⟩ := array_beq_iff.1 hab
    exact array component component' hab hcomponent

section Observations

variable {a b : Ty}

theorem name?_eq_of_beq (hab : a == b) : a.name? = b.name? := by
  cases hab using beq_cases <;> rfl

theorem primitive?_eq_of_beq (hab : a == b) : a.primitive? = b.primitive? := by
  cases hab using beq_cases <;> rfl

theorem isNull_eq_of_beq (hab : a == b) : a.isNull = b.isNull := by
  cases hab using beq_cases <;> rfl

theorem isNamed_eq_of_beq (hab : a == b) (name : ClassName) : a.isNamed name = b.isNamed name := by
  rw [isNamed, isNamed, name?_eq_of_beq hab]

theorem forall₂_args_of_beq (hab : a == b) :
    List.Forall₂ (fun a b ↦ a == b) a.args b.args := by
  cases hab using beq_cases with
  | known name as bs h hargs => exact hargs
  | primitive | dynamic | unknown | union | null | array => exact .nil

end Observations

/-! ## Laws that hold of all types -/

theorem beq_refl (ty : Ty) : ty == ty := by
  induction ty with
  | known name args ih =>
    exact known_beq_iff.2 ⟨args, rfl, List.forall₂_same.2 ih⟩
  | union members ih =>
    exact union_beq_iff.2 ⟨members, rfl, rfl, fun member h ↦ ⟨member, h, ih member h⟩⟩
  | array component ih => exact array_beq_iff.2 ⟨component, rfl, ih⟩
  | primitive | dynamic | unknown | null => simp

instance : ReflBEq Ty := ⟨fun {ty} ↦ beq_refl ty⟩

theorem forall₂_beq_trans {as bs cs : List Ty}
    (ih : ∀ a ∈ as, ∀ b c : Ty, a == b → b == c → a == c)
    (hab : List.Forall₂ (fun a b ↦ a == b) as bs) (hbc : List.Forall₂ (fun b c ↦ b == c) bs cs) :
    List.Forall₂ (fun a c ↦ a == c) as cs := by
  induction hab generalizing cs with
  | nil => simpa using hbc
  | @cons a b as bs h _ ihtail =>
    obtain ⟨c, cs', hc, htail, rfl⟩ := List.forall₂_cons_left_iff.1 hbc
    refine .cons (ih a (by simp) b c h hc) (ihtail (fun x hx ↦ ih x (by simp [hx])) htail)

/-- Containment composes, so no member has to be distinct from another here. -/
theorem beq_trans {a b c : Ty} (hab : a == b) (hbc : b == c) : a == c := by
  induction a generalizing b c with
  | known name args ih =>
    obtain ⟨args', rfl, hargs⟩ := known_beq_iff.1 hab
    obtain ⟨args'', rfl, hargs'⟩ := known_beq_iff.1 hbc
    have hcompose := forall₂_beq_trans (fun x hx y z hxy hyz ↦ ih x hx hxy hyz) hargs hargs'
    exact known_beq_iff.2 ⟨args'', rfl, hcompose⟩
  | union members ih =>
    obtain ⟨members', rfl, hlength, hwithin⟩ := union_beq_iff.1 hab
    obtain ⟨members'', rfl, hlength', hwithin'⟩ := union_beq_iff.1 hbc
    refine union_beq_iff.2 ⟨members'', rfl, hlength.trans hlength', fun x hx ↦ ?_⟩
    obtain ⟨y, hy, hxy⟩ := hwithin x hx
    obtain ⟨z, hz, hyz⟩ := hwithin' y hy
    exact ⟨z, hz, ih x hx hxy hyz⟩
  | array component ih =>
    obtain ⟨component', rfl, h⟩ := array_beq_iff.1 hab
    obtain ⟨component'', rfl, h'⟩ := array_beq_iff.1 hbc
    exact array_beq_iff.2 ⟨component'', rfl, ih h h'⟩
  | dynamic | unknown =>
    simp only [dynamic_beq_iff, unknown_beq_iff] at hab ⊢
    obtain ⟨_, rfl⟩ := hab
    simpa using hbc
  | primitive | null => simp_all

/-! ## Counting members -/

section Matching

variable {α : Type} {r : α → α → Prop} {as bs : List α}

/-- Every element of either list has a counterpart in the other. -/
theorem exists_mem_of_forall₂ (h : List.Forall₂ r as bs) :
    (∀ a ∈ as, ∃ b ∈ bs, r a b) ∧ ∀ b ∈ bs, ∃ a ∈ as, r a b := by
  induction h with
  | nil => simp
  | @cons a b as bs hab _ ih =>
    refine ⟨fun x hx ↦ ?_, fun y hy ↦ ?_⟩
    · rcases List.mem_cons.1 hx with rfl | hx
      · exact ⟨b, List.mem_cons_self, hab⟩
      · obtain ⟨y, hy, hxy⟩ := ih.1 x hx
        exact ⟨y, List.mem_cons_of_mem b hy, hxy⟩
    · rcases List.mem_cons.1 hy with rfl | hy
      · exact ⟨a, List.mem_cons_self, hab⟩
      · obtain ⟨x, hx, hxy⟩ := ih.2 y hy
        exact ⟨x, List.mem_cons_of_mem a hx, hxy⟩

theorem forall₂_imp_of_mem {s : α → α → Prop} (h : List.Forall₂ r as bs)
    (himp : ∀ a ∈ as, ∀ b ∈ bs, r a b → s a b) : List.Forall₂ s as bs := by
  induction h with
  | nil => exact .nil
  | @cons a b as bs hab _ ih =>
    refine .cons (himp a (by simp) b (by simp) hab) (ih fun x hx y hy ↦ himp x ?_ y ?_)
    · exact List.mem_cons_of_mem a hx
    · exact List.mem_cons_of_mem b hy

/-- If every `a` has a partner and no partner is shared, the partners can be taken out of `bs` one
by one: the others find theirs in what is left and right of the one that was taken. -/
theorem exists_subperm_of_matched (hdistinct : as.Pairwise fun a a' ↦ ¬r a a')
    (hmatch : ∀ a ∈ as, ∃ b ∈ bs, r a b)
    (hshare : ∀ a ∈ as, ∀ a' ∈ as, ∀ b ∈ bs, r a b → r a' b → r a a') :
    ∃ partners, partners.Subperm bs ∧ List.Forall₂ r as partners := by
  induction as generalizing bs with
  | nil => exact ⟨[], List.nil_subperm, .nil⟩
  | cons a as ih =>
    obtain ⟨hhead, htail⟩ := List.pairwise_cons.1 hdistinct
    obtain ⟨b, hb, hab⟩ := hmatch a (by simp)
    obtain ⟨left, right, rfl⟩ := List.append_of_mem hb
    have hrest : ∀ a' ∈ as, ∃ b' ∈ left ++ right, r a' b' := by
      intro a' ha'
      obtain ⟨b', hb', hab'⟩ := hmatch a' (by simp [ha'])
      rcases List.mem_append.1 hb' with hb' | hb'
      · exact ⟨b', by simp [hb'], hab'⟩
      · rcases List.mem_cons.1 hb' with rfl | hb'
        · exact absurd (hshare a (by simp) a' (by simp [ha']) b' hb hab hab') (hhead a' ha')
        · exact ⟨b', by simp [hb'], hab'⟩
    obtain ⟨partners, hsub, hpartners⟩ := ih htail hrest fun x hx y hy b' hb' ↦
      hshare x (by simp [hx]) y (by simp [hy]) b'
        (by rcases List.mem_append.1 hb' with hb' | hb' <;> simp [hb'])
    refine ⟨b :: partners, ?_, .cons hab hpartners⟩
    exact ((List.subperm_cons b).2 hsub).trans List.perm_middle.symm.subperm

theorem length_le_of_matched (hdistinct : as.Pairwise fun a a' ↦ ¬r a a')
    (hmatch : ∀ a ∈ as, ∃ b ∈ bs, r a b)
    (hshare : ∀ a ∈ as, ∀ a' ∈ as, ∀ b ∈ bs, r a b → r a' b → r a a') :
    as.length ≤ bs.length := by
  obtain ⟨partners, hsub, hpartners⟩ := exists_subperm_of_matched hdistinct hmatch hshare
  exact hpartners.length_eq ▸ hsub.length_le

/-- Between lists of one length, the matching is one to one. -/
theorem exists_perm_of_matched (hdistinct : as.Pairwise fun a a' ↦ ¬r a a')
    (hmatch : ∀ a ∈ as, ∃ b ∈ bs, r a b)
    (hshare : ∀ a ∈ as, ∀ a' ∈ as, ∀ b ∈ bs, r a b → r a' b → r a a')
    (hlength : as.length = bs.length) :
    ∃ partners, partners.Perm bs ∧ List.Forall₂ r as partners := by
  obtain ⟨partners, hsub, hpartners⟩ := exists_subperm_of_matched hdistinct hmatch hshare
  have hle : bs.length ≤ partners.length :=
    Nat.le_of_eq (hlength.symm.trans hpartners.length_eq)
  exact ⟨partners, hsub.perm_of_length_le hle, hpartners⟩

end Matching

/-! ## Laws of well-formed types -/

/-- Containment is turned round by counting: two members with one partner would be equal to each
other by way of it, so there are as many partners as members. -/
theorem beq_symm {a b : Ty} (ha : a.WellFormed) (hb : b.WellFormed) (hab : a == b) : b == a := by
  induction a generalizing b with
  | known name args ih =>
    obtain ⟨args', rfl, hargs⟩ := known_beq_iff.1 hab
    rw [wellFormed_known_iff] at ha hb
    have hback : List.Forall₂ (fun a b ↦ b == a) args args' :=
      forall₂_imp_of_mem hargs fun x hx y hy hxy ↦ ih x hx (ha x hx) (hb y hy) hxy
    exact known_beq_iff.2 ⟨args, rfl, hback.flip⟩
  | union members ih =>
    obtain ⟨members', rfl, hlength, hwithin⟩ := union_beq_iff.1 hab
    obtain ⟨-, hdistinct, -, ha⟩ := wellFormed_union_iff.1 ha
    obtain ⟨-, -, -, hb⟩ := wellFormed_union_iff.1 hb
    refine union_beq_iff.2 ⟨members, rfl, hlength.symm, fun y hy ↦ ?_⟩
    have hshare : ∀ x ∈ members, ∀ x' ∈ members, ∀ z ∈ members', x == z → x' == z → x == x' :=
      fun x _ x' hx' z hz hxz hxz' ↦ beq_trans hxz (ih x' hx' (ha x' hx') (hb z hz) hxz')
    obtain ⟨partners, hperm, hpartners⟩ :=
      exists_perm_of_matched hdistinct hwithin hshare hlength
    obtain ⟨x, hx, hxy⟩ := (exists_mem_of_forall₂ hpartners).2 y (hperm.mem_iff.2 hy)
    exact ⟨x, hx, ih x hx (ha x hx) (hb y hy) hxy⟩
  | array component ih =>
    obtain ⟨component', rfl, h⟩ := array_beq_iff.1 hab
    rw [wellFormed_array_iff] at ha hb
    exact array_beq_iff.2 ⟨component, rfl, ih ha hb h⟩
  | dynamic | unknown =>
    simp only [dynamic_beq_iff, unknown_beq_iff] at hab
    obtain ⟨_, rfl⟩ := hab
    simp
  | primitive | null => simp_all

/-- A repeated member breaks the count. -/
example : union [int, int] == union [int, string] ∧ ¬union [int, string] == union [int, int] := by
  decide

@[simp] theorem oneOf_eq_true_iff {types : List Ty} {ty : Ty} :
    oneOf types ty = true ↔ ∃ other ∈ types, other == ty := by
  simp [oneOf]

theorem length_le_of_within {as bs : List Ty} (has : ∀ a ∈ as, a.WellFormed)
    (hbs : ∀ b ∈ bs, b.WellFormed) (hdistinct : as.Pairwise fun a a' ↦ ¬a == a')
    (hwithin : ∀ a ∈ as, ∃ b ∈ bs, a == b) : as.length ≤ bs.length :=
  length_le_of_matched hdistinct hwithin fun _ _ a' ha' b hb hab hab' ↦
    beq_trans hab (beq_symm (has a' ha') (hbs b hb) hab')

/-- The members of equal unions are equal one to one. -/
theorem exists_perm_of_union_beq {as bs : List Ty} (has : (union as).WellFormed)
    (hbs : (union bs).WellFormed) (h : union as == union bs) :
    ∃ partners, partners.Perm bs ∧ List.Forall₂ (fun a b ↦ a == b) as partners := by
  obtain ⟨_, ⟨⟩, hlength, hwithin⟩ := union_beq_iff.1 h
  obtain ⟨-, hdistinct, -, has⟩ := wellFormed_union_iff.1 has
  obtain ⟨-, -, -, hbs⟩ := wellFormed_union_iff.1 hbs
  refine exists_perm_of_matched hdistinct hwithin (fun a _ a' ha' b hb hab hab' ↦ ?_) hlength
  exact beq_trans hab (beq_symm (has a' ha') (hbs b hb) hab')

/-- The test on unions: equal lengths, and each member of the first found in the second. -/
theorem union_beq_union {as bs : List Ty} (has : (union as).WellFormed)
    (hbs : (union bs).WellFormed) :
    (union as == union bs) = (as.length == bs.length && as.all (oneOf bs)) := by
  obtain ⟨-, -, -, has⟩ := wellFormed_union_iff.1 has
  obtain ⟨-, -, -, hbs⟩ := wellFormed_union_iff.1 hbs
  rw [Bool.eq_iff_iff, union_beq_iff, Bool.and_eq_true, beq_iff_eq, List.all_eq_true]
  constructor
  · rintro ⟨_, ⟨⟩, hlength, hwithin⟩
    refine ⟨hlength, fun a ha ↦ oneOf_eq_true_iff.2 ?_⟩
    obtain ⟨b, hb, hab⟩ := hwithin a ha
    exact ⟨b, hb, beq_symm (has a ha) (hbs b hb) hab⟩
  · rintro ⟨hlength, hall⟩
    refine ⟨bs, rfl, hlength, fun a ha ↦ ?_⟩
    obtain ⟨b, hb, hba⟩ := oneOf_eq_true_iff.1 (hall a ha)
    exact ⟨b, hb, beq_symm (hbs b hb) (has a ha) hba⟩

/-- The lengths say no more than the containment the other way. -/
theorem union_beq_union_iff_mutual {as bs : List Ty} (has : (union as).WellFormed)
    (hbs : (union bs).WellFormed) :
    union as == union bs ↔ (∀ a ∈ as, oneOf bs a) ∧ ∀ b ∈ bs, oneOf as b := by
  have hmembers {types : List Ty} (h : (union types).WellFormed) :
      (∀ ty ∈ types, ty.WellFormed) ∧ types.Pairwise fun a b ↦ ¬a == b :=
    ⟨(wellFormed_union_iff.1 h).2.2.2, (wellFormed_union_iff.1 h).2.1⟩
  have hwithin {cs ds : List Ty} (hcs : (union cs).WellFormed) (hds : (union ds).WellFormed)
      (hall : ∀ c ∈ cs, oneOf ds c) : cs.length ≤ ds.length := by
    refine length_le_of_within (hmembers hcs).1 (hmembers hds).1 (hmembers hcs).2 fun c hc ↦ ?_
    obtain ⟨d, hd, hdc⟩ := oneOf_eq_true_iff.1 (hall c hc)
    exact ⟨d, hd, beq_symm ((hmembers hds).1 d hd) ((hmembers hcs).1 c hc) hdc⟩
  constructor
  · intro h
    have h' := beq_symm has hbs h
    rw [union_beq_union has hbs, Bool.and_eq_true, List.all_eq_true] at h
    rw [union_beq_union hbs has, Bool.and_eq_true, List.all_eq_true] at h'
    exact ⟨h.2, h'.2⟩
  · rintro ⟨hab, hba⟩
    rw [union_beq_union has hbs, Bool.and_eq_true, beq_iff_eq, List.all_eq_true]
    exact ⟨Nat.le_antisymm (hwithin has hbs hab) (hwithin hbs has hba), hab⟩

/-- On well-formed types the test is an equivalence. On unions it looks at lengths and one
containment, and comes to the same as containment both ways. -/
theorem wellFormed_beq_equivalence :
    Equivalence (fun a b : {ty : Ty // ty.WellFormed} ↦ (a.1 == b.1) = true) ∧
      ∀ as bs : List Ty, (union as).WellFormed → (union bs).WellFormed →
        (union as == union bs) = (as.length == bs.length && as.all (oneOf bs)) ∧
        (union as == union bs ↔ (∀ a ∈ as, oneOf bs a) ∧ ∀ b ∈ bs, oneOf as b) := by
  refine ⟨⟨fun a ↦ beq_refl a.1, fun {a b} h ↦ beq_symm a.2 b.2 h, fun h h' ↦ beq_trans h h'⟩, ?_⟩
  intro as bs has hbs
  exact ⟨union_beq_union has hbs, union_beq_union_iff_mutual has hbs⟩

theorem beq_of_members_reordered :
    (union [int, listOf (union [string, null])]).WellFormed ∧
      (union [listOf (union [null, string]), int]).WellFormed ∧
      union [int, listOf (union [string, null])] == union [listOf (union [null, string]), int] := by
  refine ⟨by decide, by decide, ?_⟩
  exact ((wellFormed_beq_equivalence.2 _ _ (by decide) (by decide)).2).2 (by decide)

end ExprTyping.Ty
