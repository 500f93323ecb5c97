import Mathlib.Data.Set.Card
import ExprTyping.Proofs.UnionBuilding
import ExprTyping.Ty.Digest

/-!
# Hashes and equality

Equal types feed the same writes to a digest: the members of equal unions are equal one to one, and
a sum of machine words does not show their order. A set that looks for a type among those with the
same hash therefore finds every equal one, and stores the first type of each class.
-/

namespace ExprTyping

namespace Ty

/-! ## Writes -/

section Writes

variable (digest : Digest) {as bs : List Ty}

theorem writesEach_congr (h : List.Forall₂ (fun a b ↦ a.writes digest = b.writes digest) as bs) :
    writesEach digest as = writesEach digest bs := by
  induction h with
  | nil => rfl
  | cons hab _ ih => rw [writesEach, writesEach, hab, ih]

theorem digestSum_congr (h : List.Forall₂ (fun a b ↦ a.writes digest = b.writes digest) as bs) :
    digestSum digest as = digestSum digest bs := by
  induction h with
  | nil => rfl
  | cons hab _ ih => rw [digestSum, digestSum, hab, ih]

/-- A sum of machine words does not show the order of its terms. -/
theorem digestSum_perm (h : as.Perm bs) : digestSum digest as = digestSum digest bs := by
  induction h with
  | nil => rfl
  | cons ty _ ih => rw [digestSum, digestSum, ih]
  | swap a b types =>
    simp only [digestSum]
    ac_rfl
  | trans _ _ ih ih' => exact ih.trans ih'

/-- A union writes its length and the sum of the digests of its members. Members of equal unions are
equal one to one, and this is all that the two show. -/
theorem writes_eq_of_beq {a b : Ty} (ha : a.WellFormed) (hb : b.WellFormed) (hab : a == b) :
    a.writes digest = b.writes digest := by
  induction a generalizing b with
  | known name args ih =>
    obtain ⟨args', rfl, hargs⟩ := known_beq_iff.1 hab
    rw [wellFormed_known_iff] at ha hb
    have heach := writesEach_congr digest <|
      forall₂_imp_of_mem hargs fun x hx y hy hxy ↦ ih x hx (ha x hx) (hb y hy) hxy
    rw [writes, writes, hargs.length_eq, heach]
  | union members ih =>
    obtain ⟨members', rfl, hlength, -⟩ := union_beq_iff.1 hab
    obtain ⟨partners, hperm, hpartners⟩ := exists_perm_of_union_beq ha hb hab
    obtain ⟨-, -, -, ha⟩ := wellFormed_union_iff.1 ha
    obtain ⟨-, -, -, hb⟩ := wellFormed_union_iff.1 hb
    have hsum : digestSum digest members = digestSum digest members' :=
      calc digestSum digest members
        _ = digestSum digest partners := digestSum_congr digest <|
          forall₂_imp_of_mem hpartners fun x hx y hy hxy ↦
            ih x hx (ha x hx) (hb y (hperm.mem_iff.1 hy)) hxy
        _ = digestSum digest members' := digestSum_perm digest hperm
    rw [writes, writes, hlength, hsum]
  | array component ih =>
    obtain ⟨component', rfl, h⟩ := array_beq_iff.1 hab
    rw [wellFormed_array_iff] at ha hb
    rw [writes, writes, ih ha hb h]
  | dynamic | unknown =>
    simp only [dynamic_beq_iff, unknown_beq_iff] at hab
    obtain ⟨_, rfl⟩ := hab
    simp only [writes]
  | primitive | null => simp_all

end Writes

/-! ## Classes of equal types -/

def equality : Setoid {ty : Ty // ty.WellFormed} where
  r a b := a.1 == b.1
  iseqv := ⟨fun a ↦ beq_refl a.1, fun {a b} h ↦ beq_symm a.2 b.2 h, fun h h' ↦ beq_trans h h'⟩

def classes (types : List Ty) : Set (Quotient equality) :=
  {c | ∃ ty : {ty : Ty // ty.WellFormed}, ty.1 ∈ types ∧ Quotient.mk equality ty = c}

theorem classes_eq_of_within {as bs : List Ty} (hbs : ∀ b ∈ bs, b.WellFormed) (hsub : as ⊆ bs)
    (hwithin : ∀ b ∈ bs, ∃ a ∈ as, a == b) : classes as = classes bs := by
  ext c
  constructor
  · rintro ⟨a, ha, rfl⟩
    exact ⟨a, hsub ha, rfl⟩
  · rintro ⟨b, hb, rfl⟩
    obtain ⟨a, ha, hab⟩ := hwithin b.1 hb
    exact ⟨⟨a, hbs a (hsub ha)⟩, ha, Quotient.sound hab⟩

/-- Types that are pairwise different are as many as their classes. -/
theorem ncard_classes_of_pairwise {types : List Ty} (hwf : ∀ ty ∈ types, ty.WellFormed)
    (hdistinct : types.Pairwise fun a b ↦ ¬a == b) :
    (classes types).Finite ∧ (classes types).ncard = types.length := by
  induction types with
  | nil =>
    have hempty : classes [] = ∅ := by
      ext c
      simp [classes]
    simp [hempty]
  | cons ty types ih =>
    rw [List.forall_mem_cons] at hwf
    obtain ⟨hnew, hdistinct⟩ := List.pairwise_cons.1 hdistinct
    obtain ⟨hfinite, hcard⟩ := ih hwf.2 hdistinct
    have hinsert : classes (ty :: types) =
        insert (Quotient.mk equality ⟨ty, hwf.1⟩) (classes types) := by
      ext c
      constructor
      · rintro ⟨other, hother, rfl⟩
        rcases List.mem_cons.1 hother with hother | hother
        · obtain ⟨other, _⟩ := other
          subst hother
          exact .inl rfl
        · exact .inr ⟨other, hother, rfl⟩
      · rintro (rfl | ⟨other, hother, rfl⟩)
        · exact ⟨⟨ty, hwf.1⟩, List.mem_cons_self, rfl⟩
        · exact ⟨other, List.mem_cons_of_mem ty hother, rfl⟩
    have hfresh : Quotient.mk equality ⟨ty, hwf.1⟩ ∉ classes types := by
      rintro ⟨other, hother, hclass⟩
      exact hnew other.1 hother (beq_symm other.2 hwf.1 (Quotient.exact hclass))
    rw [hinsert]
    exact ⟨hfinite.insert _, by rw [Set.ncard_insert_of_notMem hfresh hfinite, hcard]; rfl⟩

theorem length_distinct {types : List Ty} (h : ∀ ty ∈ types, ty.WellFormed) :
    (distinct types).length = (classes types).ncard := by
  have hsub : distinct types ⊆ types := fun _ hty ↦ mem_of_mem_distinct hty
  have hclasses : classes (distinct types) = classes types :=
    classes_eq_of_within h hsub fun _ hty ↦ exists_beq_mem_foldl_addDistinct [] hty
  rw [← hclasses]
  exact (ncard_classes_of_pairwise (fun ty hty ↦ h ty (hsub hty)) (pairwise_distinct types)).2.symm

end Ty

/-! ## Sets -/

namespace TySet

open Ty

variable {hash : Ty → UInt64}

def Respects (hash : Ty → UInt64) : Prop :=
  ∀ a b : Ty, a.WellFormed → b.WellFormed → a == b → hash a = hash b

def storing (hash : Ty → UInt64) (types : List Ty) : TySet := ⟨types.map fun ty ↦ (hash ty, ty)⟩

variable {kept types : List Ty} {ty : Ty}

/-- To look among the types with the same hash is as good as to look among all. -/
theorem contains_storing (hhash : Respects hash) (hkept : ∀ other ∈ kept, other.WellFormed)
    (hty : ty.WellFormed) : (storing hash kept).contains hash ty = oneOf kept ty := by
  rw [Bool.eq_iff_iff, oneOf_eq_true_iff]
  simp only [contains, storing, List.any_map, List.any_eq_true, Function.comp_apply,
    Bool.and_eq_true, beq_iff_eq]
  constructor
  · rintro ⟨other, hother, -, hbeq⟩
    exact ⟨other, hother, hbeq⟩
  · rintro ⟨other, hother, hbeq⟩
    exact ⟨other, hother, hhash other ty (hkept other hother) hty hbeq, hbeq⟩

theorem insert_storing (hhash : Respects hash) (hkept : ∀ other ∈ kept, other.WellFormed)
    (hty : ty.WellFormed) :
    (storing hash kept).insert hash ty = (!oneOf kept ty, storing hash (addDistinct kept ty)) := by
  rw [insert, contains_storing hhash hkept hty, addDistinct]
  split
  next hold => rw [hold, Bool.not_true]
  next hnew => simp [storing, hnew]

theorem wellFormed_addDistinct (hkept : ∀ other ∈ kept, other.WellFormed) (hty : ty.WellFormed) :
    ∀ other ∈ addDistinct kept ty, other.WellFormed := by
  unfold addDistinct
  split
  · exact hkept
  · rw [List.forall_mem_append]
    exact ⟨hkept, by simpa using hty⟩

/-- The set keeps a type that is equal to none of those before it. -/
theorem insertEach_storing (hhash : Respects hash) (hkept : ∀ other ∈ kept, other.WellFormed)
    (htypes : ∀ ty ∈ types, ty.WellFormed) :
    ((storing hash kept).insertEach hash types).2 =
      storing hash (types.foldl addDistinct kept) := by
  induction types generalizing kept with
  | nil => rfl
  | cons ty types ih =>
    rw [List.forall_mem_cons] at htypes
    simp only [insertEach, insert_storing hhash hkept htypes.1]
    exact ih (wellFormed_addDistinct hkept htypes.1) htypes.2

theorem flags_insertEach_storing (hhash : Respects hash)
    (hkept : ∀ other ∈ kept, other.WellFormed) (htypes : ∀ ty ∈ types, ty.WellFormed) :
    ((storing hash kept).insertEach hash types).1 = types.mapIdx fun i ty ↦
      !oneOf ((types.take i).foldl addDistinct kept) ty := by
  induction types generalizing kept with
  | nil => rfl
  | cons ty types ih =>
    rw [List.forall_mem_cons] at htypes
    simp only [insertEach, insert_storing hhash hkept htypes.1, List.mapIdx_cons]
    rw [ih (wellFormed_addDistinct hkept htypes.1) htypes.2]
    rfl

/-- Inserted one by one, the types come out as new at their first occurrence, and the set counts
their classes. -/
structure CountsClasses (hash : Ty → UInt64) (types : List Ty) : Prop where
  length_flags : (empty.insertEach hash types).1.length = types.length
  flag_iff : ∀ i (hi : i < types.length), (empty.insertEach hash types).1[i]? = some true ↔
    ∀ j (hj : j < i), ¬types[j] == types[i]
  size_eq : (empty.insertEach hash types).2.size = (classes types).ncard
  size_eq_of_perm : ∀ types', types.Perm types' →
    (empty.insertEach hash types').2.size = (empty.insertEach hash types).2.size

theorem size_insertEach (hhash : Respects hash) (htypes : ∀ ty ∈ types, ty.WellFormed) :
    (empty.insertEach hash types).2.size = (classes types).ncard := by
  have hnil : ∀ other ∈ ([] : List Ty), other.WellFormed := by simp
  have hstored : (empty.insertEach hash types).2 = storing hash (distinct types) :=
    insertEach_storing hhash hnil htypes
  rw [hstored, size, storing, List.length_map, length_distinct htypes]

theorem countsClasses_of_respects (hhash : Respects hash) (htypes : ∀ ty ∈ types, ty.WellFormed) :
    CountsClasses hash types := by
  have hnil : ∀ other ∈ ([] : List Ty), other.WellFormed := by simp
  have hflags : (empty.insertEach hash types).1 =
      types.mapIdx fun i ty ↦ !oneOf (distinct (types.take i)) ty :=
    flags_insertEach_storing hhash hnil htypes
  refine ⟨by rw [hflags, List.length_mapIdx], fun i hi ↦ ?_, size_insertEach hhash htypes,
    fun types' hperm ↦ ?_⟩
  · have hflag : (empty.insertEach hash types).1[i]? = some (!oneOf (types.take i) types[i]) := by
      rw [hflags, List.getElem?_mapIdx, List.getElem?_eq_getElem hi]
      exact congrArg (some !·) (oneOf_distinct (types.take i) types[i])
    rw [hflag]
    simp only [Option.some.injEq, Bool.not_eq_true', Bool.eq_false_iff, Ne, oneOf_eq_true_iff,
      List.mem_take_iff_getElem]
    constructor
    · intro hnone j hj hbeq
      exact hnone ⟨types[j], ⟨j, by omega, rfl⟩, hbeq⟩
    · rintro hall ⟨_, ⟨j, hj, rfl⟩, hbeq⟩
      exact hall j (by omega) hbeq
  · have htypes' : ∀ ty ∈ types', ty.WellFormed := fun ty hty ↦ htypes ty (hperm.mem_iff.2 hty)
    have hclasses : classes types' = classes types := by
      ext c
      simp only [classes, hperm.mem_iff]
    rw [size_insertEach hhash htypes', size_insertEach hhash htypes, hclasses]

end TySet

/-- Equal types feed the same writes to every hasher, whatever digest is used inside unions. So a
set of types tells them apart exactly as equality does. -/
theorem writes_respect_beq (digest : Digest) :
    (∀ a b : Ty, a.WellFormed → b.WellFormed → a == b → a.writes digest = b.writes digest) ∧
      ∀ (hasher : Digest) (types : List Ty), (∀ ty ∈ types, ty.WellFormed) →
        TySet.CountsClasses (Ty.hashBy hasher digest) types := by
  refine ⟨fun a b ha hb ↦ Ty.writes_eq_of_beq digest ha hb, fun hasher types htypes ↦ ?_⟩
  refine TySet.countsClasses_of_respects (fun a b ha hb hab ↦ ?_) htypes
  exact congrArg hasher (Ty.writes_eq_of_beq digest ha hb hab)

theorem insertEach_of_reordered_unions :
    let first := Ty.union [.int, .listOf (.union [.dynamic (some "x"), .null])]
    let second := Ty.union [.listOf (.union [.null, .dynamic none]), .int]
    let types := [first, .string, second, .string, .unknown "a", .unknown "b"]
    (first.WellFormed ∧ second.WellFormed ∧ first == second) ∧
      (∀ ty ∈ types, ty.WellFormed) ∧ first.writes mixingDigest = second.writes mixingDigest ∧
      (TySet.empty.insertEach (Ty.hashBy mixingDigest mixingDigest) types).2.size =
        (Ty.classes types).ncard ∧
      (TySet.empty.insertEach (Ty.hashBy mixingDigest mixingDigest) types.reverse).2.size =
        (TySet.empty.insertEach (Ty.hashBy mixingDigest mixingDigest) types).2.size := by
  intro first second types
  have hequal : first.WellFormed ∧ second.WellFormed ∧ first == second := by decide
  have htypes : ∀ ty ∈ types, ty.WellFormed := by decide
  have hcounts := (writes_respect_beq mixingDigest).2 mixingDigest types htypes
  refine ⟨hequal, htypes, ?_, hcounts.size_eq, ?_⟩
  · exact (writes_respect_beq mixingDigest).1 first second hequal.1 hequal.2.1 hequal.2.2
  · exact hcounts.size_eq_of_perm types.reverse types.reverse_perm.symm

end ExprTyping
