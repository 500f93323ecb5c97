import ExprTyping.Declarations
import ExprTyping.Proofs.InferenceSimulation

/-!
# Equality is a congruence for inference

Equality of well-formed types is a compatible relation, so environments with equal answers give
equal types. Environments given by tables have equal answers if their entries for the names of the
expression are equal, one by one; looking up an entry by its receiver and argument types gives the
same entry for equal ones.
-/

namespace ExprTyping

def Ty.Same (a b : Ty) : Prop := a.WellFormed ∧ b.WellFormed ∧ a == b

instance (a b : Ty) : Decidable (a.Same b) := inferInstanceAs (Decidable (_ ∧ _ ∧ _))

namespace Ty

theorem forall₂_same_iff {as bs : List Ty} :
    List.Forall₂ Same as bs ↔ (∀ a ∈ as, a.WellFormed) ∧ (∀ b ∈ bs, b.WellFormed) ∧
      List.Forall₂ (fun a b ↦ a == b) as bs := by
  constructor
  · intro h
    induction h with
    | nil => simp
    | cons hab _ ih =>
      refine ⟨?_, ?_, .cons hab.2.2 ih.2.2⟩
      · exact List.forall_mem_cons.2 ⟨hab.1, ih.1⟩
      · exact List.forall_mem_cons.2 ⟨hab.2.1, ih.2.1⟩
  · rintro ⟨has, hbs, h⟩
    induction h with
    | nil => exact .nil
    | cons hab _ ih =>
      rw [List.forall_mem_cons] at has hbs
      exact .cons ⟨has.1, hbs.1, hab⟩ (ih has.2 hbs.2)

theorem same_refl {ty : Ty} (h : ty.WellFormed) : Same ty ty := ⟨h, h, beq_refl ty⟩

theorem known_same_iff {name : ClassName} {as bs : List Ty} :
    Same (known name as) (known name bs) ↔ List.Forall₂ Same as bs := by
  rw [forall₂_same_iff, Same, wellFormed_known_iff, wellFormed_known_iff, known_beq_iff]
  refine and_congr_right fun _ ↦ and_congr_right fun _ ↦ ⟨?_, fun h ↦ ⟨bs, rfl, h⟩⟩
  rintro ⟨_, ⟨⟩, h⟩
  exact h

/-- Lists that are equal one by one are the same set, so they have equal joins. -/
theorem join_same {as bs : List Ty} (h : List.Forall₂ Same as bs) : Same (join as) (join bs) := by
  obtain ⟨has, hbs, h⟩ := forall₂_same_iff.1 h
  refine ⟨wellFormed_join has, wellFormed_join hbs, join_beq has hbs ?_⟩
  exact (SameTypes.of_forall₂ has hbs h).sameOperands

theorem compatible_same (static : Bool) : Compatible Same static where
  beq h := h.2.2
  primitive kind := same_refl (.primitive kind)
  null := same_refl .null
  unknown reason := same_refl (.unknown reason)
  dynamic _ hint := same_refl (.dynamic hint)
  dynamic_of _ hint := same_refl (.dynamic hint)
  known_iff := known_same_iff
  array := by
    rintro a b ⟨ha, hb, hab⟩
    obtain ⟨_, ⟨⟩, h⟩ := array_beq_iff.1 hab
    exact ⟨wellFormed_array_iff.1 ha, wellFormed_array_iff.1 hb, h⟩
  join := join_same

/-- Equal types are told apart from a third one by nothing. -/
theorem beq_eq_of_same {a b c d : Ty} (hab : Same a b) (hcd : Same c d) :
    (a == c) = (b == d) := by
  obtain ⟨ha, hb, hab⟩ := hab
  obtain ⟨hc, hd, hcd⟩ := hcd
  rw [Bool.eq_iff_iff]
  constructor
  · exact fun h ↦ beq_trans (beq_symm ha hb hab) (beq_trans h hcd)
  · exact fun h ↦ beq_trans hab (beq_trans h (beq_symm hc hd hcd))

theorem beqArgs_eq_of_same {as bs cs ds : List Ty} (hab : List.Forall₂ Same as bs)
    (hcd : List.Forall₂ Same cs ds) : beqArgs as cs = beqArgs bs ds := by
  induction hab generalizing cs ds with
  | nil => cases hcd <;> simp [beqArgs]
  | cons hab _ ih =>
    cases hcd with
    | nil => simp [beqArgs]
    | cons hcd hrest =>
      have hhead := beq_eq_of_same hab hcd
      simp only [beqArgs]
      rw [ih hrest]
      exact congrArg (· && _) hhead

end Ty

/-! ## Tables -/

theorem rel_find? {α : Type} {S : α → α → Prop} {as bs : List α} {p q : α → Bool}
    (h : List.Forall₂ S as bs) (hpq : ∀ a b, S a b → p a = q b) :
    Option.Rel S (as.find? p) (bs.find? q) := by
  induction h with
  | nil => exact .none
  | @cons a b as bs hab _ ih =>
    rw [List.find?_cons, List.find?_cons, ← hpq a b hab]
    cases p a with
    | true => exact .some hab
    | false => exact ih

/-- Entries that neither search can stop at need no counterpart. -/
theorem rel_find?_of_filter {α : Type} {S : α → α → Prop} {as bs : List α} {p q keep : α → Bool}
    (h : List.Forall₂ S (as.filter keep) (bs.filter keep)) (hpq : ∀ a b, S a b → p a = q b)
    (hp : ∀ a, p a → keep a) (hq : ∀ a, q a → keep a) :
    Option.Rel S (as.find? p) (bs.find? q) := by
  have hfilter {r : α → Bool} (hr : ∀ a, r a → keep a) (xs : List α) :
      (xs.filter keep).find? r = xs.find? r := by
    rw [List.find?_filter]
    congr 1
    funext a
    cases hra : r a with
    | false => simp
    | true => simp [hr a hra]
  rw [← hfilter hp, ← hfilter hq]
  exact rel_find? h hpq

namespace Declarations

/-- The entries for names that occur in `e` are equal, one by one. -/
structure AgreeOn (e : Expr) (declarations declarations' : Declarations) : Prop where
  isStatic : declarations'.isStatic = declarations.isStatic
  resolveAny : declarations'.resolveAny = declarations.resolveAny
  symbols : List.Forall₂ (fun s t : Symbol ↦ s.name = t.name ∧ s.ty.Same t.ty)
    (declarations.symbols.filter (·.name ∈ e.occurring Expr.variableNames))
    (declarations'.symbols.filter (·.name ∈ e.occurring Expr.variableNames))
  types : List.Forall₂ (fun s t : TypeDeclaration ↦ s.name = t.name ∧ s.ty.Same t.ty)
    (declarations.types.filter (·.name ∈ e.occurring Expr.typeNames))
    (declarations'.types.filter (·.name ∈ e.occurring Expr.typeNames))
  fields : List.Forall₂
    (fun s t : FieldDeclaration ↦
      s.name = t.name ∧ s.receiver.Same t.receiver ∧ s.ty.Same t.ty)
    (declarations.fields.filter (·.name ∈ e.occurring Expr.propertyNames))
    (declarations'.fields.filter (·.name ∈ e.occurring Expr.propertyNames))
  methods : List.Forall₂
    (fun s t : MethodDeclaration ↦ s.name = t.name ∧ s.receiver.Same t.receiver ∧
      List.Forall₂ Ty.Same s.params t.params ∧ s.ty.Same t.ty)
    (declarations.methods.filter (·.name ∈ e.occurring Expr.methodNames))
    (declarations'.methods.filter (·.name ∈ e.occurring Expr.methodNames))

namespace AgreeOn

variable {e : Expr} {declarations declarations' : Declarations}
  (h : AgreeOn e declarations declarations')

include h

theorem symbol? {name : String} (hname : name ∈ e.occurring Expr.variableNames) :
    Option.Rel (fun s t : Symbol ↦ s.ty.Same t.ty) (declarations.symbol? name)
      (declarations'.symbol? name) := by
  have hkeep (s : Symbol) (hs : s.name == name) :
      decide (s.name ∈ e.occurring Expr.variableNames) := by
    simpa [beq_iff_eq.1 hs] using hname
  have hfind := rel_find?_of_filter h.symbols (fun s t hst ↦ by rw [hst.1]) hkeep hkeep
  unfold Declarations.symbol?
  generalize declarations.symbols.find? _ = x at hfind ⊢
  generalize declarations'.symbols.find? _ = y at hfind ⊢
  cases hfind with
  | none => exact .none
  | some hst => exact .some hst.2

theorem resolve {name : String} (hname : name ∈ e.occurring Expr.typeNames) :
    (declarations.resolve name).Same (declarations'.resolve name) := by
  have hkeep (s : TypeDeclaration) (hs : s.name == name) :
      decide (s.name ∈ e.occurring Expr.typeNames) := by
    simpa [beq_iff_eq.1 hs] using hname
  have hfind := rel_find?_of_filter h.types (fun s t hst ↦ by rw [hst.1]) hkeep hkeep
  unfold Declarations.resolve
  rw [h.resolveAny]
  generalize declarations.types.find? _ = x at hfind ⊢
  generalize declarations'.types.find? _ = y at hfind ⊢
  cases hfind with
  | some hst => exact hst.2
  | none =>
    refine Ty.same_refl ?_
    dsimp only
    split <;> simp

theorem field? {name : String} (hname : name ∈ e.occurring Expr.propertyNames)
    {receiver receiver' : Ty} (hreceiver : receiver.Same receiver') :
    Option.Rel Ty.Same (declarations.field? receiver name)
      (declarations'.field? receiver' name) := by
  have hkeep (receiver : Ty) (s : FieldDeclaration)
      (hs : s.receiver == receiver && s.name == name) :
      decide (s.name ∈ e.occurring Expr.propertyNames) := by
    simpa [beq_iff_eq.1 (Bool.and_eq_true_iff.1 hs).2] using hname
  have hfind := rel_find?_of_filter h.fields
    (fun s t hst ↦ by rw [hst.1, Ty.beq_eq_of_same hst.2.1 hreceiver]) (hkeep receiver)
    (hkeep receiver')
  unfold Declarations.field?
  generalize declarations.fields.find? _ = x at hfind ⊢
  generalize declarations'.fields.find? _ = y at hfind ⊢
  cases hfind with
  | none => exact .none
  | some hst => exact .some hst.2.2

/-- Methods are looked up by receiver and parameters, and equal types find the same entry. -/
theorem method? {name : String} (hname : name ∈ e.occurring Expr.methodNames)
    {receiver receiver' : Ty} (hreceiver : receiver.Same receiver') {args args' : List Ty}
    (hargs : List.Forall₂ Ty.Same args args') :
    Option.Rel Ty.Same (declarations.method? receiver name args)
      (declarations'.method? receiver' name args') := by
  have hkeep (receiver : Ty) (args : List Ty) (s : MethodDeclaration)
      (hs : s.receiver == receiver && s.name == name && Ty.beqArgs s.params args) :
      decide (s.name ∈ e.occurring Expr.methodNames) := by
    simp only [Bool.and_eq_true, beq_iff_eq] at hs
    simpa [hs.1.2] using hname
  have hfind := rel_find?_of_filter h.methods
    (fun s t hst ↦ by
      rw [hst.1, Ty.beq_eq_of_same hst.2.1 hreceiver, Ty.beqArgs_eq_of_same hst.2.2.1 hargs])
    (hkeep receiver args) (hkeep receiver' args')
  unfold Declarations.method?
  generalize declarations.methods.find? _ = x at hfind ⊢
  generalize declarations'.methods.find? _ = y at hfind ⊢
  cases hfind with
  | none => exact .none
  | some hst => exact .some hst.2.2.2

theorem environment_related :
    Environment.Related Ty.Same declarations.isStatic e declarations.environment
      declarations'.environment where
  isStatic := ⟨rfl, h.isStatic⟩
  symbol? _ hname := h.symbol? hname
  resolve _ hname := h.resolve hname
  field? _ hname _ _ hreceiver := h.field? hname hreceiver
  method? _ hname _ _ hreceiver _ _ hargs := h.method? hname hreceiver hargs

end AgreeOn

end Declarations

/-- Environments that agree up to equality on the names of an expression give it equal types; so do
tables whose entries for these names are equal. -/
theorem infer_beq_of_agreement :
    (∀ (e : Expr) (environment environment' : Environment),
        Environment.Related Ty.Same environment.isStatic e environment environment' →
        (Registry.standard.infer environment e).value ==
          (Registry.standard.infer environment' e).value) ∧
      ∀ (e : Expr) (declarations declarations' : Declarations),
        declarations.AgreeOn e declarations' →
        (Registry.standard.infer declarations.environment e).value ==
          (Registry.standard.infer declarations'.environment e).value := by
  have hinfer {e : Expr} {environment environment' : Environment} {static : Bool}
      (h : Environment.Related Ty.Same static e environment environment') :
      (Registry.standard.infer environment e).value ==
        (Registry.standard.infer environment' e).value :=
    (Registry.related_infer (Ty.compatible_same static) h).1.2.2
  exact ⟨fun e environment environment' h ↦ hinfer h,
    fun e declarations declarations' h ↦ hinfer h.environment_related⟩

theorem infer_beq_of_members_swapped :
    let pick : Expr := .single .call (.call ⟨some (.single .ident (.ident "xs")), "pick",
      [.single .ident (.ident "key")], false⟩)
    let declarations : Declarations := {
      symbols := [⟨"xs", .local, .union [.string, .int]⟩, ⟨"key", .field, .dynamic none⟩]
      methods := [⟨.union [.int, .string], "pick", [.dynamic (some "key")],
        .listOf (.union [.int, .string])⟩] }
    let declarations' : Declarations := {
      symbols := [⟨"ys", .local, .null⟩, ⟨"key", .local, .dynamic (some "key")⟩,
        ⟨"xs", .parameter, .union [.int, .string]⟩].reverse
      methods := [⟨.union [.string, .int], "first", [], .int⟩,
        ⟨.union [.string, .int], "pick", [.dynamic none], .listOf (.union [.string, .int])⟩] }
    (declarations.AgreeOn pick declarations' ∧
        (Registry.standard.infer declarations.environment pick).value ==
          (Registry.standard.infer declarations'.environment pick).value) ∧
      Environment.Related Ty.Same false pick declarations.environment declarations'.environment ∧
        (Registry.standard.infer declarations.environment pick).value ==
          (Registry.standard.infer declarations'.environment pick).value := by
  intro pick declarations declarations'
  have hvariables : pick.occurring Expr.variableNames = ["xs", "key"] := by
    simp [Expr.occurring, Expr.parts_eq, pick, Expr.single, Expr.children, Expr.shapes,
      Shape.children, Expr.variableNames]
  have hmethods : pick.occurring Expr.methodNames = ["pick"] := by
    simp [Expr.occurring, Expr.parts_eq, pick, Expr.single, Expr.children, Expr.shapes,
      Shape.children, Expr.methodNames]
  have hagree : declarations.AgreeOn pick declarations' := by
    refine ⟨rfl, rfl, ?_, .nil, .nil, ?_⟩
    · rw [hvariables]
      exact .cons ⟨rfl, by decide⟩ (.cons ⟨rfl, by decide⟩ .nil)
    · rw [hmethods]
      exact .cons ⟨rfl, by decide, .cons (by decide) .nil, by decide⟩ .nil
  have hrelated := hagree.environment_related
  exact ⟨⟨hagree, infer_beq_of_agreement.2 pick declarations declarations' hagree⟩, hrelated,
    infer_beq_of_agreement.1 pick declarations.environment declarations'.environment hrelated⟩

end ExprTyping
