import ExprTyping.Proofs.InferenceInvariant

/-!
# Unions stay well-formed

Splicing the members of a union into another one goes a single level deep, so a union comes out flat
only if those that went in were flat. The whole type algebra keeps this up: well-formed types lead
to well-formed types, and inference, which does nothing to types but apply the algebra, neither
answers with an ill-formed type nor mentions one in a question.
-/

namespace ExprTyping

namespace Ty

/-! ## The type algebra -/

theorem invariant_wellFormed (static : Bool) : Invariant WellFormed static where
  primitive := .primitive
  null := .null
  unknown := .unknown
  dynamic _ := .dynamic
  dynamic_of _ := .dynamic
  known_iff _ _ := wellFormed_known_iff
  array := wellFormed_array_iff.1
  parts _ _ h hpart := (wellFormed_of_mem_parts h hpart).1

section Lists

variable {types : List Ty} (h : ∀ ty ∈ types, ty.WellFormed)

include h

/-- The members of flat unions are no unions, so splicing them leaves a flat one. -/
theorem wellFormed_unionOf {ty : Ty} (hunion : unionOf types = .ok ty) : ty.WellFormed := by
  obtain ⟨htwo, rfl⟩ := unionOf_eq_ok_iff.1 hunion
  exact wellFormed_union_distinct h htwo

theorem wellFormed_unionOrSingle {ty : Ty} (hunion : unionOrSingle types = .ok ty) :
    ty.WellFormed := by
  unfold unionOrSingle at hunion
  match hdistinct : distinct (flatten types) with
  | [] => simp [hdistinct] at hunion
  | [only] =>
    obtain rfl : only = ty := by simpa [hdistinct] using hunion
    have hmem : only ∈ distinct (flatten types) := by simp [hdistinct]
    exact (wellFormed_of_mem_flatten h (mem_of_mem_distinct hmem)).1
  | first :: second :: rest =>
    obtain rfl : union (first :: second :: rest) = ty := by simpa [hdistinct] using hunion
    rw [← hdistinct]
    exact wellFormed_union_distinct h (by simp [hdistinct])

theorem wellFormed_lub {ty : Ty} (hlub : lub types = .ok ty) : ty.WellFormed := by
  match types, h with
  | [], _ => cases hlub
  | [only], h =>
    obtain rfl := Except.ok.inj hlub
    exact h only (by simp)
  | _ :: _ :: _, h =>
    obtain rfl := Except.ok.inj hlub
    exact wellFormed_join h

end Lists

theorem wellFormed_promote {types : List Ty} : ∀ ty ∈ Numeric.promote types, ty.WellFormed := by
  intro ty hpromote
  rcases Numeric.promote_cases hpromote with ⟨kind, rfl⟩ | ⟨name, rfl⟩
  · exact .primitive kind
  · exact wellFormed_ofClass name

theorem Invariant.forall_mem_of_rel {P : Ty → Prop} {x : Option Ty}
    (h : Option.Rel (fun a b ↦ a = b ∧ P a) x x) : ∀ ty ∈ x, P ty := by
  rintro ty rfl
  cases h with
  | some hty => exact hty.2

section Derived

variable {ty : Ty} (h : ty.WellFormed)

include h

theorem wellFormed_boxed : ty.boxed.WellFormed :=
  ((invariant_wellFormed false).compatible.boxed ⟨rfl, h⟩).2

theorem wellFormed_unboxed : ty.unboxed.WellFormed := by
  unfold unboxed
  split
  · split
    · exact .primitive _
    · exact h
  · exact h

theorem wellFormed_mapValue? : ∀ value ∈ ty.mapValue?, value.WellFormed :=
  Invariant.forall_mem_of_rel ((invariant_wellFormed false).compatible.mapValue? ⟨rfl, h⟩)

theorem wellFormed_element? : ∀ element ∈ ty.element?, element.WellFormed :=
  Invariant.forall_mem_of_rel ((invariant_wellFormed false).compatible.element? ⟨rfl, h⟩)

theorem wellFormed_subscript? : ∀ element ∈ ty.subscript?, element.WellFormed :=
  Invariant.forall_mem_of_rel ((invariant_wellFormed false).compatible.subscript? ⟨rfl, h⟩)

end Derived

end Ty

/-! ## Inference -/

/-- Well-formed types lead to well-formed types: in the type algebra, in what inference answers and
in the receivers and arguments that it asks about. -/
theorem wellFormed_throughout :
    (∀ types : List Ty, (∀ ty ∈ types, ty.WellFormed) →
      (∀ ty, Ty.unionOf types = .ok ty → ty.WellFormed) ∧
      (∀ ty, Ty.unionOrSingle types = .ok ty → ty.WellFormed) ∧
      (∀ ty, Ty.lub types = .ok ty → ty.WellFormed) ∧
      ∀ ty ∈ Numeric.promote types, ty.WellFormed) ∧
    (∀ a b : Ty, a.WellFormed → b.WellFormed → (Ty.lub2 a b).WellFormed) ∧
    (∀ ty : Ty, ty.WellFormed →
      ty.boxed.WellFormed ∧ ty.unboxed.WellFormed ∧
      (∀ result ∈ Numeric.promoteUnary ty, result.WellFormed) ∧
      (∀ element ∈ ty.element?, element.WellFormed) ∧
      (∀ value ∈ ty.mapValue?, value.WellFormed) ∧
      ∀ element ∈ ty.subscript?, element.WellFormed) ∧
    ∀ (e : Expr) (environment : Environment), environment.Answers Ty.WellFormed →
      (Registry.standard.infer environment e).value.WellFormed ∧
      ∀ query ∈ (Registry.standard.infer environment e).queries,
        ∀ ty ∈ query.types, ty.WellFormed := by
  refine ⟨fun types h ↦ ?_, fun a b ha hb ↦ ?_, fun ty h ↦ ?_, fun e environment h ↦ ?_⟩
  · exact ⟨fun _ ↦ Ty.wellFormed_unionOf h, fun _ ↦ Ty.wellFormed_unionOrSingle h,
      fun _ ↦ Ty.wellFormed_lub h, Ty.wellFormed_promote⟩
  · exact Ty.wellFormed_join (List.forall_mem_cons.2 ⟨ha, List.forall_mem_singleton.2 hb⟩)
  · exact ⟨Ty.wellFormed_boxed h, Ty.wellFormed_unboxed h, Ty.wellFormed_promote,
      Ty.wellFormed_element? h, Ty.wellFormed_mapValue? h, Ty.wellFormed_subscript? h⟩
  · have hinvariant := Ty.invariant_wellFormed environment.isStatic
    exact ⟨Registry.infer_invariant hinvariant h e, Registry.queries_invariant hinvariant h e⟩

/-- Unions of unions, and a method called on every element of a list of a union type. -/
theorem wellFormed_of_spread_over_union :
    let scalar : Ty := .union [.int, .string]
    let types : List Ty := [scalar, .null, .union [.string, .listOf scalar]]
    let declarations : Declarations := {
      symbols := [⟨"xs", .local, .listOf scalar⟩, ⟨"key", .field, scalar⟩]
      methods := [⟨scalar, "pick", [scalar], .array scalar⟩] }
    let pick : Expr := .single .call (.call ⟨some (.single .ident (.ident "xs")), "pick",
      [.single .ident (.ident "key")], true⟩)
    let inferred := Registry.standard.infer declarations.environment pick
    ((∀ ty ∈ types, ty.WellFormed) ∧
      Ty.unionOf types = .ok (.union [.int, .string, .null, .listOf scalar]) ∧
      (Ty.union [.int, .string, .null, .listOf scalar]).WellFormed) ∧
    (scalar.WellFormed ∧ (Ty.lub2 scalar .null).WellFormed) ∧
    ((Ty.listOf scalar).WellFormed ∧ ∀ element ∈ (Ty.listOf scalar).element?, element.WellFormed) ∧
    declarations.environment.Answers Ty.WellFormed ∧
      Ty.beqArgs (inferred.queries.flatMap Query.types) [scalar, scalar] ∧
      inferred.value.WellFormed ∧
      ∀ query ∈ inferred.queries, ∀ ty ∈ query.types, ty.WellFormed := by
  intro scalar types declarations pick inferred
  obtain ⟨hlists, hpairs, htypes, hinfer⟩ := wellFormed_throughout
  have hscalar : scalar.WellFormed := by decide
  have hall : ∀ ty ∈ types, ty.WellFormed := by decide
  have hanswers : declarations.environment.Answers Ty.WellFormed :=
    Declarations.environment_answers Ty.wellFormed_ofClass Ty.WellFormed.unknown (by decide)
      (by decide) (by decide) (by decide)
  refine ⟨⟨hall, rfl, (hlists types hall).1 _ rfl⟩, ⟨hscalar, hpairs scalar .null hscalar .null⟩,
    ⟨by decide, (htypes (.listOf scalar) (by decide)).2.2.2.1⟩, hanswers, ?_,
    hinfer pick declarations.environment hanswers⟩
  decide +kernel

end ExprTyping
