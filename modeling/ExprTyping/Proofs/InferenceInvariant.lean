import ExprTyping.Declarations
import ExprTyping.Proofs.InferenceSimulation

/-!
# Invariants of inference

A property that holds of the types which rules make up, and that passes between a class and its
arguments and from a type to its parts, holds of every inferred type if it holds of all that the
environment answers. This is the case of two equal runs: identity, restricted to the types with the
property, is a compatible relation.
-/

namespace ExprTyping

namespace Ty

/-- The property holds of what rules make up, and passes to parts and arguments and back. -/
structure Invariant (P : Ty → Prop) (static : Bool) : Prop where
  primitive (kind : Primitive) : P (primitive kind)
  null : P null
  unknown (reason : String) : P (unknown reason)
  dynamic (hstatic : static = false) (hint : Option String) : P (dynamic hint)
  dynamic_of {hint : Option String} : P (.dynamic hint) → ∀ other, P (.dynamic other)
  known_iff (name : ClassName) (args : List Ty) : P (known name args) ↔ ∀ arg ∈ args, P arg
  array {component : Ty} : P (array component) → P component
  parts (ty part : Ty) : P ty → part ∈ ty.parts → P part

theorem forall₂_eq_and_iff {P : Ty → Prop} {as bs : List Ty} :
    List.Forall₂ (fun a b ↦ a = b ∧ P a) as bs ↔ as = bs ∧ ∀ a ∈ as, P a := by
  constructor
  · intro h
    induction h with
    | nil => simp
    | cons hab _ ih =>
      obtain ⟨rfl, ha⟩ := hab
      obtain ⟨rfl, has⟩ := ih
      exact ⟨rfl, List.forall_mem_cons.2 ⟨ha, has⟩⟩
  · rintro ⟨rfl, h⟩
    exact List.forall₂_same.2 fun a ha ↦ ⟨rfl, h a ha⟩

/-- Identity, restricted to the types with the property, is a compatible relation. -/
theorem Invariant.compatible {P : Ty → Prop} {static : Bool} (hP : Invariant P static) :
    Compatible (fun a b ↦ a = b ∧ P a) static where
  beq := by
    rintro a _ ⟨rfl, -⟩
    exact beq_refl a
  primitive kind := ⟨rfl, hP.primitive kind⟩
  null := ⟨rfl, hP.null⟩
  unknown reason := ⟨rfl, hP.unknown reason⟩
  dynamic hstatic hint := ⟨rfl, hP.dynamic hstatic hint⟩
  dynamic_of h other := ⟨rfl, hP.dynamic_of h.2 other⟩
  known_iff := by
    intro name as bs
    rw [forall₂_eq_and_iff, hP.known_iff, known.injEq]
    simp
  array := by
    rintro a b ⟨hab, ha⟩
    exact ⟨array.inj hab, hP.array ha⟩
  join := by
    intro as bs h
    obtain ⟨rfl, has⟩ := forall₂_eq_and_iff.1 h
    exact ⟨rfl, join_invariant hP.primitive hP.null hP.known_iff hP.parts has⟩

end Ty

structure Environment.Answers (P : Ty → Prop) (environment : Environment) : Prop where
  symbol? : ∀ name, ∀ symbol ∈ environment.symbol? name, P symbol.ty
  resolve : ∀ name, P (environment.resolve name)
  field? : ∀ receiver name, ∀ ty ∈ environment.field? receiver name, P ty
  method? : ∀ receiver name args, ∀ ty ∈ environment.method? receiver name args, P ty

/-- Tables answer with the types of their entries, with classes and with unknown types. -/
theorem Declarations.environment_answers {P : Ty → Prop} {declarations : Declarations}
    (hclass : ∀ name, P (.ofClass name)) (hunknown : ∀ reason, P (.unknown reason))
    (hsymbols : ∀ symbol ∈ declarations.symbols, P symbol.ty)
    (hfields : ∀ field ∈ declarations.fields, P field.ty)
    (hmethods : ∀ method ∈ declarations.methods, P method.ty)
    (htypes : ∀ type ∈ declarations.types, P type.ty) : declarations.environment.Answers P where
  symbol? _ symbol hsymbol := hsymbols symbol (List.mem_of_find?_eq_some hsymbol)
  resolve name := by
    simp only [environment, resolve]
    split
    next declaration hfound => exact htypes declaration (List.mem_of_find?_eq_some hfound)
    · split
      · exact hclass name
      · exact hunknown _
  field? _ _ ty hty := by
    obtain ⟨field, hfound, rfl⟩ := Option.map_eq_some_iff.1 hty
    exact hfields field (List.mem_of_find?_eq_some hfound)
  method? _ _ _ ty hty := by
    obtain ⟨method, hfound, rfl⟩ := Option.map_eq_some_iff.1 hty
    exact hmethods method (List.mem_of_find?_eq_some hfound)

theorem Environment.Answers.related {P : Ty → Prop} {environment : Environment}
    (h : environment.Answers P) (e : Expr) :
    Environment.Related (fun a b ↦ a = b ∧ P a) environment.isStatic e environment environment := by
  have hrel {α : Type} {S : α → α → Prop} {x : Option α} (hx : ∀ a ∈ x, S a a) :
      Option.Rel S x x := by
    cases x with
    | none => exact .none
    | some a => exact .some (hx a rfl)
  refine ⟨⟨rfl, rfl⟩, ?_, ?_, ?_, ?_⟩
  · intro name _
    exact hrel fun symbol hsymbol ↦ ⟨rfl, h.symbol? name symbol hsymbol⟩
  · intro name _
    exact ⟨rfl, h.resolve name⟩
  · rintro name _ receiver _ ⟨rfl, -⟩
    exact hrel fun ty hty ↦ ⟨rfl, h.field? receiver name ty hty⟩
  · rintro name _ receiver _ ⟨rfl, -⟩ args _ hargs
    obtain ⟨rfl, -⟩ := Ty.forall₂_eq_and_iff.1 hargs
    exact hrel fun ty hty ↦ ⟨rfl, h.method? receiver name args ty hty⟩

def Query.types : Query → List Ty
  | .method receiver _ args => receiver :: args
  | .field receiver _ => [receiver]
  | .typeOf _ | .resolve _ | .symbol _ | .isStatic => []

theorem Query.Corresponds.forall_types {P : Ty → Prop} {query query' : Query}
    (h : query.Corresponds (fun a b ↦ a = b ∧ P a) query') : ∀ ty ∈ query.types, P ty := by
  cases h with
  | method name hreceiver hargs =>
    exact List.forall_mem_cons.2 ⟨hreceiver.2, (Ty.forall₂_eq_and_iff.1 hargs).2⟩
  | field name hreceiver => exact List.forall_mem_singleton.2 hreceiver.2
  | typeOf | resolve | symbol | isStatic => exact List.forall_mem_nil _

/-- A property of all answers of the environment is a property of all inferred types. -/
theorem Registry.infer_invariant {P : Ty → Prop} {environment : Environment}
    (hP : Ty.Invariant P environment.isStatic) (h : environment.Answers P) (e : Expr) :
    P (standard.infer environment e).value :=
  (related_infer hP.compatible (h.related e)).1.2

theorem Registry.queries_invariant {P : Ty → Prop} {environment : Environment}
    (hP : Ty.Invariant P environment.isStatic) (h : environment.Answers P) (e : Expr) :
    ∀ query ∈ (standard.infer environment e).queries, ∀ ty ∈ query.types, P ty := by
  intro query hquery
  have hself := List.forall₂_same.1 (related_infer hP.compatible (h.related e)).2 query hquery
  exact hself.forall_types

end ExprTyping
