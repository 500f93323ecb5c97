import ExprTyping.Proofs.InferenceInvariant

/-!
# Statically bound code

A dynamic type stands for a name that is looked up when the program runs. Where names are bound
statically the rules do not make one up, neither for a name that nothing declares nor for a member
of what has no such member: whatever is dynamic comes from a declaration. So declarations without
dynamic types lead to types without dynamic types.
-/

namespace ExprTyping

namespace Ty

mutual

/-- Whether no dynamic type occurs in the type, at any depth. -/
def isDynamicFree : Ty → Bool
  | known _ args => allDynamicFree args
  | union members => allDynamicFree members
  | array component => isDynamicFree component
  | dynamic _ => false
  | primitive _ | unknown _ | null => true

def allDynamicFree : List Ty → Bool
  | [] => true
  | ty :: types => isDynamicFree ty && allDynamicFree types

end

theorem allDynamicFree_iff {types : List Ty} :
    allDynamicFree types ↔ ∀ ty ∈ types, ty.isDynamicFree := by
  induction types with
  | nil => simp [allDynamicFree]
  | cons ty types ih => simp [allDynamicFree, ih]

/-- With static binding there is nothing to show of the dynamic types that rules make up. -/
theorem invariant_isDynamicFree : Invariant (fun ty ↦ ty.isDynamicFree) true where
  primitive _ := rfl
  null := rfl
  unknown _ := rfl
  dynamic := by
    intro hstatic
    cases hstatic
  dynamic_of := by
    intro hint hfree
    cases hfree
  known_iff _ _ := allDynamicFree_iff
  array := id
  parts := by
    intro ty part hfree hpart
    cases ty with
    | union members => exact allDynamicFree_iff.1 hfree part hpart
    | known | primitive | dynamic | unknown | null | array =>
      obtain rfl := List.mem_singleton.1 hpart
      exact hfree

end Ty

/-- If names are bound statically and nothing dynamic is declared, then no inferred type has a
dynamic type in it, and neither has a receiver or an argument in a question to the environment. -/
theorem isDynamicFree_of_isStatic (e : Expr) (environment : Environment)
    (hstatic : environment.isStatic = true)
    (hanswers : environment.Answers fun ty ↦ ty.isDynamicFree) :
    (Registry.standard.infer environment e).value.isDynamicFree ∧
      ∀ query ∈ (Registry.standard.infer environment e).queries,
        ∀ ty ∈ query.types, ty.isDynamicFree := by
  have hinvariant : Ty.Invariant (fun ty ↦ ty.isDynamicFree) environment.isStatic :=
    hstatic ▸ Ty.invariant_isDynamicFree
  exact ⟨Registry.infer_invariant hinvariant hanswers e,
    Registry.queries_invariant hinvariant hanswers e⟩

/-- A method that nothing declares, called on every element of a list, with a subscript and a
property of an undeclared variable as arguments. Without static binding all of them are dynamic. -/
theorem isDynamicFree_of_undeclared_names :
    let y : Expr := .single .ident (.ident "y")
    let zero : Expr := .single .literal (.literal (.int 0))
    let pick : Expr := .single .call (.call ⟨some (.single .ident (.ident "xs")), "pick",
      [.single .binary (.binary ⟨y, "[", zero⟩),
        .single .property (.property ⟨some y, "name", false⟩)], true⟩)
    let declarations : Declarations := {
      symbols := [⟨"xs", .local, .listOf (.union [.int, .string])⟩]
      isStatic := true }
    let inferred := Registry.standard.infer declarations.environment pick
    let unbound := Registry.standard.infer
      { declarations with isStatic := false }.environment pick
    declarations.environment.Answers (fun ty ↦ ty.isDynamicFree) ∧
      inferred.value.isDynamicFree ∧
      (∀ query ∈ inferred.queries, ∀ ty ∈ query.types, ty.isDynamicFree) ∧
      unbound.value.isDynamicFree = false ∧
      (unbound.queries.flatMap Query.types).map Ty.isDynamicFree =
        [false, true, false, false] := by
  intro y zero pick declarations inferred unbound
  have hanswers : declarations.environment.Answers fun ty ↦ ty.isDynamicFree :=
    Declarations.environment_answers (fun _ ↦ rfl) (fun _ ↦ rfl) (by decide) (by decide)
      (by decide) (by decide)
  obtain ⟨hvalue, hqueries⟩ :=
    isDynamicFree_of_isStatic pick declarations.environment rfl hanswers
  exact ⟨hanswers, hvalue, hqueries, by decide +kernel, by decide +kernel⟩

end ExprTyping
