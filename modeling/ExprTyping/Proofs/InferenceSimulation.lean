import ExprTyping.Inference
import ExprTyping.Proofs.RuleSimulation

/-!
# Inference, run side by side

Environments are related on an expression if they give related answers to all questions about the
names in it. Inference then gives related types, for every compatible relation: a node asks about
its children, which are smaller and have no other names.
-/

namespace ExprTyping

variable {R : Ty → Ty → Prop} {static : Bool}

/-- Related answers on the names that occur in `e`, for related receivers and arguments. -/
structure Environment.Related (R : Ty → Ty → Prop) (static : Bool) (e : Expr)
    (environment environment' : Environment) : Prop where
  isStatic : environment.isStatic = static ∧ environment'.isStatic = static
  symbol? : ∀ name ∈ e.occurring Expr.variableNames,
    Option.Rel (fun s t : Symbol ↦ R s.ty t.ty) (environment.symbol? name)
      (environment'.symbol? name)
  resolve : ∀ name ∈ e.occurring Expr.typeNames,
    R (environment.resolve name) (environment'.resolve name)
  field? : ∀ name ∈ e.occurring Expr.propertyNames, ∀ receiver receiver', R receiver receiver' →
    Option.Rel R (environment.field? receiver name) (environment'.field? receiver' name)
  method? : ∀ name ∈ e.occurring Expr.methodNames, ∀ receiver receiver', R receiver receiver' →
    ∀ args args', List.Forall₂ R args args' →
      Option.Rel R (environment.method? receiver name args)
        (environment'.method? receiver' name args')

/-- A child has no names but those of its parent. -/
theorem Environment.Related.child {e child : Expr} {environment environment' : Environment}
    (h : Environment.Related R static e environment environment') (hchild : child ∈ e.children) :
    Environment.Related R static child environment environment' where
  isStatic := h.isStatic
  symbol? name hname := h.symbol? name (Expr.occurring_subset_of_mem_children _ hchild hname)
  resolve name hname := h.resolve name (Expr.occurring_subset_of_mem_children _ hchild hname)
  field? name hname := h.field? name (Expr.occurring_subset_of_mem_children _ hchild hname)
  method? name hname := h.method? name (Expr.occurring_subset_of_mem_children _ hchild hname)

namespace Registry

theorem mem_of_lookup_ofRules {rules group : List Rule} {kind : Kind}
    (h : (ofRules rules).groups.lookup kind = some group) {rule : Rule} (hrule : rule ∈ group) :
    rule ∈ rules := by
  obtain ⟨before, after, hgroups, -⟩ := List.lookup_eq_some_iff.1 h
  have hmem : (kind, group) ∈ (ofRules rules).groups := by simp [hgroups]
  obtain ⟨claimed, -, hclaimed⟩ := List.mem_map.1 hmem
  cases hclaimed
  exact List.mem_of_mem_filter (List.mem_mergeSort.1 hrule)

theorem related_firstAnswer (hR : Ty.Compatible R static) (e : Expr) {rules : List Rule}
    (h : ∀ rule ∈ rules, rule ∈ Rule.standard) :
    Inquiry.Related R static e (Option.Rel R) (firstAnswer e rules) (firstAnswer e rules) := by
  induction rules with
  | nil => exact .done .none
  | cons rule rules ih =>
    rw [List.forall_mem_cons] at h
    refine (Rule.related_standard hR h.1).bind fun x y hxy ↦ ?_
    cases hxy with
    | some hty => exact .done (.some hty)
    | none => exact ih h.2

theorem related_calculate (hR : Ty.Compatible R static) (e : Expr) :
    Inquiry.Related R static e R (standard.calculate e) (standard.calculate e) := by
  unfold calculate
  split
  · exact .done (hR.unknown _)
  next group hgroup =>
    have hrules : ∀ rule ∈ group, rule ∈ Rule.standard :=
      fun rule hrule ↦ mem_of_lookup_ofRules hgroup hrule
    refine (related_firstAnswer hR e hrules).bind fun x y hxy ↦ ?_
    cases hxy with
    | some hty => exact .done hty
    | none => exact .done (hR.unknown _)

theorem inferPart_of_mem_children (registry : Registry) (environment : Environment)
    {e child : Expr} (h : child ∈ e.children) :
    registry.inferPart environment e child = registry.infer environment child :=
  if_pos (Expr.size_lt_of_mem_children h)

/-- The answers of related environments at a node, given related types for its children. -/
theorem related_answer {e : Expr} {environment environment' : Environment}
    (henv : Environment.Related R static e environment environment')
    (hchildren : ∀ child ∈ e.children, Traced.Related R R (standard.infer environment child)
      (standard.infer environment' child))
    {query query' : Query} (hquery : query.Corresponds R query') (hasked : query.AskedAt e) :
    Traced.Related R (Query.AnswersRelated R static query query')
      (environment.answer (standard.inferPart environment e) query)
      (environment'.answer (standard.inferPart environment' e) query') := by
  cases hquery with
  | typeOf child =>
    simp only [Environment.answer, inferPart_of_mem_children _ _ hasked]
    exact hchildren child hasked
  | resolve name =>
    exact ⟨henv.resolve name (Expr.subset_occurring _ e hasked), .cons (.resolve name) .nil⟩
  | symbol name =>
    exact ⟨henv.symbol? name (Expr.subset_occurring _ e hasked), .cons (.symbol name) .nil⟩
  | method name hreceiver hargs =>
    exact ⟨henv.method? name (Expr.subset_occurring _ e hasked) _ _ hreceiver _ _ hargs,
      .cons (.method name hreceiver hargs) .nil⟩
  | field name hreceiver =>
    exact ⟨henv.field? name (Expr.subset_occurring _ e hasked) _ _ hreceiver,
      .cons (.field name hreceiver) .nil⟩
  | isStatic => exact ⟨henv.isStatic, .cons .isStatic .nil⟩

/-- Inference with the standard rules maps related environments to related types, asking
corresponding questions on the way. -/
theorem related_infer (hR : Ty.Compatible R static) {e : Expr}
    {environment environment' : Environment}
    (henv : Environment.Related R static e environment environment') :
    Traced.Related R R (standard.infer environment e) (standard.infer environment' e) := by
  induction e using Expr.induction_children with
  | node e ih =>
    rw [infer_eq, infer_eq]
    have hself : Traced.Related R (fun _ _ ↦ True) (Traced.record (.typeOf e) ())
        (Traced.record (.typeOf e) ()) := ⟨trivial, .cons (.typeOf e) .nil⟩
    refine hself.bind fun _ _ _ ↦ (related_calculate hR e).run fun query query' hquery hasked ↦ ?_
    exact related_answer henv (fun child hchild ↦ ih child hchild (henv.child hchild)) hquery hasked

end Registry

end ExprTyping
