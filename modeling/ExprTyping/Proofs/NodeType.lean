import Mathlib.Data.List.Basic
import ExprTyping.Proofs.InferenceInvariant

/-!
# The type of a node

If the rules of a registry claim different kinds, then a node is offered to one rule at most. With
the standard rules the type of a node is what that rule makes of the types of the node's children,
and no measure of size is left in the equation: a standard rule asks about nothing else.
-/

namespace ExprTyping

/-! ## Values of inquiries -/

@[simp] theorem Traced.value_map {α β : Type} (f : α → β) (x : Traced α) :
    (f <$> x).value = f x.value := rfl

@[simp] theorem Traced.queries_map {α β : Type} (f : α → β) (x : Traced α) :
    (f <$> x).queries = x.queries :=
  List.append_nil x.queries

namespace Inquiry

variable {α ι : Type} (answer : (query : Query) → Traced query.Answer)

@[simp] theorem value_run_mapM (f : ι → Inquiry α) (xs : List ι) :
    ((xs.mapM f).run answer).value = xs.map fun x ↦ ((f x).run answer).value := by
  induction xs with
  | nil => simp
  | cons x xs ih =>
    rw [List.mapM_cons, run_bind, Traced.value_bind, run_bind, Traced.value_bind, ih]
    rfl

@[simp] theorem value_run_byShape {σ : Type} (accessor : Expr → Option σ)
    (infer : σ → Inquiry (Option Ty)) (e : Expr) :
    ((Rule.byShape accessor infer e).run answer).value =
      (accessor e).bind fun shape ↦ ((infer shape).run answer).value := by
  unfold Rule.byShape
  cases accessor e <;> rfl

section Questions

variable (environment : Environment) (typeOf : Expr → Traced Ty)

@[simp] theorem value_run_typeOf (e : Expr) :
    ((Inquiry.typeOf e).run (environment.answer typeOf)).value = (typeOf e).value := rfl

@[simp] theorem value_run_resolve (name : String) :
    ((resolve name).run (environment.answer typeOf)).value = environment.resolve name := rfl

@[simp] theorem value_run_symbol? (name : String) :
    ((symbol? name).run (environment.answer typeOf)).value = environment.symbol? name := rfl

@[simp] theorem value_run_method? (receiver : Ty) (name : String) (args : List Ty) :
    ((method? receiver name args).run (environment.answer typeOf)).value =
      environment.method? receiver name args := rfl

@[simp] theorem value_run_field? (receiver : Ty) (name : String) :
    ((field? receiver name).run (environment.answer typeOf)).value =
      environment.field? receiver name := rfl

@[simp] theorem value_run_undeclared (reason name : String) :
    ((undeclared reason name).run (environment.answer typeOf)).value =
      if environment.isStatic then .unknown reason else .dynamic (some name) := by
  have hstatic : (isStatic.run (environment.answer typeOf)).value = environment.isStatic := rfl
  simp only [undeclared, run_bind, Traced.value_bind, hstatic]
  split <;> rfl

end Questions

end Inquiry

/-! ## One rule for each kind -/

namespace Registry

variable {rules : List Rule} {rule : Rule}

/-- A rule whose kind no other rule claims is all that a node of the kind is offered to. -/
theorem dispatchOrder_of_nodup (hkinds : (rules.map Rule.kind).Nodup) (hrule : rule ∈ rules) :
    dispatchOrder rule.kind rules = [rule] := by
  have hfilter : rules.filter (·.kind = rule.kind) = [rule] := by
    induction rules with
    | nil => cases hrule
    | cons first rest ih =>
      rw [List.map_cons, List.nodup_cons] at hkinds
      have hfirst : ∀ other ∈ rest, other.kind ≠ first.kind := by
        intro other hother hkind
        exact hkinds.1 (List.mem_map.2 ⟨other, hother, hkind⟩)
      rcases List.mem_cons.1 hrule with rfl | hrest
      · rw [List.filter_cons_of_pos (by simp), List.filter_eq_nil_iff.2]
        simpa using hfirst
      · rw [List.filter_cons_of_neg (by simpa using (hfirst rule hrest).symm)]
        exact ih hkinds.2 hrest
  rw [dispatchOrder, hfilter, List.mergeSort_singleton]

theorem lookup_ofRules_of_nodup (hkinds : (rules.map Rule.kind).Nodup) (hrule : rule ∈ rules) :
    (ofRules rules).groups.lookup rule.kind = some [rule] := by
  have hclaimed : rule.kind ∈ claimedKinds rules :=
    List.mem_eraseDups.2 (List.mem_map_of_mem hrule)
  rw [ofRules, List.lookup_graph _ hclaimed, dispatchOrder_of_nodup hkinds hrule]

theorem lookup_ofRules_eq_none {kind : Kind} (h : ∀ rule ∈ rules, rule.kind ≠ kind) :
    (ofRules rules).groups.lookup kind = none := by
  rw [List.lookup_eq_none_iff]
  intro group hgroup
  obtain ⟨claimed, hclaimed, rfl⟩ := List.mem_map.1 hgroup
  obtain ⟨rule, hrule, rfl⟩ := List.mem_map.1 (List.mem_eraseDups.1 hclaimed)
  simpa using (h rule hrule).symm

/-- The standard rules claim different kinds, so a node is offered to one of them at most. -/
theorem calculate_standard {e : Expr} (hrule : rule ∈ Rule.standard) (hkind : rule.kind = e.kind) :
    standard.calculate e = do
      return (← rule.apply e).getD (.unknown (e.kind.name ++ " produced no result")) := by
  have hlookup : standard.groups.lookup e.kind = some [rule] := by
    rw [← hkind]
    exact lookup_ofRules_of_nodup (by decide) hrule
  have hfirst : firstAnswer e [rule] = rule.apply e := by
    calc firstAnswer e [rule]
      _ = rule.apply e >>= pure := bind_congr fun x ↦ by cases x <;> rfl
      _ = rule.apply e := bind_pure (rule.apply e)
  simp only [calculate, hlookup, hfirst]

/-! ## The equation of inference -/

/-- Whatever a standard rule may ask at a node, parts of it are typed as they are on their own. -/
theorem answer_inferPart (environment : Environment) {e : Expr} {query : Query}
    (hasked : query.AskedAt e) :
    environment.answer (standard.inferPart environment e) query =
      environment.answer (standard.infer environment) query := by
  cases query with
  | typeOf child => exact inferPart_of_mem_children standard environment hasked
  | resolve | symbol | method | field | isStatic => rfl

/-- The equation of inference. What a standard rule asks at a node has the same answer whether parts
of the node or all expressions can be typed. -/
theorem value_infer (environment : Environment) (e : Expr) :
    (standard.infer environment e).value =
      ((standard.calculate e).run (environment.answer (standard.infer environment))).value := by
  have htrue : Ty.Invariant (fun _ ↦ True) environment.isStatic := by
    constructor <;> simp
  have hanswers : environment.Answers fun _ ↦ True := by
    constructor <;> simp
  have hrun := (related_calculate htrue.compatible e).run
    fun query query' hquery hasked ↦ by
      have hanswer := related_answer (hanswers.related e)
        (fun child _ ↦ related_infer htrue.compatible (hanswers.related child)) hquery hasked
      have hasked' : query'.AskedAt e := by
        cases hquery <;> exact hasked
      rwa [answer_inferPart environment hasked'] at hanswer
  rw [infer_eq]
  exact hrun.1.1

/-- The type of a node whose kind a standard rule claims. -/
theorem value_infer_of_mem_standard {e : Expr} (hrule : rule ∈ Rule.standard)
    (hkind : rule.kind = e.kind) (environment : Environment) :
    (standard.infer environment e).value =
      ((rule.apply e).run (environment.answer (standard.infer environment))).value.getD
        (.unknown (e.kind.name ++ " produced no result")) := by
  rw [value_infer, calculate_standard hrule hkind, Inquiry.run_bind, Traced.value_bind]
  rfl

theorem value_infer_of_forall_ne {e : Expr} (h : ∀ rule ∈ Rule.standard, rule.kind ≠ e.kind)
    (environment : Environment) :
    (standard.infer environment e).value = .unknown "no calculator matched" := by
  have hlookup : standard.groups.lookup e.kind = none := lookup_ofRules_eq_none h
  rw [value_infer]
  simp [calculate, hlookup]

theorem value_infer_literal (environment : Environment) (value : Literal) :
    (standard.infer environment (.single .literal (.literal value))).value = value.ty := by
  have hrule : Rule.literal ∈ Rule.standard := by simp [Rule.standard]
  rw [value_infer_of_mem_standard hrule rfl]
  rfl

theorem value_infer_ident {environment : Environment} {name : String} {symbol : Symbol}
    (hname : Rule.isSelfReference name = false) (h : environment.symbol? name = some symbol) :
    (standard.infer environment (.single .ident (.ident name))).value = symbol.ty := by
  have hrule : Rule.ident ∈ Rule.standard := by simp [Rule.standard]
  have hshape : (Expr.single .ident (.ident name)).ident? = some name := rfl
  rw [value_infer_of_mem_standard hrule rfl]
  simp [Rule.ident, hshape, hname, h]

theorem value_infer_of_list? {e : Expr} {elements : List Expr} (hkind : e.kind = .list)
    (helements : e.list? = some elements) (environment : Environment) :
    (standard.infer environment e).value =
      .listOf (Rule.elementArgument
        (elements.map fun element ↦ (standard.infer environment element).value)) := by
  have hrule : Rule.list ∈ Rule.standard := by simp [Rule.standard]
  rw [value_infer_of_mem_standard hrule hkind.symm]
  simp [Rule.list, helements]

theorem value_infer_list (environment : Environment) (elements : List Expr) :
    (standard.infer environment (.single .list (.list elements))).value =
      .listOf (Rule.elementArgument
        (elements.map fun element ↦ (standard.infer environment element).value)) :=
  value_infer_of_list? rfl rfl environment

/-- The condition has no influence. -/
theorem value_infer_ternary (environment : Environment) (condition whenTrue whenFalse : Expr) :
    (standard.infer environment
      (.single .ternary (.ternary ⟨condition, whenTrue, whenFalse⟩))).value =
      .lub2 (standard.infer environment whenTrue).value
        (standard.infer environment whenFalse).value := by
  have hrule : Rule.ternary ∈ Rule.standard := by simp [Rule.standard]
  rw [value_infer_of_mem_standard hrule rfl]
  rfl

/-- A subscript yields an element of the receiver, whatever the index is. -/
theorem value_infer_subscript {environment : Environment} {operator : String} {receiver : Expr}
    {element : Ty} (hoperator : OperatorClass.of? operator = some .subscript)
    (helement : (standard.infer environment receiver).value.subscript? = some element)
    (index : Expr) :
    (standard.infer environment
      (.single .binary (.binary ⟨receiver, operator, index⟩))).value = element := by
  have hrule : Rule.binary ∈ Rule.standard := by simp [Rule.standard]
  have hshape : (Expr.single .binary (.binary ⟨receiver, operator, index⟩)).binary? =
      some ⟨receiver, operator, index⟩ := rfl
  rw [value_infer_of_mem_standard hrule rfl]
  simp [Rule.binary, hshape, hoperator, Rule.inferBinary, Rule.subscriptTy?, helement]

end Registry

end ExprTyping
