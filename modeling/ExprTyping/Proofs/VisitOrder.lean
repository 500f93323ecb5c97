import Mathlib.Data.List.Flatten
import ExprTyping.Proofs.NodeType
import ExprTyping.Proofs.Questions

/-!
# The order of visits

A standard rule asks about some of the children of its node, in the order of writing and about none
of them twice, whatever the answers are. So inference walks down the expression, and the nodes that
it visits are a subsequence of all nodes, each before what stands below it.
-/

namespace ExprTyping

open scoped List

namespace Expr

theorem children_sublist_of_mem_shapes {e : Expr} {shape : Shape Expr} (h : shape ∈ e.shapes) :
    shape.children <+ e.children := by
  rw [children, List.flatMap]
  exact List.sublist_flatten_of_mem (List.mem_map_of_mem h)

theorem length_parts (e : Expr) : e.parts.length = e.size := by
  induction e using induction_children with
  | node e ih =>
    rw [parts_eq, size_eq, List.length_cons]
    generalize e.children = children at ih
    induction children with
    | nil => rfl
    | cons child rest ihrest =>
      obtain ⟨hchild, hrest⟩ := List.forall_mem_cons.1 ih
      have hlength := ihrest hrest
      simp only [List.flatMap_cons, List.length_append, List.foldr_cons]
      omega

end Expr

/-! ## The standard rules, one by one -/

namespace Rule

variable {e : Expr} {answer : (query : Query) → Traced query.Answer}

/-- A rule that reads one shape asks in order if it does so about the children of that shape. -/
theorem subjects_byShape {σ : Type} {accessor : Expr → Option σ} {mk : σ → Shape Expr}
    {infer : σ → Inquiry (Option Ty)} (hmem : ∀ s, accessor e = some s → mk s ∈ e.shapes)
    (h : ∀ s, (infer s).subjects answer <+ (mk s).children) :
    (byShape accessor infer e).subjects answer <+ e.children := by
  unfold byShape
  split
  next s hs => exact (h s).trans (Expr.children_sublist_of_mem_shapes (hmem s hs))
  · exact List.nil_sublist _

theorem subjects_byShape_eq_nil {σ : Type} {accessor : Expr → Option σ}
    {infer : σ → Inquiry (Option Ty)} (h : ∀ s, (infer s).subjects answer = []) :
    (byShape accessor infer e).subjects answer = [] := by
  unfold byShape
  split
  · exact h _
  · rfl

theorem subjects_literal : (literal.apply e).subjects answer = [] :=
  subjects_byShape_eq_nil fun _ ↦ rfl

theorem subjects_interpolation : (interpolation.apply e).subjects answer = [] := by
  refine subjects_byShape_eq_nil fun shape ↦ ?_
  split <;> rfl

theorem subjects_ident : (ident.apply e).subjects answer = [] := by
  refine subjects_byShape_eq_nil fun name ↦ ?_
  split
  · rfl
  · rw [Inquiry.subjects_bind, Inquiry.subjects_symbol?, List.nil_append]
    split <;> simp

theorem subjects_construction : (construction.apply e).subjects answer = [] :=
  subjects_byShape_eq_nil fun target ↦ by simp

/-- The operands are asked about from left to right, if at all. -/
theorem subjects_binary : (binary.apply e).subjects answer <+ e.children := by
  refine subjects_byShape (fun _ ↦ Expr.mem_shapes_of_binary?) fun shape ↦ ?_
  split
  next c _ => cases c <;> simp [inferBinary, Shape.children]
  · exact List.nil_sublist _

theorem subjects_unary : (unary.apply e).subjects answer <+ e.children := by
  refine subjects_byShape (fun _ ↦ Expr.mem_shapes_of_unary?) fun shape ↦ ?_
  split
  · exact List.nil_sublist _
  · split
    · simp [Shape.children]
    · split <;> simp [Shape.children]

theorem subjects_cast : (cast.apply e).subjects answer <+ e.children := by
  refine subjects_byShape (fun _ ↦ Expr.mem_shapes_of_cast?) fun shape ↦ ?_
  rw [Inquiry.subjects_bind, Inquiry.subjects_resolve, List.nil_append]
  split <;> simp [Shape.children]

theorem subjects_elvis : (elvis.apply e).subjects answer <+ e.children :=
  subjects_byShape (fun _ ↦ Expr.mem_shapes_of_elvis?) fun shape ↦ by
    simp [inferEither, Shape.children]

/-- The condition comes first and is passed over. -/
theorem subjects_ternary : (ternary.apply e).subjects answer <+ e.children :=
  subjects_byShape (fun _ ↦ Expr.mem_shapes_of_ternary?) fun shape ↦ by
    simp [inferEither, Shape.children]

theorem subjects_list : (list.apply e).subjects answer <+ e.children :=
  subjects_byShape (fun _ ↦ Expr.mem_shapes_of_list?) fun elements ↦ by simp [Shape.children]

/-- Each key is asked about right before its value, as they are written. -/
theorem subjects_map : (map.apply e).subjects answer <+ e.children :=
  subjects_byShape (fun _ ↦ Expr.mem_shapes_of_map?) fun entries ↦ by simp [Shape.children]

theorem subjects_range : (range.apply e).subjects answer <+ e.children :=
  subjects_byShape (fun _ ↦ Expr.mem_shapes_of_range?) fun shape ↦ by simp [Shape.children]

theorem subjects_receiverTy (receiver : Option Expr) :
    (receiverTy receiver).subjects answer = receiver.toList := by
  cases receiver <;> rfl

theorem subjects_spreading {spread : Bool} {receiver : Ty} {access : Ty → Inquiry (Option Ty)}
    (h : ∀ ty, (access ty).subjects answer = []) :
    (spreading spread receiver access).subjects answer = [] := by
  unfold spreading
  split
  · split
    · simp [h]
    · rfl
  · exact h receiver

theorem subjects_propertyOf (name : String) (receiver : Ty) :
    (propertyOf name receiver).subjects answer = [] := by
  rw [propertyOf, Inquiry.subjects_bind, Inquiry.subjects_field?, List.nil_append]
  split <;> rfl

theorem subjects_methodOf (name : String) (args : List Ty) (receiver : Ty) :
    (methodOf name args receiver).subjects answer = [] := by
  rw [methodOf, Inquiry.subjects_bind, Inquiry.subjects_method?, List.nil_append]
  split <;> simp

theorem subjects_property : (property.apply e).subjects answer <+ e.children :=
  subjects_byShape (fun _ ↦ Expr.mem_shapes_of_property?) fun shape ↦ by
    simp [subjects_receiverTy, subjects_spreading (subjects_propertyOf _), Shape.children]

theorem subjects_call : (call.apply e).subjects answer <+ e.children :=
  subjects_byShape (fun _ ↦ Expr.mem_shapes_of_call?) fun shape ↦ by
    simp [subjects_receiverTy, subjects_spreading (subjects_methodOf _ _), Shape.children]

/-- A standard rule asks about children of its node in the order of writing, and about none of them
twice. -/
theorem subjects_standard {rule : Rule} (h : rule ∈ standard) :
    (rule.apply e).subjects answer <+ e.children := by
  have hnil {visits : List Expr} (hvisits : visits = []) : visits <+ e.children :=
    hvisits ▸ List.nil_sublist e.children
  cases h using standard_cases with
  | literal => exact hnil subjects_literal
  | binary => exact subjects_binary
  | list => exact subjects_list
  | map => exact subjects_map
  | property => exact subjects_property
  | elvis => exact subjects_elvis
  | interpolation => exact hnil subjects_interpolation
  | closure => exact List.nil_sublist _
  | ternary => exact subjects_ternary
  | ident => exact hnil subjects_ident
  | call => exact subjects_call
  | construction => exact hnil subjects_construction
  | cast => exact subjects_cast
  | unary => exact subjects_unary
  | range => exact subjects_range

end Rule

/-! ## Inference -/

namespace Registry

def typedParts (registry : Registry) (environment : Environment) (e : Expr) : List Expr :=
  (registry.calculate e).subjects (environment.answer (registry.inferPart environment e))

/-- A node is visited before the parts that its rules ask about, and these one after the other. -/
theorem visited_infer (registry : Registry) (environment : Environment) (e : Expr) :
    (registry.infer environment e).visited =
      e :: (registry.typedParts environment e).flatMap fun part ↦
        (registry.inferPart environment e part).visited := by
  rw [infer_eq, Traced.visited_bind, Inquiry.visited_run]
  rfl

theorem subjects_calculate_standard (answer : (query : Query) → Traced query.Answer) (e : Expr) :
    (standard.calculate e).subjects answer <+ e.children := by
  by_cases hclaimed : ∃ rule ∈ Rule.standard, rule.kind = e.kind
  · obtain ⟨rule, hrule, hkind⟩ := hclaimed
    rw [calculate_standard hrule hkind, Inquiry.subjects_bind]
    simpa using Rule.subjects_standard hrule
  · have hlookup : standard.groups.lookup e.kind = none :=
      lookup_ofRules_eq_none (by simpa using hclaimed)
    simp [calculate, hlookup]

theorem typedParts_standard_sublist (environment : Environment) (e : Expr) :
    standard.typedParts environment e <+ e.children :=
  subjects_calculate_standard _ e

theorem visited_infer_standard (environment : Environment) (e : Expr) :
    (standard.infer environment e).visited =
      e :: (standard.typedParts environment e).flatMap fun part ↦
        (standard.infer environment part).visited := by
  rw [visited_infer]
  congr 1
  refine List.flatMap_congr fun part hpart ↦ ?_
  have hchild := (typedParts_standard_sublist environment e).subset hpart
  rw [inferPart_of_mem_children standard environment hchild]

/-- The visits of inference from `e` on: each node is followed by what some of its children bring
up, in the order of writing, and so no node is visited twice or out of order. -/
structure WalksDown (registry : Registry) (environment : Environment) (e : Expr) : Prop where
  nested : ∀ node ∈ (registry.infer environment e).visited,
    (registry.infer environment node).visited =
      node :: (registry.typedParts environment node).flatMap fun part ↦
        (registry.infer environment part).visited
  descending : ∀ node ∈ (registry.infer environment e).visited,
    registry.typedParts environment node <+ node.children
  preorder : (registry.infer environment e).visited <+ e.parts
  once : e.parts.Nodup → (registry.infer environment e).visited.Nodup
  length_le : (registry.infer environment e).visited.length ≤ e.size

/-- Below a typed child the visits are a subsequence of its parts by induction, and the typed
children are a subsequence of all children. -/
theorem visited_sublist_parts (environment : Environment) (e : Expr) :
    (standard.infer environment e).visited <+ e.parts := by
  induction e using Expr.induction_children with
  | node e ih =>
    rw [visited_infer_standard, Expr.parts_eq]
    refine List.Sublist.cons_cons e ?_
    have hsublist := typedParts_standard_sublist environment e
    calc ((standard.typedParts environment e).flatMap fun part ↦
          (standard.infer environment part).visited)
      _ <+ (standard.typedParts environment e).flatMap Expr.parts :=
        List.Sublist.flatMap_right _ fun part hpart ↦ ih part (hsublist.subset hpart)
      _ <+ e.children.flatMap Expr.parts := hsublist.flatMap Expr.parts

/-- With the standard rules inference visits every node at most once, and downwards. -/
theorem standard_walksDown (environment : Environment) (e : Expr) :
    standard.WalksDown environment e where
  nested node _ := visited_infer_standard environment node
  descending node _ := typedParts_standard_sublist environment node
  preorder := visited_sublist_parts environment e
  once h := h.sublist (visited_sublist_parts environment e)
  length_le := e.length_parts ▸ (visited_sublist_parts environment e).length_le

end Registry

end ExprTyping
