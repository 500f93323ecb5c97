import Mathlib.Data.List.Basic
import ExprTyping.Expr.Basic

/-!
# Parts and names of expressions

The parts of an expression are its nodes, each before what stands below it. The names that a node
holds are of four sorts: variables, types, properties and methods.
-/

namespace ExprTyping.Expr

def parts (e : Expr) : List Expr := e :: e.children.attach.flatMap fun child ↦ parts child.1
termination_by sizeOf e
decreasing_by exact sizeOf_lt_of_mem_children child.2

theorem parts_eq (e : Expr) : e.parts = e :: e.children.flatMap parts := by
  rw [parts]
  simp [List.flatMap]

theorem mem_parts_self (e : Expr) : e ∈ e.parts := by
  rw [parts_eq]
  simp

theorem mem_parts_of_mem_children {e child part : Expr} (hchild : child ∈ e.children)
    (hpart : part ∈ child.parts) : part ∈ e.parts := by
  rw [parts_eq]
  exact List.mem_cons_of_mem e (List.mem_flatMap.2 ⟨child, hchild, hpart⟩)

/-- Induction over an expression, with a hypothesis for each child of a node. -/
@[elab_as_elim]
theorem induction_children {motive : Expr → Prop}
    (node : ∀ e, (∀ child ∈ e.children, motive child) → motive e) (e : Expr) : motive e :=
  node e fun child _ ↦ induction_children node child
termination_by e.size
decreasing_by exact size_lt_of_mem_children ‹_›

/-- The parts are closed under taking children. -/
theorem children_subset_parts {e part : Expr} (hpart : part ∈ e.parts) :
    part.children ⊆ e.parts := by
  induction e using induction_children with
  | node e ih =>
    intro child hchild
    rw [parts_eq, List.mem_cons, List.mem_flatMap] at hpart
    rcases hpart with rfl | ⟨below, hbelow, hpart⟩
    · exact mem_parts_of_mem_children hchild (mem_parts_self child)
    · exact mem_parts_of_mem_children hbelow (ih below hbelow hpart hchild)

/-! ## Names -/

def variableNames (e : Expr) : List String := e.shapes.filterMap fun
  | .ident name => some name
  | _ => none

def typeNames (e : Expr) : List String := e.shapes.filterMap fun
  | .construction target => some target
  | .cast shape => some shape.target
  | _ => none

def propertyNames (e : Expr) : List String := e.shapes.filterMap fun
  | .property shape => some shape.name
  | _ => none

def methodNames (e : Expr) : List String := e.shapes.filterMap fun
  | .call shape => some shape.name
  | _ => none

/-- The names of one sort that occur anywhere in an expression. -/
def occurring (sort : Expr → List String) (e : Expr) : List String := e.parts.flatMap sort

theorem subset_occurring (sort : Expr → List String) (e : Expr) : sort e ⊆ e.occurring sort :=
  fun _ hname ↦ List.mem_flatMap.2 ⟨e, e.mem_parts_self, hname⟩

/-- The names in a child occur in the whole expression. -/
theorem occurring_subset_of_mem_children (sort : Expr → List String) {e child : Expr}
    (h : child ∈ e.children) : child.occurring sort ⊆ e.occurring sort := by
  intro name hname
  obtain ⟨part, hpart, hname⟩ := List.mem_flatMap.1 hname
  exact List.mem_flatMap.2 ⟨part, mem_parts_of_mem_children h hpart, hname⟩

/-! ## Shapes of a node -/

/-- What stands in any shape of a node is a child of it, whatever the kind of the node. -/
theorem mem_children_of_mem_shapes {e child : Expr} {shape : Shape Expr} (hshape : shape ∈ e.shapes)
    (hchild : child ∈ shape.children) : child ∈ e.children :=
  List.mem_flatMap.2 ⟨shape, hshape, hchild⟩

/-- What an accessor finds is one of the shapes. -/
theorem mem_shapes_of_findSome? {α : Type} {e : Expr} {f : Shape Expr → Option α}
    {mk : α → Shape Expr} (hf : ∀ shape a, f shape = some a → shape = mk a) {a : α}
    (h : e.shapes.findSome? f = some a) : mk a ∈ e.shapes := by
  obtain ⟨shape, hshape, hfound⟩ := List.exists_of_findSome?_eq_some h
  exact hf shape a hfound ▸ hshape

section Accessors

variable {e : Expr}

theorem mem_shapes_of_binary? {shape : Shape.Binary Expr} (h : e.binary? = some shape) :
    .binary shape ∈ e.shapes :=
  mem_shapes_of_findSome? (by rintro (_ | _) _ ⟨⟩; rfl) h

theorem mem_shapes_of_list? {elements : List Expr} (h : e.list? = some elements) :
    .list elements ∈ e.shapes :=
  mem_shapes_of_findSome? (by rintro (_ | _) _ ⟨⟩; rfl) h

theorem mem_shapes_of_map? {entries : List (Expr × Expr)} (h : e.map? = some entries) :
    .map entries ∈ e.shapes :=
  mem_shapes_of_findSome? (by rintro (_ | _) _ ⟨⟩; rfl) h

theorem mem_shapes_of_property? {shape : Shape.Property Expr} (h : e.property? = some shape) :
    .property shape ∈ e.shapes :=
  mem_shapes_of_findSome? (by rintro (_ | _) _ ⟨⟩; rfl) h

theorem mem_shapes_of_elvis? {shape : Shape.Elvis Expr} (h : e.elvis? = some shape) :
    .elvis shape ∈ e.shapes :=
  mem_shapes_of_findSome? (by rintro (_ | _) _ ⟨⟩; rfl) h

theorem mem_shapes_of_ternary? {shape : Shape.Ternary Expr} (h : e.ternary? = some shape) :
    .ternary shape ∈ e.shapes :=
  mem_shapes_of_findSome? (by rintro (_ | _) _ ⟨⟩; rfl) h

theorem mem_shapes_of_ident? {name : String} (h : e.ident? = some name) :
    .ident name ∈ e.shapes :=
  mem_shapes_of_findSome? (by rintro (_ | _) _ ⟨⟩; rfl) h

theorem mem_shapes_of_call? {shape : Shape.Call Expr} (h : e.call? = some shape) :
    .call shape ∈ e.shapes :=
  mem_shapes_of_findSome? (by rintro (_ | _) _ ⟨⟩; rfl) h

theorem mem_shapes_of_construction? {target : String} (h : e.construction? = some target) :
    .construction target ∈ e.shapes :=
  mem_shapes_of_findSome? (by rintro (_ | _) _ ⟨⟩; rfl) h

theorem mem_shapes_of_cast? {shape : Shape.Cast Expr} (h : e.cast? = some shape) :
    .cast shape ∈ e.shapes :=
  mem_shapes_of_findSome? (by rintro (_ | _) _ ⟨⟩; rfl) h

theorem mem_shapes_of_unary? {shape : Shape.Unary Expr} (h : e.unary? = some shape) :
    .unary shape ∈ e.shapes :=
  mem_shapes_of_findSome? (by rintro (_ | _) _ ⟨⟩; rfl) h

theorem mem_shapes_of_range? {shape : Shape.Range Expr} (h : e.range? = some shape) :
    .range shape ∈ e.shapes :=
  mem_shapes_of_findSome? (by rintro (_ | _) _ ⟨⟩; rfl) h

end Accessors

end ExprTyping.Expr
