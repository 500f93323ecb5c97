import ExprTyping.Expr.Kind
import ExprTyping.Expr.Literal

/-!
# Expressions

A node has a kind and any number of shapes. A shape is one way to read the node: as a binary
operation, a call, a literal. Usually a node has the one shape of its kind, but a host may give a
node no shape or several; then the first shape of the wanted form counts.
-/

namespace ExprTyping

namespace Shape

structure Binary (α : Type) where
  left : α
  operator : String
  right : α

structure Property (α : Type) where
  /-- Nothing if the receiver is left implicit. -/
  receiver : Option α
  name : String
  /-- Whether the property is read from every element of the receiver. -/
  spread : Bool

structure Elvis (α : Type) where
  primary : α
  fallback : α

structure Interpolation (α : Type) where
  parts : Option (List String)
  values : Option (List α)

structure Ternary (α : Type) where
  condition : α
  whenTrue : α
  whenFalse : α

structure Call (α : Type) where
  /-- Nothing if the receiver is left implicit. -/
  receiver : Option α
  name : String
  args : List α
  /-- Whether the method is called on every element of the receiver. -/
  spread : Bool

structure Cast (α : Type) where
  operand : α
  target : String

structure Unary (α : Type) where
  operator : String
  operand : α

structure Range (α : Type) where
  first : α
  last : α

end Shape

/-- A reading of a node whose sub-expressions are `α`. -/
inductive Shape (α : Type) where
  | literal (value : Literal)
  | binary (shape : Shape.Binary α)
  | list (elements : List α)
  | map (entries : List (α × α))
  | property (shape : Shape.Property α)
  | elvis (shape : Shape.Elvis α)
  | interpolation (shape : Shape.Interpolation α)
  | ternary (shape : Shape.Ternary α)
  | ident (name : String)
  | call (shape : Shape.Call α)
  | construction (target : String)
  | cast (shape : Shape.Cast α)
  | unary (shape : Shape.Unary α)
  | range (shape : Shape.Range α)

/-- The sub-expressions of a shape, in the order in which they are written. -/
def Shape.children {α : Type} : Shape α → List α
  | literal _ | ident _ | construction _ => []
  | binary shape => [shape.left, shape.right]
  | list elements => elements
  | map entries => entries.flatMap fun entry ↦ [entry.1, entry.2]
  | property shape => shape.receiver.toList
  | elvis shape => [shape.primary, shape.fallback]
  | interpolation shape => shape.values.getD []
  | ternary shape => [shape.condition, shape.whenTrue, shape.whenFalse]
  | call shape => shape.receiver.toList ++ shape.args
  | cast shape => [shape.operand]
  | unary shape => [shape.operand]
  | range shape => [shape.first, shape.last]

inductive Expr where
  | node (kind : Kind) (shapes : List (Shape Expr))

namespace Expr

def kind : Expr → Kind
  | node kind _ => kind

def shapes : Expr → List (Shape Expr)
  | node _ shapes => shapes

def single (kind : Kind) (shape : Shape Expr) : Expr := node kind [shape]

def literal? (e : Expr) : Option Literal := e.shapes.findSome? fun
  | .literal value => some value
  | _ => none

def binary? (e : Expr) : Option (Shape.Binary Expr) := e.shapes.findSome? fun
  | .binary shape => some shape
  | _ => none

def list? (e : Expr) : Option (List Expr) := e.shapes.findSome? fun
  | .list elements => some elements
  | _ => none

def map? (e : Expr) : Option (List (Expr × Expr)) := e.shapes.findSome? fun
  | .map entries => some entries
  | _ => none

def property? (e : Expr) : Option (Shape.Property Expr) := e.shapes.findSome? fun
  | .property shape => some shape
  | _ => none

def elvis? (e : Expr) : Option (Shape.Elvis Expr) := e.shapes.findSome? fun
  | .elvis shape => some shape
  | _ => none

def interpolation? (e : Expr) : Option (Shape.Interpolation Expr) := e.shapes.findSome? fun
  | .interpolation shape => some shape
  | _ => none

def ternary? (e : Expr) : Option (Shape.Ternary Expr) := e.shapes.findSome? fun
  | .ternary shape => some shape
  | _ => none

def ident? (e : Expr) : Option String := e.shapes.findSome? fun
  | .ident name => some name
  | _ => none

def call? (e : Expr) : Option (Shape.Call Expr) := e.shapes.findSome? fun
  | .call shape => some shape
  | _ => none

def construction? (e : Expr) : Option String := e.shapes.findSome? fun
  | .construction target => some target
  | _ => none

def cast? (e : Expr) : Option (Shape.Cast Expr) := e.shapes.findSome? fun
  | .cast shape => some shape
  | _ => none

def unary? (e : Expr) : Option (Shape.Unary Expr) := e.shapes.findSome? fun
  | .unary shape => some shape
  | _ => none

def range? (e : Expr) : Option (Shape.Range Expr) := e.shapes.findSome? fun
  | .range shape => some shape
  | _ => none

def children (e : Expr) : List Expr := e.shapes.flatMap Shape.children

theorem sizeOf_lt_of_mem_shape {shape : Shape Expr} {child : Expr} (h : child ∈ shape.children) :
    sizeOf child < sizeOf shape := by
  cases shape with
  | literal | ident | construction => cases h
  | list elements =>
    have := List.sizeOf_lt_of_mem h
    simp only [Shape.children] at this
    simp only [Shape.list.sizeOf_spec]
    omega
  | map entries =>
    obtain ⟨⟨key, value⟩, hentry, h⟩ := List.mem_flatMap.1 h
    have := List.sizeOf_lt_of_mem hentry
    simp only [List.mem_cons, List.not_mem_nil, or_false] at h
    simp only [Shape.map.sizeOf_spec, Prod.mk.sizeOf_spec] at *
    rcases h with rfl | rfl <;> omega
  | property shape =>
    obtain ⟨receiver, name, spread⟩ := shape
    obtain rfl : receiver = some child := by simpa [Shape.children] using h
    simp
    omega
  | interpolation shape =>
    obtain ⟨parts, values⟩ := shape
    cases values with
    | none => cases h
    | some values =>
      have := List.sizeOf_lt_of_mem h
      simp [Shape.children] at this ⊢
      omega
  | call shape =>
    obtain ⟨receiver, name, args, spread⟩ := shape
    rcases List.mem_append.1 h with h | h
    · obtain rfl : receiver = some child := by simpa using h
      simp
      omega
    · have := List.sizeOf_lt_of_mem h
      simp at this ⊢
      omega
  | binary shape | elvis shape | ternary shape | cast shape | unary shape | range shape =>
    obtain ⟨⟩ := shape
    simp only [Shape.children, List.mem_cons, List.not_mem_nil, or_false] at h
    rcases h with rfl | rfl | rfl <;> simp <;> omega

theorem sizeOf_lt_of_mem_children {e child : Expr} (h : child ∈ e.children) :
    sizeOf child < sizeOf e := by
  obtain ⟨kind, shapes⟩ := e
  obtain ⟨shape, hshape, h⟩ := List.mem_flatMap.1 h
  have := sizeOf_lt_of_mem_shape h
  have := List.sizeOf_lt_of_mem hshape
  simp only [Expr.shapes] at this
  simp only [node.sizeOf_spec]
  omega

def size (e : Expr) : Nat := e.children.attach.foldr (fun child count ↦ size child.1 + count) 1
termination_by sizeOf e
decreasing_by exact sizeOf_lt_of_mem_children child.2

theorem size_eq (e : Expr) :
    e.size = e.children.foldr (fun child count ↦ child.size + count) 1 := by
  rw [size]
  exact List.foldr_attach (f := fun (child : Expr) count ↦ child.size + count)

theorem size_lt_of_mem_children {e child : Expr} (h : child ∈ e.children) :
    child.size < e.size := by
  rw [size_eq e]
  generalize e.children = children at h
  have hpos (children : List Expr) :
      0 < children.foldr (fun child count ↦ child.size + count) 1 := by
    induction children with
    | nil => simp
    | cons first rest ih =>
      simp only [List.foldr_cons]
      omega
  induction children with
  | nil => cases h
  | cons first rest ih =>
    have := hpos rest
    simp only [List.foldr_cons]
    rcases List.mem_cons.1 h with rfl | h
    · omega
    · have := ih h
      omega

end Expr

end ExprTyping
