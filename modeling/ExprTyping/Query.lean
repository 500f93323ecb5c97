import ExprTyping.Expr.Basic

/-!
# Questions

While an expression is typed, questions arise about its parts and about the program around it. A
question says what kind of answer it takes; `Traced` pairs a result with the questions asked on
the way, in order.
-/

namespace ExprTyping

inductive SymbolKind where
  | local | parameter | field | property
deriving DecidableEq, Repr

structure Symbol where
  name : String
  kind : SymbolKind
  ty : Ty

inductive Query where
  | typeOf (e : Expr)
  | resolve (name : String)
  | symbol (name : String)
  | method (receiver : Ty) (name : String) (args : List Ty)
  | field (receiver : Ty) (name : String)
  | isStatic

/-- The answers that a question can get. -/
@[reducible] def Query.Answer : Query → Type
  | typeOf _ => Ty
  | resolve _ => Ty
  | symbol _ => Option Symbol
  | method _ _ _ => Option Ty
  | field _ _ => Option Ty
  | isStatic => Bool

/-- A result with the questions asked for it. -/
structure Traced (α : Type) where
  value : α
  queries : List Query

namespace Traced

variable {α β : Type}

@[ext] theorem ext {x y : Traced α} (hvalue : x.value = y.value)
    (hqueries : x.queries = y.queries) : x = y := by
  cases x
  cases y
  simp_all

instance : Monad Traced where
  pure a := ⟨a, []⟩
  bind x f := ⟨(f x.value).value, x.queries ++ (f x.value).queries⟩

def record (query : Query) (answer : α) : Traced α := ⟨answer, [query]⟩

@[simp] theorem value_pure (a : α) : (pure a : Traced α).value = a := rfl

@[simp] theorem queries_pure (a : α) : (pure a : Traced α).queries = [] := rfl

@[simp] theorem value_bind (x : Traced α) (f : α → Traced β) :
    (x >>= f).value = (f x.value).value := rfl

@[simp] theorem queries_bind (x : Traced α) (f : α → Traced β) :
    (x >>= f).queries = x.queries ++ (f x.value).queries := rfl

@[simp] theorem value_record (query : Query) (a : α) : (record query a).value = a := rfl

@[simp] theorem queries_record (query : Query) (a : α) : (record query a).queries = [query] := rfl

instance : LawfulMonad Traced :=
  LawfulMonad.mk' Traced
    (fun x ↦ by
      apply Traced.ext
      · rfl
      · exact List.append_nil x.queries)
    (fun _ _ ↦ rfl)
    (fun x f g ↦ by
      apply Traced.ext
      · rfl
      · exact List.append_assoc x.queries (f x.value).queries (g (f x.value).value).queries)

end Traced

end ExprTyping
