import Mathlib.Data.List.Basic
import ExprTyping.Environment

/-!
# What an inquiry asks about

In a run, the expressions that an inquiry itself asks about are told apart from those that come up
while its questions are answered. The former decide the run: nothing else of the way in which
expressions are typed has an influence on it.
-/

namespace ExprTyping

variable {α β ι : Type}

def Query.subject? : Query → Option Expr
  | .typeOf e => some e
  | .resolve _ | .symbol _ | .method _ _ _ | .field _ _ | .isStatic => none

namespace Traced

def visited (x : Traced α) : List Expr := x.queries.filterMap Query.subject?

@[simp] theorem visited_pure (a : α) : (pure a : Traced α).visited = [] := rfl

@[simp] theorem visited_bind (x : Traced α) (f : α → Traced β) :
    (x >>= f).visited = x.visited ++ (f x.value).visited := by
  simp [visited]

@[simp] theorem visited_record (query : Query) (a : α) :
    (record query a).visited = query.subject?.toList := by
  cases query <;> rfl

end Traced

namespace Inquiry

variable (answer : (query : Query) → Traced query.Answer)

/-- The expressions that the inquiry itself asks about in a run, in order. -/
def subjects : Inquiry α → List Expr
  | done _ => []
  | ask query next => query.subject?.toList ++ (next (answer query).value).subjects

@[simp] theorem subjects_done (a : α) : (done a).subjects answer = [] := rfl

@[simp] theorem subjects_ask (query : Query) (next : query.Answer → Inquiry α) :
    (ask query next).subjects answer =
      query.subject?.toList ++ (next (answer query).value).subjects answer := rfl

/-- The value of the first inquiry decides what the second one asks about. -/
@[simp] theorem subjects_bind (x : Inquiry α) (f : α → Inquiry β) :
    (x >>= f).subjects answer =
      x.subjects answer ++ (f (x.run answer).value).subjects answer := by
  induction x with
  | done a => rfl
  | ask query next ih => simp [ih]

@[simp] theorem subjects_mapM (f : ι → Inquiry α) (xs : List ι) :
    (xs.mapM f).subjects answer = xs.flatMap fun x ↦ (f x).subjects answer := by
  induction xs with
  | nil => simp
  | cons x xs ih => simp [ih]

@[simp] theorem subjects_typeOf (e : Expr) : (typeOf e).subjects answer = [e] := rfl

@[simp] theorem subjects_resolve (name : String) : (resolve name).subjects answer = [] := rfl

@[simp] theorem subjects_symbol? (name : String) : (symbol? name).subjects answer = [] := rfl

@[simp] theorem subjects_method? (receiver : Ty) (name : String) (args : List Ty) :
    (method? receiver name args).subjects answer = [] := rfl

@[simp] theorem subjects_field? (receiver : Ty) (name : String) :
    (field? receiver name).subjects answer = [] := rfl

@[simp] theorem subjects_undeclared (reason name : String) :
    (undeclared reason name).subjects answer = [] := by
  have hstatic : isStatic.subjects answer = [] := rfl
  rw [undeclared, subjects_bind, hstatic, List.nil_append]
  split <;> rfl

section Environment

variable (environment : Environment) {typeOf typeOf' : Expr → Traced Ty}

/-- The expressions that come up in a run are those that come up for each subject in turn. -/
theorem visited_run (x : Inquiry α) :
    (x.run (environment.answer typeOf)).visited =
      (x.subjects (environment.answer typeOf)).flatMap fun part ↦ (typeOf part).visited := by
  induction x with
  | done a => rfl
  | ask query next ih =>
    rw [run_ask, Traced.visited_bind, ih, subjects_ask, List.flatMap_append]
    cases query <;> simp [Environment.answer, Query.subject?]

/-- Two ways of typing expressions make no difference to a run if they agree on its subjects. -/
theorem run_answer_congr {x : Inquiry α}
    (h : ∀ part ∈ x.subjects (environment.answer typeOf), typeOf' part = typeOf part) :
    x.run (environment.answer typeOf') = x.run (environment.answer typeOf) := by
  induction x with
  | done a => rfl
  | ask query next ih =>
    rw [subjects_ask, List.forall_mem_append] at h
    have hquery : environment.answer typeOf' query = environment.answer typeOf query := by
      cases query with
      | typeOf part => exact h.1 part (by simp [Query.subject?])
      | resolve | symbol | method | field | isStatic => rfl
    rw [run_ask, run_ask, hquery]
    ext1
    · rw [Traced.value_bind, Traced.value_bind, ih _ h.2]
    · rw [Traced.queries_bind, Traced.queries_bind, ih _ h.2]

end Environment

end Inquiry

end ExprTyping
