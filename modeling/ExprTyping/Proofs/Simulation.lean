import Mathlib.Data.List.Forall2
import Mathlib.Data.Option.Basic
import ExprTyping.Environment
import ExprTyping.Proofs.ExprParts

/-!
# Two runs side by side

Two inquiries are related if they ask corresponding questions and go on to related inquiries
whenever the answers are related. Related inquiries have related results against any two answerers
that answer corresponding questions in a related way. The relation between types is a parameter:
with a relation that is contained in identity the two runs are one, and what is said of pairs of
types becomes a property of every type that occurs.
-/

namespace ExprTyping

variable {R : Ty → Ty → Prop} {static : Bool} {e : Expr}

inductive Query.Corresponds (R : Ty → Ty → Prop) : Query → Query → Prop
  | typeOf (e : Expr) : Corresponds R (.typeOf e) (.typeOf e)
  | resolve (name : String) : Corresponds R (.resolve name) (.resolve name)
  | symbol (name : String) : Corresponds R (.symbol name) (.symbol name)
  | method {receiver receiver' : Ty} (name : String) {args args' : List Ty}
      (hreceiver : R receiver receiver') (hargs : List.Forall₂ R args args') :
      Corresponds R (.method receiver name args) (.method receiver' name args')
  | field {receiver receiver' : Ty} (name : String) (hreceiver : R receiver receiver') :
      Corresponds R (.field receiver name) (.field receiver' name)
  | isStatic : Corresponds R .isStatic .isStatic

/-- A question about a child of the node or about a name that the node holds. -/
def Query.AskedAt (e : Expr) : Query → Prop
  | .typeOf part => part ∈ e.children
  | .resolve name => name ∈ e.typeNames
  | .symbol name => name ∈ e.variableNames
  | .method _ name _ => name ∈ e.methodNames
  | .field _ name => name ∈ e.propertyNames
  | .isStatic => True

/-- Answers that agree on being given, and are related types then. -/
def Query.AnswersRelated (R : Ty → Ty → Prop) (static : Bool) :
    (query query' : Query) → query.Answer → query'.Answer → Prop
  | .typeOf _, .typeOf _, a, b => R a b
  | .resolve _, .resolve _, a, b => R a b
  | .symbol _, .symbol _, a, b => Option.Rel (fun s t : Symbol ↦ R s.ty t.ty) a b
  | .method _ _ _, .method _ _ _, a, b => Option.Rel R a b
  | .field _ _, .field _ _, a, b => Option.Rel R a b
  | .isStatic, .isStatic, a, b => a = static ∧ b = static
  | _, _, _, _ => False

def Traced.Related {α β : Type} (R : Ty → Ty → Prop) (S : α → β → Prop) (x : Traced α)
    (y : Traced β) : Prop :=
  S x.value y.value ∧ List.Forall₂ (Query.Corresponds R) x.queries y.queries

theorem Traced.Related.bind {α β γ δ : Type} {S : α → β → Prop} {T : γ → δ → Prop}
    {x : Traced α} {y : Traced β} {f : α → Traced γ} {g : β → Traced δ} (hxy : Related R S x y)
    (hfg : ∀ a b, S a b → Related R T (f a) (g b)) : Related R T (x >>= f) (y >>= g) := by
  obtain ⟨hvalue, hqueries⟩ := hfg x.value y.value hxy.1
  exact ⟨hvalue, List.rel_append hxy.2 hqueries⟩

namespace Inquiry

/-- The inquiries ask corresponding questions, all of them at the node `e`, and related answers
lead to related results. -/
inductive Related (R : Ty → Ty → Prop) (static : Bool) (e : Expr) {α β : Type}
    (S : α → β → Prop) : Inquiry α → Inquiry β → Prop
  | done {a : α} {b : β} (h : S a b) : Related R static e S (done a) (done b)
  | ask {query query' : Query} {next : query.Answer → Inquiry α}
      {next' : query'.Answer → Inquiry β} (hquery : query.Corresponds R query')
      (hasked : query.AskedAt e)
      (hnext : ∀ a b, Query.AnswersRelated R static query query' a b →
        Related R static e S (next a) (next' b)) :
      Related R static e S (ask query next) (ask query' next')

namespace Related

variable {α β γ δ : Type} {S : α → β → Prop} {T : γ → δ → Prop}

/-- Related inquiries can be continued by related ones. -/
theorem bind {x : Inquiry α} {y : Inquiry β} {f : α → Inquiry γ} {g : β → Inquiry δ}
    (hxy : Related R static e S x y) (hfg : ∀ a b, S a b → Related R static e T (f a) (g b)) :
    Related R static e T (x >>= f) (y >>= g) := by
  induction hxy with
  | done h => exact hfg _ _ h
  | ask hquery hasked _ ih => exact .ask hquery hasked ih

theorem mapM {ι : Type} {xs : List ι} {f : ι → Inquiry α} {g : ι → Inquiry β}
    (h : ∀ x ∈ xs, Related R static e S (f x) (g x)) :
    Related R static e (List.Forall₂ S) (xs.mapM f) (xs.mapM g) := by
  induction xs with
  | nil => exact .done .nil
  | cons x xs ih =>
    rw [List.forall_mem_cons] at h
    rw [List.mapM_cons, List.mapM_cons]
    refine h.1.bind fun a b hab ↦ (ih h.2).bind fun as bs habs ↦ ?_
    exact .done (.cons hab habs)

/-- Related inquiries have related results, with any two answerers that agree on the questions at
the node. -/
theorem run {x : Inquiry α} {y : Inquiry β} {answer answer' : (query : Query) → Traced query.Answer}
    (hxy : Related R static e S x y)
    (hanswer : ∀ query query', query.Corresponds R query' → query.AskedAt e →
      Traced.Related R (Query.AnswersRelated R static query query') (answer query)
        (answer' query')) :
    Traced.Related R S (x.run answer) (y.run answer') := by
  induction hxy with
  | done h => exact ⟨h, .nil⟩
  | ask hquery hasked _ ih =>
    rw [run_ask, run_ask]
    exact (hanswer _ _ hquery hasked).bind ih

theorem typeOf {part : Expr} (h : part ∈ e.children) :
    Related R static e R (Inquiry.typeOf part) (Inquiry.typeOf part) :=
  .ask (.typeOf part) h fun _ _ hab ↦ .done hab

theorem resolve {name : String} (h : name ∈ e.typeNames) :
    Related R static e R (Inquiry.resolve name) (Inquiry.resolve name) :=
  .ask (.resolve name) h fun _ _ hab ↦ .done hab

theorem symbol? {name : String} (h : name ∈ e.variableNames) :
    Related R static e (Option.Rel fun s t : Symbol ↦ R s.ty t.ty) (Inquiry.symbol? name)
      (Inquiry.symbol? name) :=
  .ask (.symbol name) h fun _ _ hab ↦ .done hab

/-- A method is asked for by name, so only its receiver and its arguments may differ. -/
theorem method? {name : String} (h : name ∈ e.methodNames) {receiver receiver' : Ty}
    (hreceiver : R receiver receiver') {args args' : List Ty} (hargs : List.Forall₂ R args args') :
    Related R static e (Option.Rel R) (Inquiry.method? receiver name args)
      (Inquiry.method? receiver' name args') :=
  .ask (.method name hreceiver hargs) h fun _ _ hab ↦ .done hab

theorem field? {name : String} (h : name ∈ e.propertyNames) {receiver receiver' : Ty}
    (hreceiver : R receiver receiver') :
    Related R static e (Option.Rel R) (Inquiry.field? receiver name)
      (Inquiry.field? receiver' name) :=
  .ask (.field name hreceiver) h fun _ _ hab ↦ .done hab

theorem isStatic :
    Related R static e (fun a b ↦ a = static ∧ b = static) Inquiry.isStatic Inquiry.isStatic :=
  .ask .isStatic trivial fun _ _ hab ↦ .done hab

end Related

end Inquiry

end ExprTyping
