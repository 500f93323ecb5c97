import Mathlib.Data.List.Forall2
import Mathlib.Data.Option.Basic
import ExprTyping.Declarations
import ExprTyping.Proofs.VisitOrder

/-!
# What a type depends on

Much of an expression has no bearing on its type: the value of a literal, the condition of an
alternative, the operands of a comparison, the shapes that are not of the kind of their node. Two
expressions that are alike in everything else get the same type, and their inference asks the same
questions.
-/

namespace ExprTyping

/-! ## Alike expressions -/

inductive Literal.SameKind : Literal → Literal → Prop
  | null : SameKind .null .null
  | boolean (a b : Bool) : SameKind (.boolean a) (.boolean b)
  | byte (a b : Int8) : SameKind (.byte a) (.byte b)
  | char (a b : Char) : SameKind (.char a) (.char b)
  | short (a b : Int16) : SameKind (.short a) (.short b)
  | int (a b : Int32) : SameKind (.int a) (.int b)
  | long (a b : Int64) : SameKind (.long a) (.long b)
  | float (a b : Float32) : SameKind (.float a) (.float b)
  | double (a b : Float) : SameKind (.double a) (.double b)
  | bigInteger (a b : String) : SameKind (.bigInteger a) (.bigInteger b)
  | bigDecimal (a b : String) : SameKind (.bigDecimal a) (.bigDecimal b)
  | string (a b : String) : SameKind (.string a) (.string b)

theorem Literal.SameKind.refl (a : Literal) : a.SameKind a := by
  cases a <;> constructor

/-- The value of a literal has no bearing on its type. -/
theorem Literal.SameKind.ty_eq {a b : Literal} (h : a.SameKind b) : a.ty = b.ty := by
  cases h <;> rfl

def OperatorClass.readsLeft : OperatorClass → Bool
  | plus | arithmetic | shift | subscript => true
  | boolean | compare | findRegex | assign => false

def OperatorClass.readsRight : OperatorClass → Bool
  | plus | arithmetic | assign => true
  | boolean | compare | findRegex | shift | subscript => false

def Rule.readingUnaries : List String := ["-", "+", "~", "++", "--"]

namespace Shape

variable {α : Type}

def kind : Shape α → Kind
  | literal _ => .literal
  | binary _ => .binary
  | list _ => .list
  | map _ => .map
  | property _ => .property
  | elvis _ => .elvis
  | interpolation _ => .interpolation
  | ternary _ => .ternary
  | ident _ => .ident
  | call _ => .call
  | construction _ => .construction
  | cast _ => .cast
  | unary _ => .unary
  | range _ => .range

/-- Shapes of one form that agree in all that has a bearing on a type; there their sub-expressions
are related by `R`. -/
inductive Agree (R : α → α → Prop) : Shape α → Shape α → Prop
  | literal {a b : Literal} (h : a.SameKind b) : Agree R (.literal a) (.literal b)
  /-- An operator that is in no class leaves both operands unread. -/
  | binary {operator : String} {left right left' right' : α}
      (hleft : (OperatorClass.of? operator).any OperatorClass.readsLeft → R left left')
      (hright : (OperatorClass.of? operator).any OperatorClass.readsRight → R right right') :
      Agree R (.binary ⟨left, operator, right⟩) (.binary ⟨left', operator, right'⟩)
  | list {elements elements' : List α} (h : List.Forall₂ R elements elements') :
      Agree R (.list elements) (.list elements')
  | map {entries entries' : List (α × α)} (h : List.Forall₂ (Prod.RProd R R) entries entries') :
      Agree R (.map entries) (.map entries')
  | property {receiver receiver' : Option α} {name : String} {spread : Bool}
      (h : Option.Rel R receiver receiver') :
      Agree R (.property ⟨receiver, name, spread⟩) (.property ⟨receiver', name, spread⟩)
  | elvis {primary fallback primary' fallback' : α} (hprimary : R primary primary')
      (hfallback : R fallback fallback') :
      Agree R (.elvis ⟨primary, fallback⟩) (.elvis ⟨primary', fallback'⟩)
  | interpolation {shape shape' : Interpolation α}
      (hparts : shape.parts.isSome = shape'.parts.isSome)
      (hvalues : shape.values.isSome = shape'.values.isSome) :
      Agree R (.interpolation shape) (.interpolation shape')
  | ternary {condition condition' whenTrue whenFalse whenTrue' whenFalse' : α}
      (htrue : R whenTrue whenTrue') (hfalse : R whenFalse whenFalse') :
      Agree R (.ternary ⟨condition, whenTrue, whenFalse⟩)
        (.ternary ⟨condition', whenTrue', whenFalse'⟩)
  | ident (name : String) : Agree R (.ident name) (.ident name)
  | call {receiver receiver' : Option α} {name : String} {args args' : List α} {spread : Bool}
      (hreceiver : Option.Rel R receiver receiver') (hargs : List.Forall₂ R args args') :
      Agree R (.call ⟨receiver, name, args, spread⟩) (.call ⟨receiver', name, args', spread⟩)
  | construction (target : String) : Agree R (.construction target) (.construction target)
  | cast {operand operand' : α} {target : String} (h : R operand operand') :
      Agree R (.cast ⟨operand, target⟩) (.cast ⟨operand', target⟩)
  | unary {operator : String} {operand operand' : α}
      (h : operator ∈ Rule.readingUnaries → R operand operand') :
      Agree R (.unary ⟨operator, operand⟩) (.unary ⟨operator, operand'⟩)
  | range {first last first' last' : α} (hfirst : R first first') (hlast : R last last') :
      Agree R (.range ⟨first, last⟩) (.range ⟨first', last'⟩)

theorem Agree.refl {R : α → α → Prop} {shape : Shape α} (h : ∀ a ∈ shape.children, R a a) :
    shape.Agree R shape := by
  have hforall {as : List α} (has : ∀ a ∈ as, R a a) : List.Forall₂ R as as :=
    List.forall₂_same.2 has
  have hrel {a : Option α} (ha : ∀ b ∈ a.toList, R b b) : Option.Rel R a a := by
    cases a with
    | none => exact .none
    | some b => exact .some (ha b (by simp))
  cases shape with
  | literal a => exact .literal (.refl a)
  | ident name => exact .ident name
  | construction target => exact .construction target
  | interpolation shape => exact .interpolation rfl rfl
  | list elements => exact .list (hforall h)
  | map entries =>
    refine .map (List.forall₂_same.2 fun entry hentry ↦ ?_)
    exact .intro (h _ (List.mem_flatMap.2 ⟨entry, hentry, by simp⟩))
      (h _ (List.mem_flatMap.2 ⟨entry, hentry, by simp⟩))
  | property shape => exact .property (hrel h)
  | call shape =>
    obtain ⟨hreceiver, hargs⟩ := List.forall_mem_append.1 h
    exact .call (hrel hreceiver) (hforall hargs)
  | binary shape =>
    exact .binary (fun _ ↦ h _ (by simp [children])) fun _ ↦ h _ (by simp [children])
  | unary shape => exact .unary fun _ ↦ h _ (by simp [children])
  | elvis shape => exact .elvis (h _ (by simp [children])) (h _ (by simp [children]))
  | ternary shape => exact .ternary (h _ (by simp [children])) (h _ (by simp [children]))
  | cast shape => exact .cast (h _ (by simp [children]))
  | range shape => exact .range (h _ (by simp [children])) (h _ (by simp [children]))

end Shape

namespace Expr

def reading? (e : Expr) : Option (Shape Expr) := e.shapes.find? (·.kind = e.kind)

/-- Expressions that agree in all that has a bearing on their types. -/
inductive Alike : Expr → Expr → Prop
  | node {e e' : Expr} (hkind : e.kind = e'.kind)
      (hreading : Option.Rel (Shape.Agree Alike) e.reading? e'.reading?) : Alike e e'

theorem Alike.refl (e : Expr) : e.Alike e := by
  induction e using induction_children with
  | node e ih =>
    refine .node rfl ?_
    cases hreading : e.reading? with
    | none => exact .none
    | some shape =>
      have hshape : shape ∈ e.shapes := List.mem_of_find?_eq_some hreading
      exact .some (.refl fun part hpart ↦ ih part (mem_children_of_mem_shapes hshape hpart))

instance : Std.Refl Alike := ⟨Alike.refl⟩

/-- The reading of a node is what the accessor for its kind finds. -/
theorem reading?_eq_map {σ : Type} {e : Expr} {mk : σ → Shape Expr} {view : Shape Expr → Option σ}
    (hview : ∀ shape, (view shape).map mk = Option.guard (·.kind = e.kind) shape) :
    e.reading? = (e.shapes.findSome? view).map mk := by
  have hguard : Option.guard (·.kind = e.kind) = Option.map mk ∘ view :=
    funext fun shape ↦ (hview shape).symm
  rw [reading?, List.find?_eq_findSome?_guard, hguard, List.map_findSome?]

end Expr

/-! ## Matching runs -/

inductive Query.Matches (R : Expr → Expr → Prop) : Query → Query → Prop
  | typeOf {e e' : Expr} (h : R e e') : Matches R (.typeOf e) (.typeOf e')
  | other {query : Query} (h : query.subject? = none) : Matches R query query

structure Traced.Matches {α : Type} (R : Expr → Expr → Prop) (x y : Traced α) : Prop where
  value : x.value = y.value
  queries : List.Forall₂ (Query.Matches R) x.queries y.queries

theorem Traced.Matches.bind {α β : Type} {R : Expr → Expr → Prop} {x y : Traced α}
    {f g : α → Traced β} (h : x.Matches R y) (hf : (f x.value).Matches R (g x.value)) :
    (x >>= f).Matches R (y >>= g) where
  value := by rw [value_bind, value_bind, ← h.value, hf.value]
  queries := by
    rw [queries_bind, queries_bind, ← h.value]
    exact List.rel_append h.queries hf.queries

namespace Inquiry

variable {α β ι κ : Type} {R : Expr → Expr → Prop}

/-- Inquiries that ask matching questions and, as long as they get the same answers, go on to do
so. -/
inductive Matches (R : Expr → Expr → Prop) : Inquiry α → Inquiry α → Prop
  | done (a : α) : Matches R (.done a) (.done a)
  | ask_typeOf {e e' : Expr} {next next' : Ty → Inquiry α} (h : R e e')
      (hnext : ∀ ty, Matches R (next ty) (next' ty)) :
      Matches R (.ask (.typeOf e) next) (.ask (.typeOf e') next')
  | ask_other {query : Query} {next next' : query.Answer → Inquiry α}
      (h : query.subject? = none) (hnext : ∀ answer, Matches R (next answer) (next' answer)) :
      Matches R (.ask query next) (.ask query next')

namespace Matches

theorem refl [Std.Refl R] (x : Inquiry α) : Matches R x x := by
  induction x with
  | done a => exact .done a
  | ask query next ih =>
    cases query with
    | typeOf e => exact .ask_typeOf (Std.Refl.refl e) ih
    | resolve | symbol | method | field | isStatic => exact .ask_other rfl ih

theorem bind {x y : Inquiry α} {f g : α → Inquiry β} (h : Matches R x y)
    (hf : ∀ a, Matches R (f a) (g a)) : Matches R (x >>= f) (y >>= g) := by
  induction h with
  | done a => exact hf a
  | ask_typeOf he _ ih => exact .ask_typeOf he ih
  | ask_other hquery _ ih => exact .ask_other hquery ih

theorem typeOf {e e' : Expr} (h : R e e') : Matches R (typeOf e) (typeOf e') :=
  .ask_typeOf h .done

theorem mapM {S : ι → κ → Prop} {f : ι → Inquiry α} {g : κ → Inquiry α} {xs : List ι} {ys : List κ}
    (h : List.Forall₂ S xs ys) (hf : ∀ x y, S x y → Matches R (f x) (g y)) :
    Matches R (xs.mapM f) (ys.mapM g) := by
  induction h with
  | nil => exact .done []
  | cons hxy _ ih =>
    rw [List.mapM_cons, List.mapM_cons]
    exact (hf _ _ hxy).bind fun a ↦ ih.bind fun as ↦ .done (a :: as)

/-- Matching inquiries have matching runs, if related expressions are typed by matching runs; on
one side only the subjects of the run count. -/
theorem run (environment : Environment) {typeOf typeOf' : Expr → Traced Ty} {x y : Inquiry α}
    (h : Matches R x y)
    (htypeOf : ∀ part ∈ x.subjects (environment.answer typeOf), ∀ part', R part part' →
      (typeOf part).Matches R (typeOf' part')) :
    (x.run (environment.answer typeOf)).Matches R (y.run (environment.answer typeOf')) := by
  induction h with
  | done a => exact ⟨rfl, .nil⟩
  | @ask_typeOf e e' _ _ he _ ih =>
    rw [subjects_ask, List.forall_mem_append] at htypeOf
    have hsubject := htypeOf.1 e (by simp [Query.subject?]) e' he
    exact hsubject.bind (ih _ htypeOf.2)
  | @ask_other query _ _ hquery _ ih =>
    rw [subjects_ask, List.forall_mem_append] at htypeOf
    have hanswer : (environment.answer typeOf query).Matches R
        (environment.answer typeOf' query) := by
      cases query with
      | typeOf => cases hquery
      | resolve | symbol | method | field | isStatic => exact ⟨rfl, .cons (.other rfl) .nil⟩
    exact hanswer.bind (ih _ htypeOf.2)

end Matches

end Inquiry

/-! ## The standard rules, one by one -/

namespace Rule

open Inquiry (Matches)

variable {e e' : Expr}

/-- A rule that reads the shapes of one kind makes matching inquiries at alike nodes of that kind if
it does so at agreeing shapes: what the accessor finds at the nodes are their readings. -/
theorem matches_byShape {σ : Type} {kind : Kind} (mk : σ → Shape Expr)
    {view : Shape Expr → Option σ} {infer : σ → Inquiry (Option Ty)} (hkind : kind = e.kind)
    (halike : e.Alike e')
    (hview : ∀ shape, (view shape).map mk = Option.guard (·.kind = kind) shape)
    (h : ∀ s s', (mk s).Agree Expr.Alike (mk s') → Matches Expr.Alike (infer s) (infer s')) :
    Matches Expr.Alike (byShape (·.shapes.findSome? view) infer e)
      (byShape (·.shapes.findSome? view) infer e') := by
  subst hkind
  obtain ⟨hkind, hreading⟩ := halike
  rw [Expr.reading?_eq_map hview, Expr.reading?_eq_map (hkind ▸ hview)] at hreading
  unfold byShape
  dsimp only
  cases hs : e.shapes.findSome? view <;> cases hs' : e'.shapes.findSome? view <;>
    rw [hs, hs'] at hreading <;> cases hreading
  case none.none => exact .done none
  case some.some hagree => exact h _ _ hagree

theorem matches_literal (hkind : literal.kind = e.kind) (halike : e.Alike e') :
    Matches Expr.Alike (literal.apply e) (literal.apply e') := by
  refine matches_byShape .literal hkind halike (by rintro (_ | _) <;> rfl)
    fun value value' hagree ↦ ?_
  cases hagree with
  | literal hsame =>
    rw [hsame.ty_eq]
    exact .refl _

theorem matches_interpolation (hkind : interpolation.kind = e.kind) (halike : e.Alike e') :
    Matches Expr.Alike (interpolation.apply e) (interpolation.apply e') := by
  refine matches_byShape .interpolation hkind halike (by rintro (_ | _) <;> rfl)
    fun shape shape' hagree ↦ ?_
  obtain ⟨parts, values⟩ := shape
  obtain ⟨parts', values'⟩ := shape'
  cases hagree with
  | interpolation hparts hvalues =>
    cases parts <;> cases parts' <;> cases hparts <;>
      cases values <;> cases values' <;> cases hvalues <;> exact .refl _

theorem matches_closure (halike : e.Alike e') :
    Matches Expr.Alike (closure.apply e) (closure.apply e') := by
  obtain ⟨hkind, _⟩ := halike
  simp only [closure, hkind]
  exact .refl _

theorem matches_ident (hkind : ident.kind = e.kind) (halike : e.Alike e') :
    Matches Expr.Alike (ident.apply e) (ident.apply e') := by
  refine matches_byShape .ident hkind halike (by rintro (_ | _) <;> rfl)
    fun name name' hagree ↦ ?_
  cases hagree with
  | ident => exact .refl _

theorem matches_construction (hkind : construction.kind = e.kind) (halike : e.Alike e') :
    Matches Expr.Alike (construction.apply e) (construction.apply e') := by
  refine matches_byShape .construction hkind halike (by rintro (_ | _) <;> rfl)
    fun target target' hagree ↦ ?_
  cases hagree with
  | construction => exact .refl _

/-- An operand that the class of the operator leaves unread may be any other. -/
theorem matches_inferBinary {R : Expr → Expr → Prop} [Std.Refl R] {left right left' right' : Expr}
    {c : OperatorClass} (hleft : c.readsLeft → R left left')
    (hright : c.readsRight → R right right') :
    Matches R (inferBinary left right c) (inferBinary left' right' c) := by
  cases c with
  | boolean | compare | findRegex => exact .refl _
  | assign => exact (Matches.typeOf (hright rfl)).bind fun rightTy ↦ .refl _
  | shift | subscript => exact (Matches.typeOf (hleft rfl)).bind fun leftTy ↦ .refl _
  | plus | arithmetic =>
    exact (Matches.typeOf (hleft rfl)).bind fun leftTy ↦
      (Matches.typeOf (hright rfl)).bind fun rightTy ↦ .refl _

theorem matches_binary (hkind : binary.kind = e.kind) (halike : e.Alike e') :
    Matches Expr.Alike (binary.apply e) (binary.apply e') := by
  refine matches_byShape .binary hkind halike (by rintro (_ | _) <;> rfl)
    fun shape shape' hagree ↦ ?_
  cases hagree with
  | binary hleft hright =>
    dsimp only
    split
    next c hc =>
      rw [hc] at hleft hright
      exact matches_inferBinary hleft hright
    · exact .refl _

theorem matches_unary (hkind : unary.kind = e.kind) (halike : e.Alike e') :
    Matches Expr.Alike (unary.apply e) (unary.apply e') := by
  refine matches_byShape .unary hkind halike (by rintro (_ | _) <;> rfl)
    fun shape shape' hagree ↦ ?_
  cases hagree with
  | unary hoperand =>
    dsimp only
    split
    · exact .refl _
    · split
      next hsign =>
        have hread := hoperand (List.mem_append_left ["++", "--"] (List.contains_iff_mem.1 hsign))
        exact (Matches.typeOf hread).bind fun ty ↦ .refl _
      · split
        next hstep =>
          have hread := hoperand
            (List.mem_append_right ["-", "+", "~"] (List.contains_iff_mem.1 hstep))
          exact (Matches.typeOf hread).bind fun ty ↦ .refl _
        · exact .refl _

theorem matches_cast (hkind : cast.kind = e.kind) (halike : e.Alike e') :
    Matches Expr.Alike (cast.apply e) (cast.apply e') := by
  refine matches_byShape .cast hkind halike (by rintro (_ | _) <;> rfl)
    fun shape shape' hagree ↦ ?_
  cases hagree with
  | cast hoperand =>
    refine (Matches.refl _).bind fun target ↦ ?_
    split
    · exact (Matches.typeOf hoperand).bind fun ty ↦ .refl _
    · exact .refl _

theorem matches_inferEither {R : Expr → Expr → Prop} [Std.Refl R] {a b a' b' : Expr} (ha : R a a')
    (hb : R b b') : Matches R (inferEither a b) (inferEither a' b') :=
  (Matches.typeOf ha).bind fun _ ↦ (Matches.typeOf hb).bind fun _ ↦ .refl _

theorem matches_elvis (hkind : elvis.kind = e.kind) (halike : e.Alike e') :
    Matches Expr.Alike (elvis.apply e) (elvis.apply e') := by
  refine matches_byShape .elvis hkind halike (by rintro (_ | _) <;> rfl)
    fun shape shape' hagree ↦ ?_
  cases hagree with
  | elvis hprimary hfallback => exact matches_inferEither hprimary hfallback

/-- The condition is not asked about, and may be any other. -/
theorem matches_ternary (hkind : ternary.kind = e.kind) (halike : e.Alike e') :
    Matches Expr.Alike (ternary.apply e) (ternary.apply e') := by
  refine matches_byShape .ternary hkind halike (by rintro (_ | _) <;> rfl)
    fun shape shape' hagree ↦ ?_
  cases hagree with
  | ternary htrue hfalse => exact matches_inferEither htrue hfalse

theorem matches_list (hkind : list.kind = e.kind) (halike : e.Alike e') :
    Matches Expr.Alike (list.apply e) (list.apply e') := by
  refine matches_byShape .list hkind halike (by rintro (_ | _) <;> rfl)
    fun elements elements' hagree ↦ ?_
  cases hagree with
  | list h => exact (Matches.mapM h fun _ _ ↦ .typeOf).bind fun types ↦ .refl _

theorem matches_map (hkind : map.kind = e.kind) (halike : e.Alike e') :
    Matches Expr.Alike (map.apply e) (map.apply e') := by
  refine matches_byShape .map hkind halike (by rintro (_ | _) <;> rfl)
    fun entries entries' hagree ↦ ?_
  cases hagree with
  | map h =>
    refine Matches.bind (Matches.mapM h ?_) fun types ↦ .refl _
    rintro _ _ ⟨hkey, hvalue⟩
    exact (Matches.typeOf hkey).bind fun key ↦ (Matches.typeOf hvalue).bind fun value ↦ .refl _

theorem matches_range (hkind : range.kind = e.kind) (halike : e.Alike e') :
    Matches Expr.Alike (range.apply e) (range.apply e') := by
  refine matches_byShape .range hkind halike (by rintro (_ | _) <;> rfl)
    fun shape shape' hagree ↦ ?_
  cases hagree with
  | range hfirst hlast =>
    exact (Matches.typeOf hfirst).bind fun first ↦ (Matches.typeOf hlast).bind fun last ↦ .refl _

theorem matches_receiverTy {R : Expr → Expr → Prop} {receiver receiver' : Option Expr}
    (h : Option.Rel R receiver receiver') :
    Matches R (receiverTy receiver) (receiverTy receiver') := by
  cases h with
  | none => exact .done _
  | some h => exact .typeOf h

theorem matches_property (hkind : property.kind = e.kind) (halike : e.Alike e') :
    Matches Expr.Alike (property.apply e) (property.apply e') := by
  refine matches_byShape .property hkind halike (by rintro (_ | _) <;> rfl)
    fun shape shape' hagree ↦ ?_
  cases hagree with
  | property hreceiver => exact (matches_receiverTy hreceiver).bind fun receiver ↦ .refl _

theorem matches_call (hkind : call.kind = e.kind) (halike : e.Alike e') :
    Matches Expr.Alike (call.apply e) (call.apply e') := by
  refine matches_byShape .call hkind halike (by rintro (_ | _) <;> rfl)
    fun shape shape' hagree ↦ ?_
  cases hagree with
  | call hreceiver hargs =>
    exact (matches_receiverTy hreceiver).bind fun receiver ↦
      (Matches.mapM hargs fun _ _ ↦ .typeOf).bind fun args ↦ .refl _

/-- Every standard rule reads the shape for its kind and, of that, only what alike expressions have
in common. -/
theorem matches_standard {rule : Rule} (h : rule ∈ standard) (hkind : rule.kind = e.kind)
    (halike : e.Alike e') : Matches Expr.Alike (rule.apply e) (rule.apply e') := by
  cases h using standard_cases with
  | literal => exact matches_literal hkind halike
  | binary => exact matches_binary hkind halike
  | list => exact matches_list hkind halike
  | map => exact matches_map hkind halike
  | property => exact matches_property hkind halike
  | elvis => exact matches_elvis hkind halike
  | interpolation => exact matches_interpolation hkind halike
  | closure => exact matches_closure halike
  | ternary => exact matches_ternary hkind halike
  | ident => exact matches_ident hkind halike
  | call => exact matches_call hkind halike
  | construction => exact matches_construction hkind halike
  | cast => exact matches_cast hkind halike
  | unary => exact matches_unary hkind halike
  | range => exact matches_range hkind halike

end Rule

/-! ## Inference -/

namespace Registry

theorem matches_calculate {e e' : Expr} (halike : e.Alike e') :
    (standard.calculate e).Matches Expr.Alike (standard.calculate e') := by
  have hkind : e.kind = e'.kind := by
    obtain ⟨hkind, _⟩ := halike
    exact hkind
  by_cases hclaimed : ∃ rule ∈ Rule.standard, rule.kind = e.kind
  · obtain ⟨rule, hrule, hclaims⟩ := hclaimed
    rw [calculate_standard hrule hclaims, calculate_standard hrule (hclaims.trans hkind), hkind]
    exact (Rule.matches_standard hrule hclaims halike).bind fun answer ↦ .refl _
  · have hlookup : standard.groups.lookup e.kind = none :=
      lookup_ofRules_eq_none (by simpa using hclaimed)
    simp only [calculate, ← hkind, hlookup]
    exact .refl _

/-- With the standard rules every question about an expression goes to one of the parts, so the
types of the parts are found by inference alone. -/
theorem infer_standard (environment : Environment) (e : Expr) :
    standard.infer environment e = (do
      Traced.record (.typeOf e) ()
      (standard.calculate e).run (environment.answer (standard.infer environment))) := by
  rw [infer_eq]
  refine bind_congr fun _ ↦ Inquiry.run_answer_congr environment fun part hpart ↦ ?_
  exact inferPart_of_mem_children standard environment
    ((subjects_calculate_standard _ e).subset hpart)

/-- Alike expressions have the same type, and it is found by the same questions: of the expressions
whose types are asked for, each is like its counterpart. The induction goes down `e` alone, and `e'`
follows it through the relation. -/
theorem infer_matches_of_alike (environment : Environment) (e e' : Expr) (halike : e.Alike e') :
    (standard.infer environment e).Matches Expr.Alike (standard.infer environment e') := by
  induction e using Expr.induction_children generalizing e' with
  | node e ih =>
    rw [infer_standard, infer_standard]
    refine Traced.Matches.bind ⟨rfl, .cons (.typeOf halike) .nil⟩ ?_
    refine (matches_calculate halike).run environment fun part hpart part' hpart' ↦ ?_
    exact ih part ((subjects_calculate_standard _ e).subset hpart) part' hpart'

/-- Two expressions with nothing in common at the unread positions: the condition, operands of each
sort of operator, the values of an interpolation, shapes in front of the reading. -/
theorem infer_matches_of_unread_parts_replaced :
    let tree (unread : Expr) (number : Int32) (text : String) (others : List (Shape Expr)) : Expr :=
      let read : Expr := .single .literal (.literal (.int number))
      let xs : Expr := .single .ident (.ident "xs")
      let operation (left : Expr) (operator : String) (right : Expr) : Expr :=
        .node .binary (others ++ [.binary ⟨left, operator, right⟩])
      .single .ternary (.ternary ⟨unread,
        .single .list (.list [operation unread "=" read, operation unread "==" unread,
          operation read "<<=" unread, operation xs "[" unread, operation unread "unless" unread,
          .single .unary (.unary ⟨"!", unread⟩)]),
        .single .interpolation (.interpolation ⟨some [text], some [unread, unread]⟩)⟩)
    let e := tree (.single .ident (.ident "p")) 1 "a" []
    let e' := tree (.single .construction (.construction "Point")) 2 "b" [.ident "q", .list []]
    let environment := Declarations.environment {}
    e.Alike e' ∧
      (standard.infer environment e).Matches Expr.Alike (standard.infer environment e') := by
  intro tree e e' environment
  have hread : Expr.Alike (.single .literal (.literal (.int 1)))
      (.single .literal (.literal (.int 2))) := .node rfl (.some (.literal (.int 1 2)))
  have hoperation {operator : String} {left right left' right' : Expr}
      (hleft : (OperatorClass.of? operator).any OperatorClass.readsLeft → left.Alike left')
      (hright : (OperatorClass.of? operator).any OperatorClass.readsRight → right.Alike right') :
      Expr.Alike (.node .binary [.binary ⟨left, operator, right⟩])
        (.node .binary [.ident "q", .list [], .binary ⟨left', operator, right'⟩]) :=
    .node rfl (.some (.binary hleft hright))
  have hunread {P Q : Prop} (hP : ¬P) : P → Q := fun h ↦ absurd h hP
  have halike : e.Alike e' := by
    refine .node rfl (.some (.ternary (.node rfl (.some (.list ?elements)))
      (.node rfl (.some (.interpolation rfl rfl)))))
    exact .cons (hoperation (hunread (by decide +kernel)) fun _ ↦ hread) <|
      .cons (hoperation (hunread (by decide +kernel)) (hunread (by decide +kernel))) <|
      .cons (hoperation (fun _ ↦ hread) (hunread (by decide +kernel))) <|
      .cons (hoperation (fun _ ↦ .refl _) (hunread (by decide +kernel))) <|
      .cons (hoperation (hunread (by decide +kernel)) (hunread (by decide +kernel))) <|
      .cons (.node rfl (.some (.unary (hunread (by decide +kernel))))) .nil
  exact ⟨halike, infer_matches_of_alike environment e e' halike⟩

end Registry

end ExprTyping
