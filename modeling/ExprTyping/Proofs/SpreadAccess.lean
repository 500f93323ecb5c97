import ExprTyping.Declarations
import ExprTyping.Proofs.NodeType

/-!
# Spread access

A property or a method can be asked of a receiver or, in the spread form, of each of its elements.
Both forms type the receiver and the arguments first. What they look up then depends on a type
alone, that of the receiver or that of its elements, so the spread form is the plain form on an
element, with its answer made into a list.
-/

namespace ExprTyping

inductive Member where
  | property (name : String)
  | call (name : String) (args : List Expr)

namespace Member

def rule : Member → Rule
  | property _ => Rule.property
  | call _ _ => Rule.call

def args : Member → List Expr
  | property _ => []
  | call _ args => args

def AskedBy (member : Member) (receiver : Expr) (spread : Bool) (e : Expr) : Prop :=
  match member with
  | property name => e.property? = some ⟨some receiver, name, spread⟩
  | call name args => e.call? = some ⟨some receiver, name, args, spread⟩

section Context

variable (environment : Environment) (typeOf : Expr → Traced Ty)

/-- The questions that come up while the receiver and the arguments are typed. -/
def evaluation (member : Member) (receiver : Expr) : List Query :=
  (receiver :: member.args).flatMap fun part ↦ (typeOf part).queries

def argTypes (member : Member) : List Ty := member.args.map fun arg ↦ (typeOf arg).value

/-- The type of the member for a receiver of type `ty`. A property is a declared field, the value of
a map entry, or anything if the receiver is; an undeclared method is an error or anything. -/
def answer? (ty : Ty) : Member → Option Ty
  | property name =>
    environment.field? ty name <|> ty.mapValue? <|>
      if ty.isDynamic then some (.dynamic (some name)) else none
  | call name args =>
    environment.method? ty name ((call name args).argTypes typeOf) <|>
      some (if environment.isStatic then .unknown "unresolved method" else .dynamic (some name))

def lookups (ty : Ty) : Member → List Query
  | property name => [.field ty name]
  | call name args =>
    let argTypes := (call name args).argTypes typeOf
    .method ty name argTypes ::
      if (environment.method? ty name argTypes).isSome then [] else [.isStatic]

end Context

/-! ## Runs of the two rules -/

def access (argTypes : List Ty) : Member → Ty → Inquiry (Option Ty)
  | property name => Rule.propertyOf name
  | call name _ => Rule.methodOf name argTypes

section Runs

variable (environment : Environment) (typeOf : Expr → Traced Ty) {member : Member}
  {receiver e : Expr}

/-- Once the arguments are typed, what is looked up depends on one type alone. -/
theorem run_access (member : Member) (ty : Ty) :
    (member.access (member.argTypes typeOf) ty).run (environment.answer typeOf) =
      ⟨member.answer? environment typeOf ty, member.lookups environment typeOf ty⟩ := by
  cases member with
  | property name =>
    simp only [access, Rule.propertyOf, answer?, lookups]
    cases hfield : environment.field? ty name <;>
      simp [Inquiry.field?, Environment.answer, hfield, Traced.ext_iff]
  | call name args =>
    simp only [access, Rule.methodOf, answer?, lookups]
    cases hmethod : environment.method? ty name ((call name args).argTypes typeOf) <;>
      cases hstatic : environment.isStatic <;>
      simp [Inquiry.method?, Inquiry.undeclared, Inquiry.isStatic, Environment.answer, hmethod,
        hstatic, Traced.ext_iff]

theorem queries_run_typeOf (e : Expr) :
    ((Inquiry.typeOf e).run (environment.answer typeOf)).queries = (typeOf e).queries :=
  List.append_nil (typeOf e).queries

theorem queries_run_mapM_typeOf (es : List Expr) :
    ((es.mapM Inquiry.typeOf).run (environment.answer typeOf)).queries =
      es.flatMap fun e ↦ (typeOf e).queries := by
  induction es with
  | nil => simp
  | cons e es ih =>
    rw [List.mapM_cons, Inquiry.run_bind, Traced.queries_bind, Inquiry.run_bind,
      Traced.queries_bind, ih, queries_run_typeOf]
    simp

/-- The receiver and the arguments are typed before anything is looked up, in either form. -/
theorem run_apply {spread : Bool} (h : member.AskedBy receiver spread e) :
    (member.rule.apply e).run (environment.answer typeOf) =
      let looked := (Rule.spreading spread (typeOf receiver).value
        (member.access (member.argTypes typeOf))).run (environment.answer typeOf)
      ⟨looked.value, member.evaluation typeOf receiver ++ looked.queries⟩ := by
  cases member with
  | property name =>
    simp only [rule, Rule.property, Rule.byShape_of_eq_some h, Rule.receiverTy]
    ext1 <;> simp [evaluation, args, access, queries_run_typeOf]
  | call name args =>
    simp only [rule, Rule.call, Rule.byShape_of_eq_some h, Rule.receiverTy]
    ext1 <;> simp [evaluation, Member.args, access, argTypes, queries_run_typeOf,
      queries_run_mapM_typeOf]

theorem run_plain (h : member.AskedBy receiver false e) :
    (member.rule.apply e).run (environment.answer typeOf) =
      let ty := (typeOf receiver).value
      ⟨member.answer? environment typeOf ty,
        member.evaluation typeOf receiver ++ member.lookups environment typeOf ty⟩ := by
  rw [run_apply environment typeOf h]
  simp only [Rule.spreading, Bool.false_eq_true, if_false, run_access]

theorem run_spread_of_element?_eq_none (h : member.AskedBy receiver true e)
    (hnone : (typeOf receiver).value.element? = none) :
    (member.rule.apply e).run (environment.answer typeOf) =
      ⟨none, member.evaluation typeOf receiver⟩ := by
  rw [run_apply environment typeOf h]
  simp [Rule.spreading, hnone]

theorem run_spread_of_element?_eq_some (h : member.AskedBy receiver true e) {element : Ty}
    (hsome : (typeOf receiver).value.element? = some element) :
    (member.rule.apply e).run (environment.answer typeOf) =
      ⟨(member.answer? environment typeOf element).map (Ty.listOf ·.boxed),
        member.evaluation typeOf receiver ++ member.lookups environment typeOf element⟩ := by
  rw [run_apply environment typeOf h]
  simp [Rule.spreading, hsome, run_access]

end Runs

/-- The spread form declines on a receiver without elements, with nothing looked up. Otherwise it
asks what the plain form asks of a receiver that has the type of the elements, and makes a list of
the answer. -/
theorem spread_maps_plain (environment : Environment) (typeOf : Expr → Traced Ty) (member : Member)
    {receiver e : Expr} (he : member.AskedBy receiver true e) :
    let run (node : Expr) := (member.rule.apply node).run (environment.answer typeOf)
    ((typeOf receiver).value.element? = none →
      run e = ⟨none, member.evaluation typeOf receiver⟩) ∧
      ∀ element receiver' e', (typeOf receiver).value.element? = some element →
        member.AskedBy receiver' false e' → (typeOf receiver').value = element →
        (run e).value = (run e').value.map (Ty.listOf ·.boxed) ∧
          ((run e).value = none ↔ (run e').value = none) ∧
          (run e').value = member.answer? environment typeOf element ∧
          (run e).queries =
            member.evaluation typeOf receiver ++ member.lookups environment typeOf element ∧
          (run e').queries =
            member.evaluation typeOf receiver' ++ member.lookups environment typeOf element := by
  refine ⟨run_spread_of_element?_eq_none environment typeOf he, ?_⟩
  rintro element receiver' e' helement he' rfl
  have hspread := run_spread_of_element?_eq_some environment typeOf he helement
  have hplain := run_plain environment typeOf he'
  simp only [hspread, hplain, Option.map_eq_none_iff, and_self]

/-- In a program with a list `rows` of maps, a map `row` of the same type and a number `count`. -/
theorem spread_over_rows :
    let entry := Ty.mapOf .string .int
    let symbols :=
      [⟨"rows", .local, .listOf entry⟩, ⟨"row", .local, entry⟩, ⟨"count", .local, .int⟩]
    let environment := Declarations.environment { symbols }
    let typeOf := Registry.standard.infer environment
    let named name := Expr.single .ident (.ident name)
    let size receiver spread := Expr.single .property (.property ⟨some receiver, "size", spread⟩)
    let run e := (Rule.property.apply e).run (environment.answer typeOf)
    (∀ receiver spread, (property "size").AskedBy receiver spread (size receiver spread)) ∧
      (typeOf (named "rows")).value.element? = some entry ∧ (typeOf (named "row")).value = entry ∧
      (typeOf (named "count")).value.element? = none ∧
      (run (size (named "row") false)).value = some .int ∧
      (run (size (named "rows") true)).value = some (.listOf (.ofClass ClassName.integer)) ∧
      (run (size (named "count") true)).value = none := by
  intro entry symbols environment typeOf named size run
  have hasked : ∀ receiver spread,
      (property "size").AskedBy receiver spread (size receiver spread) := fun _ _ ↦ rfl
  have hnamed (name : String) {symbol : Symbol} (hname : Rule.isSelfReference name = false)
      (hsymbol : environment.symbol? name = some symbol) :
      (typeOf (named name)).value = symbol.ty := Registry.value_infer_ident hname hsymbol
  have hrow : (typeOf (named "row")).value = entry := hnamed "row" (by decide) rfl
  have hrows : (typeOf (named "rows")).value = .listOf entry := hnamed "rows" (by decide) rfl
  have hcount : (typeOf (named "count")).value = .int := hnamed "count" (by decide) rfl
  have helement : (typeOf (named "rows")).value.element? = some entry := by
    rw [hrows]
    exact if_pos (by decide +kernel)
  have hnone : (typeOf (named "count")).value.element? = none := by
    rw [hcount]
    rfl
  have hvalue : (property "size").answer? environment typeOf entry = some .int := by
    have hmap : entry.mapValue? = some .int := if_pos (by decide +kernel)
    have hfield : environment.field? entry "size" = none := rfl
    simp only [answer?, hfield, hmap]
    rfl
  obtain ⟨hspread, -, hplain, -⟩ :=
    (spread_maps_plain environment typeOf (property "size") (hasked (named "rows") true)).2
      entry _ _ helement (hasked (named "row") false) hrow
  have hdeclined :=
    (spread_maps_plain environment typeOf (property "size") (hasked (named "count") true)).1 hnone
  refine ⟨hasked, helement, hrow, hnone, hplain.trans hvalue, ?_, congrArg Traced.value hdeclined⟩
  rw [hplain, hvalue] at hspread
  exact hspread

end Member

end ExprTyping
