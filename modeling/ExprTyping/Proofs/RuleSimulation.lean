import ExprTyping.Proofs.Simulation
import ExprTyping.Proofs.TypeRelation

/-!
# The standard rules, run side by side

Each standard rule, applied to one node in two runs, asks corresponding questions about that node
and comes to related answers. One case for each rule; declining is an answer like any other.
-/

namespace ExprTyping.Rule

open Inquiry (Related)

variable {R : Ty → Ty → Prop} {static : Bool} {e : Expr}

/-- Both runs find the same shape, or decline. -/
theorem related_byShape {α : Type} {accessor : Expr → Option α}
    {infer : α → Inquiry (Option Ty)}
    (h : ∀ shape, accessor e = some shape →
      Related R static e (Option.Rel R) (infer shape) (infer shape)) :
    Related R static e (Option.Rel R) (byShape accessor infer e) (byShape accessor infer e) := by
  unfold byShape
  split
  next shape hshape => exact h shape hshape
  · exact .done .none

theorem related_construction :
    Related R static e (Option.Rel R) (construction.apply e) (construction.apply e) := by
  refine related_byShape fun target htarget ↦ ?_
  have hmem : target ∈ e.typeNames :=
    List.mem_filterMap.2 ⟨_, Expr.mem_shapes_of_construction? htarget, rfl⟩
  exact (Related.resolve hmem).bind fun _ _ h ↦ .done (.some h)

variable (hR : Ty.Compatible R static)

include hR

/-! ## Values -/

theorem related_literal :
    Related R static e (Option.Rel R) (literal.apply e) (literal.apply e) := by
  refine related_byShape fun value _ ↦ .done (.some ?_)
  cases value with
  | null => exact hR.null
  | boolean | byte | char | short | int | long | float | double => exact hR.primitive _
  | bigInteger | bigDecimal | string => exact hR.ofClass _

theorem related_interpolation :
    Related R static e (Option.Rel R) (interpolation.apply e) (interpolation.apply e) := by
  refine related_byShape fun shape _ ↦ ?_
  split
  · exact .done (.some (hR.ofClass _))
  · exact .done .none

theorem related_closure :
    Related R static e (Option.Rel R) (closure.apply e) (closure.apply e) := by
  refine .done ?_
  split
  · exact .some (hR.ofClass _)
  · exact .none

/-- An undeclared name is dynamic only if names are not bound statically, where dynamic types are
related to themselves. -/
theorem related_undeclared (reason name : String) :
    Related R static e R (Inquiry.undeclared reason name) (Inquiry.undeclared reason name) := by
  refine Related.isStatic.bind ?_
  rintro _ _ ⟨rfl, rfl⟩
  split
  · exact .done (hR.unknown reason)
  next h => exact .done (hR.dynamic (by simpa using h) (some name))

theorem related_ident : Related R static e (Option.Rel R) (ident.apply e) (ident.apply e) := by
  refine related_byShape fun name hname ↦ ?_
  have hmem : name ∈ e.variableNames :=
    List.mem_filterMap.2 ⟨_, Expr.mem_shapes_of_ident? hname, rfl⟩
  split
  · exact .done .none
  · refine (Related.symbol? hmem).bind fun x y hxy ↦ ?_
    cases hxy with
    | some h => exact .done (.some h)
    | none => exact (related_undeclared hR _ name).bind fun _ _ h ↦ .done (.some h)

/-! ## Operators -/

/-- The class of the operator decides which operands are asked about, in both runs. -/
theorem related_inferBinary {left right : Expr} (hleft : left ∈ e.children)
    (hright : right ∈ e.children) (c : OperatorClass) :
    Related R static e (Option.Rel R) (inferBinary left right c) (inferBinary left right c) := by
  cases c with
  | boolean | compare => exact .done (.some (hR.primitive _))
  | findRegex => exact .done (.some (hR.ofClass _))
  | assign => exact (Related.typeOf hright).bind fun _ _ h ↦ .done (.some h)
  | plus =>
    refine (Related.typeOf hleft).bind fun _ _ hl ↦ (Related.typeOf hright).bind fun _ _ hr ↦ ?_
    exact .done (.some (hR.sumTy hl hr))
  | arithmetic =>
    refine (Related.typeOf hleft).bind fun _ _ hl ↦ (Related.typeOf hright).bind fun _ _ hr ↦ ?_
    exact .done (.some (hR.lub2 hl hr))
  | shift => exact (Related.typeOf hleft).bind fun _ _ h ↦ .done (.some (hR.promoted h))
  | subscript => exact (Related.typeOf hleft).bind fun _ _ h ↦ .done (hR.subscriptTy? h)

theorem related_binary : Related R static e (Option.Rel R) (binary.apply e) (binary.apply e) := by
  refine related_byShape fun shape hshape ↦ ?_
  have hmem := Expr.mem_shapes_of_binary? hshape
  split
  · exact related_inferBinary hR (Expr.mem_children_of_mem_shapes hmem (by simp [Shape.children]))
      (Expr.mem_children_of_mem_shapes hmem (by simp [Shape.children])) _
  · exact .done .none

theorem related_unary : Related R static e (Option.Rel R) (unary.apply e) (unary.apply e) := by
  refine related_byShape fun shape hshape ↦ ?_
  have hoperand : shape.operand ∈ e.children :=
    Expr.mem_children_of_mem_shapes (Expr.mem_shapes_of_unary? hshape) (by simp [Shape.children])
  split
  · exact .done (.some (hR.primitive _))
  · split
    · exact (Related.typeOf hoperand).bind fun _ _ h ↦ .done (.some (hR.promoted h))
    · split
      · exact (Related.typeOf hoperand).bind fun _ _ h ↦ .done (.some h)
      · exact .done .none

theorem related_cast : Related R static e (Option.Rel R) (cast.apply e) (cast.apply e) := by
  refine related_byShape fun shape hshape ↦ ?_
  have hmem := Expr.mem_shapes_of_cast? hshape
  have htarget : shape.target ∈ e.typeNames := List.mem_filterMap.2 ⟨_, hmem, rfl⟩
  have hoperand : shape.operand ∈ e.children :=
    Expr.mem_children_of_mem_shapes hmem (by simp [Shape.children])
  refine (Related.resolve htarget).bind fun a b hab ↦ ?_
  rw [Ty.isUnknown_eq_of_beq (hR.beq hab)]
  split
  · exact (Related.typeOf hoperand).bind fun _ _ h ↦ .done (.some h)
  · exact .done (.some hab)

/-! ## Alternatives and collections -/

theorem related_inferEither {a b : Expr} (ha : a ∈ e.children) (hb : b ∈ e.children) :
    Related R static e (Option.Rel R) (inferEither a b) (inferEither a b) := by
  refine (Related.typeOf ha).bind fun _ _ hx ↦ (Related.typeOf hb).bind fun _ _ hy ↦ ?_
  exact .done (.some (hR.lub2 hx hy))

theorem related_elvis : Related R static e (Option.Rel R) (elvis.apply e) (elvis.apply e) := by
  refine related_byShape fun shape hshape ↦ ?_
  have hmem := Expr.mem_shapes_of_elvis? hshape
  exact related_inferEither hR (Expr.mem_children_of_mem_shapes hmem (by simp [Shape.children]))
    (Expr.mem_children_of_mem_shapes hmem (by simp [Shape.children]))

theorem related_ternary :
    Related R static e (Option.Rel R) (ternary.apply e) (ternary.apply e) := by
  refine related_byShape fun shape hshape ↦ ?_
  have hmem := Expr.mem_shapes_of_ternary? hshape
  exact related_inferEither hR (Expr.mem_children_of_mem_shapes hmem (by simp [Shape.children]))
    (Expr.mem_children_of_mem_shapes hmem (by simp [Shape.children]))

theorem related_list : Related R static e (Option.Rel R) (list.apply e) (list.apply e) := by
  refine related_byShape fun elements helements ↦ ?_
  have hmem := Expr.mem_shapes_of_list? helements
  refine (Related.mapM fun element helement ↦ Related.typeOf
    (Expr.mem_children_of_mem_shapes hmem helement)).bind fun as bs h ↦ ?_
  exact .done (.some (hR.listOf (hR.elementArgument h)))

/-- The keys and the values are joined in separate lists, which are related one by one. -/
theorem related_map : Related R static e (Option.Rel R) (map.apply e) (map.apply e) := by
  refine related_byShape fun entries hentries ↦ ?_
  have hmem := Expr.mem_shapes_of_map? hentries
  have hchild {entry : Expr × Expr} (hentry : entry ∈ entries) {child : Expr}
      (hchild : child ∈ [entry.1, entry.2]) : child ∈ e.children :=
    Expr.mem_children_of_mem_shapes hmem (List.mem_flatMap.2 ⟨entry, hentry, hchild⟩)
  have hentry : ∀ entry ∈ entries,
      Related R static e (fun p q : Ty × Ty ↦ R p.1 q.1 ∧ R p.2 q.2)
        (do
          let key ← Inquiry.typeOf entry.1
          let value ← Inquiry.typeOf entry.2
          return (key, value))
        (do
          let key ← Inquiry.typeOf entry.1
          let value ← Inquiry.typeOf entry.2
          return (key, value)) := by
    intro entry hentry
    refine (Related.typeOf (hchild hentry (by simp))).bind fun _ _ hkey ↦ ?_
    refine (Related.typeOf (hchild hentry (by simp))).bind fun _ _ hvalue ↦ ?_
    exact .done ⟨hkey, hvalue⟩
  refine (Related.mapM hentry).bind fun ps qs h ↦ .done (.some (hR.known_iff.2 ?_))
  have hkeys : List.Forall₂ R (ps.map (·.1)) (qs.map (·.1)) := by
    rw [List.forall₂_map_left_iff, List.forall₂_map_right_iff]
    exact h.imp fun _ _ hpq ↦ hpq.1
  have hvalues : List.Forall₂ R (ps.map (·.2)) (qs.map (·.2)) := by
    rw [List.forall₂_map_left_iff, List.forall₂_map_right_iff]
    exact h.imp fun _ _ hpq ↦ hpq.2
  exact .cons (hR.elementArgument hkeys) (.cons (hR.elementArgument hvalues) .nil)

theorem related_range : Related R static e (Option.Rel R) (range.apply e) (range.apply e) := by
  refine related_byShape fun shape hshape ↦ ?_
  have hmem := Expr.mem_shapes_of_range? hshape
  refine (Related.typeOf (Expr.mem_children_of_mem_shapes hmem
    (by simp [Shape.children]))).bind fun _ _ hfirst ↦ ?_
  refine (Related.typeOf (Expr.mem_children_of_mem_shapes hmem
    (by simp [Shape.children]))).bind fun _ _ hlast ↦ ?_
  exact .done (.some (hR.rangeTy hfirst hlast))

/-! ## Members -/

theorem related_receiverTy {receiver : Option Expr} (h : ∀ part ∈ receiver, part ∈ e.children) :
    Related R static e R (receiverTy receiver) (receiverTy receiver) := by
  cases receiver with
  | none => exact .done (hR.unknown _)
  | some part => exact Related.typeOf (h part rfl)

/-- Related receivers both have elements, which are related, or neither has any. -/
theorem related_spreading {spread : Bool} {a b : Ty} (hab : R a b)
    {access access' : Ty → Inquiry (Option Ty)}
    (haccess : ∀ a b, R a b → Related R static e (Option.Rel R) (access a) (access' b)) :
    Related R static e (Option.Rel R) (spreading spread a access) (spreading spread b access') := by
  unfold spreading
  split
  · have helements := hR.element? hab
    generalize a.element? = x at helements ⊢
    generalize b.element? = y at helements ⊢
    cases helements with
    | none => exact .done .none
    | some helement =>
      refine (haccess _ _ helement).bind fun x y hxy ↦ .done ?_
      cases hxy with
      | none => exact .none
      | some h => exact .some (hR.listOf (hR.boxed h))
  · exact haccess a b hab

theorem related_propertyOf {name : String} (hname : name ∈ e.propertyNames) {a b : Ty}
    (hab : R a b) :
    Related R static e (Option.Rel R) (propertyOf name a) (propertyOf name b) := by
  refine (Related.field? hname hab).bind fun x y hxy ↦ ?_
  cases hxy with
  | some h => exact .done (.some h)
  | none => exact .done (Ty.rel_orElse (hR.mapValue? hab) (hR.dynamicIf hab (some name)))

theorem related_methodOf {name : String} (hname : name ∈ e.methodNames) {args args' : List Ty}
    (hargs : List.Forall₂ R args args') {a b : Ty} (hab : R a b) :
    Related R static e (Option.Rel R) (methodOf name args a) (methodOf name args' b) := by
  refine (Related.method? hname hab hargs).bind fun x y hxy ↦ ?_
  cases hxy with
  | some h => exact .done (.some h)
  | none => exact (related_undeclared hR _ name).bind fun _ _ h ↦ .done (.some h)

theorem related_property :
    Related R static e (Option.Rel R) (property.apply e) (property.apply e) := by
  refine related_byShape fun shape hshape ↦ ?_
  have hmem := Expr.mem_shapes_of_property? hshape
  have hname : shape.name ∈ e.propertyNames := List.mem_filterMap.2 ⟨_, hmem, rfl⟩
  refine (related_receiverTy hR fun part hpart ↦ Expr.mem_children_of_mem_shapes hmem
    (by simpa [Shape.children] using hpart)).bind fun a b hab ↦ ?_
  exact related_spreading hR hab fun _ _ h ↦ related_propertyOf hR hname h

theorem related_call : Related R static e (Option.Rel R) (call.apply e) (call.apply e) := by
  refine related_byShape fun shape hshape ↦ ?_
  have hmem := Expr.mem_shapes_of_call? hshape
  have hname : shape.name ∈ e.methodNames := List.mem_filterMap.2 ⟨_, hmem, rfl⟩
  refine (related_receiverTy hR fun part hpart ↦ Expr.mem_children_of_mem_shapes hmem
    (List.mem_append_left _ (by simpa using hpart))).bind fun a b hab ↦ ?_
  refine (Related.mapM fun arg harg ↦ Related.typeOf (Expr.mem_children_of_mem_shapes hmem
    (List.mem_append_right _ harg))).bind fun args args' hargs ↦ ?_
  exact related_spreading hR hab fun _ _ h ↦ related_methodOf hR hname hargs h

/-- Whichever standard rule a node is offered to, the two runs stay side by side. -/
theorem related_standard {rule : Rule} (h : rule ∈ standard) :
    Related R static e (Option.Rel R) (rule.apply e) (rule.apply e) := by
  cases h using standard_cases with
  | literal => exact related_literal hR
  | binary => exact related_binary hR
  | list => exact related_list hR
  | map => exact related_map hR
  | property => exact related_property hR
  | elvis => exact related_elvis hR
  | interpolation => exact related_interpolation hR
  | closure => exact related_closure hR
  | ternary => exact related_ternary hR
  | ident => exact related_ident hR
  | call => exact related_call hR
  | construction => exact related_construction
  | cast => exact related_cast hR
  | unary => exact related_unary hR
  | range => exact related_range hR

end ExprTyping.Rule
