import ExprTyping.Declarations
import ExprTyping.Proofs.NodeType
import ExprTyping.Proofs.ReferenceArguments

/-!
# Type arguments of inferred types

Rules box what they put into a class, so a node has a type with reference arguments if the joins
at the node do. Which lists of types are joined at a node is read off its kind and shape; what one
node does to its children then carries over to all parts of an expression.
-/

namespace ExprTyping

/-- The lists of types that are joined at a node, given the types of its children. -/
def Expr.joinedTypes (typeOf : Expr → Ty) (e : Expr) : List (List Ty) :=
  match e.kind with
  | .elvis => e.elvis?.toList.flatMap fun shape ↦ [[typeOf shape.primary, typeOf shape.fallback]]
  | .ternary => e.ternary?.toList.flatMap fun shape ↦
    [[typeOf shape.whenTrue, typeOf shape.whenFalse]]
  | .binary => e.binary?.toList.flatMap fun shape ↦
    match OperatorClass.of? shape.operator with
    | some .arithmetic => [[typeOf shape.left, typeOf shape.right]]
    | some .plus =>
      if (typeOf shape.left).isStringLike || (typeOf shape.right).isStringLike then []
      else [[typeOf shape.left, typeOf shape.right]]
    | _ => []
  | .list => e.list?.toList.flatMap fun elements ↦ [elements.map typeOf].filter (2 ≤ ·.length)
  | .map => e.map?.toList.flatMap fun entries ↦
    [entries.map (typeOf ·.1), entries.map (typeOf ·.2)].filter (2 ≤ ·.length)
  | .range => e.range?.toList.flatMap fun shape ↦
    if Rule.isIntBound (typeOf shape.first) && Rule.isIntBound (typeOf shape.last) then []
    else [[typeOf shape.first, typeOf shape.last]]
  | _ => []

/-- Nothing is joined at a node but types of its children. -/
theorem Expr.exists_child_of_mem_joinedTypes {typeOf : Expr → Ty} {e : Expr} {types : List Ty}
    (htypes : types ∈ e.joinedTypes typeOf) {ty : Ty} (hty : ty ∈ types) :
    ∃ child ∈ e.children, ty = typeOf child := by
  have hfrom {shape : Shape Expr} (hshape : shape ∈ e.shapes) {children : List Expr}
      (hchildren : children ⊆ shape.children) (hjoined : types = children.map typeOf) :
      ∃ child ∈ e.children, ty = typeOf child := by
    obtain ⟨child, hchild, rfl⟩ := List.mem_map.1 (hjoined ▸ hty)
    exact ⟨child, mem_children_of_mem_shapes hshape (hchildren hchild), rfl⟩
  unfold Expr.joinedTypes at htypes
  split at htypes
  · obtain ⟨shape, hshape, htypes⟩ := List.mem_flatMap.1 htypes
    rw [List.mem_singleton] at htypes
    exact hfrom (mem_shapes_of_elvis? (Option.mem_toList.1 hshape)) (List.Subset.refl _) htypes
  · obtain ⟨shape, hshape, htypes⟩ := List.mem_flatMap.1 htypes
    rw [List.mem_singleton] at htypes
    exact hfrom (mem_shapes_of_ternary? (Option.mem_toList.1 hshape))
      (List.subset_cons_self _ _) htypes
  · obtain ⟨shape, hshape, htypes⟩ := List.mem_flatMap.1 htypes
    have hpair : types = [shape.left, shape.right].map typeOf := by
      split at htypes
      · simpa using htypes
      · split at htypes
        · cases htypes
        · simpa using htypes
      · cases htypes
    exact hfrom (mem_shapes_of_binary? (Option.mem_toList.1 hshape)) (List.Subset.refl _) hpair
  · obtain ⟨elements, hshape, htypes⟩ := List.mem_flatMap.1 htypes
    have hlist : types = elements.map typeOf := by simpa using List.mem_of_mem_filter htypes
    exact hfrom (mem_shapes_of_list? (Option.mem_toList.1 hshape)) (List.Subset.refl _) hlist
  · obtain ⟨entries, hshape, htypes⟩ := List.mem_flatMap.1 htypes
    have hside (side : Expr × Expr → Expr) (hside : ∀ entry, side entry ∈ [entry.1, entry.2])
        (hjoined : types = entries.map fun entry ↦ typeOf (side entry)) :
        ∃ child ∈ e.children, ty = typeOf child := by
      have hsubset : entries.map side ⊆ (Shape.map entries).children := by
        intro child hchild
        obtain ⟨entry, hentry, rfl⟩ := List.mem_map.1 hchild
        exact List.mem_flatMap.2 ⟨entry, hentry, hside entry⟩
      refine hfrom (mem_shapes_of_map? (Option.mem_toList.1 hshape)) hsubset ?_
      rw [hjoined, List.map_map]
      rfl
    have hcolumn : types = entries.map (typeOf ·.1) ∨ types = entries.map (typeOf ·.2) := by
      simpa using List.mem_of_mem_filter htypes
    rcases hcolumn with hkeys | hvalues
    · exact hside (·.1) (by simp) hkeys
    · exact hside (·.2) (by simp) hvalues
  · obtain ⟨shape, hshape, htypes⟩ := List.mem_flatMap.1 htypes
    have hpair : types = [shape.first, shape.last].map typeOf := by
      split at htypes
      · cases htypes
      · simpa using htypes
    exact hfrom (mem_shapes_of_range? (Option.mem_toList.1 hshape)) (List.Subset.refl _) hpair
  · cases htypes

namespace Ty

/-! ## What rules make of types -/

theorem forall_mem_orElse {P : Ty → Prop} {x y : Option Ty} (hx : ∀ ty ∈ x, P ty)
    (hy : ∀ ty ∈ y, P ty) : ∀ ty ∈ (x <|> y), P ty := by
  cases x with
  | none => exact hy
  | some => exact hx

section Derived

variable {ty : Ty} (h : ty.ReferenceArgs)

include h

theorem ReferenceArgs.mapValue? : ∀ value ∈ ty.mapValue?, value.ReferenceArgs := by
  intro value hvalue
  unfold Ty.mapValue? at hvalue
  split at hvalue
  · split at hvalue
    · cases hvalue
      exact (h.of_mem_args (by simp [args])).2
    · cases hvalue
  · cases hvalue

theorem ReferenceArgs.element? : ∀ element ∈ ty.element?, element.ReferenceArgs := by
  intro element helement
  unfold Ty.element? at helement
  split at helement
  · cases helement
    exact referenceArgs_array_iff.1 h
  · split at helement
    · cases helement
      exact (h.of_mem_args (by simp [args])).2
    · cases helement
  · exact h.mapValue? element helement

theorem ReferenceArgs.subscriptTy? :
    ∀ element ∈ Rule.subscriptTy? ty, element.ReferenceArgs := by
  refine forall_mem_orElse ?_ ?_
  · unfold Ty.subscript?
    split
    · simp [string]
    · exact forall_mem_orElse h.mapValue? h.element?
  · split <;> simp

theorem ReferenceArgs.promoted : (Rule.promoted ty).ReferenceArgs := by
  unfold Rule.promoted Numeric.promoteUnary
  cases hpromote : Numeric.promote [ty] with
  | none => exact h
  | some result =>
    rcases Numeric.promote_cases hpromote with ⟨kind, rfl⟩ | ⟨name, rfl⟩
    · exact .primitive kind
    · exact referenceArgs_ofClass name

end Derived

@[simp] theorem referenceArgs_listOf_boxed_iff {ty : Ty} :
    (listOf ty.boxed).ReferenceArgs ↔ ty.ReferenceArgs := by
  rw [listOf, referenceArgs_known_iff, List.forall_mem_singleton]
  cases ty <;> simp [boxed, primitive?, ofClass, referenceArgs_known_iff]

@[simp] theorem primitive?_asArgument (ty : Ty) : (Rule.asArgument ty).primitive? = none := by
  cases ty <;> rfl

@[simp] theorem referenceArgs_asArgument_iff {ty : Ty} :
    (Rule.asArgument ty).ReferenceArgs ↔ ty.ReferenceArgs := by
  cases ty <;> simp [Rule.asArgument, isNull, boxed, object]

@[simp] theorem primitive?_elementArgument (types : List Ty) :
    (Rule.elementArgument types).primitive? = none := by
  unfold Rule.elementArgument
  split
  · exact primitive?_asArgument _
  · rfl

/-- At least two elements are joined; a single one is boxed as it is. -/
theorem referenceArgs_elementArgument_iff {types : List Ty} (h : ∀ ty ∈ types, ty.ReferenceArgs) :
    (Rule.elementArgument types).ReferenceArgs ↔
      (2 ≤ types.length → (join types).ReferenceArgs) := by
  match types with
  | [] => simp [Rule.elementArgument, lub, object]
  | [ty] => simpa [Rule.elementArgument, lub] using h
  | _ :: _ :: _ => simp [Rule.elementArgument, lub]

end Ty

/-! ## One node -/

namespace Rule

variable {environment : Environment} {typeOf : Expr → Traced Ty} {e : Expr} {rule : Rule}

def KeepsReferenceArgs (environment : Environment) (typeOf : Expr → Traced Ty) (e : Expr)
    (rule : Rule) : Prop :=
  (∀ ty ∈ ((rule.apply e).run (environment.answer typeOf)).value, ty.ReferenceArgs) ↔
    ∀ types ∈ e.joinedTypes fun part ↦ (typeOf part).value, (Ty.join types).ReferenceArgs

/-- A rule that reads one shape is judged by what it does there: a node without the shape is
declined and has no joins. -/
theorem keepsReferenceArgs_byShape {σ : Type} {accessor : Expr → Option σ}
    {infer : σ → Inquiry (Option Ty)} {joined : σ → List (List Ty)}
    (happly : rule.apply = byShape accessor infer)
    (hjoined : (e.joinedTypes fun part ↦ (typeOf part).value) =
      (accessor e).toList.flatMap joined)
    (h : ∀ shape, accessor e = some shape →
      ((∀ ty ∈ ((infer shape).run (environment.answer typeOf)).value, ty.ReferenceArgs) ↔
        ∀ types ∈ joined shape, (Ty.join types).ReferenceArgs)) :
    rule.KeepsReferenceArgs environment typeOf e := by
  rw [KeepsReferenceArgs, happly, hjoined, Inquiry.value_run_byShape]
  cases hshape : accessor e with
  | none => simp
  | some shape => simpa using h shape hshape

theorem keepsReferenceArgs_of_no_join {σ : Type} {accessor : Expr → Option σ}
    {infer : σ → Inquiry (Option Ty)} (happly : rule.apply = byShape accessor infer)
    (hjoined : (e.joinedTypes fun part ↦ (typeOf part).value) = [])
    (h : ∀ shape, accessor e = some shape →
      ∀ ty ∈ ((infer shape).run (environment.answer typeOf)).value, ty.ReferenceArgs) :
    rule.KeepsReferenceArgs environment typeOf e := by
  have hflat : (accessor e).toList.flatMap (fun _ ↦ ([] : List (List Ty))) = [] := by simp
  refine keepsReferenceArgs_byShape happly (hjoined.trans hflat.symm) fun shape hshape ↦ ?_
  simpa using h shape hshape

/-! ### Rules that take nothing from elsewhere -/

theorem keepsReferenceArgs_literal (hkind : e.kind = .literal) :
    literal.KeepsReferenceArgs environment typeOf e := by
  refine keepsReferenceArgs_of_no_join rfl (by rw [Expr.joinedTypes, hkind]) fun value _ ↦ ?_
  cases value <;> simp [Literal.ty, Ty.string]

theorem keepsReferenceArgs_interpolation (hkind : e.kind = .interpolation) :
    interpolation.KeepsReferenceArgs environment typeOf e := by
  refine keepsReferenceArgs_of_no_join rfl (by rw [Expr.joinedTypes, hkind]) fun shape _ ↦ ?_
  split <;> simp

theorem keepsReferenceArgs_closure (hkind : e.kind = .closure) :
    closure.KeepsReferenceArgs environment typeOf e := by
  simp [KeepsReferenceArgs, closure, Expr.joinedTypes, hkind]

theorem keepsReferenceArgs_elvis (hkind : e.kind = .elvis) :
    elvis.KeepsReferenceArgs environment typeOf e := by
  refine keepsReferenceArgs_byShape rfl (by rw [Expr.joinedTypes, hkind]) fun shape _ ↦ ?_
  simp [inferEither, Ty.lub2]

theorem keepsReferenceArgs_ternary (hkind : e.kind = .ternary) :
    ternary.KeepsReferenceArgs environment typeOf e := by
  refine keepsReferenceArgs_byShape rfl (by rw [Expr.joinedTypes, hkind]) fun shape _ ↦ ?_
  simp [inferEither, Ty.lub2]

theorem keepsReferenceArgs_range (hkind : e.kind = .range) :
    range.KeepsReferenceArgs environment typeOf e := by
  refine keepsReferenceArgs_byShape rfl (by rw [Expr.joinedTypes, hkind]) fun shape _ ↦ ?_
  change (∀ ty ∈ some (rangeTy (typeOf shape.first).value (typeOf shape.last).value),
    ty.ReferenceArgs) ↔ _
  cases hbounds : isIntBound (typeOf shape.first).value && isIntBound (typeOf shape.last).value with
  | true =>
    simp only [rangeTy, hbounds]
    simp
  | false =>
    simp only [rangeTy, hbounds]
    simp [Ty.referenceArgs_known_iff, Ty.lub2]

theorem referenceArgs_undeclared (environment : Environment) (typeOf : Expr → Traced Ty)
    (reason name : String) :
    ((Inquiry.undeclared reason name).run (environment.answer typeOf)).value.ReferenceArgs := by
  rw [Inquiry.value_run_undeclared]
  split <;> simp

/-- A spread access boxes what it puts into a list. -/
theorem referenceArgs_spreading (spread : Bool) {receiver : Ty} (h : receiver.ReferenceArgs)
    {access : Ty → Inquiry (Option Ty)}
    (haccess : ∀ receiver, receiver.ReferenceArgs →
      ∀ ty ∈ ((access receiver).run (environment.answer typeOf)).value, ty.ReferenceArgs) :
    ∀ ty ∈ ((spreading spread receiver access).run (environment.answer typeOf)).value,
      ty.ReferenceArgs := by
  unfold spreading
  split
  · cases helement : receiver.element? with
    | none => simp
    | some element =>
      have hmember := haccess element (h.element? element helement)
      simpa using hmember
  · exact haccess receiver h

/-! ### Rules that ask the environment -/

section Environment

variable (henv : environment.Answers Ty.ReferenceArgs)

include henv

theorem keepsReferenceArgs_construction (hkind : e.kind = .construction) :
    construction.KeepsReferenceArgs environment typeOf e := by
  refine keepsReferenceArgs_of_no_join rfl (by rw [Expr.joinedTypes, hkind]) fun target _ ↦ ?_
  simpa using henv.resolve target

theorem keepsReferenceArgs_ident (hkind : e.kind = .ident) :
    ident.KeepsReferenceArgs environment typeOf e := by
  refine keepsReferenceArgs_of_no_join rfl (by rw [Expr.joinedTypes, hkind]) fun name _ ↦ ?_
  split
  · simp
  · cases hsymbol : environment.symbol? name with
    | none => simpa [hsymbol] using referenceArgs_undeclared environment typeOf _ name
    | some symbol => simpa [hsymbol] using henv.symbol? name symbol hsymbol

theorem referenceArgs_propertyOf (name : String) {receiver : Ty} (h : receiver.ReferenceArgs) :
    ∀ ty ∈ ((propertyOf name receiver).run (environment.answer typeOf)).value,
      ty.ReferenceArgs := by
  simp only [propertyOf, Inquiry.run_bind, Traced.value_bind, Inquiry.value_run_field?]
  cases hfield : environment.field? receiver name with
  | some ty => simpa using henv.field? receiver name ty hfield
  | none =>
    refine Ty.forall_mem_orElse h.mapValue? ?_
    split <;> simp

theorem referenceArgs_methodOf (name : String) (args : List Ty) (receiver : Ty) :
    ∀ ty ∈ ((methodOf name args receiver).run (environment.answer typeOf)).value,
      ty.ReferenceArgs := by
  simp only [methodOf, Inquiry.run_bind, Traced.value_bind, Inquiry.value_run_method?]
  cases hmethod : environment.method? receiver name args with
  | some ty => simpa using henv.method? receiver name args ty hmethod
  | none => simpa using referenceArgs_undeclared environment typeOf _ name

end Environment

/-! ### Rules that need the types of children -/

section Children

variable (hchildren : ∀ child ∈ e.children, (typeOf child).value.ReferenceArgs)

include hchildren

theorem keepsReferenceArgs_list (hkind : e.kind = .list) :
    list.KeepsReferenceArgs environment typeOf e := by
  refine keepsReferenceArgs_byShape rfl (by rw [Expr.joinedTypes, hkind]) fun elements hshape ↦ ?_
  have helements : ∀ ty ∈ elements.map fun element ↦ (typeOf element).value,
      ty.ReferenceArgs := by
    rw [List.forall_mem_map]
    intro element helement
    exact hchildren element
      (Expr.mem_children_of_mem_shapes (Expr.mem_shapes_of_list? hshape) helement)
  simpa [Ty.listOf, Ty.referenceArgs_known_iff] using
    Ty.referenceArgs_elementArgument_iff helements

/-- The keys of a map are joined, and so are the values, each among themselves. -/
theorem keepsReferenceArgs_map (hkind : e.kind = .map) :
    map.KeepsReferenceArgs environment typeOf e := by
  refine keepsReferenceArgs_byShape rfl (by rw [Expr.joinedTypes, hkind]) fun entries hshape ↦ ?_
  have hchild {entry : Expr × Expr} (hentry : entry ∈ entries) {child : Expr}
      (hchild : child ∈ [entry.1, entry.2]) : (typeOf child).value.ReferenceArgs :=
    hchildren child (Expr.mem_children_of_mem_shapes (Expr.mem_shapes_of_map? hshape)
      (List.mem_flatMap.2 ⟨entry, hentry, hchild⟩))
  have hkeys : ∀ ty ∈ entries.map fun entry ↦ (typeOf entry.1).value, ty.ReferenceArgs :=
    List.forall_mem_map.2 fun entry hentry ↦ hchild hentry (by simp)
  have hvalues : ∀ ty ∈ entries.map fun entry ↦ (typeOf entry.2).value, ty.ReferenceArgs :=
    List.forall_mem_map.2 fun entry hentry ↦ hchild hentry (by simp)
  have hkeyArgument := Ty.referenceArgs_elementArgument_iff hkeys
  have hvalueArgument := Ty.referenceArgs_elementArgument_iff hvalues
  rw [List.length_map] at hkeyArgument hvalueArgument
  simp [Ty.mapOf, Ty.referenceArgs_known_iff, Function.comp_def, hkeyArgument, hvalueArgument]

/-- Of the binary operators only sums and arithmetic join their operands, and a sum with text in it
does not. -/
theorem keepsReferenceArgs_binary (hkind : e.kind = .binary) :
    binary.KeepsReferenceArgs environment typeOf e := by
  refine keepsReferenceArgs_byShape rfl (by rw [Expr.joinedTypes, hkind]) fun shape hshape ↦ ?_
  have hmem := Expr.mem_shapes_of_binary? hshape
  have hleft := hchildren shape.left
    (Expr.mem_children_of_mem_shapes hmem (by simp [Shape.children]))
  have hright := hchildren shape.right
    (Expr.mem_children_of_mem_shapes hmem (by simp [Shape.children]))
  cases hclass : OperatorClass.of? shape.operator with
  | none => simp
  | some c =>
    cases c with
    | boolean | compare | findRegex => simp [inferBinary, Ty.boolean, Ty.int]
    | assign => simpa [inferBinary] using hright
    | shift => simpa [inferBinary] using hleft.promoted
    | arithmetic => simp [inferBinary, Ty.lub2]
    | plus =>
      change (∀ ty ∈ some (sumTy (typeOf shape.left).value (typeOf shape.right).value),
        ty.ReferenceArgs) ↔ _
      cases htext : (typeOf shape.left).value.isStringLike ||
          (typeOf shape.right).value.isStringLike with
      | true =>
        simp only [sumTy, htext]
        simp [Ty.string]
      | false =>
        simp only [sumTy, htext]
        simp [Ty.lub2]
    | subscript => simpa [inferBinary] using hleft.subscriptTy?

theorem keepsReferenceArgs_unary (hkind : e.kind = .unary) :
    unary.KeepsReferenceArgs environment typeOf e := by
  refine keepsReferenceArgs_of_no_join rfl (by rw [Expr.joinedTypes, hkind]) fun shape hshape ↦ ?_
  have hoperand := hchildren shape.operand
    (Expr.mem_children_of_mem_shapes (Expr.mem_shapes_of_unary? hshape) (by simp [Shape.children]))
  split
  · simp [Ty.boolean]
  · split
    · simpa using hoperand.promoted
    · split
      · simpa using hoperand
      · simp

theorem referenceArgs_receiverTy {receiver : Option Expr}
    (h : ∀ part ∈ receiver, part ∈ e.children) :
    ((receiverTy receiver).run (environment.answer typeOf)).value.ReferenceArgs := by
  cases receiver with
  | none => exact .unknown _
  | some part => exact hchildren part (h part rfl)

end Children

section Both

variable (henv : environment.Answers Ty.ReferenceArgs)
  (hchildren : ∀ child ∈ e.children, (typeOf child).value.ReferenceArgs)

include henv hchildren

theorem keepsReferenceArgs_cast (hkind : e.kind = .cast) :
    cast.KeepsReferenceArgs environment typeOf e := by
  refine keepsReferenceArgs_of_no_join rfl (by rw [Expr.joinedTypes, hkind]) fun shape hshape ↦ ?_
  have hoperand := hchildren shape.operand
    (Expr.mem_children_of_mem_shapes (Expr.mem_shapes_of_cast? hshape) (by simp [Shape.children]))
  rw [Inquiry.run_bind, Traced.value_bind, Inquiry.value_run_resolve]
  by_cases hunknown : (environment.resolve shape.target).isUnknown = true
  · rw [if_pos hunknown]
    simpa using hoperand
  · rw [if_neg hunknown]
    simpa using henv.resolve shape.target

theorem keepsReferenceArgs_property (hkind : e.kind = .property) :
    property.KeepsReferenceArgs environment typeOf e := by
  refine keepsReferenceArgs_of_no_join rfl (by rw [Expr.joinedTypes, hkind]) fun shape hshape ↦ ?_
  have hmem := Expr.mem_shapes_of_property? hshape
  have hreceiver :
      ((receiverTy shape.receiver).run (environment.answer typeOf)).value.ReferenceArgs :=
    referenceArgs_receiverTy hchildren fun part hpart ↦
      Expr.mem_children_of_mem_shapes hmem (by simpa [Shape.children] using hpart)
  rw [Inquiry.run_bind, Traced.value_bind]
  exact referenceArgs_spreading shape.spread hreceiver fun receiver ↦
    referenceArgs_propertyOf henv shape.name

theorem keepsReferenceArgs_call (hkind : e.kind = .call) :
    call.KeepsReferenceArgs environment typeOf e := by
  refine keepsReferenceArgs_of_no_join rfl (by rw [Expr.joinedTypes, hkind]) fun shape hshape ↦ ?_
  have hmem := Expr.mem_shapes_of_call? hshape
  have hreceiver :
      ((receiverTy shape.receiver).run (environment.answer typeOf)).value.ReferenceArgs :=
    referenceArgs_receiverTy hchildren fun part hpart ↦
      Expr.mem_children_of_mem_shapes hmem (List.mem_append_left _ (by simpa using hpart))
  rw [Inquiry.run_bind, Traced.value_bind, Inquiry.run_bind, Traced.value_bind]
  exact referenceArgs_spreading shape.spread hreceiver fun receiver _ ↦
    referenceArgs_methodOf henv shape.name _ receiver

/-- No standard rule makes or loses a primitive argument except by a join. -/
theorem keepsReferenceArgs_standard (hrule : rule ∈ standard) (hkind : e.kind = rule.kind) :
    rule.KeepsReferenceArgs environment typeOf e := by
  cases hrule using standard_cases with
  | literal => exact keepsReferenceArgs_literal hkind
  | binary => exact keepsReferenceArgs_binary hchildren hkind
  | list => exact keepsReferenceArgs_list hchildren hkind
  | map => exact keepsReferenceArgs_map hchildren hkind
  | property => exact keepsReferenceArgs_property henv hchildren hkind
  | elvis => exact keepsReferenceArgs_elvis hkind
  | interpolation => exact keepsReferenceArgs_interpolation hkind
  | closure => exact keepsReferenceArgs_closure hkind
  | ternary => exact keepsReferenceArgs_ternary hkind
  | ident => exact keepsReferenceArgs_ident henv hkind
  | call => exact keepsReferenceArgs_call henv hchildren hkind
  | construction => exact keepsReferenceArgs_construction henv hkind
  | cast => exact keepsReferenceArgs_cast henv hchildren hkind
  | unary => exact keepsReferenceArgs_unary hchildren hkind
  | range => exact keepsReferenceArgs_range hkind

end Both

end Rule

/-! ## All parts of an expression -/

namespace Registry

variable {environment : Environment} (henv : environment.Answers Ty.ReferenceArgs)

include henv

theorem referenceArgs_infer_node {e : Expr}
    (hchildren : ∀ child ∈ e.children, (standard.infer environment child).value.ReferenceArgs) :
    (standard.infer environment e).value.ReferenceArgs ↔
      ∀ types ∈ e.joinedTypes fun part ↦ (standard.infer environment part).value,
        (Ty.join types).ReferenceArgs := by
  by_cases hclaimed : ∃ rule ∈ Rule.standard, rule.kind = e.kind
  · obtain ⟨rule, hrule, hkind⟩ := hclaimed
    rw [value_infer_of_mem_standard hrule hkind]
    refine Iff.trans ?_ (Rule.keepsReferenceArgs_standard henv hchildren hrule hkind.symm)
    cases ((rule.apply e).run (environment.answer (standard.infer environment))).value <;> simp
  · have hnone : ∀ rule ∈ Rule.standard, rule.kind ≠ e.kind :=
      fun rule hrule hkind ↦ hclaimed ⟨rule, hrule, hkind⟩
    rw [value_infer_of_forall_ne hnone]
    cases hkind : e.kind with
    | custom name => simp [Expr.joinedTypes, hkind]
    | _ =>
      rw [hkind] at hclaimed
      exact absurd (by decide) hclaimed

/-- Where `P` says when the joins at the parts have reference arguments, it says so of the types
of the parts, too. -/
theorem referenceArgs_parts_iff {P : List Ty → Prop} {e : Expr}
    (hP : ∀ part ∈ e.parts,
      ∀ types ∈ part.joinedTypes fun child ↦ (standard.infer environment child).value,
        (∀ ty ∈ types, ty.ReferenceArgs) → ((Ty.join types).ReferenceArgs ↔ P types)) :
    (∀ part ∈ e.parts, (standard.infer environment part).value.ReferenceArgs) ↔
      ∀ part ∈ e.parts,
        ∀ types ∈ part.joinedTypes fun child ↦ (standard.infer environment child).value,
          P types := by
  have hnode : ∀ part ∈ e.parts,
      (∀ child ∈ part.children, (standard.infer environment child).value.ReferenceArgs) →
      ((standard.infer environment part).value.ReferenceArgs ↔
        ∀ types ∈ part.joinedTypes fun child ↦ (standard.infer environment child).value,
          P types) := by
    intro part hpart hchildren
    rw [referenceArgs_infer_node henv hchildren]
    refine forall₂_congr fun types htypes ↦ hP part hpart types htypes fun ty hty ↦ ?_
    obtain ⟨child, hchild, rfl⟩ := Expr.exists_child_of_mem_joinedTypes htypes hty
    exact hchildren child hchild
  constructor
  · intro hparts part hpart
    refine (hnode part hpart fun child hchild ↦ ?_).1 (hparts part hpart)
    exact hparts child (Expr.children_subset_parts hpart hchild)
  · intro hjoins part hpart
    induction part using Expr.induction_children with
    | node part ih =>
      refine (hnode part hpart fun child hchild ↦ ?_).2 (hjoins part hpart)
      exact ih child hchild (Expr.children_subset_parts hpart hchild)

end Registry

theorem Ty.invariant_unionFree (static : Bool) : Invariant UnionFree static where
  primitive := .primitive
  null := .null
  unknown := .unknown
  dynamic _ := .dynamic
  dynamic_of _ := .dynamic
  known_iff _ _ := unionFree_known_iff
  array := by
    intro component h
    cases h with
    | array hcomponent => exact hcomponent
  parts := by
    intro ty part h hpart
    exact h.eq_of_mem_parts hpart ▸ h

/-- The types of all parts of an expression have reference arguments if and only if no join at one
of the parts joins a column of arguments, at any depth, to a primitive. Without unions this takes a
column of different boxed numbers, all of them narrow. -/
theorem referenceArgs_infer_iff (environment : Environment)
    (henv : environment.Answers Ty.ReferenceArgs) (e : Expr) :
    ((∀ part ∈ e.parts, (Registry.standard.infer environment part).value.ReferenceArgs) ↔
      ∀ part ∈ e.parts,
        ∀ types ∈ part.joinedTypes fun child ↦ (Registry.standard.infer environment child).value,
          ∀ column, Relation.TransGen Ty.JoinsColumn types column → ¬Ty.ComesToPrimitive column) ∧
      (environment.Answers Ty.UnionFree →
        ((∀ part ∈ e.parts, (Registry.standard.infer environment part).value.ReferenceArgs) ↔
          ∀ part ∈ e.parts,
            ∀ types ∈ part.joinedTypes fun child ↦
                (Registry.standard.infer environment child).value,
              ∀ column, Relation.TransGen Ty.JoinsColumn types column →
                ¬Ty.MixesNarrow column)) := by
  constructor
  · exact Registry.referenceArgs_parts_iff henv fun _ _ _ _ hargs ↦ Ty.referenceArgs_join_iff hargs
  · intro hfree
    refine Registry.referenceArgs_parts_iff henv fun part _ types htypes hargs ↦ ?_
    refine Ty.referenceArgs_join_iff_of_unionFree fun ty hty ↦ ⟨hargs ty hty, ?_⟩
    obtain ⟨child, -, rfl⟩ := Expr.exists_child_of_mem_joinedTypes htypes hty
    exact Registry.infer_invariant (Ty.invariant_unionFree _) hfree child

/-- A list of a list of bytes and a list of shorts is a list of lists of primitives. -/
theorem infer_list_of_narrow_lists (environment : Environment) (b : Int8) (s : Int16) :
    (Registry.standard.infer environment (.single .list (.list
      [.single .list (.list [.single .literal (.literal (.byte b))]),
        .single .list (.list [.single .literal (.literal (.short s))])]))).value =
      .listOf (.listOf .int) := by
  set bytes := Ty.listOf (.ofClass ClassName.byte)
  set shorts := Ty.listOf (.ofClass ClassName.short)
  have hnumbers : Ty.join [.ofClass ClassName.byte, .ofClass ClassName.short] = .int := by
    rw [Ty.join_of_two_le (by decide)]
    exact Ty.joinDistinct_of_promote rfl
  have hlists : Ty.join [bytes, shorts] = .listOf .int := by
    have hoperands : Ty.operands [bytes, shorts] = [bytes, shorts] := by rfl
    have hclass : Ty.OneClass [bytes, shorts] ClassName.list 1 := by
      simp [Ty.OneClass, bytes, shorts, Ty.listOf, Ty.name?, Ty.args]
    rw [Ty.join_of_two_le (by simp [hoperands]), hoperands,
      Ty.joinDistinct_of_oneClass (by simp) Nat.one_pos hclass]
    exact congrArg Ty.listOf hnumbers
  simp only [Registry.value_infer_list, Registry.value_infer_literal, List.map_cons, List.map_nil]
  change Ty.listOf (Rule.asArgument (Ty.join [bytes, shorts])) = _
  rw [hlists]
  rfl

theorem exists_narrow_column_of_narrow_lists :
    let environment : Environment := ({} : Declarations).environment
    let nested : Expr := .single .list (.list
      [.single .list (.list [.single .literal (.literal (.byte 1))]),
        .single .list (.list [.single .literal (.literal (.short 2))])])
    environment.Answers Ty.ReferenceArgs ∧ environment.Answers Ty.UnionFree ∧
      ¬(Registry.standard.infer environment nested).value.ReferenceArgs ∧
      ∃ part ∈ nested.parts,
        ∃ types ∈ part.joinedTypes fun child ↦ (Registry.standard.infer environment child).value,
          ∃ column, Relation.TransGen Ty.JoinsColumn types column ∧ Ty.MixesNarrow column := by
  intro environment nested
  have hanswers {P : Ty → Prop} (hP : ∀ reason, P (.unknown reason)) : environment.Answers P :=
    ⟨by simp [environment, Declarations.environment, Declarations.symbol?],
      fun name ↦ hP ("unresolved type " ++ name),
      by simp [environment, Declarations.environment, Declarations.field?],
      by simp [environment, Declarations.environment, Declarations.method?]⟩
  have henv := hanswers Ty.ReferenceArgs.unknown
  have hfree := hanswers Ty.UnionFree.unknown
  have hunboxed : ¬(Registry.standard.infer environment nested).value.ReferenceArgs := by
    rw [infer_list_of_narrow_lists]
    simp [Ty.listOf, Ty.referenceArgs_known_iff, Ty.int, Ty.primitive?]
  refine ⟨henv, hfree, hunboxed, ?_⟩
  by_contra hnone
  have hparts := ((referenceArgs_infer_iff environment henv nested).2 hfree).2
    fun part hpart types htypes column hpath hmixes ↦
      hnone ⟨part, hpart, types, htypes, column, hpath, hmixes⟩
  exact hunboxed (hparts nested nested.mem_parts_self)

end ExprTyping
