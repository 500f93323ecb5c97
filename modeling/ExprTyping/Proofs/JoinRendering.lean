import ExprTyping.Proofs.JoinCongruence
import ExprTyping.Proofs.ReferenceArguments
import ExprTyping.Ty.Render

/-!
# The text of a join

A join depends on the order of its arguments only in ways that equality does not see, but a text
shows more than equality: it lists the members of a union in their order. If unions occur at most on
top of the arguments, they are dissolved into operands and none is left in the result, and equal
types without unions have the same text.
-/

namespace ExprTyping.Ty

/-! ## Texts of equal types -/

theorem unionFree_array_iff {component : Ty} :
    UnionFree (array component) ↔ UnionFree component := by
  constructor
  · intro h
    cases h with
    | array hcomponent => exact hcomponent
  · exact .array

section Text

variable (label : ClassName → String)

theorem renderRest_congr (separator : String) {as bs : List Ty}
    (h : List.Forall₂ (fun a b ↦ a.renderWith label = b.renderWith label) as bs) :
    renderRest label separator as = renderRest label separator bs := by
  induction h with
  | nil => rfl
  | cons hab _ ih => rw [renderRest, renderRest, hab, ih]

theorem renderWith_known_congr (name : ClassName) {as bs : List Ty}
    (h : List.Forall₂ (fun a b ↦ a.renderWith label = b.renderWith label) as bs) :
    (known name as).renderWith label = (known name bs).renderWith label := by
  cases h with
  | nil => rfl
  | cons hab hrest => rw [renderWith, renderWith, hab, renderRest_congr label ", " hrest]

/-- Without unions, a text shows nothing that equality does not compare. -/
theorem renderWith_eq_of_beq {a b : Ty} (ha : a.UnionFree) (hab : a == b) :
    a.renderWith label = b.renderWith label := by
  induction a generalizing b with
  | known name args ih =>
    obtain ⟨args', rfl, hargs⟩ := known_beq_iff.1 hab
    refine renderWith_known_congr label name (forall₂_imp_of_mem hargs fun x hx y _ hxy ↦ ?_)
    exact ih x hx (unionFree_known_iff.1 ha x hx) hxy
  | union members => cases ha
  | array component ih =>
    obtain ⟨component', rfl, h⟩ := array_beq_iff.1 hab
    rw [renderWith, renderWith, ih (unionFree_array_iff.1 ha) h]
  | dynamic | unknown =>
    simp only [dynamic_beq_iff, unknown_beq_iff] at hab
    obtain ⟨_, rfl⟩ := hab
    simp only [renderWith]
  | primitive | null => simp_all

end Text

/-! ## Unions on top -/

theorem UnionFree.wellFormed {ty : Ty} (h : ty.UnionFree) : ty.WellFormed := by
  induction ty with
  | known name args ih =>
    exact .known name fun arg harg ↦ ih arg harg (unionFree_known_iff.1 h arg harg)
  | union members => cases h
  | array component ih => exact .array (ih (unionFree_array_iff.1 h))
  | primitive | dynamic | unknown | null => simp

/-- There is no union inside the type, which may be one itself. -/
def UnionFreeInside (ty : Ty) : Prop :=
  ty.UnionFree ∨
    ∃ members, ty = union members ∧ ty.WellFormed ∧ ∀ member ∈ members, member.UnionFree

theorem UnionFreeInside.wellFormed {ty : Ty} (h : ty.UnionFreeInside) : ty.WellFormed := by
  rcases h with h | ⟨_, -, hwf, -⟩
  · exact h.wellFormed
  · exact hwf

/-- A union on top is gone once a type is split into its parts. -/
theorem UnionFreeInside.of_mem_parts {ty part : Ty} (h : ty.UnionFreeInside)
    (hpart : part ∈ ty.parts) : part.UnionFree := by
  rcases h with h | ⟨members, rfl, -, hmembers⟩
  · exact h.eq_of_mem_parts hpart ▸ h
  · exact hmembers part hpart

/-! ## Joins -/

theorem join_eq_of_operands_eq {xs ys : List Ty} (h : operands xs = operands ys) :
    join xs = join ys := by
  match hxs : operands xs with
  | [] => rw [join_of_operands_eq_nil hxs, join_of_operands_eq_nil (h ▸ hxs)]
  | [ty] => rw [join_of_operands_eq_singleton hxs, join_of_operands_eq_singleton (h ▸ hxs)]
  | _ :: _ :: _ =>
    have htwo : 2 ≤ (operands xs).length := by simp [hxs]
    rw [join_of_two_le htwo, join_of_two_le (h ▸ htwo), h]

theorem unionFree_join {types : List Ty} (h : ∀ ty ∈ types, ty.UnionFree) :
    (join types).UnionFree :=
  join_invariant .primitive .null (fun _ _ ↦ unionFree_known_iff)
    (fun _ _ hty hpart ↦ hty.eq_of_mem_parts hpart ▸ hty) h

/-- Unions on top are dissolved before anything else is done, and a join makes no new ones. -/
theorem unionFree_join_of_inside {types : List Ty} (h : ∀ ty ∈ types, ty.UnionFreeInside) :
    (join types).UnionFree := by
  have hflatten : ∀ ty ∈ flatten types, ty.UnionFree := by
    intro ty hty
    obtain ⟨source, hsource, hpart⟩ := List.mem_flatMap.1 hty
    exact (h source hsource).of_mem_parts hpart
  have hoperands : operands (flatten types) = operands types := by
    have hflat : ∀ ty ∈ flatten types, ty.members? = none := by
      intro ty hty
      cases hflatten ty hty <;> rfl
    rw [operands, operands, flatten_eq_self hflat]
  rw [← join_eq_of_operands_eq hoperands]
  exact unionFree_join hflatten

theorem renderWith_join_of_perm (label : ClassName → String) {xs ys : List Ty}
    (h : ∀ x ∈ xs, x.UnionFreeInside) (hperm : xs.Perm ys) :
    (join xs).renderWith label = (join ys).renderWith label := by
  have hwf : ∀ x ∈ xs, x.WellFormed := fun x hx ↦ (h x hx).wellFormed
  have hwf' : ∀ y ∈ ys, y.WellFormed := fun y hy ↦ hwf y (hperm.mem_iff.2 hy)
  have hsame : SameTypes xs ys := .of_subset hperm.subset hperm.symm.subset
  have hjoin := join_beq hwf hwf' hsame.sameOperands
  exact renderWith_eq_of_beq label (unionFree_join_of_inside h) hjoin

/-- If the arguments have unions on top only, the text of their least upper bound does not depend on
their order, in either form. -/
theorem render_lub_of_perm :
    (∀ xs ys : List Ty, 2 ≤ xs.length → (∀ x ∈ xs, x.UnionFreeInside) → xs.Perm ys →
      ∃ x y, lub xs = .ok x ∧ lub ys = .ok y ∧ x.render = y.render ∧
        x.renderSimple = y.renderSimple) ∧
      ∀ a b : Ty, a.UnionFreeInside → b.UnionFreeInside →
        (lub2 a b).render = (lub2 b a).render ∧
          (lub2 a b).renderSimple = (lub2 b a).renderSimple := by
  constructor
  · intro xs ys htwo h hperm
    refine ⟨join xs, join ys, lub_of_two_le htwo, lub_of_two_le (hperm.length_eq ▸ htwo), ?_⟩
    exact ⟨renderWith_join_of_perm id h hperm, renderWith_join_of_perm ClassName.simple h hperm⟩
  · intro a b ha hb
    have h : ∀ ty ∈ [a, b], ty.UnionFreeInside := by simp [ha, hb]
    have hswap : [a, b].Perm [b, a] := List.Perm.swap b a []
    exact ⟨renderWith_join_of_perm id h hswap, renderWith_join_of_perm ClassName.simple h hswap⟩

/-- The first of two lists that differ in a hint is kept, and this does not show. -/
theorem render_lub_of_hinted_lists :
    let a := listOf (dynamic (some "x"))
    let b := union [null, listOf (dynamic none)]
    (2 ≤ [a, b].length ∧ (∀ ty ∈ [a, b], ty.UnionFreeInside) ∧ [a, b].Perm [b, a]) ∧
      (∃ x y, lub [a, b] = .ok x ∧ lub [b, a] = .ok y ∧ x.render = y.render ∧
        x.renderSimple = y.renderSimple) ∧
      (lub2 a b).render = (lub2 b a).render := by
  intro a b
  have ha : a.UnionFreeInside := .inl (.known _ (by simp))
  have hlist : (listOf (dynamic none)).UnionFree := .known _ (by simp)
  have hb : b.UnionFreeInside := .inr ⟨_, rfl, by decide, by simp [hlist]⟩
  have h : ∀ ty ∈ [a, b], ty.UnionFreeInside := by simp [ha, hb]
  have hperm : [a, b].Perm [b, a] := List.Perm.swap b a []
  exact ⟨⟨Nat.le_refl 2, h, hperm⟩, render_lub_of_perm.1 _ _ (Nat.le_refl 2) h hperm,
    (render_lub_of_perm.2 a b ha hb).1⟩

end ExprTyping.Ty
