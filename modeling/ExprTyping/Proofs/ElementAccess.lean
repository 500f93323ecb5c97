import ExprTyping.Declarations
import ExprTyping.Proofs.JoinLaws
import ExprTyping.Proofs.NodeType

/-!
# Elements of joined collections

What iterating over a collection or subscripting it yields is its last type argument. Collections of
one class are joined argument by argument, so an element of the join is the join of the elements: it
makes no difference whether an element is taken of one of two collections, or one of two elements is
taken.

Collections that are equal are not joined by their arguments. If their elements are a union, then it
stays a union, where the join of the elements would be one of its members.
-/

namespace ExprTyping

namespace Ty

/-! ## Collections -/

/-- A class with one parameter that can be iterated over, or a map with two. -/
def IsCollection (name : ClassName) (arity : Nat) : Prop :=
  arity = 1 ∧ builtinTable.isSubclass name ClassName.iterable ∨
    arity = 2 ∧ builtinTable.isSubclass name ClassName.map

/-- A type of the class, all of whose arguments are given, and the last of them. -/
structure Holds (name : ClassName) (arity : Nat) (ty element : Ty) : Prop where
  wellFormed : ty.WellFormed
  name : ty.name? = some name
  length : ty.args.length = arity
  last : ty.args.getLast? = some element

theorem isStringLike_of_isCollection {name : ClassName} {arity : Nat} (h : IsCollection name arity)
    (args : List Ty) : (known name args).isStringLike = false := by
  have hstrings : ∀ text ∈ [ClassName.string, ClassName.gstring],
      ∀ sup ∈ [ClassName.iterable, ClassName.map], builtinTable.isSubclass text sup = false := by
    decide +kernel
  have hname : ∀ text ∈ [ClassName.string, ClassName.gstring], name ≠ text := by
    rintro text htext rfl
    rcases h with ⟨-, hsub⟩ | ⟨-, hsub⟩ <;> simp [hstrings name htext] at hsub
  simp [isStringLike, isNamed, name?, hname ClassName.string, hname ClassName.gstring]

namespace Holds

variable {name : ClassName} {arity : Nat} {ty element : Ty}

theorem pos (h : Holds name arity ty element) : 0 < arity := by
  rw [← h.length]
  exact List.length_pos_of_mem (List.mem_of_getLast? h.last)

theorem getElem?_args (h : Holds name arity ty element) : ty.args[arity - 1]? = some element := by
  rw [← h.length, ← List.getLast?_eq_getElem?, h.last]

theorem wellFormed_element (h : Holds name arity ty element) : element.WellFormed := by
  have hwf := h.wellFormed
  rw [name?_eq_some_iff.1 h.name, wellFormed_known_iff] at hwf
  exact hwf element (List.mem_of_getLast? h.last)

theorem element_beq {ty' element' : Ty} (h : Holds name arity ty element)
    (h' : Holds name arity ty' element') (hbeq : ty == ty') : element == element' := by
  obtain ⟨hi, rfl⟩ := List.getElem?_eq_some_iff.1 h.getElem?_args
  obtain ⟨hi', rfl⟩ := List.getElem?_eq_some_iff.1 h'.getElem?_args
  exact (forall₂_args_of_beq hbeq).get hi hi'

/-- Iterating over a collection and subscripting it yield its last argument. -/
theorem accessors (hclass : IsCollection name arity) (h : Holds name arity ty element) :
    ty.subscript? = some element ∧ ty.element? = some element ∧
      (arity = 2 → ty.mapValue? = some element) := by
  obtain ⟨args, rfl⟩ : ∃ args, ty = known name args := ⟨_, name?_eq_some_iff.1 h.name⟩
  have hlast : args.getLast? = some element := h.last
  rw [subscript?, isStringLike_of_isCollection hclass args]
  rcases hclass with ⟨rfl, hsub⟩ | ⟨rfl, hsub⟩
  · obtain ⟨only, rfl⟩ := List.length_eq_one_iff.1 h.length
    obtain rfl : only = element := by simpa using hlast
    simp [mapValue?, element?, hsub]
  · obtain ⟨key, value, rfl⟩ := List.length_eq_two.1 h.length
    obtain rfl : value = element := by simpa using hlast
    simp [mapValue?, element?, hsub]

end Holds

/-! ## Joined collections -/

section Joined

variable {name : ClassName} {arity : Nat} {types elements : List Ty}

def AllEqual (types : List Ty) : Prop := ∀ a ∈ types, ∀ b ∈ types, a == b

def StartsWithUnion (types : List Ty) : Prop := ∃ members, types.head? = some (union members)

variable (h : List.Forall₂ (Holds name arity) types elements)

include h

theorem oneClass_of_holds : OneClass types name arity := by
  intro ty hty
  obtain ⟨element, -, hholds⟩ := (exists_mem_of_forall₂ h).1 ty hty
  exact ⟨hholds.name, hholds.length⟩

theorem wellFormed_of_holds :
    (∀ ty ∈ types, ty.WellFormed) ∧ ∀ element ∈ elements, element.WellFormed := by
  constructor
  · intro ty hty
    obtain ⟨element, -, hholds⟩ := (exists_mem_of_forall₂ h).1 ty hty
    exact hholds.wellFormed
  · intro element helement
    obtain ⟨ty, -, hholds⟩ := (exists_mem_of_forall₂ h).2 element helement
    exact hholds.wellFormed_element

theorem operands_of_holds : operands types = distinct types := by
  have hknown : ∀ ty ∈ types, ty = known name ty.args :=
    fun ty hty ↦ name?_eq_some_iff.1 (oneClass_of_holds h ty hty).1
  have hmembers : ∀ ty ∈ types, ty.members? = none := by
    intro ty hty
    rw [hknown ty hty]
    rfl
  have hnull : ∀ ty ∈ types, (!ty.isNull) = true := by
    intro ty hty
    rw [hknown ty hty]
    rfl
  rw [operands, flatten_eq_self hmembers, List.filter_eq_self.2 hnull]

theorem mem_of_mem_operands {ty : Ty} (hty : ty ∈ operands types) : ty ∈ types :=
  mem_of_mem_distinct (operands_of_holds h ▸ hty)

theorem sameTypes_operands : SameTypes (operands types) types := by
  rw [operands_of_holds h]
  exact sameTypes_distinct (wellFormed_of_holds h).1

/-- The last arguments of the operands are the elements, up to repetitions. -/
theorem sameTypes_last_column :
    SameTypes (Reference.column ((operands types).map Reference.of) (arity - 1)) elements := by
  refine ((sameTypes_operands h).column (arity - 1)).trans (.of_subset ?_ ?_)
  · intro element helement
    obtain ⟨ty, hty, harg⟩ := mem_column_iff.1 helement
    obtain ⟨element', helement', hholds⟩ := (exists_mem_of_forall₂ h).1 ty hty
    rw [hholds.getElem?_args, Option.some_inj] at harg
    exact harg ▸ helement'
  · intro element helement
    obtain ⟨ty, hty, hholds⟩ := (exists_mem_of_forall₂ h).2 element helement
    exact mem_column_iff.2 ⟨ty, hty, hholds.getElem?_args⟩

/-- Different collections are joined argument by argument. -/
theorem exists_holds_join_of_two_le (htwo : 2 ≤ (operands types).length) :
    ∃ element, Holds name arity (join types) element ∧ element == join elements := by
  obtain ⟨hwf, hwf'⟩ := wellFormed_of_holds h
  have hclass : OneClass (operands types) name arity :=
    fun ty hty ↦ oneClass_of_holds h ty (mem_of_mem_operands h hty)
  obtain ⟨operand, hoperand⟩ := List.exists_mem_of_length_pos (Nat.zero_lt_of_lt htwo)
  obtain ⟨_, -, hholds⟩ := (exists_mem_of_forall₂ h).1 operand (mem_of_mem_operands h hoperand)
  have hjoin : join types = known name ((List.range arity).map fun i ↦
      join (Reference.column ((operands types).map Reference.of) i)) := by
    rw [join_of_two_le htwo]
    exact joinDistinct_of_oneClass (List.ne_nil_of_mem hoperand) hholds.pos hclass
  refine ⟨join (Reference.column ((operands types).map Reference.of) (arity - 1)),
    ⟨wellFormed_join hwf, ?_, ?_, ?_⟩, ?_⟩
  · rw [hjoin]
    rfl
  · simp [hjoin, args]
  · simp [hjoin, args, List.getLast?_range, hholds.pos.ne']
  · exact join_beq (fun _ hty ↦ wellFormed_of_mem_column hwf hty) hwf'
      (sameTypes_last_column h).sameOperands

/-- Collections that are all equal are a single operand. -/
theorem allEqual_iff_length_operands_lt : AllEqual types ↔ (operands types).length < 2 := by
  have hsame := sameTypes_operands h
  constructor
  · intro heq
    by_contra htwo
    have hdistinct : (operands types).Pairwise fun a b ↦ ¬a == b := pairwise_distinct _
    match hops : operands types with
    | [] | [_] => simp [hops] at htwo
    | first :: second :: rest =>
      rw [hops, List.pairwise_cons] at hdistinct
      refine hdistinct.1 second List.mem_cons_self (heq first ?_ second ?_) <;>
        exact mem_of_mem_operands h (by simp [hops])
  · intro hfew a ha b hb
    obtain ⟨operand, hoperand, hbeq⟩ := hsame.2 a ha
    obtain ⟨operand', hoperand', hbeq'⟩ := hsame.2 b hb
    obtain rfl : operand = operand' := by
      match hops : operands types with
      | [] => simp [hops] at hoperand
      | [_] =>
        rw [hops, List.mem_singleton] at hoperand hoperand'
        rw [hoperand, hoperand']
      | _ :: _ :: _ =>
        simp only [hops, List.length_cons] at hfew
        omega
    have hwf := (wellFormed_of_holds h).1
    exact beq_trans hbeq (beq_symm (hwf b hb) (hwf _ (mem_of_mem_operands h hoperand)) hbeq')

/-- The element of a collection that all the others are equal to is the join of the elements, unless
it is a union. -/
theorem element_beq_join_iff {ty element : Ty} (hholds : Holds name arity ty element)
    (hne : elements ≠ []) (heq : ∀ other ∈ types, ty == other) :
    element == join elements ↔ ¬StartsWithUnion elements := by
  obtain ⟨-, hwf⟩ := wellFormed_of_holds h
  have hbeq : ∀ other ∈ elements, element == other := by
    intro other hother
    obtain ⟨ty', hty', hholds'⟩ := (exists_mem_of_forall₂ h).2 other hother
    exact hholds.element_beq hholds' (heq ty' hty')
  obtain ⟨first, rest, rfl⟩ := List.exists_cons_of_ne_nil hne
  have hfirst := isSome_members?_eq_of_beq (hbeq first List.mem_cons_self)
  cases hmembers : element.members? with
  | none =>
    refine iff_of_true ?_ ?_
    · have hsame : SameTypes [element] (first :: rest) := by
        refine .of_within (by simpa using hholds.wellFormed_element) hwf ?_ ?_
        · simpa using .inl (hbeq first List.mem_cons_self)
        · simpa using hbeq
      rw [← join_singleton hmembers]
      exact join_beq (by simpa using hholds.wellFormed_element) hwf hsame.sameOperands
    · rintro ⟨members, hunion⟩
      obtain rfl : first = union members := by simpa using hunion
      rw [hmembers] at hfirst
      cases hfirst
  | some members =>
    refine iff_of_false (fun hjoin ↦ ?_) (not_not.2 ?_)
    · have hsome := isSome_members?_eq_of_beq hjoin
      simp [hmembers, members?_join hwf] at hsome
    · rw [hmembers] at hfirst
      cases first with
      | union members' => exact ⟨members', rfl⟩
      | _ => cases hfirst

theorem exists_holds_join (hne : types ≠ []) :
    ∃ element, Holds name arity (join types) element ∧
      (element == join elements ↔ ¬(AllEqual types ∧ StartsWithUnion elements)) := by
  have hequal := allEqual_iff_length_operands_lt h
  rcases Nat.lt_or_ge (operands types).length 2 with hfew | htwo
  · have hne' : elements ≠ [] := by
      rintro rfl
      exact hne (List.forall₂_nil_right_iff.1 h)
    obtain ⟨ty, hops⟩ : ∃ ty, operands types = [ty] := by
      obtain ⟨ty, hty⟩ := List.exists_mem_of_ne_nil types hne
      obtain ⟨operand, hoperand, -⟩ := (sameTypes_operands h).2 ty hty
      have hpos := List.length_pos_of_mem hoperand
      exact List.length_eq_one_iff.1 (by omega)
    have hty : ty ∈ types := mem_of_mem_operands h (by simp [hops])
    obtain ⟨element, -, hholds⟩ := (exists_mem_of_forall₂ h).1 ty hty
    have heq := hequal.2 hfew
    refine ⟨element, join_of_operands_eq_singleton hops ▸ hholds, ?_⟩
    rw [element_beq_join_iff h hholds hne' (heq ty hty), and_iff_right heq]
  · obtain ⟨element, hholds, hbeq⟩ := exists_holds_join_of_two_le h htwo
    have hdiffer : ¬AllEqual types := fun heq ↦ absurd (hequal.1 heq) (Nat.not_lt.2 htwo)
    exact ⟨element, hholds, iff_of_true hbeq fun hboth ↦ hdiffer hboth.1⟩

end Joined

theorem allEqual_pair_iff {a b : Ty} (ha : a.WellFormed) (hb : b.WellFormed) :
    AllEqual [a, b] ↔ a == b := by
  refine ⟨fun h ↦ h a (by simp) b (by simp), fun h ↦ ?_⟩
  simp [AllEqual, h, beq_symm ha hb h]

end Ty

/-- Iterating over the least upper bound of collections of one class and subscripting it yield one
type, and that is the least upper bound of the elements, unless the collections are equal and their
elements a union. So it makes no difference to the type whether a choice between two collections is
subscripted or a choice is made between their subscripted elements. -/
theorem element_lub_beq_iff {name : ClassName} {arity : Nat} (hclass : Ty.IsCollection name arity) :
    (∀ types elements : List Ty, 2 ≤ types.length →
      List.Forall₂ (Ty.Holds name arity) types elements →
      ∃ joined element bound, Ty.lub types = .ok joined ∧ Ty.lub elements = .ok bound ∧
        joined.subscript? = some element ∧ joined.element? = some element ∧
        (arity = 2 → joined.mapValue? = some element) ∧
        (element == bound ↔ ¬(Ty.AllEqual types ∧ Ty.StartsWithUnion elements))) ∧
    ∀ (environment : Environment) (operator : String) (condition xs ys index : Expr) (x y : Ty),
      OperatorClass.of? operator = some .subscript →
      let typeOf := fun e ↦ (Registry.standard.infer environment e).value
      let choose := fun a b ↦ Expr.single .ternary (.ternary ⟨condition, a, b⟩)
      let subscript := fun e ↦ Expr.single .binary (.binary ⟨e, operator, index⟩)
      Ty.Holds name arity (typeOf xs) x → Ty.Holds name arity (typeOf ys) y →
        (typeOf (subscript (choose xs ys)) == typeOf (choose (subscript xs) (subscript ys)) ↔
          ¬(typeOf xs == typeOf ys ∧ ∃ members, x = .union members)) := by
  refine ⟨fun types elements htwo h ↦ ?_, ?_⟩
  · have hne : types ≠ [] := List.ne_nil_of_length_pos (Nat.zero_lt_of_lt htwo)
    obtain ⟨element, hholds, hbeq⟩ := Ty.exists_holds_join h hne
    obtain ⟨hsubscript, helement, hvalue⟩ := hholds.accessors hclass
    exact ⟨_, element, _, Ty.lub_of_two_le htwo, Ty.lub_of_two_le (h.length_eq ▸ htwo), hsubscript,
      helement, hvalue, hbeq⟩
  · intro environment operator condition xs ys index x y hoperator typeOf choose subscript hx hy
    obtain ⟨element, hholds, hbeq⟩ :=
      Ty.exists_holds_join (.cons hx (.cons hy .nil)) (List.cons_ne_nil _ _)
    have hsubscript {e : Expr} {element : Ty} (hholds : Ty.Holds name arity (typeOf e) element) :
        typeOf (subscript e) = element :=
      Registry.value_infer_subscript hoperator (hholds.accessors hclass).1 index
    have hchoose (a b : Expr) : typeOf (choose a b) = .lub2 (typeOf a) (typeOf b) :=
      Registry.value_infer_ternary environment condition a b
    have hboth : typeOf (subscript (choose xs ys)) = element := by
      refine hsubscript ?_
      rw [hchoose]
      exact hholds
    rw [hboth, hchoose, hsubscript hx, hsubscript hy]
    rw [Ty.allEqual_pair_iff hx.wellFormed hy.wellFormed] at hbeq
    simpa [Ty.StartsWithUnion, Ty.lub2] using hbeq

/-- Maps from strings to bytes and from integers to shorts, chosen between and looked up. -/
theorem element_lub_of_hash_maps :
    let bytes := Ty.known ClassName.hashMap [.string, .ofClass ClassName.byte]
    let shorts := Ty.known ClassName.hashMap [.ofClass ClassName.integer, .ofClass ClassName.short]
    let types := [bytes, shorts, bytes]
    let elements := [.ofClass ClassName.byte, .ofClass ClassName.short, .ofClass ClassName.byte]
    let declarations : Declarations :=
      { symbols := [⟨"xs", .local, bytes⟩, ⟨"ys", .local, shorts⟩] }
    let typeOf := fun e ↦ (Registry.standard.infer declarations.environment e).value
    let xs := Expr.single .ident (.ident "xs")
    let ys := Expr.single .ident (.ident "ys")
    let choose := fun a b ↦
      Expr.single .ternary (.ternary ⟨.single .literal (.literal (.boolean true)), a, b⟩)
    let subscript := fun e ↦
      Expr.single .binary (.binary ⟨e, "?[", .single .literal (.literal (.string "k"))⟩)
    Ty.IsCollection ClassName.hashMap 2 ∧
      List.Forall₂ (Ty.Holds ClassName.hashMap 2) types elements ∧
      (∃ joined element, Ty.lub types = .ok joined ∧ joined.subscript? = some element ∧
        joined.element? = some element ∧ joined.mapValue? = some element ∧ element == .int) ∧
      typeOf (subscript (choose xs ys)) == typeOf (choose (subscript xs) (subscript ys)) := by
  intro bytes shorts types elements declarations typeOf xs ys choose subscript
  have hclass : Ty.IsCollection ClassName.hashMap 2 := .inr ⟨rfl, by decide +kernel⟩
  have hbytes : Ty.Holds ClassName.hashMap 2 bytes (.ofClass ClassName.byte) :=
    ⟨by decide, rfl, rfl, rfl⟩
  have hshorts : Ty.Holds ClassName.hashMap 2 shorts (.ofClass ClassName.short) :=
    ⟨by decide, rfl, rfl, rfl⟩
  have hholds : List.Forall₂ (Ty.Holds ClassName.hashMap 2) types elements :=
    .cons hbytes (.cons hshorts (.cons hbytes .nil))
  have hdiffer : ¬bytes == shorts := by decide
  obtain ⟨hlub, hinfer⟩ := element_lub_beq_iff hclass
  refine ⟨hclass, hholds, ?_, ?_⟩
  · obtain ⟨joined, element, bound, hjoined, hbound, hsubscript, helement, hvalue, hbeq⟩ :=
      hlub types elements (by decide) hholds
    have hint : Ty.lub elements = .ok .int := by
      rw [Ty.lub_of_two_le (by decide), Ty.join_of_two_le (by decide)]
      exact congrArg Except.ok (Ty.joinDistinct_of_promote rfl)
    obtain rfl : bound = .int := Except.ok.inj (hbound.symm.trans hint)
    refine ⟨joined, element, hjoined, hsubscript, helement, hvalue rfl, hbeq.2 ?_⟩
    exact fun hboth ↦ hdiffer (hboth.1 bytes (by simp [types]) shorts (by simp [types]))
  · have hsymbol : declarations.environment.symbol? "xs" = some ⟨"xs", .local, bytes⟩ := rfl
    have hsymbol' : declarations.environment.symbol? "ys" = some ⟨"ys", .local, shorts⟩ := rfl
    have hxs : typeOf xs = bytes := Registry.value_infer_ident rfl hsymbol
    have hys : typeOf ys = shorts := Registry.value_infer_ident rfl hsymbol'
    refine (hinfer declarations.environment "?[" _ xs ys _ _ _ (by decide) (hxs ▸ hbytes)
      (hys ▸ hshorts)).2 fun hboth ↦ ?_
    have heq : typeOf xs == typeOf ys := hboth.1
    rw [hxs, hys] at heq
    exact hdiffer heq

end ExprTyping
