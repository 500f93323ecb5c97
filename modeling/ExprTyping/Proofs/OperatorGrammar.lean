import Mathlib.Data.Option.Basic
import ExprTyping.Rule.Operator

/-!
# The grammar of binary operators

A binary operator is one of a table or, for sums, arithmetic and shifts, one of these with an equals
sign after it. Many operators of the table end in an equals sign, and some, such as `<=`, are
another operator and an equals sign. No operator that can be combined with an assignment is among
those others, so no text can be read in two ways.
-/

namespace ExprTyping

namespace OperatorClass

/-- The class lists the operator or, if its operators can be combined with an assignment, what
stands before one equals sign at the end. -/
def Accepts (c : OperatorClass) (operator : String) : Prop :=
  operator ∈ c.operators ∨
    c ∈ [plus, arithmetic, shift] ∧ ∃ base ∈ c.operators, operator = base ++ "="

instance (c : OperatorClass) (operator : String) : Decidable (c.Accepts operator) :=
  inferInstanceAs (Decidable (_ ∨ _ ∧ _))

/-! ## The table -/

@[simp] theorem mem_all (c : OperatorClass) : c ∈ all := by
  cases c <;> decide

theorem isCompound_iff {c : OperatorClass} : c.isCompound ↔ c ∈ [plus, arithmetic, shift] := by
  cases c <;> decide

/-- No operator stands in two classes. -/
theorem eq_of_mem_operators {c d : OperatorClass} {operator : String}
    (hc : operator ∈ c.operators) (hd : operator ∈ d.operators) : c = d := by
  have htable : ∀ c ∈ all, ∀ d ∈ all, ∀ operator ∈ c.operators, operator ∈ d.operators → c = d := by
    decide
  exact htable c (mem_all c) d (mem_all d) operator hc hd

/-- The search stops at the first class that lists the operator, and no other class does. -/
theorem ofPlain?_eq_some_iff {operator : String} {c : OperatorClass} :
    ofPlain? operator = some c ↔ operator ∈ c.operators := by
  constructor
  · intro h
    simpa using List.find?_some h
  · intro h
    have hfound : (ofPlain? operator).isSome := by
      rw [ofPlain?, List.find?_isSome]
      exact ⟨c, mem_all c, by simpa using h⟩
    obtain ⟨d, hd⟩ := Option.isSome_iff_exists.1 hfound
    have hmem : operator ∈ d.operators := by simpa using List.find?_some hd
    rw [hd, eq_of_mem_operators hmem h]

theorem of?_plain {c : OperatorClass} {operator : String} (h : operator ∈ c.operators) :
    of? operator = some c := by
  rw [of?, ofPlain?_eq_some_iff.2 h]
  rfl

/-! ## Operators with an assignment -/

theorem compoundBase?_eq_some_iff {operator base : String} :
    compoundBase? operator = some base ↔ operator = base ++ "=" := by
  constructor
  · intro h
    obtain ⟨hlast, hbase⟩ := Option.ite_none_right_eq_some.1 h
    obtain ⟨front, hfront⟩ := List.getLast?_eq_some_iff.1 hlast
    rw [hfront, List.dropLast_concat, Option.some_inj] at hbase
    rw [← String.toList_inj, hfront, ← hbase]
    simp
  · rintro rfl
    simp [compoundBase?]

section Compound

variable {c : OperatorClass} {base : String}
  (hc : c ∈ [plus, arithmetic, shift]) (hbase : base ∈ c.operators)

include hc hbase

/-- An operator that can be combined with an assignment has no equals sign of its own. -/
theorem count_equals_compound : (base ++ "=").toList.count '=' = 1 := by
  have htable : ∀ c ∈ [plus, arithmetic, shift], ∀ base ∈ c.operators,
      base.toList.count '=' = 0 := by
    decide
  simp [htable c hc base hbase]

theorem ofPlain?_compound : ofPlain? (base ++ "=") = none := by
  have htable : ∀ c ∈ [plus, arithmetic, shift], ∀ base ∈ c.operators,
      ofPlain? (base ++ "=") = none := by
    decide
  exact htable c hc base hbase

theorem of?_compound : of? (base ++ "=") = some c := by
  rw [of?, ofPlain?_compound hc hbase, compoundBase?_eq_some_iff.2 rfl, Option.bind_some,
    ofPlain?_eq_some_iff.2 hbase]
  simpa using isCompound_iff.2 hc

end Compound

/-! ## Classes of operators -/

theorem of?_eq_some_iff {operator : String} {c : OperatorClass} :
    of? operator = some c ↔ c.Accepts operator := by
  constructor
  · intro h
    rcases (Option.orElse_eq_some _ _ c).1 h with hplain | ⟨-, hcompound⟩
    · exact .inl (ofPlain?_eq_some_iff.1 hplain)
    · obtain ⟨hbind, hc⟩ := Option.filter_eq_some_iff.1 hcompound
      obtain ⟨base, hbase, hplain⟩ := Option.bind_eq_some_iff.1 hbind
      exact .inr ⟨isCompound_iff.1 hc, base, ofPlain?_eq_some_iff.1 hplain,
        compoundBase?_eq_some_iff.1 hbase⟩
  · rintro (h | ⟨hc, base, hbase, rfl⟩)
    · exact of?_plain h
    · exact of?_compound hc hbase

theorem of?_eq_none_iff {operator : String} :
    of? operator = none ↔ ∀ c : OperatorClass, ¬c.Accepts operator := by
  simp [Option.eq_none_iff_forall_ne_some, of?_eq_some_iff]

end OperatorClass

/-! ## The rule for binary operators -/

namespace Rule

open OperatorClass

theorem apply_binary {e : Expr} {shape : Shape.Binary Expr} (he : e.binary? = some shape)
    {c : OperatorClass} (hc : c.Accepts shape.operator) :
    binary.apply e = inferBinary shape.left shape.right c := by
  simp only [binary, byShape_of_eq_some he, of?_eq_some_iff.2 hc]

theorem apply_binary_of_not_accepts {e : Expr} {shape : Shape.Binary Expr}
    (he : e.binary? = some shape) (h : ∀ c : OperatorClass, ¬c.Accepts shape.operator) :
    binary.apply e = .done none := by
  simp only [binary, byShape_of_eq_some he, of?_eq_none_iff.2 h, Inquiry.pure_eq_done]

theorem isSome_run_inferBinary {c : OperatorClass} (hc : c ∈ [plus, arithmetic, shift])
    (left right : Expr) (answer : (query : Query) → Traced query.Answer) :
    ((inferBinary left right c).run answer).value.isSome := by
  simp only [List.mem_cons, List.not_mem_nil, or_false] at hc
  rcases hc with rfl | rfl | rfl <;> rfl

/-- A text is an operator of a class exactly if the class accepts it. An operator with an assignment
has one equals sign and the class of the operator alone, and the rule makes the same inquiry for
both: whoever answers is asked the same questions in the same order, and the rule does not decline.
With any other text in the place of the operator it declines, and asks nothing. -/
theorem binary_follows_grammar :
    (∀ operator c, of? operator = some c ↔ c.Accepts operator) ∧
      (∀ c ∈ [plus, arithmetic, shift], ∀ base ∈ c.operators,
        (base ++ "=").toList.count '=' = 1 ∧ of? (base ++ "=") = of? base ∧
          ∀ left right e e', e.binary? = some ⟨left, base ++ "=", right⟩ →
            e'.binary? = some ⟨left, base, right⟩ →
            binary.apply e = binary.apply e' ∧
              ∀ answer, ((binary.apply e).run answer).value.isSome) ∧
      ∀ operator, (∀ c : OperatorClass, ¬c.Accepts operator) →
        ∀ left right e, e.binary? = some ⟨left, operator, right⟩ → binary.apply e = .done none := by
  refine ⟨fun _ _ ↦ of?_eq_some_iff, ?_, ?_⟩
  · intro c hc base hbase
    have hcompound : c.Accepts (base ++ "=") := .inr ⟨hc, base, hbase, rfl⟩
    refine ⟨count_equals_compound hc hbase, ?_, ?_⟩
    · rw [of?_compound hc hbase, of?_plain hbase]
    · intro left right e e' he he'
      have happly := apply_binary he hcompound
      refine ⟨happly.trans (apply_binary he' (.inl hbase)).symm, ?_⟩
      rw [happly]
      exact isSome_run_inferBinary hc left right
  · intro operator hnone left right e he
    exact apply_binary_of_not_accepts he hnone

/-- An unsigned shift can be combined with an assignment, a sum only with one. -/
theorem binary_of_shift_with_assignment :
    let x := Expr.single .ident (.ident "x")
    let node operator := Expr.single .binary (.binary ⟨x, operator, x⟩)
    (shift ∈ [plus, arithmetic, shift] ∧ ">>>" ∈ shift.operators ∧ ">>>" ++ "=" = ">>>=") ∧
      (∀ operator, (node operator).binary? = some ⟨x, operator, x⟩) ∧
      of? ">>>=" = of? ">>>" ∧ binary.apply (node ">>>=") = binary.apply (node ">>>") ∧
      of? "<=" = some .boolean ∧
      (∀ c : OperatorClass, ¬c.Accepts "+==") ∧ binary.apply (node "+==") = .done none := by
  intro x node
  have hshape : ∀ operator, (node operator).binary? = some ⟨x, operator, x⟩ := fun _ ↦ rfl
  have htext : ">>>" ++ "=" = ">>>=" := by decide
  have hdoubled : ∀ c : OperatorClass, ¬c.Accepts "+==" := by
    intro c
    cases c <;> decide
  obtain ⟨hclasses, hcompound, hother⟩ := binary_follows_grammar
  obtain ⟨-, hclass, hsame⟩ := hcompound shift (by decide) ">>>" (by decide)
  rw [htext] at hclass hsame
  obtain ⟨happly, -⟩ := hsame x x (node ">>>=") (node ">>>") (hshape _) (hshape _)
  refine ⟨⟨by decide, by decide, htext⟩, hshape, hclass, happly, ?_, hdoubled, ?_⟩
  · exact (hclasses "<=" .boolean).2 (by decide)
  · exact hother "+==" hdoubled x x (node "+==") (hshape _)

end Rule

end ExprTyping
