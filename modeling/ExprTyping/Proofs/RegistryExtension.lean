import ExprTyping.Declarations
import ExprTyping.Proofs.Dispatch
import ExprTyping.Proofs.VisitOrder

/-!
# Adding rules to a registry

Rules that are registered later and at no higher priority stand behind the earlier ones, so that
they are offered only the nodes which all earlier rules decline. If inference never comes to such a
node, then it does not notice the added rules. The parts of a node are typed by the larger registry
as well; this makes no difference either, by induction, as long as rules look only downwards.
-/

namespace ExprTyping

namespace Expr

def properParts (e : Expr) : List Expr := e.children.flatMap parts

theorem children_subset_properParts (e : Expr) : e.children ⊆ e.properParts :=
  fun child hchild ↦ List.mem_flatMap.2 ⟨child, hchild, child.mem_parts_self⟩

theorem mem_parts_iff {e part : Expr} : part ∈ e.parts ↔ part = e ∨ part ∈ e.properParts := by
  rw [parts_eq, List.mem_cons, properParts]

theorem size_lt_of_mem_properParts {e part : Expr} (h : part ∈ e.properParts) :
    part.size < e.size := by
  induction e using induction_children with
  | node e ih =>
    obtain ⟨child, hchild, hpart⟩ := List.mem_flatMap.1 h
    have hlt := size_lt_of_mem_children hchild
    rcases mem_parts_iff.1 hpart with rfl | hbelow
    · exact hlt
    · exact (ih child hchild hbelow).trans hlt

theorem parts_subset_of_mem_properParts {e part : Expr} (h : part ∈ e.properParts) :
    part.parts ⊆ e.parts := by
  induction e using induction_children with
  | node e ih =>
    obtain ⟨child, hchild, hpart⟩ := List.mem_flatMap.1 h
    have hsubset : child.parts ⊆ e.parts := fun _ ↦ mem_parts_of_mem_children hchild
    rcases mem_parts_iff.1 hpart with rfl | hbelow
    · exact hsubset
    · exact List.Subset.trans (ih child hchild hbelow) hsubset

end Expr

/-- The rule asks for the types of parts below its node and of nothing else, whatever the answers
are. -/
def Rule.AsksBelow (rule : Rule) : Prop :=
  ∀ answer e, (rule.apply e).subjects answer ⊆ e.properParts

theorem Rule.asksBelow_of_mem_standard {rule : Rule} (h : rule ∈ standard) : rule.AsksBelow :=
  fun _ e ↦ List.Subset.trans (subjects_standard h).subset e.children_subset_properParts

namespace Registry

variable {rules added : List Rule} {kind : Kind} {e : Expr}

def FallsBack (registry : Registry) (environment : Environment) (e : Expr) : Prop :=
  ∀ rule ∈ registry.rulesFor e.kind, (registry.applyRule environment rule e).value = none

/-- At the nodes of `e`, no added rule has a higher priority than one of the rules. -/
def Yields (e : Expr) (rules added : List Rule) : Prop :=
  ∀ rule ∈ added, (∀ part ∈ e.parts, part.kind ≠ rule.kind) ∨
    ∀ other ∈ rules, other.kind = rule.kind → rule.priority ≤ other.priority

theorem Yields.of_mem_properParts (h : Yields e rules added) {part : Expr}
    (hpart : part ∈ e.properParts) : Yields part rules added :=
  fun rule hrule ↦ (h rule hrule).imp_left fun hnone node hnode ↦
    hnone node (Expr.parts_subset_of_mem_properParts hpart hnode)

/-! ## One node -/

/-- Rules of no higher priority are sorted behind those registered before them. -/
theorem dispatchOrder_append (h : ∀ rule ∈ added, rule.kind = kind →
      ∀ other ∈ rules, other.kind = kind → rule.priority ≤ other.priority) :
    dispatchOrder kind (rules ++ added) = dispatchOrder kind rules ++ dispatchOrder kind added := by
  have hdescending : Descending (dispatchOrder kind rules ++ dispatchOrder kind added) := by
    refine List.pairwise_append.2 ⟨descending_dispatchOrder kind rules,
      descending_dispatchOrder kind added, fun other hother rule hrule ↦ ?_⟩
    obtain ⟨hother, hotherKind⟩ := mem_dispatchOrder.1 hother
    obtain ⟨hrule, hruleKind⟩ := mem_dispatchOrder.1 hrule
    exact h rule hrule hruleKind other hother hotherKind
  refine (descending_dispatchOrder kind (rules ++ added)).eq_of_filter_eq hdescending
    fun priority ↦ ?_
  rw [List.filter_append, filter_dispatchOrder, filter_dispatchOrder, filter_dispatchOrder]
  exact List.filter_append _ _

theorem Yields.dispatchOrder_append (h : Yields e rules added) :
    dispatchOrder e.kind (rules ++ added) =
      dispatchOrder e.kind rules ++ dispatchOrder e.kind added := by
  refine Registry.dispatchOrder_append fun rule hrule hkind other hother hotherKind ↦ ?_
  rcases h rule hrule with hnone | hpriority
  · exact absurd hkind.symm (hnone e e.mem_parts_self)
  · exact hpriority other hother (hotherKind.trans hkind.symm)

/-- Later rules are offered what the earlier ones decline. -/
theorem firstAnswer_append (e : Expr) (rules added : List Rule) :
    firstAnswer e (rules ++ added) = firstAnswer e rules >>= fun
      | some ty => pure (some ty)
      | none => firstAnswer e added := by
  induction rules with
  | nil => rfl
  | cons rule rules ih =>
    rw [List.cons_append, firstAnswer, firstAnswer, bind_assoc]
    refine bind_congr fun x ↦ ?_
    cases x with
    | none => exact ih
    | some ty => rfl

theorem value_run_firstAnswer_eq_none_iff {answer : (query : Query) → Traced query.Answer} :
    ((firstAnswer e rules).run answer).value = none ↔
      ∀ rule ∈ rules, (rule.response answer e).value = none := by
  induction rules with
  | nil => simp [firstAnswer]
  | cons rule rules ih =>
    rw [List.forall_mem_cons, ← ih, firstAnswer, Inquiry.run_bind, Traced.value_bind, Rule.response]
    cases ((rule.apply e).run answer).value <;> simp

theorem typedParts_ofRules (rules : List Rule) (environment : Environment) (e : Expr) :
    (ofRules rules).typedParts environment e =
      (firstAnswer e (dispatchOrder e.kind rules)).subjects
        (environment.answer ((ofRules rules).inferPart environment e)) := by
  rw [typedParts]
  by_cases hnil : dispatchOrder e.kind rules = []
  · rw [calculate_ofRules_of_forall_ne (dispatchOrder_eq_nil_iff.1 hnil), hnil]
    rfl
  · rw [calculate_ofRules hnil]
    simp

/-- Added rules stand behind the others, and where these answer they are not asked. -/
theorem run_calculate_append {answer : (query : Query) → Traced query.Answer}
    (hyields : Yields e rules added)
    (hanswered : (∃ rule ∈ added, rule.kind = e.kind) →
      ((firstAnswer e (dispatchOrder e.kind rules)).run answer).value ≠ none) :
    ((ofRules (rules ++ added)).calculate e).run answer =
      ((ofRules rules).calculate e).run answer := by
  have horder := hyields.dispatchOrder_append
  by_cases hclaimed : ∃ rule ∈ added, rule.kind = e.kind
  · obtain ⟨ty, hty⟩ := Option.ne_none_iff_exists'.1 (hanswered hclaimed)
    have hne : dispatchOrder e.kind rules ≠ [] := by
      intro hnil
      simp [hnil, firstAnswer] at hty
    have hne' : dispatchOrder e.kind (rules ++ added) ≠ [] := by simp [horder, hne]
    rw [calculate_ofRules hne', calculate_ofRules hne, horder, firstAnswer_append, bind_assoc]
    ext1
    · simp [hty]
    · simp [hty]
  · have hnil : dispatchOrder e.kind added = [] :=
      dispatchOrder_eq_nil_iff.2 (by simpa using hclaimed)
    rw [hnil, List.append_nil] at horder
    rw [calculate_congr horder]

/-! ## All nodes -/

theorem subjects_firstAnswer_subset (h : ∀ rule ∈ rules, rule.AsksBelow)
    (answer : (query : Query) → Traced query.Answer) :
    (firstAnswer e rules).subjects answer ⊆ e.properParts := by
  induction rules with
  | nil => simp [firstAnswer]
  | cons rule rules ih =>
    obtain ⟨hrule, hrules⟩ := List.forall_mem_cons.1 h
    rw [firstAnswer, Inquiry.subjects_bind]
    refine List.append_subset.2 ⟨hrule answer e, ?_⟩
    split
    · simp
    · exact ih hrules

theorem typedParts_subset_properParts (h : ∀ rule ∈ rules, rule.AsksBelow)
    (environment : Environment) : (ofRules rules).typedParts environment e ⊆ e.properParts := by
  rw [typedParts_ofRules]
  exact subjects_firstAnswer_subset (fun rule hrule ↦ h rule (mem_dispatchOrder.1 hrule).1) _

theorem inferPart_of_mem_properParts (registry : Registry) (environment : Environment) {part : Expr}
    (h : part ∈ e.properParts) :
    registry.inferPart environment e part = registry.infer environment part :=
  if_pos (Expr.size_lt_of_mem_properParts h)

theorem fallsBack_ofRules_iff {environment : Environment} :
    (ofRules rules).FallsBack environment e ↔
      ((firstAnswer e (dispatchOrder e.kind rules)).run
        (environment.answer ((ofRules rules).inferPart environment e))).value = none := by
  rw [FallsBack, rulesFor_ofRules, value_run_firstAnswer_eq_none_iff]
  rfl

/-- The rules answer every node that they come to and that an added rule could answer too. -/
def SufficeFor (rules added : List Rule) (environment : Environment) (e : Expr) : Prop :=
  ∀ part ∈ ((ofRules rules).infer environment e).visited,
    (∃ rule ∈ added, rule.kind = part.kind) → ¬(ofRules rules).FallsBack environment part

/-- What is visited from a typed part on is also visited from the node on. -/
theorem SufficeFor.of_mem_typedParts {environment : Environment}
    (h : SufficeFor rules added environment e) {part : Expr}
    (hpart : part ∈ (ofRules rules).typedParts environment e) (hbelow : part ∈ e.properParts) :
    SufficeFor rules added environment part := by
  intro node hnode
  refine h node ?_
  rw [visited_infer]
  refine List.mem_cons_of_mem e (List.mem_flatMap.2 ⟨part, hpart, ?_⟩)
  rwa [inferPart_of_mem_properParts _ _ hbelow]

/-- Typing a node takes nothing from added rules if typing its parts does not. -/
theorem infer_append_of_typedParts {environment : Environment} (hyields : Yields e rules added)
    (hsuffice : SufficeFor rules added environment e)
    (hparts : ∀ part ∈ (ofRules rules).typedParts environment e,
      (ofRules (rules ++ added)).inferPart environment e part =
        (ofRules rules).inferPart environment e part) :
    (ofRules (rules ++ added)).infer environment e = (ofRules rules).infer environment e := by
  have hfirst := Inquiry.run_answer_congr environment
    (typedParts_ofRules rules environment e ▸ hparts)
  have hanswered (hclaimed : ∃ rule ∈ added, rule.kind = e.kind) :
      ((firstAnswer e (dispatchOrder e.kind rules)).run
        (environment.answer
          ((ofRules (rules ++ added)).inferPart environment e))).value ≠ none := by
    rw [hfirst, Ne, ← fallsBack_ofRules_iff]
    exact hsuffice e (by simp [visited_infer]) hclaimed
  rw [infer_eq, infer_eq, run_calculate_append hyields hanswered,
    Inquiry.run_answer_congr environment hparts]

/-- Added rules that yield to the others are not noticed by inference, neither in the type nor in
the questions, as long as the others suffice and ask about proper parts only. The standard rules ask
about nothing else. Since rules may ask far below their node, the induction is on the size of the
expression. -/
theorem infer_eq_of_rules_added :
    (∀ rule ∈ Rule.standard, rule.AsksBelow) ∧
      ∀ rules added : List Rule, (∀ rule ∈ rules, rule.AsksBelow) →
        ∀ (environment : Environment) (e : Expr), Yields e rules added →
          SufficeFor rules added environment e →
            (ofRules (rules ++ added)).infer environment e =
              (ofRules rules).infer environment e := by
  refine ⟨fun rule hrule ↦ Rule.asksBelow_of_mem_standard hrule, ?_⟩
  intro rules added hrules environment e
  induction hsize : e.size using Nat.strong_induction_on generalizing e with
  | _ size ih =>
    intro hyields hsuffice
    refine infer_append_of_typedParts hyields hsuffice fun part hpart ↦ ?_
    have hproper := typedParts_subset_properParts hrules environment hpart
    have hlt := hsize ▸ Expr.size_lt_of_mem_properParts hproper
    rw [inferPart_of_mem_properParts _ _ hproper, inferPart_of_mem_properParts _ _ hproper]
    exact ih part.size hlt part rfl (hyields.of_mem_properParts hproper)
      (hsuffice.of_mem_typedParts hpart hproper)

/-- Added for the kinds of a sum and of its operands, at the priority of the standard rules and
below it, and for a kind that does not occur, above it. -/
theorem infer_of_sum_with_rules_added :
    let one : Expr := .single .literal (.literal (.int 1))
    let sum : Expr := .single .binary (.binary ⟨.single .ident (.ident "x"), "+", one⟩)
    let added := [Rule.custom .binary 0 Rule.listOfLeft,
      Rule.custom .literal (-3) (Rule.constantly .object),
      Rule.custom (.custom "Spread") 7 (Rule.constantly .int)]
    let environment := Declarations.environment {}
    (∀ rule ∈ Rule.standard, rule.AsksBelow) ∧ Yields sum Rule.standard added ∧
      SufficeFor Rule.standard added environment sum ∧
      (ofRules (Rule.standard ++ added)).infer environment sum =
        standard.infer environment sum := by
  intro one sum added environment
  obtain ⟨hstandard, hadded⟩ := infer_eq_of_rules_added
  have hparts : sum.parts = [sum, .single .ident (.ident "x"), one] := by
    simp [Expr.parts_eq, sum, one, Expr.single, Expr.children, Expr.shapes, Shape.children]
  have hyields : Yields sum Rule.standard added := by
    simp only [Yields, hparts]
    decide
  have hsuffice : SufficeFor Rule.standard added environment sum := by
    intro part hpart hclaimed hfalls
    have hdeclines (rule : Rule) (hrule : rule ∈ Rule.standard) (hkind : rule.kind = part.kind) :
        (standard.applyRule environment rule part).value = none :=
      hfalls rule (rulesFor_ofRules _ _ ▸ mem_dispatchOrder.2 ⟨hrule, hkind⟩)
    have hmem := (visited_sublist_parts environment sum).subset hpart
    simp only [hparts, List.mem_cons, List.not_mem_nil, or_false] at hmem
    rcases hmem with rfl | rfl | rfl
    · cases hdeclines Rule.binary (by simp [Rule.standard]) rfl
    · exact absurd hclaimed (by decide)
    · cases hdeclines Rule.literal (by simp [Rule.standard]) rfl
  exact ⟨hstandard, hyields, hsuffice, hadded _ _ hstandard environment sum hyields hsuffice⟩

end Registry

end ExprTyping
