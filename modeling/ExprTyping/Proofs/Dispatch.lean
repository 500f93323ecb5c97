import Mathlib.Algebra.BigOperators.Group.List.Lemmas
import Mathlib.Data.List.Induction
import ExprTyping.Proofs.NodeType
import ExprTyping.Rule.Custom

/-!
# Dispatch by priority, then by registration

The rules of a kind stand in the order in which they are offered a node. This order is a permutation
of the registered rules with that kind, it descends in priority, and it keeps the order of
registration among equals. Nothing else can be in such an order, so a registry is determined by what
is registered for each kind at each priority, and the rule that types a node can be told from the
registrations alone.
-/

namespace ExprTyping

def Rule.response (answer : (query : Query) → Traced query.Answer) (e : Expr) (rule : Rule) :
    Traced (Option Ty) :=
  (rule.apply e).run answer

namespace Registry

def Descending (order : List Rule) : Prop :=
  order.Pairwise fun rule other ↦ other.priority ≤ rule.priority

def registered (rules : List Rule) (kind : Kind) (priority : Int) : List Rule :=
  rules.filter fun rule ↦ rule.kind = kind ∧ rule.priority = priority

variable {rules : List Rule} {kind : Kind}

/-! ## The order of the rules of a kind -/

theorem dispatchOrder_perm (kind : Kind) (rules : List Rule) :
    (dispatchOrder kind rules).Perm (rules.filter (·.kind = kind)) :=
  List.mergeSort_perm _ _

theorem mem_dispatchOrder {rule : Rule} :
    rule ∈ dispatchOrder kind rules ↔ rule ∈ rules ∧ rule.kind = kind := by
  rw [(dispatchOrder_perm kind rules).mem_iff, List.mem_filter, decide_eq_true_eq]

theorem dispatchOrder_eq_nil_iff :
    dispatchOrder kind rules = [] ↔ ∀ rule ∈ rules, rule.kind ≠ kind := by
  simp only [List.eq_nil_iff_forall_not_mem, mem_dispatchOrder, not_and, ne_eq]

theorem priority_le_trans (r s t : Rule) (hrs : decide (s.priority ≤ r.priority))
    (hst : decide (t.priority ≤ s.priority)) : decide (t.priority ≤ r.priority) := by
  simp only [decide_eq_true_eq] at *
  exact hst.trans hrs

theorem priority_le_total (r s : Rule) :
    decide (s.priority ≤ r.priority) || decide (r.priority ≤ s.priority) := by
  simpa using le_total s.priority r.priority

theorem descending_dispatchOrder (kind : Kind) (rules : List Rule) :
    Descending (dispatchOrder kind rules) := by
  have hsorted := List.pairwise_mergeSort priority_le_trans priority_le_total
    (rules.filter (·.kind = kind))
  exact hsorted.imp of_decide_eq_true

/-- Rules of one priority stay in order of registration: they are in descending order already, so
sorting keeps them as a sublist. -/
theorem filter_dispatchOrder (kind : Kind) (rules : List Rule) (priority : Int) :
    (dispatchOrder kind rules).filter (·.priority = priority) = registered rules kind priority := by
  have hregistered : registered rules kind priority =
      (rules.filter (·.kind = kind)).filter (·.priority = priority) := by
    simp [registered, List.filter_filter, and_comm]
  have hpairwise : (registered rules kind priority).Pairwise
      fun rule other ↦ decide (other.priority ≤ rule.priority) := by
    refine List.pairwise_of_forall_mem_list fun rule hrule other hother ↦ ?_
    simp only [registered, List.mem_filter, decide_eq_true_eq] at hrule hother
    simp [hrule.2.2, hother.2.2]
  have hsublist : (registered rules kind priority).Sublist (dispatchOrder kind rules) :=
    List.sublist_mergeSort priority_le_trans priority_le_total hpairwise
      (hregistered ▸ List.filter_sublist)
  have hfiltered := hsublist.filter (·.priority = priority)
  rw [hregistered, List.filter_filter] at hfiltered
  simp only [Bool.and_self] at hfiltered
  rw [hregistered]
  refine (hfiltered.eq_of_length ?_).symm
  exact ((dispatchOrder_perm kind rules).filter _).length_eq.symm

theorem Descending.priority_le {first rule : Rule} {rest : List Rule}
    (h : Descending (first :: rest)) (hrule : rule ∈ first :: rest) :
    rule.priority ≤ first.priority := by
  rcases List.mem_cons.1 hrule with rfl | hrest
  · exact le_rfl
  · exact List.rel_of_pairwise_cons h hrest

theorem mem_iff_of_filter_eq {order order' : List Rule} (h : ∀ priority : Int,
      order.filter (·.priority = priority) = order'.filter (·.priority = priority)) {rule : Rule} :
    rule ∈ order ↔ rule ∈ order' := by
  have hpriority := congrArg (rule ∈ ·) (h rule.priority)
  simpa using hpriority

/-- A descending order is determined by what stands in it at each priority. -/
theorem Descending.eq_of_filter_eq {order order' : List Rule} (h : Descending order)
    (h' : Descending order') (hfilter : ∀ priority : Int,
      order.filter (·.priority = priority) = order'.filter (·.priority = priority)) :
    order = order' := by
  induction order generalizing order' with
  | nil =>
    refine (List.eq_nil_iff_forall_not_mem.2 fun rule hrule ↦ ?_).symm
    exact List.not_mem_nil ((mem_iff_of_filter_eq hfilter).2 hrule)
  | cons first rest ih =>
    have hfirst := (mem_iff_of_filter_eq hfilter).1 List.mem_cons_self
    cases order' with
    | nil => exact absurd hfirst List.not_mem_nil
    | cons first' rest' =>
      have hfirst' := (mem_iff_of_filter_eq hfilter).2 List.mem_cons_self
      have hpriority : first'.priority = first.priority :=
        le_antisymm (h.priority_le hfirst') (h'.priority_le hfirst)
      have hheads := hfilter first.priority
      rw [List.filter_cons_of_pos (by simp), List.filter_cons_of_pos (by simpa using hpriority)]
        at hheads
      obtain rfl : first = first' := (List.cons.inj hheads).1
      refine congrArg (first :: ·) (ih h.of_cons h'.of_cons fun priority ↦ ?_)
      have htails := hfilter priority
      by_cases hsame : first.priority = priority <;> simpa [List.filter_cons, hsame] using htails

section Split

variable {before after : List Rule} {rule : Rule}

theorem mem_of_dispatchOrder (h : dispatchOrder kind rules = before ++ rule :: after) :
    rule ∈ rules ∧ rule.kind = kind := by
  rw [← mem_dispatchOrder, h]
  exact List.mem_append_right before List.mem_cons_self

theorem priority_le_of_dispatchOrder (h : dispatchOrder kind rules = before ++ rule :: after)
    {other : Rule} (hother : other ∈ rule :: after) : other.priority ≤ rule.priority := by
  have hdescending := descending_dispatchOrder kind rules
  rw [h] at hdescending
  have hafter : Descending (rule :: after) :=
    hdescending.sublist (List.sublist_append_right before _)
  exact hafter.priority_le hother

end Split

theorem dispatchOrder_congr {rules' : List Rule}
    (h : ∀ priority, registered rules kind priority = registered rules' kind priority) :
    dispatchOrder kind rules = dispatchOrder kind rules' := by
  refine (descending_dispatchOrder kind rules).eq_of_filter_eq
    (descending_dispatchOrder kind rules') fun priority ↦ ?_
  rw [filter_dispatchOrder, filter_dispatchOrder, h]

/-! ## The groups -/

theorem lookup_ofRules (h : dispatchOrder kind rules ≠ []) :
    (ofRules rules).groups.lookup kind = some (dispatchOrder kind rules) := by
  obtain ⟨rule, hrule⟩ := List.exists_mem_of_ne_nil _ h
  obtain ⟨hmem, rfl⟩ := mem_dispatchOrder.1 hrule
  exact List.lookup_graph _ (List.mem_eraseDups.2 (List.mem_map_of_mem hmem))

theorem rulesFor_ofRules (rules : List Rule) (kind : Kind) :
    (ofRules rules).rulesFor kind = dispatchOrder kind rules := by
  by_cases h : dispatchOrder kind rules = []
  · rw [rulesFor, lookup_ofRules_eq_none (dispatchOrder_eq_nil_iff.1 h), h, Option.getD_none]
  · rw [rulesFor, lookup_ofRules h, Option.getD_some]

theorem kinds_ofRules (rules : List Rule) :
    (ofRules rules).kinds = (rules.map (·.kind)).eraseDups := by
  simp [kinds, ofRules, claimedKinds, Function.comp_def]

/-- Distinct members stand in the order of their first occurrences. -/
theorem pairwise_eraseDups {α : Type} [DecidableEq α] (xs : List α) :
    xs.eraseDups.Pairwise fun x y ↦ xs.idxOf x < xs.idxOf y := by
  induction xs using List.reverseRec with
  | nil => exact List.Pairwise.nil
  | append_singleton xs last ih =>
    have hmem {x : α} (hx : x ∈ xs.eraseDups) : x ∈ xs := List.mem_eraseDups.1 hx
    have hearlier : xs.eraseDups.Pairwise fun x y ↦
        (xs ++ [last]).idxOf x < (xs ++ [last]).idxOf y := by
      refine ih.imp_of_mem fun hx hy hxy ↦ ?_
      rwa [List.idxOf_append_of_mem (hmem hx), List.idxOf_append_of_mem (hmem hy)]
    rw [List.eraseDups_append]
    by_cases hlast : last ∈ xs
    · simpa [List.removeAll, hlast] using hearlier
    · have hremove : ([last].removeAll xs).eraseDups = [last] := by
        simp [List.removeAll, hlast, List.eraseDups_cons]
      rw [hremove, List.pairwise_append]
      refine ⟨hearlier, List.pairwise_singleton _ _, fun x hx y hy ↦ ?_⟩
      obtain rfl : y = last := List.mem_singleton.1 hy
      rw [List.idxOf_append_of_mem (hmem hx), List.idxOf_append_of_notMem hlast]
      have hlt := List.idxOf_lt_length_of_mem (hmem hx)
      omega

theorem nodup_kinds_ofRules (rules : List Rule) : (ofRules rules).kinds.Nodup := by
  rw [kinds_ofRules]
  refine (pairwise_eraseDups _).imp fun hlt heq ↦ ?_
  rw [heq] at hlt
  exact hlt.false

theorem mem_kinds_ofRules : kind ∈ (ofRules rules).kinds ↔ ∃ rule ∈ rules, rule.kind = kind := by
  rw [kinds_ofRules, List.mem_eraseDups, List.mem_map]

theorem size_ofRules (rules : List Rule) : (ofRules rules).size = rules.length := by
  have hcount (kind : Kind) :
      (dispatchOrder kind rules).length = (rules.map (·.kind)).count kind := by
    rw [(dispatchOrder_perm kind rules).length_eq, List.count_eq_countP, List.countP_map,
      List.countP_eq_length_filter]
    rfl
  have hperm : (ofRules rules).kinds.Perm (rules.map (·.kind)).dedup := by
    refine (List.perm_ext_iff_of_nodup (nodup_kinds_ofRules rules) (List.nodup_dedup _)).2 ?_
    intro kind
    rw [kinds_ofRules, List.mem_eraseDups, List.mem_dedup]
  calc (ofRules rules).size
    _ = ((ofRules rules).kinds.map fun kind ↦ (rules.map (·.kind)).count kind).sum := by
      simp [size, ofRules, kinds, List.length_flatMap, hcount, Function.comp_def]
    _ = ((rules.map (·.kind)).dedup.map fun kind ↦ (rules.map (·.kind)).count kind).sum :=
      (hperm.map _).sum_eq
    _ = rules.length := by rw [List.sum_map_count_dedup_eq_length, List.length_map]

/-! ## The answer to a node -/

theorem calculate_ofRules {e : Expr} (h : dispatchOrder e.kind rules ≠ []) :
    (ofRules rules).calculate e = do
      return (← firstAnswer e (dispatchOrder e.kind rules)).getD
        (.unknown (e.kind.name ++ " produced no result")) := by
  simp only [calculate, lookup_ofRules h]

theorem calculate_ofRules_of_forall_ne {e : Expr} (h : ∀ rule ∈ rules, rule.kind ≠ e.kind) :
    (ofRules rules).calculate e = pure (.unknown "no calculator matched") := by
  simp only [calculate, lookup_ofRules_eq_none h]

theorem calculate_congr {rules' : List Rule} {e : Expr}
    (h : dispatchOrder e.kind rules = dispatchOrder e.kind rules') :
    (ofRules rules).calculate e = (ofRules rules').calculate e := by
  by_cases hnil : dispatchOrder e.kind rules = []
  · rw [calculate_ofRules_of_forall_ne (dispatchOrder_eq_nil_iff.1 hnil),
      calculate_ofRules_of_forall_ne (dispatchOrder_eq_nil_iff.1 (h ▸ hnil))]
  · rw [calculate_ofRules hnil, calculate_ofRules (h ▸ hnil), h]

section Run

variable (answer : (query : Query) → Traced query.Answer) (e : Expr)

def questions (offered : List Rule) : List Query :=
  offered.flatMap fun rule ↦ (rule.response answer e).queries

variable {answer e}

/-- Rules that decline leave nothing behind but their questions. -/
theorem run_firstAnswer_append {declining : List Rule}
    (h : ∀ rule ∈ declining, (rule.response answer e).value = none) (rest : List Rule) :
    (firstAnswer e (declining ++ rest)).run answer =
      ⟨((firstAnswer e rest).run answer).value,
        questions answer e declining ++ ((firstAnswer e rest).run answer).queries⟩ := by
  induction declining with
  | nil => rfl
  | cons rule declining ih =>
    obtain ⟨hrule, hdeclining⟩ := List.forall_mem_cons.1 h
    rw [Rule.response] at hrule
    ext1
    · simp [firstAnswer, hrule, ih hdeclining]
    · simp [firstAnswer, hrule, ih hdeclining, questions, Rule.response]

theorem run_firstAnswer_of_some {rule : Rule} {ty : Ty}
    (h : (rule.response answer e).value = some ty) (after : List Rule) :
    (firstAnswer e (rule :: after)).run answer = rule.response answer e := by
  rw [Rule.response] at h
  ext1
  · simp [firstAnswer, h, Rule.response]
  · simp [firstAnswer, h, Rule.response]

/-- The first rule with an answer decides, and the rules after it are asked nothing. -/
theorem run_calculate_of_answered {before after : List Rule} {rule : Rule} {ty : Ty}
    (horder : dispatchOrder e.kind rules = before ++ rule :: after)
    (hbefore : ∀ earlier ∈ before, (earlier.response answer e).value = none)
    (hrule : (rule.response answer e).value = some ty) :
    ((ofRules rules).calculate e).run answer = ⟨ty, questions answer e (before ++ [rule])⟩ := by
  have hne : dispatchOrder e.kind rules ≠ [] := by simp [horder]
  rw [calculate_ofRules hne, horder, Inquiry.run_bind, run_firstAnswer_append hbefore,
    run_firstAnswer_of_some hrule]
  ext1
  · simp [hrule]
  · simp [questions]

theorem run_calculate_of_declined (hclaimed : dispatchOrder e.kind rules ≠ [])
    (h : ∀ rule ∈ dispatchOrder e.kind rules, (rule.response answer e).value = none) :
    ((ofRules rules).calculate e).run answer =
      ⟨.unknown (e.kind.name ++ " produced no result"),
        questions answer e (dispatchOrder e.kind rules)⟩ := by
  have hrun := run_firstAnswer_append h []
  rw [List.append_nil] at hrun
  rw [calculate_ofRules hclaimed, Inquiry.run_bind, hrun]
  ext1
  · simp [firstAnswer]
  · simp [firstAnswer]

/-- Either all rules decline, or there is a first one that does not. -/
theorem declined_or_answered (answer : (query : Query) → Traced query.Answer) (e : Expr)
    (order : List Rule) :
    (∀ rule ∈ order, (rule.response answer e).value = none) ∨
      ∃ before rule after ty, order = before ++ rule :: after ∧
        (∀ earlier ∈ before, (earlier.response answer e).value = none) ∧
        (rule.response answer e).value = some ty := by
  cases hfind : order.find? fun rule ↦ (rule.response answer e).value.isSome with
  | none => exact .inl (by simpa using List.find?_eq_none.1 hfind)
  | some rule =>
    obtain ⟨hrule, before, after, horder, hbefore⟩ := List.find?_eq_some_iff_append.1 hfind
    obtain ⟨ty, hty⟩ := Option.isSome_iff_exists.1 hrule
    exact .inr ⟨before, rule, after, ty, horder, by simpa using hbefore, hty⟩

/-! ## The rule that prevails -/

/-- A rule answers `ty`, and every rule that goes before it declines: those of higher priority, and
those of the same priority that are registered earlier. -/
def Prevails (answer : (query : Query) → Traced query.Answer) (e : Expr) (rules : List Rule)
    (ty : Ty) : Prop :=
  ∃ before rule after, rules = before ++ rule :: after ∧ rule.kind = e.kind ∧
    (rule.response answer e).value = some ty ∧
    (∀ other ∈ before, other.kind = e.kind → rule.priority ≤ other.priority →
      (other.response answer e).value = none) ∧
    ∀ other ∈ after, other.kind = e.kind → rule.priority < other.priority →
      (other.response answer e).value = none

/-- The first rule of the dispatch order with an answer prevails: the registrations at its priority
stand around it as in that order. -/
theorem prevails_of_dispatchOrder {before after : List Rule} {rule : Rule} {ty : Ty}
    (horder : dispatchOrder e.kind rules = before ++ rule :: after)
    (hbefore : ∀ earlier ∈ before, (earlier.response answer e).value = none)
    (hrule : (rule.response answer e).value = some ty) : Prevails answer e rules ty := by
  have hkind : rule.kind = e.kind := (mem_of_dispatchOrder horder).2
  have hhigher : ∀ other ∈ rules, other.kind = e.kind → rule.priority < other.priority →
      (other.response answer e).value = none := by
    intro other hother hkind' hlt
    have hmem : other ∈ before ++ rule :: after := horder ▸ mem_dispatchOrder.2 ⟨hother, hkind'⟩
    rcases List.mem_append.1 hmem with hmem | hmem
    · exact hbefore other hmem
    · exact absurd (priority_le_of_dispatchOrder horder hmem) (not_le.2 hlt)
  have hregistered : registered rules e.kind rule.priority =
      before.filter (·.priority = rule.priority) ++
        rule :: after.filter (·.priority = rule.priority) := by
    rw [← filter_dispatchOrder, horder, List.filter_append, List.filter_cons_of_pos (by simp)]
  obtain ⟨front, back, rfl, hfront, hback⟩ := List.filter_eq_append_iff.1 hregistered
  obtain ⟨skipped, back, rfl, hskipped, -, -⟩ := List.filter_eq_cons_iff.1 hback
  refine ⟨front ++ skipped, rule, back, by simp, hkind, hrule, ?_, ?_⟩
  · intro other hother hkind' hle
    rcases hle.lt_or_eq with hlt | heq
    · exact hhigher other (by grind) hkind' hlt
    · rcases List.mem_append.1 hother with hother | hother
      · have hmem : other ∈ before.filter (·.priority = rule.priority) := by
          rw [← hfront, List.mem_filter]
          exact ⟨hother, by simp [hkind', heq]⟩
        exact hbefore other (List.mem_of_mem_filter hmem)
      · exact absurd (by simp [hkind', heq]) (hskipped other hother)
  · intro other hother hkind' hlt
    exact hhigher other (by grind) hkind' hlt

/-- The rule that prevails is the first of the dispatch order with an answer. Both have the same
priority, and among the registrations there both are the first to answer. -/
theorem Prevails.exists_dispatchOrder {ty : Ty} (h : Prevails answer e rules ty) :
    ∃ before rule after, dispatchOrder e.kind rules = before ++ rule :: after ∧
      (∀ earlier ∈ before, (earlier.response answer e).value = none) ∧
      (rule.response answer e).value = some ty := by
  obtain ⟨front, rule, back, hrules, hkind, hrule, hfront, hback⟩ := h
  have hmem : rule ∈ dispatchOrder e.kind rules := mem_dispatchOrder.2 ⟨by simp [hrules], hkind⟩
  rcases declined_or_answered answer e (dispatchOrder e.kind rules) with hdeclined | hanswered
  · simp [hdeclined rule hmem] at hrule
  obtain ⟨before, first, after, ty', horder, hbefore, hfirst⟩ := hanswered
  obtain ⟨hfirstMem, hfirstKind⟩ := mem_of_dispatchOrder horder
  have hle : first.priority ≤ rule.priority := by
    by_contra! hlt
    rw [hrules, List.mem_append, List.mem_cons] at hfirstMem
    rcases hfirstMem with hmem | rfl | hmem
    · simp [hfront first hmem hfirstKind hlt.le] at hfirst
    · exact hlt.false
    · simp [hback first hmem hfirstKind hlt] at hfirst
  have hge : rule.priority ≤ first.priority := by
    rw [horder, List.mem_append] at hmem
    rcases hmem with hmem | hmem
    · simp [hbefore rule hmem] at hrule
    · exact priority_le_of_dispatchOrder horder hmem
  have hpriority : first.priority = rule.priority := le_antisymm hle hge
  have hfindFirst : (registered rules e.kind rule.priority).find?
      (fun other ↦ (other.response answer e).value.isSome) = some first := by
    rw [← filter_dispatchOrder, List.find?_filter, List.find?_eq_some_iff_append]
    refine ⟨by simp [hpriority, hfirst], before, after, horder, fun earlier hearlier ↦ ?_⟩
    simp [hbefore earlier hearlier]
  have hfindRule : (registered rules e.kind rule.priority).find?
      (fun other ↦ (other.response answer e).value.isSome) = some rule := by
    rw [registered, List.find?_filter, List.find?_eq_some_iff_append]
    refine ⟨by simp [hkind, hrule], front, back, hrules, fun other hother ↦ ?_⟩
    by_cases hother' : other.kind = e.kind ∧ other.priority = rule.priority
    · simp [hfront other hother hother'.1 hother'.2.ge]
    · simp [hother']
  obtain rfl : first = rule := Option.some.inj (hfindFirst.symm.trans hfindRule)
  exact ⟨before, first, after, horder, hbefore, hrule⟩

end Run

/-! ## Dispatch -/

/-- The rules stand under their kinds, highest priority first and then in order of registration; the
kinds stand in the order of their first registrations. -/
structure Arranges (registry : Registry) (rules : List Rule) : Prop where
  perm : ∀ kind, (registry.rulesFor kind).Perm (rules.filter (·.kind = kind))
  descending : ∀ kind, Descending (registry.rulesFor kind)
  stable : ∀ kind priority,
    (registry.rulesFor kind).filter (·.priority = priority) = registered rules kind priority
  size_eq : registry.size = rules.length
  nodup_kinds : registry.kinds.Nodup
  mem_kinds : ∀ kind, kind ∈ registry.kinds ↔ ∃ rule ∈ rules, rule.kind = kind
  kinds_order : registry.kinds.Pairwise fun kind other ↦
    (rules.map (·.kind)).idxOf kind < (rules.map (·.kind)).idxOf other

/-- A node gets the answer of the first rule of its kind that does not decline, and no rule after it
is asked. In terms of the registrations this is the answer that prevails. -/
structure Dispatches (registry : Registry) (rules : List Rule)
    (answer : (query : Query) → Traced query.Answer) (e : Expr) : Prop where
  answered : ∀ before rule after ty, registry.rulesFor e.kind = before ++ rule :: after →
    (∀ earlier ∈ before, (earlier.response answer e).value = none) →
    (rule.response answer e).value = some ty →
      (registry.calculate e).run answer = ⟨ty, questions answer e (before ++ [rule])⟩
  prevailing : ∀ ty, Prevails answer e rules ty → ((registry.calculate e).run answer).value = ty
  declined : (∃ rule ∈ rules, rule.kind = e.kind) →
    (∀ rule ∈ rules, rule.kind = e.kind → (rule.response answer e).value = none) →
      (registry.calculate e).run answer =
        ⟨.unknown (e.kind.name ++ " produced no result"),
          questions answer e (registry.rulesFor e.kind)⟩
  unclaimed : (∀ rule ∈ rules, rule.kind ≠ e.kind) →
    (registry.calculate e).run answer = ⟨.unknown "no calculator matched", []⟩
  unmatched_iff : ((registry.calculate e).run answer).value = .unknown "no calculator matched" ↔
    (∀ rule ∈ rules, rule.kind ≠ e.kind) ∨
      Prevails answer e rules (.unknown "no calculator matched")

theorem arranges_ofRules (rules : List Rule) : (ofRules rules).Arranges rules where
  perm kind := rulesFor_ofRules rules kind ▸ dispatchOrder_perm kind rules
  descending kind := rulesFor_ofRules rules kind ▸ descending_dispatchOrder kind rules
  stable kind := rulesFor_ofRules rules kind ▸ filter_dispatchOrder kind rules
  size_eq := size_ofRules rules
  nodup_kinds := nodup_kinds_ofRules rules
  mem_kinds _ := mem_kinds_ofRules
  kinds_order := kinds_ofRules rules ▸ pairwise_eraseDups _

theorem value_calculate_of_prevails {answer : (query : Query) → Traced query.Answer} {e : Expr}
    {ty : Ty} (h : Prevails answer e rules ty) :
    (((ofRules rules).calculate e).run answer).value = ty := by
  obtain ⟨before, rule, after, horder, hbefore, hrule⟩ := h.exists_dispatchOrder
  rw [run_calculate_of_answered horder hbefore hrule]

/-- The texts for no answer and for no rule end differently. -/
theorem noResult_ne (name : String) : name ++ " produced no result" ≠ "no calculator matched" := by
  intro h
  have hlast := congrArg (fun text ↦ text.toList.getLast?) h
  simp at hlast

theorem dispatches_ofRules (rules : List Rule) (answer : (query : Query) → Traced query.Answer)
    (e : Expr) : (ofRules rules).Dispatches rules answer e where
  answered before rule after ty horder := by
    rw [rulesFor_ofRules] at horder
    exact run_calculate_of_answered horder
  prevailing _ := value_calculate_of_prevails
  declined := by
    intro hclaimed hdeclined
    rw [rulesFor_ofRules]
    refine run_calculate_of_declined ?_ fun rule hrule ↦ ?_
    · rw [Ne, dispatchOrder_eq_nil_iff]
      simpa using hclaimed
    · obtain ⟨hmem, hkind⟩ := mem_dispatchOrder.1 hrule
      exact hdeclined rule hmem hkind
  unclaimed h := by
    rw [calculate_ofRules_of_forall_ne h]
    rfl
  unmatched_iff := by
    constructor
    · intro hvalue
      by_cases hnil : dispatchOrder e.kind rules = []
      · exact .inl (dispatchOrder_eq_nil_iff.1 hnil)
      rcases declined_or_answered answer e (dispatchOrder e.kind rules) with hdeclined | hanswered
      · rw [run_calculate_of_declined hnil hdeclined] at hvalue
        exact absurd (Ty.unknown.inj hvalue) (noResult_ne e.kind.name)
      · obtain ⟨before, rule, after, ty, horder, hbefore, hrule⟩ := hanswered
        rw [run_calculate_of_answered horder hbefore hrule] at hvalue
        exact .inr (hvalue ▸ prevails_of_dispatchOrder horder hbefore hrule)
    · rintro (hunclaimed | hprevails)
      · rw [calculate_ofRules_of_forall_ne hunclaimed]
        rfl
      · exact value_calculate_of_prevails hprevails

/-- A registry dispatches by priority and then by registration, whatever is registered and whoever
answers. Registrations that differ only in how the kinds and priorities interleave give registries
that type every node by the same inquiry. -/
theorem ofRules_dispatch_by_priority (rules : List Rule) :
    (ofRules rules).Arranges rules ∧
      (∀ answer e, (ofRules rules).Dispatches rules answer e) ∧
      ∀ rules', (∀ kind priority, registered rules kind priority = registered rules' kind priority) →
        ∀ e, (ofRules rules).calculate e = (ofRules rules').calculate e := by
  refine ⟨arranges_ofRules rules, dispatches_ofRules rules, fun rules' h e ↦ ?_⟩
  exact calculate_congr (dispatchOrder_congr (h e.kind))

/-- Two interleavings of four rules. The first rule for literals declines, so the earlier one of the
next two prevails, wherever the rule for operators stands. -/
theorem calculate_of_interleaved_rules :
    ∃ rules rules' : List Rule,
      (ofRules rules).kinds ≠ (ofRules rules').kinds ∧
      (∀ kind priority, registered rules kind priority = registered rules' kind priority) ∧
      (∀ e, (ofRules rules).calculate e = (ofRules rules').calculate e) ∧
      ∀ answer value, (((ofRules rules').calculate (.single .literal (.literal value))).run
        answer).value = .int := by
  let declining := Rule.custom .literal 7 Rule.declining
  let earlier := Rule.custom .literal (-2) (Rule.constantly .int)
  let later := Rule.custom .literal (-2) (Rule.constantly .string)
  let operators := Rule.custom .binary 3 Rule.listOfLeft
  have hregistered : ∀ kind priority,
      registered [earlier, operators, declining, later] kind priority =
        registered [operators, declining, earlier, later] kind priority := by
    intro kind priority
    by_cases hearlier : earlier.kind = kind ∧ earlier.priority = priority
    · obtain ⟨rfl, rfl⟩ := hearlier
      rfl
    · simp [registered, List.filter_cons, hearlier]
  refine ⟨_, _, ?_, hregistered, (ofRules_dispatch_by_priority _).2.2 _ hregistered, ?_⟩
  · decide
  · intro answer value
    refine ((ofRules_dispatch_by_priority _).2.1 answer _).prevailing .int ?_
    refine ⟨[operators, declining], earlier, [later], rfl, rfl, rfl, ?_, ?_⟩
    · rw [List.forall_mem_cons, List.forall_mem_singleton]
      constructor
      · intro hkind
        cases hkind
      · exact fun _ _ ↦ rfl
    · rw [List.forall_mem_singleton]
      exact fun _ hlt ↦ absurd hlt (lt_irrefl _)

/-- A rule may answer in the words of the registry, so these words do not tell that no rule claims
the kind. -/
theorem calculate_of_borrowed_words :
    let rules := [Rule.custom .literal 0 (Rule.constantly (.unknown "no calculator matched"))]
    let e := Expr.node .literal []
    (∃ rule ∈ rules, rule.kind = e.kind) ∧
      ∀ answer, ¬((((ofRules rules).calculate e).run answer).value =
        .unknown "no calculator matched" ↔ ∀ rule ∈ rules, rule.kind ≠ e.kind) := by
  intro rules e
  refine ⟨⟨_, List.mem_cons_self, rfl⟩, fun answer hiff ↦ ?_⟩
  have hprevails : Prevails answer e rules (.unknown "no calculator matched") :=
    ⟨[], _, [], rfl, rfl, rfl, by simp, by simp⟩
  have hunclaimed := hiff.1 (value_calculate_of_prevails hprevails)
  exact hunclaimed _ List.mem_cons_self rfl

end Registry

end ExprTyping
