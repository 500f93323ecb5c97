import Mathlib.Data.Finset.Card
import ExprTyping.Hierarchy.Builtin
import ExprTyping.Hierarchy.Cache

/-!
# A cache that shows only in its size

A question answered with the help of a cache has the same answer as without it, as long as the cache
holds nothing but ancestor sets under their own names. What a question adds to the cache does not
depend on the cache either: every computation on it has a fixed set of names that it leaves there,
and this set is put together from those of its steps. After any questions the cache holds the names
of all of them, so its size can be told beforehand.
-/

namespace ExprTyping

namespace AncestorCache

/-- No class is remembered twice, and each with its own ancestors. -/
structure Faithful (table : SupertypeTable) (cache : AncestorCache) : Prop where
  nodup : cache.names.Nodup
  correct : ∀ entry ∈ cache.entries, entry.2 = table.ancestors entry.1

theorem faithful_empty (table : SupertypeTable) : empty.Faithful table :=
  ⟨List.nodup_nil, List.forall_mem_nil _⟩

/-- The size of a faithful cache is the number of names that it holds. -/
theorem Faithful.size_eq {table : SupertypeTable} {cache : AncestorCache} (h : cache.Faithful table)
    {names : List ClassName} (hnames : ∀ name, name ∈ cache.names ↔ name ∈ names) :
    cache.size = names.toFinset.card := by
  have hfinset : cache.names.toFinset = names.toFinset := by
    ext name
    simpa using hnames name
  rw [← hfinset, List.toFinset_card_of_nodup h.nodup]
  exact (List.length_map _).symm

/-- Whatever is remembered beforehand, the computation has the given result and leaves `names`
remembered in addition. -/
def Leaves {α : Type} (table : SupertypeTable) (x : StateM AncestorCache α) (result : α)
    (names : List ClassName) : Prop :=
  ∀ cache, cache.Faithful table →
    (x.run cache).1 = result ∧ (x.run cache).2.Faithful table ∧
      ∀ name, name ∈ (x.run cache).2.names ↔ name ∈ cache.names ∨ name ∈ names

namespace Leaves

variable {α β : Type} {table : SupertypeTable}

theorem pure (a : α) : Leaves table (pure a) a [] := by
  intro cache h
  exact ⟨rfl, h, fun name ↦ (or_iff_left List.not_mem_nil).symm⟩

theorem bind {x : StateM AncestorCache α} {a : α} {names : List ClassName}
    {f : α → StateM AncestorCache β} {b : β} {names' : List ClassName}
    (hx : Leaves table x a names) (hf : Leaves table (f a) b names') :
    Leaves table (x >>= f) b (names ++ names') := by
  intro cache h
  obtain ⟨hvalue, hfaithful, hnames⟩ := hx cache h
  obtain ⟨hvalue', hfaithful', hnames'⟩ := hf _ hfaithful
  have hrun : (x >>= f).run cache = (f a).run (x.run cache).2 := by
    rw [← hvalue]
    rfl
  rw [hrun]
  refine ⟨hvalue', hfaithful', fun name ↦ ?_⟩
  rw [hnames', hnames, List.mem_append, or_assoc]

theorem map {x : StateM AncestorCache α} {a : α} {names : List ClassName}
    (hx : Leaves table x a names) (f : α → β) :
    Leaves table (do return f (← x)) (f a) names := by
  rw [← List.append_nil names]
  exact hx.bind (pure (f a))

theorem mapM {f : α → StateM AncestorCache β} {g : α → β} {names : α → List ClassName}
    (h : ∀ a, Leaves table (f a) (g a) (names a)) (xs : List α) :
    Leaves table (xs.mapM f) (xs.map g) (xs.flatMap names) := by
  induction xs with
  | nil => exact pure []
  | cons x xs ih =>
    rw [List.mapM_cons, List.flatMap_cons]
    exact (h x).bind (ih.map (g x :: ·))

end Leaves

/-! ## The computations on a cache -/

variable (table : SupertypeTable)

theorem run_ancestors_of_some {cache : AncestorCache} {name : ClassName} {found : List ClassName}
    (h : cache.entries.lookup name = some found) :
    (ancestors table name).run cache = (found, cache) := by
  simp only [ancestors, StateT.run_bind, StateT.run_get, pure_bind, h]
  rfl

theorem run_ancestors_of_none {cache : AncestorCache} {name : ClassName}
    (h : cache.entries.lookup name = none) :
    (ancestors table name).run cache =
      (table.ancestors name, ⟨(name, table.ancestors name) :: cache.entries⟩) := by
  simp only [ancestors, StateT.run_bind, StateT.run_get, pure_bind, h]
  rfl

/-- A class is remembered after a look at its ancestors, whether or not it was before. -/
theorem leaves_ancestors (name : ClassName) :
    Leaves table (ancestors table name) (table.ancestors name) [name] := by
  intro cache h
  cases hlookup : cache.entries.lookup name with
  | some found =>
    obtain ⟨before, after, hentries, -⟩ := List.lookup_eq_some_iff.1 hlookup
    have hmem : (name, found) ∈ cache.entries := by simp [hentries]
    have hname : name ∈ cache.names := List.mem_map.2 ⟨_, hmem, rfl⟩
    rw [run_ancestors_of_some table hlookup]
    refine ⟨h.correct _ hmem, h, fun other ↦ ?_⟩
    rw [List.mem_singleton, or_iff_left_of_imp]
    rintro rfl
    exact hname
  | none =>
    have hname : name ∉ cache.names := by
      intro hmem
      obtain ⟨entry, hentry, rfl⟩ := List.mem_map.1 hmem
      have hother := List.lookup_eq_none_iff.1 hlookup entry hentry
      simp at hother
    rw [run_ancestors_of_none table hlookup]
    refine ⟨rfl, ⟨?_, ?_⟩, fun other ↦ ?_⟩
    · exact List.nodup_cons.2 ⟨hname, h.nodup⟩
    · exact List.forall_mem_cons.2 ⟨rfl, h.correct⟩
    · simp [names, or_comm]

theorem leaves_commonAncestors (names : List ClassName) :
    Leaves table (commonAncestors table names) (table.commonAncestors names) names := by
  have hmapM := (Leaves.mapM (leaves_ancestors table) names).map sharedNames
  rwa [List.flatMap_singleton'] at hmapM

/-- The number of ancestors of a general class does not matter. -/
theorem specificity_of_isGeneral {name : ClassName} (h : Specificity.isGeneral name)
    (depth depth' : Nat) : Specificity.of name depth = Specificity.of name depth' := by
  unfold Specificity.of
  cases hfind : generalClasses.zipIdx.find? (·.1.1 == name) with
  | some => rfl
  | none =>
    obtain ⟨entry, hentry, hname⟩ := List.any_eq_true.1 h
    obtain ⟨position, hposition⟩ := List.getElem?_of_mem hentry
    have hmem : (entry, position) ∈ generalClasses.zipIdx :=
      List.mem_zipIdx_iff_getElem?.2 hposition
    exact absurd hname (List.find?_eq_none.1 hfind _ hmem)

/-- General classes are ranked without a look at their ancestors. -/
theorem leaves_specificity (name : ClassName) :
    Leaves table (specificity table name) (table.specificity name)
      ([name].filter (!Specificity.isGeneral ·)) := by
  unfold specificity
  by_cases hgeneral : Specificity.isGeneral name = true
  · rw [if_pos hgeneral, List.filter_cons_of_neg (by simpa using hgeneral), List.filter_nil,
      SupertypeTable.specificity,
      specificity_of_isGeneral hgeneral (table.ancestors name).length 0]
    exact .pure _
  · rw [if_neg hgeneral, List.filter_cons_of_pos (by simpa using hgeneral)]
    exact (leaves_ancestors table name).map fun found ↦ Specificity.of name found.length

def chooseFrom (classes : List ClassName) : StateM AncestorCache ClassName := do
  return Candidate.best (← classes.mapM fun name ↦ return ⟨name, ← specificity table name⟩)

theorem leaves_chooseFrom (classes : List ClassName) :
    Leaves table (chooseFrom table classes)
      (Candidate.best (classes.map fun name ↦ ⟨name, table.specificity name⟩))
      (classes.filter (!Specificity.isGeneral ·)) := by
  have hcandidate (name : ClassName) := (leaves_specificity table name).map (Candidate.mk name)
  have hbest := (Leaves.mapM hcandidate classes).map Candidate.best
  rwa [← List.filter_flatMap, List.flatMap_singleton'] at hbest

theorem leaves_mostSpecificCommonAncestor (names : List ClassName) :
    Leaves table (mostSpecificCommonAncestor table names) (table.mostSpecificCommonAncestor names)
      (names ++ (table.commonAncestors names).filter (!Specificity.isGeneral ·)) :=
  (leaves_commonAncestors table names).bind (leaves_chooseFrom table _)

end AncestorCache

namespace SupertypeTable

open AncestorCache (Leaves)

def Question.remembered (table : SupertypeTable) : Question → List ClassName
  | isListed _ | supertypes _ => []
  | ancestors name => [name]
  | isSubclass sub _ => [sub]
  | commonAncestors names => names
  | mostSpecificCommonAncestor names =>
    names ++ (table.commonAncestors names).filter (!Specificity.isGeneral ·)

variable (table : SupertypeTable)

theorem leaves_ask (question : Question) :
    Leaves table (table.ask question) (table.answer question) (question.remembered table) := by
  cases question with
  | isListed | supertypes => exact .pure _
  | ancestors name =>
    exact (AncestorCache.leaves_ancestors table name).map fun found ↦
      Answer.names (ClassName.sorted found)
  | isSubclass sub sup =>
    exact (AncestorCache.leaves_ancestors table sub).map fun found ↦
      Answer.flag (found.contains sup)
  | commonAncestors names =>
    exact (AncestorCache.leaves_commonAncestors table names).map fun found ↦
      Answer.names (ClassName.sorted found)
  | mostSpecificCommonAncestor names =>
    exact (AncestorCache.leaves_mostSpecificCommonAncestor table names).map Answer.name

theorem run_ask_empty (question : Question) :
    ((table.ask question).run .empty).1 = table.answer question :=
  (table.leaves_ask question .empty (AncestorCache.faithful_empty table)).1

/-! ## Runs -/

theorem askAll_cons (question : Question) (questions : List Question) (cache : AncestorCache) :
    (table.askAll (question :: questions)).run cache =
      (let asked := (table.ask question).run cache
      let rest := (table.askAll questions).run asked.2
      ((asked.1, asked.2.size) :: rest.1, rest.2)) := by
  simp only [askAll, List.mapM_cons]
  rfl

variable {table}

/-- The names that are remembered at the start and those that the questions leave tell the size of
the cache after each question. -/
theorem run_askAll {cache : AncestorCache} (h : cache.Faithful table) {names : List ClassName}
    (hnames : ∀ name, name ∈ cache.names ↔ name ∈ names) (questions : List Question) :
    ((table.askAll questions).run cache).1 = (questions.mapIdx fun k question ↦
        (table.answer question,
          (names ++ (questions.take (k + 1)).flatMap (·.remembered table)).toFinset.card)) ∧
      ((table.askAll questions).run cache).2.Faithful table ∧
      ∀ name, name ∈ ((table.askAll questions).run cache).2.names ↔
        name ∈ names ++ questions.flatMap (·.remembered table) := by
  induction questions generalizing cache names with
  | nil =>
    refine ⟨rfl, h, fun name ↦ ?_⟩
    rw [List.flatMap_nil, List.append_nil]
    exact hnames name
  | cons question questions ih =>
    obtain ⟨hanswer, hfaithful, hleft⟩ := table.leaves_ask question cache h
    have hnames' : ∀ name, name ∈ ((table.ask question).run cache).2.names ↔
        name ∈ names ++ question.remembered table := by
      intro name
      rw [hleft, hnames, List.mem_append]
    obtain ⟨hanswers, hfaithful', hnames''⟩ := ih hfaithful hnames'
    rw [askAll_cons]
    refine ⟨?_, hfaithful', fun name ↦ ?_⟩
    · simp only [hanswer, hanswers, hfaithful.size_eq hnames', List.mapIdx_cons]
      simp
    · simp only [hnames'']
      simp

theorem askAll_append (before after : List Question) (cache : AncestorCache) :
    (table.askAll (before ++ after)).run cache =
      (let asked := (table.askAll before).run cache
      let rest := (table.askAll after).run asked.2
      (asked.1 ++ rest.1, rest.2)) := by
  simp only [askAll, List.mapM_append]
  rfl

theorem card_remembered_le {questions questions' : List Question} (h : questions ⊆ questions') :
    (questions.flatMap (·.remembered table)).toFinset.card ≤
      (questions'.flatMap (·.remembered table)).toFinset.card := by
  refine Finset.card_le_card fun name hname ↦ ?_
  rw [List.mem_toFinset, List.mem_flatMap] at hname ⊢
  obtain ⟨question, hquestion, hremembered⟩ := hname
  exact ⟨question, h hquestion, hremembered⟩

/-- Each of a sequence of questions has the answer that a fresh cache gives, with the size foretold
by the questions up to it, and no size is below an earlier one. After any number of the questions
the cache holds ancestor sets only, under the names that these questions leave, each once. -/
theorem askAll_transparent (table : SupertypeTable) (questions : List Question) :
    ((table.askAll questions).run .empty).1 = (questions.mapIdx fun k question ↦
        (((table.ask question).run .empty).1,
          ((questions.take (k + 1)).flatMap (·.remembered table)).toFinset.card)) ∧
      (((table.askAll questions).run .empty).1.map (·.2)).Pairwise (· ≤ ·) ∧
      ∀ k,
        let asked := (table.askAll (questions.take k)).run .empty
        let rest := (table.askAll (questions.drop k)).run asked.2
        (table.askAll questions).run .empty = (asked.1 ++ rest.1, rest.2) ∧
          (∀ entry ∈ asked.2.entries, entry.2 = table.ancestors entry.1) ∧
          (∀ name, name ∈ asked.2.names ↔
            ∃ question ∈ questions.take k, name ∈ question.remembered table) ∧
          asked.2.size = ((questions.take k).flatMap (·.remembered table)).toFinset.card := by
  have hempty : ∀ name, name ∈ AncestorCache.empty.names ↔ name ∈ ([] : List ClassName) :=
    fun name ↦ Iff.rfl
  have hrun := run_askAll (AncestorCache.faithful_empty table) hempty
  simp only [List.nil_append] at hrun
  simp only [run_ask_empty]
  refine ⟨(hrun questions).1, ?_, fun k ↦ ?_⟩
  · rw [(hrun questions).1, List.pairwise_iff_getElem]
    intro i j hi hj hij
    simp only [List.getElem_map, List.getElem_mapIdx]
    exact card_remembered_le (List.take_subset_take_left questions (by omega))
  · obtain ⟨-, hfaithful, hnames⟩ := hrun (questions.take k)
    refine ⟨?_, hfaithful.correct, fun name ↦ ?_, hfaithful.size_eq hnames⟩
    · rw [← askAll_append, List.take_append_drop]
    · rw [hnames, List.mem_flatMap]

/-- Linked lists and double-ended queues have queues above them, which are ranked and so remembered.
A later question about queues finds them there. -/
theorem askAll_of_ranked_queue :
    let questions : List Question :=
      [.mostSpecificCommonAncestor [ClassName.linkedList, ClassName.deque],
        .ancestors ClassName.queue, .isListed ClassName.queue,
        .isSubclass ClassName.string ClassName.object]
    ((builtinTable.askAll questions).run .empty).1.map (·.2) = [3, 3, 3, 4] ∧
      (ClassName.queue, builtinTable.ancestors ClassName.queue) ∈
        ((builtinTable.askAll (questions.take 1)).run .empty).2.entries := by
  intro questions
  obtain ⟨hanswers, -, hcaches⟩ := askAll_transparent builtinTable questions
  obtain ⟨-, hcorrect, hnames, -⟩ := hcaches 1
  refine ⟨?_, ?_⟩
  · rw [hanswers]
    decide +kernel
  · have hqueue : ∃ question ∈ questions.take 1,
        ClassName.queue ∈ question.remembered builtinTable := by
      decide +kernel
    obtain ⟨⟨name, found⟩, hentry, rfl⟩ := List.mem_map.1 ((hnames ClassName.queue).2 hqueue)
    have hfound : found = builtinTable.ancestors ClassName.queue := hcorrect _ hentry
    rwa [hfound] at hentry

end SupertypeTable

end ExprTyping
