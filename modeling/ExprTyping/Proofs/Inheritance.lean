import Mathlib.Logic.Relation
import ExprTyping.Proofs.CommonAncestor

/-!
# Ancestors are what the supertypes lead to

The ancestors of a class are found by a search that takes pending names one after the other. Which
of them is taken next is left open here. In any order the search comes to an end, after at most as
many rounds as the table has entries, since no row is used twice; and in any order it has then found
the names that a chain of supertypes leads to. The start and the top class are seen from the
beginning and so never looked up again: for the start this makes no difference, and for the top
class none as long as it has no supertypes.

Inheritance is then a preorder by the properties of chains. That no two classes inherit from each
other is a property of the built-in table, where every class is ranked before its ancestors.
-/

namespace ExprTyping.SupertypeTable

def Extends (table : SupertypeTable) (sub sup : ClassName) : Prop := sup ∈ table.supertypes sub

instance (table : SupertypeTable) (sub sup : ClassName) : Decidable (table.Extends sub sup) :=
  inferInstanceAs (Decidable (sup ∈ table.supertypes sub))

/-- The class itself, the top class, or a class at the end of a chain of supertypes. -/
def IsAncestor (table : SupertypeTable) (name other : ClassName) : Prop :=
  other = name ∨ other = ClassName.object ∨ Relation.TransGen table.Extends name other

/-! ## The search -/

structure Search where
  seen : List ClassName
  pending : List ClassName

def searchFor (table : SupertypeTable) (name : ClassName) : Search :=
  ⟨List.insert name [ClassName.object], table.supertypes name⟩

/-- A round takes any one of the pending names. If it is new, its supertypes become pending, in any
places among the others. -/
inductive Round (table : SupertypeTable) : Search → Search → Prop
  | skip {seen pending rest : List ClassName} {name : ClassName}
      (htaken : pending.Perm (name :: rest)) (hseen : name ∈ seen) :
      Round table ⟨seen, pending⟩ ⟨seen, rest⟩
  | expand {seen pending rest pending' : List ClassName} {name : ClassName}
      (htaken : pending.Perm (name :: rest)) (hnew : name ∉ seen)
      (hpending : pending'.Perm (table.supertypes name ++ rest)) :
      Round table ⟨seen, pending⟩ ⟨name :: seen, pending'⟩

inductive Rounds (table : SupertypeTable) : Nat → Search → Search → Prop
  | zero (search : Search) : Rounds table 0 search search
  | succ {n : Nat} {search next last : Search} (hround : table.Round search next)
      (hrest : Rounds table n next last) : Rounds table (n + 1) search last

variable {table : SupertypeTable}

theorem exists_round {search : Search} (h : search.pending ≠ []) :
    ∃ next, table.Round search next := by
  obtain ⟨seen, pending⟩ := search
  match pending, h with
  | name :: rest, _ =>
    by_cases hseen : name ∈ seen
    · exact ⟨_, .skip (.refl _) hseen⟩
    · exact ⟨_, .expand (.refl _) hseen (.refl _)⟩

/-- The ancestors are found by such a search, with the pending names kept as a stack. -/
theorem exists_rounds_close (table : SupertypeTable) (seen pending : List ClassName) :
    ∃ n, table.Rounds n ⟨seen, pending⟩ ⟨table.close seen pending, []⟩ := by
  fun_induction table.close seen pending with
  | case1 => exact ⟨0, .zero _⟩
  | case2 seen name pending hseen ih =>
    obtain ⟨n, hrounds⟩ := ih
    exact ⟨n + 1, .succ (.skip (.refl _) hseen) hrounds⟩
  | case3 seen name pending hnew ih =>
    obtain ⟨n, hrounds⟩ := ih
    exact ⟨n + 1, .succ (.expand (.refl _) hnew (.refl _)) hrounds⟩

/-! ## The search ends -/

def entries (table : SupertypeTable) : Nat := (table.rows.flatMap (·.2)).length

theorem unexplored_nil (rows : List (ClassName × List ClassName)) :
    unexplored rows [] = (rows.flatMap (·.2)).length := by
  induction rows with
  | nil => rfl
  | cons row rows ih => simp [unexplored, ih]

/-- A bound on the rounds that a search can still take. -/
def remaining (table : SupertypeTable) (search : Search) : Nat :=
  unexplored table.rows search.seen + search.pending.length

/-- A round uses up a pending name. The names that it adds come from a row that was not used before
and is not used again. -/
theorem Round.remaining_lt {search next : Search} (h : table.Round search next) :
    table.remaining next < table.remaining search := by
  cases h with
  | skip htaken hseen =>
    have hlength := htaken.length_eq
    simp only [remaining, List.length_cons] at hlength ⊢
    omega
  | expand htaken hnew hpending =>
    have hlength := htaken.length_eq
    have hlength' := hpending.length_eq
    have hrow := unexplored_cons_add_length_le table.rows hnew
    simp only [remaining, supertypes, List.length_cons, List.length_append] at hlength hlength' ⊢
    omega

theorem Rounds.add_remaining_le {n : Nat} {search last : Search} (h : table.Rounds n search last) :
    n + table.remaining last ≤ table.remaining search := by
  induction h with
  | zero => omega
  | succ hround _ ih =>
    have := hround.remaining_lt
    omega

theorem remaining_searchFor_le (table : SupertypeTable) (name : ClassName) :
    table.remaining (table.searchFor name) ≤ table.entries := by
  rw [entries, ← unexplored_nil]
  by_cases hname : name = ClassName.object
  · subst hname
    have hrow := unexplored_cons_add_length_le table.rows (List.not_mem_nil (a := ClassName.object))
    simpa [remaining, searchFor, supertypes] using hrow
  · have hnew : name ∉ [ClassName.object] := by simpa using hname
    have hrow := unexplored_cons_add_length_le table.rows hnew
    have htop := unexplored_cons_le table.rows [] ClassName.object
    simp only [remaining, searchFor, supertypes, List.insert_of_not_mem hnew]
    omega

/-! ## The search finds the ancestors -/

section Ancestors

variable (htop : table.supertypes ClassName.object = []) {name other sup : ClassName}

include htop

theorem not_extends_object : ¬table.Extends ClassName.object other := by
  simp [Extends, htop]

/-- A chain of supertypes ends at the top class. -/
theorem not_transGen_object : ¬Relation.TransGen table.Extends ClassName.object other := by
  intro h
  obtain ⟨next, hnext, -⟩ := Relation.TransGen.head'_iff.1 h
  exact not_extends_object htop hnext

theorem IsAncestor.trans (h : table.IsAncestor name other) (h' : table.IsAncestor other sup) :
    table.IsAncestor name sup := by
  rcases h' with rfl | rfl | h'
  · exact h
  · exact .inr (.inl rfl)
  · rcases h with rfl | rfl | h
    · exact .inr (.inr h')
    · exact absurd h' (not_transGen_object htop)
    · exact .inr (.inr (h.trans h'))

/-- What holds of a search for the ancestors of a class after any number of rounds: it has come
across ancestors only, and no supertype of a name that it has seen was passed over. -/
structure Search.OnCourse (table : SupertypeTable) (name : ClassName) (search : Search) :
    Prop where
  sound : ∀ other ∈ search.seen ++ search.pending, table.IsAncestor name other
  start : name ∈ search.seen
  top : ClassName.object ∈ search.seen
  complete : ∀ sub ∈ search.seen, ∀ sup, table.Extends sub sup →
    sup ∈ search.seen ++ search.pending

theorem onCourse_searchFor (name : ClassName) : (table.searchFor name).OnCourse table name where
  sound other hother := by
    simp only [searchFor, List.mem_append, List.mem_insert_iff, List.mem_singleton] at hother
    rcases hother with (rfl | rfl) | hsup
    · exact .inl rfl
    · exact .inr (.inl rfl)
    · exact .inr (.inr (.single hsup))
  start := List.mem_insert_self
  top := List.mem_insert_of_mem (List.mem_singleton_self _)
  complete sub hsub sup hsup := by
    simp only [searchFor, List.mem_insert_iff, List.mem_singleton] at hsub
    rcases hsub with rfl | rfl
    · exact List.mem_append_right _ hsup
    · exact absurd hsup (not_extends_object htop)

/-- The supertypes of an ancestor are ancestors, and a new name brings all of its supertypes with
it. -/
theorem Search.OnCourse.round {search next : Search} (h : search.OnCourse table name)
    (hround : table.Round search next) : next.OnCourse table name := by
  cases hround with
  | @skip seen pending rest taken htaken hseen =>
    have hmem : ∀ other, other ∈ seen ++ rest ↔ other ∈ seen ++ pending := by
      intro other
      simp only [List.mem_append, htaken.mem_iff, List.mem_cons]
      grind
    exact ⟨fun other hother ↦ h.sound other ((hmem other).1 hother), h.start, h.top,
      fun sub hsub sup hsup ↦ (hmem sup).2 (h.complete sub hsub sup hsup)⟩
  | @expand seen pending rest pending' taken htaken hnew hpending =>
    have hmem : ∀ other, other ∈ taken :: seen ++ pending' ↔
        other ∈ seen ++ pending ∨ table.Extends taken other := by
      intro other
      simp only [List.cons_append, List.mem_cons, List.mem_append, htaken.mem_iff,
        hpending.mem_iff, Extends]
      grind
    have htakenAncestor : table.IsAncestor name taken :=
      h.sound taken (List.mem_append_right _ (htaken.mem_iff.2 List.mem_cons_self))
    refine ⟨fun other hother ↦ ?_, List.mem_cons_of_mem _ h.start, List.mem_cons_of_mem _ h.top,
      fun sub hsub sup hsup ↦ (hmem sup).2 ?_⟩
    · rcases (hmem other).1 hother with hold | hsup
      · exact h.sound other hold
      · exact htakenAncestor.trans htop (.inr (.inr (.single hsup)))
    · rcases List.mem_cons.1 hsub with rfl | hsub
      · exact .inr hsup
      · exact .inl (h.complete sub hsub sup hsup)

theorem Search.OnCourse.rounds {n : Nat} {search last : Search} (h : search.OnCourse table name)
    (hrounds : table.Rounds n search last) : last.OnCourse table name := by
  induction hrounds with
  | zero => exact h
  | succ hround _ ih => exact ih (h.round htop hround)

omit htop in
/-- With nothing pending the names seen are closed under supertypes. -/
theorem Search.OnCourse.mem_seen_iff {search : Search} (h : search.OnCourse table name)
    (hdone : search.pending = []) : other ∈ search.seen ↔ table.IsAncestor name other := by
  have hclosed : ∀ sub ∈ search.seen, ∀ sup, table.Extends sub sup → sup ∈ search.seen := by
    simpa [hdone] using h.complete
  constructor
  · exact fun hother ↦ h.sound other (List.mem_append_left _ hother)
  · rintro (rfl | rfl | hchain)
    · exact h.start
    · exact h.top
    · induction hchain with
      | single hsup => exact hclosed name h.start _ hsup
      | tail _ hsup ih => exact hclosed _ ih _ hsup

theorem mem_ancestors_iff : other ∈ table.ancestors name ↔ table.IsAncestor name other := by
  obtain ⟨n, hrounds⟩ := exists_rounds_close table (List.insert name [ClassName.object])
    (table.supertypes name)
  exact ((onCourse_searchFor htop name).rounds htop hrounds).mem_seen_iff rfl

theorem isSubclass_trans (h : table.isSubclass name other) (h' : table.isSubclass other sup) :
    table.isSubclass name sup := by
  rw [isSubclass_iff, mem_ancestors_iff htop] at *
  exact h.trans htop h'

end Ancestors

/-! ## The built-in classes -/

theorem RanksByInheritance.eq_of_isSubclass_of_isSubclass (hranks : table.RanksByInheritance)
    {a b : ClassName} (hab : table.isSubclass a b) (hba : table.isSubclass b a) : a = b := by
  by_contra hne
  have hbefore := Specificity.before_trans (hranks a b hab hne) (hranks b a hba (Ne.symm hne))
  exact Specificity.before_irrefl _ hbefore

theorem isSubclass_iff_of_not_contains {name other : ClassName} (h : table.contains name = false) :
    table.isSubclass name other ↔ other = name ∨ other = ClassName.object := by
  have hlookup : table.rows.lookup name = none := by simpa [contains] using h
  rw [isSubclass_iff, ancestors_of_lookup_eq_none hlookup, List.mem_insert_iff, List.mem_singleton]

theorem supertypes_object_builtin : builtinTable.supertypes ClassName.object = [] := by
  decide +kernel

/-- A search for ancestors ends after at most as many rounds as the table has entries, whichever
pending name it takes next, and has found the class, the top class and all that supertypes lead to
from the class. Inheritance among all names, with the built-in classes, is a partial order with the
top class above everything; a name without a row is below itself and the top class only. -/
theorem mem_ancestors_iff_reachable :
    (∀ table : SupertypeTable, table.supertypes ClassName.object = [] → ∀ name,
      (∀ other, other ∈ table.ancestors name ↔ other = name ∨ other = ClassName.object ∨
        Relation.TransGen table.Extends name other) ∧
      (∃ n, table.Rounds n (table.searchFor name) ⟨table.ancestors name, []⟩) ∧
      ∀ n last, table.Rounds n (table.searchFor name) last →
        n ≤ table.entries ∧ (last.pending ≠ [] → ∃ next, table.Round last next) ∧
          (last.pending = [] → ∀ other, other ∈ last.seen ↔ other ∈ table.ancestors name)) ∧
    (∀ a, builtinTable.isSubclass a a) ∧
    (∀ a b c, builtinTable.isSubclass a b → builtinTable.isSubclass b c →
      builtinTable.isSubclass a c) ∧
    (∀ a b, builtinTable.isSubclass a b → builtinTable.isSubclass b a → a = b) ∧
    (∀ a, builtinTable.isSubclass a ClassName.object) ∧
    ∀ name, builtinTable.contains name = false → ∀ other,
      builtinTable.isSubclass name other ↔ other = name ∨ other = ClassName.object := by
  refine ⟨fun table htop name ↦ ⟨fun other ↦ mem_ancestors_iff htop, ?_, ?_⟩,
    builtinTable.isSubclass_refl, fun a b c ↦ isSubclass_trans supertypes_object_builtin,
    fun a b ↦ ranksByInheritance_builtin.eq_of_isSubclass_of_isSubclass,
    builtinTable.isSubclass_object, fun name h other ↦ isSubclass_iff_of_not_contains h⟩
  · exact exists_rounds_close table _ _
  · intro n last hrounds
    have hcourse := (onCourse_searchFor htop name).rounds htop hrounds
    refine ⟨?_, exists_round, fun hdone other ↦ ?_⟩
    · have hbound := hrounds.add_remaining_le
      have hstart := table.remaining_searchFor_le name
      omega
    · rw [hcourse.mem_seen_iff hdone, mem_ancestors_iff htop]

/-- Two classes that inherit from each other: the search goes round the cycle once. -/
theorem ancestors_of_cycle :
    let table : SupertypeTable := ⟨[("A", ["B"]), ("B", ["A", "C"])]⟩
    table.supertypes ClassName.object = [] ∧ "C" ∈ table.ancestors "A" ∧
      "A" ∈ table.ancestors "B" ∧
      ∀ n last, table.Rounds n (table.searchFor "A") last → n ≤ 3 := by
  intro table
  have htop : table.supertypes ClassName.object = [] := by decide +kernel
  have hAB : table.Extends "A" "B" := by decide +kernel
  have hBA : table.Extends "B" "A" := by decide +kernel
  have hBC : table.Extends "B" "C" := by decide +kernel
  have hclosure := mem_ancestors_iff_reachable.1 table htop
  refine ⟨htop, ?_, ?_, fun n last hrounds ↦ ((hclosure "A").2.2 n last hrounds).1⟩
  · exact ((hclosure "A").1 "C").2 (.inr (.inr (.tail (.single hAB) hBC)))
  · exact ((hclosure "B").1 "A").2 (.inr (.inr (.single hBA)))

end ExprTyping.SupertypeTable
