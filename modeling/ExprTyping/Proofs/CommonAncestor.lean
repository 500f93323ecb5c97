import Mathlib.Data.String.Basic
import ExprTyping.Proofs.CacheTransparency

/-!
# The choice of a common ancestor

Candidates are ranked by a strict total order, so the best of them is determined by which ones
there are. Neither their order nor repetitions matter, and the same holds of the names whose
common ancestor is sought.

The ranking goes by places in a list and by numbers of ancestors, never by inheritance. The choice
is minimal for inheritance all the same, because every class is ranked before the classes it
inherits from. That is a property of the supertypes and the general classes together, so it is
checked on the two tables; the rest holds of any tables that have it.
-/

namespace ExprTyping

namespace Specificity

theorem before_irrefl (s : Specificity) : ¬s.before s := by
  cases s <;> simp [before]

theorem before_trans {s t u : Specificity} (hst : s.before t) (htu : t.before u) :
    s.before u := by
  cases s <;> cases t <;> cases u <;> simp [before] at * <;> omega

theorem before_or_eq_or_before (s t : Specificity) : s.before t ∨ s = t ∨ t.before s := by
  cases s <;> cases t <;> simp [before] <;> omega

end Specificity

namespace Candidate

theorem before_iff {a b : Candidate} :
    a.before b ↔ a.specificity.before b.specificity ∨
      a.specificity = b.specificity ∧ a.name < b.name := by
  simp [before]

theorem before_irrefl (a : Candidate) : ¬a.before a := by
  rw [before_iff]
  rintro (h | ⟨-, h⟩)
  · exact Specificity.before_irrefl _ h
  · exact lt_irrefl _ h

theorem before_trans {a b c : Candidate} (hab : a.before b) (hbc : b.before c) : a.before c := by
  rw [before_iff] at *
  rcases hab with hab | ⟨hab, hname⟩ <;> rcases hbc with hbc | ⟨hbc, hname'⟩
  · exact .inl (Specificity.before_trans hab hbc)
  · exact .inl (hbc ▸ hab)
  · exact .inl (hab ▸ hbc)
  · exact .inr ⟨hab.trans hbc, hname.trans hname'⟩

/-- Candidates of the same specificity are told apart by their names. -/
theorem before_or_eq_or_before (a b : Candidate) : a.before b ∨ a = b ∨ b.before a := by
  simp only [before_iff]
  rcases Specificity.before_or_eq_or_before a.specificity b.specificity with h | h | h
  · exact .inl (.inl h)
  · rcases lt_trichotomy a.name b.name with hname | hname | hname
    · exact .inl (.inr ⟨h, hname⟩)
    · obtain ⟨name, specificity⟩ := a
      obtain ⟨name', specificity'⟩ := b
      cases h
      cases hname
      exact .inr (.inl rfl)
    · exact .inr (.inr (.inr ⟨h.symm, hname⟩))
  · exact .inr (.inr (.inl h))

/-- The winner of a run is one of the runners, and none of them comes before it. A runner that loses
at once does not come before the one it lost to, which is the winner or comes after it. -/
theorem foldl_better_spec (candidate : Candidate) (candidates : List Candidate) :
    candidates.foldl better candidate ∈ candidate :: candidates ∧
      ∀ c ∈ candidate :: candidates, ¬c.before (candidates.foldl better candidate) := by
  induction candidates generalizing candidate with
  | nil => simpa using before_irrefl candidate
  | cons next candidates ih =>
    obtain ⟨hmem, hbest⟩ := ih (better candidate next)
    simp only [List.foldl_cons]
    set winner := candidates.foldl better (better candidate next)
    have hchosen : ¬(better candidate next).before winner := hbest _ (by simp)
    unfold better at hmem hchosen
    split at hchosen
    next hnext =>
      rw [if_pos hnext] at hmem
      refine ⟨List.mem_cons_of_mem _ hmem, fun c hc hbefore ↦ ?_⟩
      rcases List.mem_cons.1 hc with rfl | hc
      · exact hchosen (before_trans hnext hbefore)
      · rcases List.mem_cons.1 hc with rfl | hc
        · exact hchosen hbefore
        · exact hbest c (List.mem_cons_of_mem _ hc) hbefore
    next hnext =>
      rw [if_neg hnext] at hmem
      refine ⟨?_, fun c hc hbefore ↦ ?_⟩
      · rcases List.mem_cons.1 hmem with h | h <;> simp [h]
      · rcases List.mem_cons.1 hc with rfl | hc
        · exact hchosen hbefore
        · rcases List.mem_cons.1 hc with rfl | hc
          · rcases before_or_eq_or_before candidate winner with h | h | h
            · exact hchosen h
            · exact hnext (h ▸ hbefore)
            · exact hnext (before_trans hbefore h)
          · exact hbest c (List.mem_cons_of_mem _ hc) hbefore

/-- Neither the order of the candidates nor a repetition makes a difference. -/
theorem best_congr {as bs : List Candidate} (h : ∀ c, c ∈ as ↔ c ∈ bs) : best as = best bs := by
  cases as with
  | nil =>
    have hbs : bs = [] := List.eq_nil_iff_forall_not_mem.2 fun c hc ↦ by simpa using (h c).2 hc
    rw [hbs]
  | cons a as =>
    cases bs with
    | nil => simpa using (h a).1 (by simp)
    | cons b bs =>
      obtain ⟨hmem, hbest⟩ := foldl_better_spec a as
      obtain ⟨hmem', hbest'⟩ := foldl_better_spec b bs
      have heq : as.foldl better a = bs.foldl better b := by
        rcases before_or_eq_or_before (as.foldl better a) (bs.foldl better b) with hlt | heq | hlt
        · exact absurd hlt (hbest' _ ((h _).1 hmem))
        · exact heq
        · exact absurd hlt (hbest _ ((h _).2 hmem'))
      rw [best, best, heq]

theorem exists_best {candidates : List Candidate} (hne : candidates ≠ []) :
    ∃ chosen ∈ candidates, best candidates = chosen.name ∧
      ∀ candidate ∈ candidates, ¬candidate.before chosen := by
  cases candidates with
  | nil => exact absurd rfl hne
  | cons candidate candidates =>
    obtain ⟨hmem, hbest⟩ := foldl_better_spec candidate candidates
    exact ⟨_, hmem, rfl, hbest⟩

end Candidate

theorem mem_sharedNames_iff {sets : List (List ClassName)} {name : ClassName} :
    name ∈ sharedNames sets ↔ name = ClassName.object ∨ sets ≠ [] ∧ ∀ set ∈ sets, name ∈ set := by
  cases sets with
  | nil => simp [sharedNames]
  | cons first rest => simp [sharedNames]

namespace SupertypeTable

theorem mem_commonAncestors_iff {table : SupertypeTable} {names : List ClassName}
    {ancestor : ClassName} :
    ancestor ∈ table.commonAncestors names ↔ ancestor = ClassName.object ∨
      names ≠ [] ∧ ∀ name ∈ names, ancestor ∈ table.ancestors name := by
  simp [commonAncestors, mem_sharedNames_iff]

theorem mostSpecificCommonAncestor_congr (table : SupertypeTable) {names names' : List ClassName}
    (h : ∀ name, name ∈ names ↔ name ∈ names') :
    table.mostSpecificCommonAncestor names = table.mostSpecificCommonAncestor names' := by
  have hnil : names ≠ [] ↔ names' ≠ [] := by
    simp only [ne_eq, List.eq_nil_iff_forall_not_mem, h]
  have hshared : ∀ name, name ∈ table.commonAncestors names ↔
      name ∈ table.commonAncestors names' := by
    intro name
    simp only [mem_commonAncestors_iff, hnil, h]
  refine Candidate.best_congr fun c ↦ ?_
  simp only [List.mem_map, hshared]

/-! ## Minimality -/

section Minimal

variable {table : SupertypeTable} {names : List ClassName} {name other : ClassName}

theorem isSubclass_iff : table.isSubclass name other ↔ other ∈ table.ancestors name := by
  rw [isSubclass, List.contains_iff_mem]

theorem subset_close (seen pending : List ClassName) : seen ⊆ table.close seen pending := by
  fun_induction table.close seen pending with
  | case1 => exact List.Subset.refl _
  | case2 seen name pending _ ih => exact ih
  | case3 seen name pending _ ih => exact fun _ h ↦ ih (List.mem_cons_of_mem name h)

theorem isSubclass_refl (table : SupertypeTable) (name : ClassName) :
    table.isSubclass name name := by
  rw [isSubclass_iff]
  exact subset_close _ _ List.mem_insert_self

theorem isSubclass_object (table : SupertypeTable) (name : ClassName) :
    table.isSubclass name ClassName.object := by
  rw [isSubclass_iff]
  exact subset_close _ _ (List.mem_insert_of_mem (List.mem_singleton_self _))

theorem mem_commonAncestors_iff_isSubclass (hne : names ≠ []) :
    other ∈ table.commonAncestors names ↔ ∀ name ∈ names, table.isSubclass name other := by
  simp only [mem_commonAncestors_iff, isSubclass_iff, hne, ne_eq, not_false_eq_true, true_and,
    or_iff_right_iff_imp]
  rintro rfl name -
  exact isSubclass_iff.1 (table.isSubclass_object name)

/-- The choice is a common ancestor, and none of them is better. -/
theorem mostSpecificCommonAncestor_spec (table : SupertypeTable) (names : List ClassName) :
    table.mostSpecificCommonAncestor names ∈ table.commonAncestors names ∧
      ∀ other ∈ table.commonAncestors names,
        ¬Candidate.before ⟨other, table.specificity other⟩
          ⟨table.mostSpecificCommonAncestor names,
            table.specificity (table.mostSpecificCommonAncestor names)⟩ := by
  have hobject : ClassName.object ∈ table.commonAncestors names :=
    mem_commonAncestors_iff.2 (.inl rfl)
  have hne : (table.commonAncestors names).map
      (fun name ↦ (⟨name, table.specificity name⟩ : Candidate)) ≠ [] :=
    List.ne_nil_of_mem (List.mem_map_of_mem hobject)
  obtain ⟨_, hmem, hname, hbest⟩ := Candidate.exists_best hne
  obtain ⟨chosen, hchosen, rfl⟩ := List.mem_map.1 hmem
  have heq : table.mostSpecificCommonAncestor names = chosen := hname
  rw [heq]
  exact ⟨hchosen, fun other hother ↦ hbest _ (List.mem_map.2 ⟨other, hother, rfl⟩)⟩

theorem isSubclass_mostSpecificCommonAncestor (hne : names ≠ []) (hname : name ∈ names) :
    table.isSubclass name (table.mostSpecificCommonAncestor names) :=
  (mem_commonAncestors_iff_isSubclass hne).1 (table.mostSpecificCommonAncestor_spec names).1 name
    hname

/-- Every class is ranked before the classes it inherits from. -/
def RanksByInheritance (table : SupertypeTable) : Prop :=
  ∀ sub sup, table.isSubclass sub sup → sub ≠ sup →
    (table.specificity sub).before (table.specificity sup)

/-- No common ancestor inherits from the choice. -/
theorem RanksByInheritance.eq_of_isSubclass (hranks : table.RanksByInheritance) (hne : names ≠ [])
    (hcommon : ∀ name ∈ names, table.isSubclass name other)
    (hsub : table.isSubclass other (table.mostSpecificCommonAncestor names)) :
    other = table.mostSpecificCommonAncestor names := by
  by_contra hdiffer
  have hmem := (mem_commonAncestors_iff_isSubclass hne).2 hcommon
  refine (table.mostSpecificCommonAncestor_spec names).2 other hmem ?_
  exact Candidate.before_iff.2 (.inl (hranks other _ hsub hdiffer))

/-- One of the names is chosen if it is above the others. -/
theorem RanksByInheritance.mostSpecificCommonAncestor_eq (hranks : table.RanksByInheritance)
    (hname : name ∈ names) (habove : ∀ other ∈ names, table.isSubclass other name) :
    table.mostSpecificCommonAncestor names = name := by
  have hne := List.ne_nil_of_mem hname
  exact (hranks.eq_of_isSubclass hne habove (isSubclass_mostSpecificCommonAncestor hne hname)).symm

end Minimal

/-! ## The built-in classes -/

theorem ancestors_of_lookup_eq_none {table : SupertypeTable} {name : ClassName}
    (h : table.rows.lookup name = none) :
    table.ancestors name = List.insert name [ClassName.object] := by
  simp [ancestors, supertypes, h, close]

theorem specificity_of_lookup_eq_none {name : ClassName}
    (h : builtinTable.rows.lookup name = none) :
    builtinTable.specificity name = .concrete (builtinTable.ancestors name).length := by
  have hgeneral : ∀ entry ∈ generalClasses, builtinTable.rows.lookup entry.1 ≠ none := by decide
  have hfind : generalClasses.zipIdx.find? (·.1.1 == name) = none := by
    refine List.find?_eq_none.2 fun entry hentry hname ↦ ?_
    have hmem := List.fst_mem_of_mem_zipIdx hentry
    exact hgeneral _ hmem (beq_iff_eq.1 hname ▸ h)
  rw [specificity, Specificity.of, hfind]

theorem specificity_object : builtinTable.specificity ClassName.object = .general 6 9 := by
  decide +kernel

/-- The rows are checked one by one. A class without a row inherits from the top class alone, which
is a general one and so ranked after it. -/
theorem ranksByInheritance_builtin : builtinTable.RanksByInheritance := by
  have hlisted : ∀ row ∈ builtinTable.rows, ∀ sup ∈ builtinTable.ancestors row.1, row.1 ≠ sup →
      (builtinTable.specificity row.1).before (builtinTable.specificity sup) := by
    decide +kernel
  intro sub sup hsub hdiffer
  rw [isSubclass_iff] at hsub
  cases hlookup : builtinTable.rows.lookup sub with
  | some supers =>
    obtain ⟨before, after, hrows, -⟩ := List.lookup_eq_some_iff.1 hlookup
    exact hlisted (sub, supers) (by simp [hrows]) sup hsub hdiffer
  | none =>
    rw [ancestors_of_lookup_eq_none hlookup] at hsub
    obtain rfl : sup = ClassName.object := by simpa [Ne.symm hdiffer] using hsub
    rw [specificity_of_lookup_eq_none hlookup, specificity_object]
    rfl

theorem mostSpecificCommonAncestor_of_forall_eq {names : List ClassName} {name : ClassName}
    (hne : names ≠ []) (h : ∀ other ∈ names, other = name) :
    builtinTable.mostSpecificCommonAncestor names = name := by
  obtain ⟨first, hfirst⟩ := List.exists_mem_of_ne_nil names hne
  refine ranksByInheritance_builtin.mostSpecificCommonAncestor_eq (h first hfirst ▸ hfirst) ?_
  intro other hother
  rw [h other hother]
  exact builtinTable.isSubclass_refl name

theorem mostSpecificCommonAncestor_of_mem_object {names : List ClassName}
    (h : ClassName.object ∈ names) :
    builtinTable.mostSpecificCommonAncestor names = ClassName.object :=
  ranksByInheritance_builtin.mostSpecificCommonAncestor_eq h fun other _ ↦
    builtinTable.isSubclass_object other

/-! ## The choice as it is made -/

/-- Neither the order in which the common ancestors are looked at nor what is remembered of the
classes makes a difference. -/
theorem run_chooseFrom_of_perm {table : SupertypeTable} {names listing : List ClassName}
    {cache : AncestorCache} (hcache : cache.Faithful table)
    (hlisting : listing.Perm (table.commonAncestors names)) :
    ((AncestorCache.chooseFrom table listing).run cache).1 =
      table.mostSpecificCommonAncestor names := by
  rw [(AncestorCache.leaves_chooseFrom table listing cache hcache).1]
  refine Candidate.best_congr fun candidate ↦ ?_
  simp only [List.mem_map, hlisting.mem_iff]

/-- The choice for any classes, listed or not, is an ancestor of all of them, and no other such
ancestor inherits from it. It is one of the classes if that is above the others. It depends on which
classes there are, and not on the order in which their common ancestors are listed or on what a
cache holds. -/
theorem mostSpecificCommonAncestor_minimal {names : List ClassName} (hne : names ≠ []) :
    let chosen := builtinTable.mostSpecificCommonAncestor names
    (∀ name ∈ names, builtinTable.isSubclass name chosen) ∧
      (∀ other, other ≠ chosen → builtinTable.isSubclass other chosen →
        ¬∀ name ∈ names, builtinTable.isSubclass name other) ∧
      (∀ names', (∀ name, name ∈ names' ↔ name ∈ names) →
        builtinTable.mostSpecificCommonAncestor names' = chosen) ∧
      (∀ cache : AncestorCache, cache.Faithful builtinTable →
        ((AncestorCache.mostSpecificCommonAncestor builtinTable names).run cache).1 = chosen ∧
          let shared := (AncestorCache.commonAncestors builtinTable names).run cache
          ∀ listing : List ClassName, listing.Perm shared.1 →
            ((AncestorCache.chooseFrom builtinTable listing).run shared.2).1 = chosen) ∧
      ∀ name ∈ names, (∀ other ∈ names, builtinTable.isSubclass other name) → chosen = name := by
  refine ⟨fun name hname ↦ ?_, fun other hdiffer hsub hcommon ↦ ?_, fun names' h ↦ ?_,
    fun cache hcache ↦ ⟨?_, fun listing hlisting ↦ ?_⟩, fun name hname habove ↦ ?_⟩
  · exact isSubclass_mostSpecificCommonAncestor hne hname
  · exact hdiffer (ranksByInheritance_builtin.eq_of_isSubclass hne hcommon hsub)
  · exact builtinTable.mostSpecificCommonAncestor_congr h
  · exact (AncestorCache.leaves_mostSpecificCommonAncestor builtinTable names cache hcache).1
  · obtain ⟨hshared, hfaithful, -⟩ :=
      AncestorCache.leaves_commonAncestors builtinTable names cache hcache
    exact run_chooseFrom_of_perm hfaithful (hshared ▸ hlisting)
  · exact ranksByInheritance_builtin.mostSpecificCommonAncestor_eq hname habove

/-- A list class above the others, and a cache that knows one of them already. -/
theorem mostSpecificCommonAncestor_of_lists :
    let names := [ClassName.arrayList, ClassName.list, ClassName.intRange]
    let cache := ((builtinTable.askAll [.ancestors ClassName.intRange]).run .empty).2
    names ≠ [] ∧ cache.names = [ClassName.intRange] ∧
      builtinTable.mostSpecificCommonAncestor names.reverse = ClassName.list ∧
      ((AncestorCache.mostSpecificCommonAncestor builtinTable names).run cache).1 =
        ClassName.list := by
  intro names cache
  have hne : names ≠ [] := List.cons_ne_nil _ _
  obtain ⟨-, -, hsame, hcached, habove⟩ := mostSpecificCommonAncestor_minimal hne
  have hlist : builtinTable.mostSpecificCommonAncestor names = ClassName.list :=
    habove ClassName.list (by simp [names]) (by decide +kernel)
  have hfaithful : cache.Faithful builtinTable :=
    (run_askAll (AncestorCache.faithful_empty builtinTable) (fun _ ↦ Iff.rfl) _).2.1
  refine ⟨hne, by decide +kernel, ?_, ?_⟩
  · rw [hsame names.reverse (fun _ ↦ List.mem_reverse), hlist]
  · rw [(hcached cache hfaithful).1, hlist]

end SupertypeTable

end ExprTyping
