import ExprTyping.ClassName

/-!
# Supertype tables

A table lists the direct supertypes of some classes. The ancestors of a class are found by a
worklist over the table; the top class is an ancestor of everything, also of names that the table
does not list. Nothing is assumed of the table: a cycle in it is walked once.
-/

namespace ExprTyping

/-- The direct supertypes of classes, one row for each. -/
structure SupertypeTable where
  rows : List (ClassName × List ClassName)

namespace SupertypeTable

def contains (table : SupertypeTable) (name : ClassName) : Bool := (table.rows.lookup name).isSome

/-- The direct supertypes of a class, in table order; a name without a row has none. -/
def supertypes (table : SupertypeTable) (name : ClassName) : List ClassName :=
  (table.rows.lookup name).getD []

/-- How many supertypes the rows of names outside `seen` still hold. -/
def unexplored (rows : List (ClassName × List ClassName)) (seen : List ClassName) : Nat :=
  match rows with
  | [] => 0
  | row :: rows => (if row.1 ∈ seen then 0 else row.2.length) + unexplored rows seen

theorem unexplored_cons_le (rows : List (ClassName × List ClassName)) (seen : List ClassName)
    (name : ClassName) : unexplored rows (name :: seen) ≤ unexplored rows seen := by
  induction rows with
  | nil => simp [unexplored]
  | cons row rows ih =>
    simp only [unexplored, List.mem_cons]
    by_cases h : row.1 ∈ seen <;> by_cases h' : row.1 = name <;> simp [h, h'] <;> omega

/-- Exploring a new name uses up its row. -/
theorem unexplored_cons_add_length_le (rows : List (ClassName × List ClassName))
    {seen : List ClassName} {name : ClassName} (h : name ∉ seen) :
    unexplored rows (name :: seen) + ((rows.lookup name).getD []).length ≤
      unexplored rows seen := by
  induction rows with
  | nil => simp [unexplored]
  | cons row rows ih =>
    obtain ⟨key, supers⟩ := row
    by_cases hkey : key = name
    · subst hkey
      have := unexplored_cons_le rows seen key
      simp [unexplored, h]
      omega
    · have hbeq : (name == key) = false := by simpa using fun h ↦ hkey h.symm
      simp only [unexplored, List.lookup_cons, hbeq, List.mem_cons, hkey, false_or]
      omega

/-- Adds to `seen` every pending name and all that its supertypes lead to. -/
def close (table : SupertypeTable) (seen : List ClassName) : List ClassName → List ClassName
  | [] => seen
  | name :: pending =>
    if name ∈ seen then table.close seen pending
    else table.close (name :: seen) (table.supertypes name ++ pending)
termination_by pending => unexplored table.rows seen + pending.length
decreasing_by
  · simp
  · rename_i h
    have := unexplored_cons_add_length_le table.rows h
    simp only [supertypes, List.length_append, List.length_cons]
    omega

/-- The ancestors of a class, itself and the top class included, without repetition. -/
def ancestors (table : SupertypeTable) (name : ClassName) : List ClassName :=
  table.close (List.insert name [ClassName.object]) (table.supertypes name)

/-- Whether `sub` is `sup` or inherits from it. -/
def isSubclass (table : SupertypeTable) (sub sup : ClassName) : Bool :=
  (table.ancestors sub).contains sup

end SupertypeTable

end ExprTyping
