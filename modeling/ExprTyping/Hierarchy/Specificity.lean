import ExprTyping.Hierarchy.Table

/-!
# The most specific common ancestor

Several classes may share many ancestors, and one of them has to be chosen. Classes outside a
short list of well-known general ones come first, those with more ancestors before those with
fewer; then the list decides by its tiers. Names break the remaining ties, so the choice depends
on the set of candidates only.
-/

namespace ExprTyping

/-- The well-known general classes with their tiers, most specific first. -/
def generalClasses : List (ClassName × Nat) := [
  (ClassName.list, 0),
  (ClassName.set, 0),
  (ClassName.map, 0),
  (ClassName.number, 0),
  (ClassName.collection, 1),
  (ClassName.iterable, 2),
  (ClassName.charSequence, 3),
  (ClassName.comparable, 4),
  (ClassName.serializable, 5),
  (ClassName.object, 6)]

inductive Specificity where
  /-- A class outside the general ones, by the number of its ancestors. -/
  | concrete (depth : Nat)
  /-- A general class, by its tier and its place in the list. -/
  | general (tier position : Nat)
deriving DecidableEq, Repr

namespace Specificity

/-- Strict order, more specific first. -/
def before : Specificity → Specificity → Bool
  | concrete d, concrete e => e < d
  | concrete _, general _ _ => true
  | general _ _, concrete _ => false
  | general t p, general u q => t < u || t == u && p < q

def isGeneral (name : ClassName) : Bool := generalClasses.any (·.1 == name)

/-- The specificity of a class with `depth` ancestors; the depth of a general class does not
matter. -/
def of (name : ClassName) (depth : Nat) : Specificity :=
  match generalClasses.zipIdx.find? (·.1.1 == name) with
  | some ((_, tier), position) => general tier position
  | none => concrete depth

end Specificity

/-- A class under consideration as the common ancestor. -/
structure Candidate where
  name : ClassName
  specificity : Specificity

namespace Candidate

/-- Strict order, the better candidate first. -/
def before (a b : Candidate) : Bool :=
  a.specificity.before b.specificity || a.specificity == b.specificity && a.name < b.name

def better (a b : Candidate) : Candidate := if b.before a then b else a

/-- The name of the best candidate; the top class if there is none. -/
def best : List Candidate → ClassName
  | [] => ClassName.object
  | candidate :: candidates => (candidates.foldl better candidate).name

end Candidate

/-- The names that all the given ancestor sets share, and the top class. -/
def sharedNames : List (List ClassName) → List ClassName
  | [] => [ClassName.object]
  | first :: rest =>
    List.insert ClassName.object (first.filter fun name ↦ rest.all (·.contains name))

namespace SupertypeTable

def commonAncestors (table : SupertypeTable) (names : List ClassName) : List ClassName :=
  sharedNames (names.map table.ancestors)

def specificity (table : SupertypeTable) (name : ClassName) : Specificity :=
  Specificity.of name (table.ancestors name).length

/-- The most specific of the ancestors that all the given classes share. -/
def mostSpecificCommonAncestor (table : SupertypeTable) (names : List ClassName) : ClassName :=
  Candidate.best ((table.commonAncestors names).map fun name ↦ ⟨name, table.specificity name⟩)

end SupertypeTable

end ExprTyping
