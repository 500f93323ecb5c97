import ExprTyping.Hierarchy.Specificity

/-!
# Remembered ancestor sets

Questions to a hierarchy can be answered with a memory of the ancestor sets found so far. The
memory changes no answer; what it holds can be counted.
-/

namespace ExprTyping

/-- The ancestor sets found so far, by class name. -/
structure AncestorCache where
  entries : List (ClassName × List ClassName)

namespace AncestorCache

def empty : AncestorCache := ⟨[]⟩

def size (cache : AncestorCache) : Nat := cache.entries.length

def names (cache : AncestorCache) : List ClassName := cache.entries.map (·.1)

/-- The ancestors of a class, looked up or found and remembered. -/
def ancestors (table : SupertypeTable) (name : ClassName) :
    StateM AncestorCache (List ClassName) := do
  let cache ← get
  match cache.entries.lookup name with
  | some found => return found
  | none =>
    let found := table.ancestors name
    set (⟨(name, found) :: cache.entries⟩ : AncestorCache)
    return found

def commonAncestors (table : SupertypeTable) (names : List ClassName) :
    StateM AncestorCache (List ClassName) := do
  return sharedNames (← names.mapM (ancestors table))

/-- The specificity of a class; only a class outside the general ones needs its ancestors. -/
def specificity (table : SupertypeTable) (name : ClassName) : StateM AncestorCache Specificity := do
  if Specificity.isGeneral name then
    return Specificity.of name 0
  else
    return Specificity.of name (← ancestors table name).length

def mostSpecificCommonAncestor (table : SupertypeTable) (names : List ClassName) :
    StateM AncestorCache ClassName := do
  let shared ← commonAncestors table names
  return Candidate.best (← shared.mapM fun name ↦ return ⟨name, ← specificity table name⟩)

end AncestorCache

namespace SupertypeTable

/-- A question to a class hierarchy. -/
inductive Question where
  | isListed (name : ClassName)
  | supertypes (name : ClassName)
  | ancestors (name : ClassName)
  | isSubclass (sub sup : ClassName)
  | commonAncestors (names : List ClassName)
  | mostSpecificCommonAncestor (names : List ClassName)
deriving DecidableEq, Repr

/-- The answer to a question. A set of names is listed in code point order. -/
inductive Answer where
  | flag (value : Bool)
  | name (value : ClassName)
  | names (values : List ClassName)
deriving DecidableEq, Repr

/-- The answer to a question, from the table alone. -/
def answer (table : SupertypeTable) : Question → Answer
  | .isListed name => .flag (table.contains name)
  | .supertypes name => .names (table.supertypes name)
  | .ancestors name => .names (ClassName.sorted (table.ancestors name))
  | .isSubclass sub sup => .flag (table.isSubclass sub sup)
  | .commonAncestors names => .names (ClassName.sorted (table.commonAncestors names))
  | .mostSpecificCommonAncestor names => .name (table.mostSpecificCommonAncestor names)

/-- The answer to a question, with the help of a cache. -/
def ask (table : SupertypeTable) : Question → StateM AncestorCache Answer
  | .isListed name => return .flag (table.contains name)
  | .supertypes name => return .names (table.supertypes name)
  | .ancestors name => return .names (ClassName.sorted (← AncestorCache.ancestors table name))
  | .isSubclass sub sup => return .flag ((← AncestorCache.ancestors table sub).contains sup)
  | .commonAncestors names =>
    return .names (ClassName.sorted (← AncestorCache.commonAncestors table names))
  | .mostSpecificCommonAncestor names =>
    return .name (← AncestorCache.mostSpecificCommonAncestor table names)

/-- Asks the questions in turn; each answer comes with the size of the cache after it. -/
def askAll (table : SupertypeTable) (questions : List Question) :
    StateM AncestorCache (List (Answer × Nat)) :=
  questions.mapM fun question ↦ return (← table.ask question, (← get).size)

end SupertypeTable

end ExprTyping
