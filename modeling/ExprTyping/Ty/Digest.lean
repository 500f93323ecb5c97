import ExprTyping.Ty.Basic

/-!
# Digests and sets of types

A type is fed to a digest as a sequence of writes. Payloads that equality ignores are not written,
and the members of a union enter through the sum of their own digests, so that their order does
not show.
-/

namespace ExprTyping

inductive DigestWrite where
  | tag (index : Nat)
  | text (value : String)
  | count (value : Nat)
  | word (value : UInt64)
deriving DecidableEq, Repr

/-- A function from what was written to a machine word. -/
abbrev Digest := List DigestWrite → UInt64

namespace Ty

mutual

/-- What a type feeds to a digest; `digest` itself is used for the members of unions. -/
def writes (digest : Digest) : Ty → List DigestWrite
  | known name args => .tag 0 :: .text name :: .count args.length :: writesEach digest args
  | primitive kind => [.tag 1, .tag kind.ordinal]
  | dynamic _ => [.tag 2]
  | unknown _ => [.tag 3]
  | union members => [.tag 4, .count members.length, .word (digestSum digest members)]
  | null => [.tag 5]
  | array component => .tag 6 :: writes digest component

def writesEach (digest : Digest) : List Ty → List DigestWrite
  | [] => []
  | ty :: types => writes digest ty ++ writesEach digest types

/-- The sum of the types' digests, modulo the word size. -/
def digestSum (digest : Digest) : List Ty → UInt64
  | [] => 0
  | ty :: types => digest (writes digest ty) + digestSum digest types

end

/-- The hash of a type by any digest, where `digest` is used for the members of unions. -/
def hashBy (hasher digest : Digest) (ty : Ty) : UInt64 := hasher (ty.writes digest)

end Ty

/-- A digest that multiplies and adds, item by item. -/
def mixingDigest : Digest :=
  List.foldl (fun state item ↦ state * 31 + match item with
    | .tag index => index.toUInt64
    | .text value => value.toList.foldl (fun h c ↦ h * 31 + c.toNat.toUInt64) 7
    | .count value => value.toUInt64
    | .word value => value) 17

/-- A set of types, each stored beside its hash. -/
structure TySet where
  entries : List (UInt64 × Ty)

namespace TySet

def empty : TySet := ⟨[]⟩

def size (set : TySet) : Nat := set.entries.length

/-- A type is in the set if an equal type with the same hash is stored. -/
def contains (hash : Ty → UInt64) (set : TySet) (ty : Ty) : Bool :=
  set.entries.any fun entry ↦ entry.1 == hash ty && entry.2 == ty

/-- Stores a type that is not in the set yet; the flag says whether it was new. -/
def insert (hash : Ty → UInt64) (set : TySet) (ty : Ty) : Bool × TySet :=
  if set.contains hash ty then (false, set) else (true, ⟨set.entries ++ [(hash ty, ty)]⟩)

/-- Stores the types one by one; the flags say which of them were new. -/
def insertEach (hash : Ty → UInt64) (set : TySet) : List Ty → List Bool × TySet
  | [] => ([], set)
  | ty :: types =>
    let (isNew, set) := set.insert hash ty
    let (flags, set) := set.insertEach hash types
    (isNew :: flags, set)

/-- Stores the types one by one, with one digest for the set and for the members of unions. -/
def insertAll (digest : Digest) (set : TySet) (types : List Ty) : List Bool × TySet :=
  set.insertEach (Ty.hashBy digest digest) types

end TySet

end ExprTyping
