import ExprTyping.Hierarchy.Table

/-!
# The built-in classes

The classes whose inheritance is known beforehand. No row names the top class as a supertype,
since it is above every class.
-/

namespace ExprTyping

open ClassName in
def builtinTable : SupertypeTable where
  rows := [
    (object, []),
    (string, [charSequence, comparable, serializable]),
    (gstring, [charSequence, comparable, serializable]),
    (charSequence, []),
    (comparable, []),
    (serializable, []),
    (number, []),
    (byte, [number]),
    (short, [number]),
    (integer, [number]),
    (long, [number]),
    (float, [number]),
    (double, [number]),
    (bigInteger, [number]),
    (bigDecimal, [number]),
    (character, [comparable, serializable]),
    (boolean, [comparable, serializable]),
    (iterable, []),
    (collection, [iterable]),
    (list, [collection]),
    (set, [collection]),
    (sortedSet, [set]),
    (queue, [collection]),
    (deque, [queue]),
    (arrayList, [list, serializable]),
    (linkedList, [list, deque, serializable]),
    (hashSet, [set, serializable]),
    (linkedHashSet, [hashSet]),
    (treeSet, [sortedSet, serializable]),
    (map, []),
    (sortedMap, [map]),
    (hashMap, [map, serializable]),
    (linkedHashMap, [hashMap]),
    (treeMap, [sortedMap, serializable]),
    (closure, [serializable]),
    (range, [list]),
    (intRange, [range, serializable])]

end ExprTyping
