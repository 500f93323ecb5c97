/-!
# Class names

Classes are known by their fully qualified names. This module fixes the names that the typing
rules mention and the shortening of a qualified name to its last segment.
-/

namespace ExprTyping

/-- A fully qualified class name, segments separated by dots. -/
abbrev ClassName := String

namespace ClassName

def object : ClassName := "java.lang.Object"
def string : ClassName := "java.lang.String"
def charSequence : ClassName := "java.lang.CharSequence"
def comparable : ClassName := "java.lang.Comparable"
def number : ClassName := "java.lang.Number"
def iterable : ClassName := "java.lang.Iterable"
def boolean : ClassName := "java.lang.Boolean"
def byte : ClassName := "java.lang.Byte"
def character : ClassName := "java.lang.Character"
def short : ClassName := "java.lang.Short"
def integer : ClassName := "java.lang.Integer"
def long : ClassName := "java.lang.Long"
def float : ClassName := "java.lang.Float"
def double : ClassName := "java.lang.Double"
def serializable : ClassName := "java.io.Serializable"
def bigInteger : ClassName := "java.math.BigInteger"
def bigDecimal : ClassName := "java.math.BigDecimal"
def collection : ClassName := "java.util.Collection"
def list : ClassName := "java.util.List"
def set : ClassName := "java.util.Set"
def sortedSet : ClassName := "java.util.SortedSet"
def queue : ClassName := "java.util.Queue"
def deque : ClassName := "java.util.Deque"
def arrayList : ClassName := "java.util.ArrayList"
def linkedList : ClassName := "java.util.LinkedList"
def hashSet : ClassName := "java.util.HashSet"
def linkedHashSet : ClassName := "java.util.LinkedHashSet"
def treeSet : ClassName := "java.util.TreeSet"
def map : ClassName := "java.util.Map"
def sortedMap : ClassName := "java.util.SortedMap"
def hashMap : ClassName := "java.util.HashMap"
def linkedHashMap : ClassName := "java.util.LinkedHashMap"
def treeMap : ClassName := "java.util.TreeMap"
def matcher : ClassName := "java.util.regex.Matcher"
def gstring : ClassName := "groovy.lang.GString"
def closure : ClassName := "groovy.lang.Closure"
def range : ClassName := "groovy.lang.Range"
def intRange : ClassName := "groovy.lang.IntRange"

/-- The last segment of a name: what follows its last dot, or the whole name if it has none. -/
def simple (name : ClassName) : String :=
  String.ofList (name.toList.reverse.takeWhile (· ≠ '.')).reverse

/-- A set of names as a list in code point order. -/
def sorted (names : List ClassName) : List ClassName := names.mergeSort (· ≤ ·)

end ClassName

end ExprTyping
