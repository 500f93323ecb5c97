import ExprTyping.Ty.Basic

/-!
# Literals

Literal values as written in a program, and their types. Arbitrary-precision numbers are kept as
text.
-/

namespace ExprTyping

inductive Literal where
  | null
  | boolean (value : Bool)
  | byte (value : Int8)
  | char (value : Char)
  | short (value : Int16)
  | int (value : Int32)
  | long (value : Int64)
  | float (value : Float32)
  | double (value : Float)
  | bigInteger (digits : String)
  | bigDecimal (digits : String)
  | string (text : String)
deriving BEq

def Literal.ty : Literal → Ty
  | null => .null
  | boolean _ => .primitive .boolean
  | byte _ => .primitive .byte
  | char _ => .primitive .char
  | short _ => .primitive .short
  | int _ => .primitive .int
  | long _ => .primitive .long
  | float _ => .primitive .float
  | double _ => .primitive .double
  | bigInteger _ => .ofClass ClassName.bigInteger
  | bigDecimal _ => .ofClass ClassName.bigDecimal
  | string _ => .string

end ExprTyping
