/-! # Kotlin type names

The types of a program are spelled as in Java. Kotlin has classes for the
primitive types and for arrays: `int[][]` is `Array<IntArray>`. Any other
spelling is left as it is.
-/

namespace Unparse.TypeName

def dropHead? : (head s : List Char) → Option (List Char)
  | [], s => some s
  | c :: head, d :: s => if c = d then dropHead? head s else none
  | _ :: _, [] => none

def dropTail? (tail s : List Char) : Option (List Char) :=
  (dropHead? tail.reverse s.reverse).map List.reverse

def element? (type : String) : Option String :=
  (dropTail? "[]".toList type.toList).map String.ofList

def primitive? : String → Option String
  | "int" | "Int" => some "Int"
  | "long" | "Long" => some "Long"
  | "short" | "Short" => some "Short"
  | "byte" | "Byte" => some "Byte"
  | "char" | "Char" => some "Char"
  | "boolean" | "Boolean" => some "Boolean"
  | "float" | "Float" => some "Float"
  | "double" | "Double" => some "Double"
  | _ => none

/-- A type without the pairs of brackets at its end, and their number. The
spelling is given and returned from its last character to its first. -/
def countBrackets : List Char → Nat × List Char
  | ']' :: '[' :: s => let (n, base) := countBrackets s; (n + 1, base)
  | s => (0, s)

def arrayOf : Nat → String → String
  | 0, type => type
  | n + 1, type => "Array<" ++ arrayOf n type ++ ">"

/-- Spell a type. An array of a primitive type has a class of its own. -/
def spell (type : String) : String :=
  let (n, base) := countBrackets type.toList.reverse
  let base := String.ofList base.reverse
  match n, primitive? base with
  | n, none => arrayOf n base
  | 0, some p => p
  | n + 1, some p => arrayOf n (p ++ "Array")

/-- The element type of an array type in any of its spellings: `T[]`,
`Array<T>`, `Array<out T>` and `IntArray`. Any other type is its own. -/
def element (type : String) : String :=
  match element? type with
  | some e => e
  | none =>
    match (dropHead? "Array<".toList type.toList).bind (dropTail? ['>']) with
    | some inner => String.ofList ((dropHead? "out ".toList inner).getD inner)
    | none =>
      match (dropTail? "Array".toList type.toList).map String.ofList with
      | some e => if (primitive? e).isSome then e else type
      | none => type

end Unparse.TypeName
