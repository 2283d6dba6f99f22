import Unparse.Target.Lexicon
import Unparse.Target.TypeName

/-! # Operator tables

Priority, associativity and spelling of the operations of each target language.
A lower priority binds tighter.
-/

namespace Unparse

inductive Affix where
  | before (head : String)
  | after (tail : String)
deriving DecidableEq, Repr

namespace Target

def priority : Target → Operation → Nat
  | java, .member | java, .index | java, .length | java, .stepAfter _ => 1
  | java, .unary _ | java, .stepBefore _ | java, .cast => 2
  | java, .binary op =>
    match op with
    | .mul | .div | .rem => 3
    | .add | .sub => 4
    | .shl | .shr | .ushr => 5
    | .lt | .le | .gt | .ge => 6
    | .eq | .ne => 7
    | .bitAnd => 8
    | .bitXor => 9
    | .bitOr => 10
    | .and => 11
    | .or => 12
  | java, .instanceOf => 6
  | java, .ternary => 13
  | java, .assign | java, .compound _ => 14
  | kotlin, .member | kotlin, .index | kotlin, .length | kotlin, .stepAfter _
  | kotlin, .unary .bitNot => 1
  | kotlin, .unary _ | kotlin, .stepBefore _ => 2
  | kotlin, .cast => 3
  | kotlin, .binary op =>
    match op with
    | .mul | .div | .rem => 4
    | .add | .sub => 5
    | .shl | .shr | .ushr | .bitAnd | .bitOr | .bitXor => 7
    | .lt | .le | .gt | .ge => 10
    | .eq | .ne => 11
    | .and => 12
    | .or => 13
  | kotlin, .instanceOf => 9
  | kotlin, .ternary => 14
  | kotlin, .assign | kotlin, .compound _ => 15

/-- Operations that group by themselves when nested in an operand that says
so: left or right associative ones, and chains of suffixes. -/
def isAssociative : Target → Operation → Bool
  | _, .member | _, .index | _, .length | _, .stepAfter _ => true
  | _, .binary op => op.isAssociative
  | _, .assign | _, .compound _ => true
  | kotlin, .unary .bitNot | kotlin, .cast => true
  | _, _ => false

def binaryToken : Target → BinaryOp → String
  | kotlin, .shl => "shl"
  | kotlin, .shr => "shr"
  | kotlin, .ushr => "ushr"
  | kotlin, .bitAnd => "and"
  | kotlin, .bitOr => "or"
  | kotlin, .bitXor => "xor"
  | _, op => op.symbol

def compoundToken? : Target → BinaryOp → Option String
  | _, .add => some "+="
  | _, .sub => some "-="
  | _, .mul => some "*="
  | _, .div => some "/="
  | _, .rem => some "%="
  | java, .shl => some "<<="
  | java, .shr => some ">>="
  | java, .ushr => some ">>>="
  | java, .bitAnd => some "&="
  | java, .bitOr => some "|="
  | java, .bitXor => some "^="
  | _, _ => none

def token : Target → Operation → String
  | t, .binary op => t.binaryToken op
  | kotlin, .unary .bitNot => ".inv()"
  | _, .unary op => op.symbol
  | _, .stepBefore step | _, .stepAfter step => step.symbol
  | t, .compound op => (t.compoundToken? op).getD ""
  | java, .cast => "("
  | kotlin, .cast => "as"
  | t, .instanceOf => t.lexicon.instanceOf
  | java, .ternary => "?"
  | kotlin, .ternary => "if"
  | java, .length => ".length"
  | kotlin, .length => ".size"
  | _, .index => "["
  | _, .member => "."
  | _, .assign => "="

/-- Unary operators written after their operand. -/
def followsOperand : Target → Operation → Bool
  | kotlin, .unary .bitNot => true
  | _, _ => false

def castAffix : Target → String → Affix
  | java, type => .before ("(" ++ type ++ ") ")
  | kotlin, type => .after (" as " ++ TypeName.spell type)

end Target

end Unparse
