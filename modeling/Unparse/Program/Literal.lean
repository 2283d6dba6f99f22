import Unparse.Decimal.Shortest
import Unparse.Text.Escape

/-! # Literals

Constants of the program model and their spelling. Floating-point constants
are kept as bit patterns; the ones that are no finite number are spelled as
class constants.
-/

namespace Unparse

open Decimal (BinaryFormat BinaryValue)

inductive Literal where
  | null
  | bool (value : Bool)
  | int (value : Int)
  | long (value : Int)
  | float (bits : UInt32)
  | double (bits : UInt64)
  | char (value : Char)
  | string (value : String)
  /-- A constant that is spelled already, such as an enum entry. -/
  | name (spelling : String)
deriving DecidableEq, Repr

namespace Literal

def floating? : Literal → Option BinaryValue
  | float bits => some (BinaryFormat.single.decode bits.toNat)
  | double bits => some (BinaryFormat.double.decode bits.toNat)
  | _ => none

def isNegative (l : Literal) : Bool :=
  match l with
  | int v | long v => v < 0
  | _ => (l.floating?.map BinaryValue.isNegative).getD false

/-- Spell a floating-point constant of a class, with a suffix if it is
finite. -/
def spellFloating (f : BinaryFormat) (cls suffix : String) : BinaryValue → String
  | .nan => cls ++ ".NaN"
  | .infinite false => cls ++ ".POSITIVE_INFINITY"
  | .infinite true => cls ++ ".NEGATIVE_INFINITY"
  | .finite negative m e => Decimal.spellFinite f negative m e ++ suffix

def spell : Literal → String
  | null => "null"
  | bool true => "true"
  | bool false => "false"
  | int v => toString v
  | long v => toString v ++ "L"
  | float bits =>
    spellFloating .single "Float" "f" (BinaryFormat.single.decode bits.toNat)
  | double bits =>
    spellFloating .double "Double" "" (BinaryFormat.double.decode bits.toNat)
  | char c => Text.quoted '\'' [c]
  | string s => Text.quoted '"' s.toList
  | name s => s

/-- Equality of values. Floating-point constants are compared as numbers. -/
def same : Literal → Literal → Bool
  | float a, float b =>
    (BinaryFormat.single.decode a.toNat).same (BinaryFormat.single.decode b.toNat)
  | double a, double b =>
    (BinaryFormat.double.decode a.toNat).same (BinaryFormat.double.decode b.toNat)
  | a, b => a = b

end Literal

end Unparse
