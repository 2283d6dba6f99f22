/-! # Binary floating point

A binary interchange format is given by its numbers of fraction and exponent
bits. `decode` reads a bit pattern as the number `± mantissa · 2 ^ exponent`,
an infinity, or no number at all.
-/

namespace Unparse.Decimal

structure BinaryFormat where
  fractionBits : Nat
  exponentBits : Nat
deriving DecidableEq, Repr

def BinaryFormat.single : BinaryFormat := ⟨23, 8⟩

def BinaryFormat.double : BinaryFormat := ⟨52, 11⟩

/-- The number a bit pattern stands for. -/
inductive BinaryValue where
  | nan
  | infinite (negative : Bool)
  | finite (negative : Bool) (mantissa : Nat) (exponent : Int)
deriving DecidableEq, Repr

namespace BinaryFormat

def bias (f : BinaryFormat) : Nat := Nat.pow 2 (f.exponentBits - 1) - 1

/-- Read a bit pattern, lowest bits first: fraction, exponent, sign. -/
def decode (f : BinaryFormat) (bits : Nat) : BinaryValue :=
  let fraction := bits % Nat.pow 2 f.fractionBits
  let field := bits / Nat.pow 2 f.fractionBits % Nat.pow 2 f.exponentBits
  let negative := bits / Nat.pow 2 (f.fractionBits + f.exponentBits) % 2 == 1
  if field = Nat.pow 2 f.exponentBits - 1 then
    if fraction = 0 then .infinite negative else .nan
  else if field = 0 then
    .finite negative fraction (1 - f.bias - f.fractionBits)
  else
    .finite negative (Nat.pow 2 f.fractionBits + fraction) (field - f.bias - f.fractionBits)

end BinaryFormat

namespace BinaryValue

/-- Finite values with the sign bit set, zero included. -/
def isNegative : BinaryValue → Bool
  | .finite negative _ _ => negative
  | _ => false

/-- Equality of numbers: both zeros are one number, and what is no number
equals nothing. -/
def same : BinaryValue → BinaryValue → Bool
  | .finite n m e, .finite n' m' e' => (m == 0 && m' == 0) || (n == n' && m == m' && e == e')
  | .infinite n, .infinite n' => n == n'
  | _, _ => false

end BinaryValue

end Unparse.Decimal
