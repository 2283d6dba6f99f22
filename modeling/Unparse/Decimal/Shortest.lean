import Unparse.Decimal.Binary

/-! # Shortest decimals

The decimal of a positive binary number is the multiple of the largest power
of ten that reads back as that number. Of two such multiples the nearer one is
taken, and the larger one when both are equally near. All comparisons are made
on natural numbers.
-/

namespace Unparse.Decimal

/-- The positive decimal `digits · 10 ^ exponent`. -/
structure Numeral where
  digits : Nat
  exponent : Int
deriving DecidableEq, Repr

/-- The real numbers that read back as `mantissa · 2 ^ exponent`, in quarters
of its last place: from half a place below to half a place above, and only a
quarter below at a power of two, with the ends included for an even mantissa. -/
structure Interval where
  center : Nat
  low : Nat
  high : Nat
  closed : Bool
  exponent : Int
deriving DecidableEq, Repr

def Interval.ofFinite (f : BinaryFormat) (mantissa : Nat) (exponent : Int) : Interval where
  center := 4 * mantissa
  low := 4 * mantissa - if mantissa = Nat.pow 2 f.fractionBits then 1 else 2
  high := 4 * mantissa + 2
  closed := mantissa % 2 == 0
  exponent := exponent - 2

namespace Interval

/-- `10 ^ k` and a quarter place as natural multiples of one common unit. -/
def scales (i : Interval) (k : Int) : Nat × Nat :=
  (Nat.pow 10 k.toNat * Nat.pow 2 (-i.exponent).toNat,
    Nat.pow 2 i.exponent.toNat * Nat.pow 10 (-k).toNat)

def admits (i : Interval) (d : Nat) (k : Int) : Bool :=
  let (ten, place) := i.scales k
  if i.closed then i.low * place ≤ d * ten && d * ten ≤ i.high * place
  else i.low * place < d * ten && d * ten < i.high * place

def below (i : Interval) (k : Int) : Nat :=
  let (ten, place) := i.scales k
  i.center * place / ten

/-- Whether the multiple of `10 ^ k` just above the centre is at least as near
as the one just below. -/
def roundsUp (i : Interval) (k : Int) : Bool :=
  let (ten, place) := i.scales k
  ten ≤ 2 * (i.center * place % ten)

/-- The multiple of `10 ^ k` in the interval that is nearest to its centre. -/
def nearest? (i : Interval) (k : Int) : Option Numeral :=
  let d := i.below k
  match i.admits d k, i.admits (d + 1) k with
  | true, true => some ⟨if i.roundsUp k then d + 1 else d, k⟩
  | true, false => some ⟨d, k⟩
  | false, true => some ⟨d + 1, k⟩
  | false, false => none

def finest (i : Interval) : Int := min i.exponent 0

def span (i : Interval) : Nat :=
  let top := i.high * Nat.pow 2 i.exponent.toNat / Nat.pow 2 (-i.exponent).toNat
  ((Nat.toDigits 10 top).length - i.finest).toNat

/-- The first hit among the powers of ten from `finest + n` downwards. -/
def search (i : Interval) : Nat → Numeral
  | 0 => ⟨i.below i.finest, i.finest⟩
  | n + 1 =>
    match i.nearest? (i.finest + (n + 1 : Nat)) with
    | some d => d
    | none => i.search n

def shortest (i : Interval) : Numeral := i.search i.span

end Interval

namespace Numeral

/-- Spell a decimal. Numbers from `10 ^ -4` up to below `10 ^ 16` are written
out with a point and at least one digit on each side of it, all others with one
digit before the point and an exponent. -/
def spell (d : Numeral) : String :=
  let ds := Nat.toDigits 10 d.digits
  let point : Int := d.exponent + ds.length
  if -4 < point ∧ point ≤ 16 then
    if point ≤ 0 then
      String.ofList ('0' :: '.' :: (List.replicate (-point).toNat '0' ++ ds))
    else if point < ds.length then
      String.ofList (ds.take point.toNat ++ '.' :: ds.drop point.toNat)
    else
      String.ofList (ds ++ List.replicate (point.toNat - ds.length) '0' ++ ['.', '0'])
  else
    let mantissa := match ds with
      | first :: second :: rest => first :: '.' :: second :: rest
      | ds => ds
    String.ofList mantissa ++ "e" ++ toString (point - 1)

end Numeral

def spellFinite (f : BinaryFormat) (negative : Bool) (mantissa : Nat) (exponent : Int) : String :=
  (if negative then "-" else "") ++
    if mantissa = 0 then "0.0"
    else (Interval.ofFinite f mantissa exponent).shortest.spell

end Unparse.Decimal
