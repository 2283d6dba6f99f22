import Unparse.Proofs.Constants.Chain
import Unparse.Proofs.Quoted.Constants
import Unparse.Proofs.Reading.Regrouping

/-! # Values of trees

What Java makes of a tree that is read from a text. A number is a `long` if it is
marked as one, and it has to be in the range of its type. The least number of a
type can be written as a negation only.
-/

namespace Unparse.Constants

open Reading (Tree)

/-- The number that decimal digits stand for. Behind a zero they would be octal. -/
def decimal? (cs : List Char) : Option Nat :=
  let n := Nat.ofDigitChars 10 cs 0
  if Nat.toDigits 10 n = cs then some n else none

/-- A number with or without a sign, if it is in the range of so many bits. -/
def signed? (w : Nat) (negative : Bool) (n : Nat) : Option (BitVec w) :=
  if n < 2 ^ (w - 1) + negative.toNat then some (.ofInt w (if negative then -n else n)) else none

def number? (negative : Bool) (s : String) : Option Value :=
  if s.toList.getLast? = some 'L' then
    (decimal? s.toList.dropLast >>= signed? 64 negative).map .long
  else (decimal? s.toList >>= signed? 32 negative).map .int

def quoted? (s : String) : Option Value :=
  match Quoted.readConstant .java s with
  | some (.string v) => some (.string v)
  | _ => none

def Operator.ofBinary? : BinaryOp → Option Operator
  | .add => some add
  | .mul => some mul
  | .bitAnd => some bitAnd
  | .bitOr => some bitOr
  | .bitXor => some bitXor
  | .and => some and
  | .or => some or
  | _ => none

@[simp] theorem Operator.ofBinary?_binary (op : Operator) : ofBinary? op.binary = some op := by
  cases op <;> rfl

def value? : Tree → Option Value
  | .const (.name s) => if s.toList.head? = some '"' then quoted? s else number? false s
  | .unary .negate (.const (.name s)) => number? true s
  | .staticField "" "true" => some (.bool true)
  | .staticField "" "false" => some (.bool false)
  | .binary op l r => do (← Operator.ofBinary? op).apply (← value? l) (← value? r)
  | _ => none

namespace Value

def literal : Value → Literal
  | int v => .int v.toInt
  | long v => .long v.toInt
  | bool v => .bool v
  | string v => .string v

end Value

theorem decimal?_toDigits (n : Nat) : decimal? (Nat.toDigits 10 n) = some n := by
  simp [decimal?, Nat.ofDigitChars_ten_toDigits]

theorem signed?_toInt {w : Nat} (v : BitVec w) :
    signed? w (v.toInt < 0) v.toInt.natAbs = some v := by
  have hlt : v.toInt < 2 ^ (w - 1) := BitVec.toInt_lt
  have hle : -2 ^ (w - 1) ≤ v.toInt := v.le_toInt
  have hpow : ((2 ^ (w - 1) : Nat) : Int) = 2 ^ (w - 1) := by simp
  rw [signed?]
  by_cases hv : v.toInt < 0
  · have hrange : v.toInt.natAbs < 2 ^ (w - 1) + 1 := by omega
    have habs : -(v.toInt.natAbs : Int) = v.toInt := by omega
    rw [decide_eq_true hv, Bool.toNat_true, if_pos hrange, if_pos rfl, habs, BitVec.ofInt_toInt]
  · have hrange : v.toInt.natAbs < 2 ^ (w - 1) + 0 := by omega
    have habs : (v.toInt.natAbs : Int) = v.toInt := by omega
    rw [decide_eq_false hv, Bool.toNat_false, if_pos hrange, if_neg Bool.false_ne_true, habs,
      BitVec.ofInt_toInt]

theorem number?_int (negative : Bool) (n : Nat) :
    number? negative n.repr = (signed? 32 negative n).map .int := by
  have hlast : (Nat.toDigits 10 n).getLast? ≠ some 'L' := by
    intro h
    have hdigit := Reading.isDigit_of_mem_toDigits (List.mem_of_getLast? h)
    cases hdigit
  rw [number?, Nat.toList_repr, if_neg hlast, decimal?_toDigits]
  rfl

theorem number?_long (negative : Bool) (n : Nat) :
    number? negative (n.repr ++ "L") = (signed? 64 negative n).map .long := by
  have hspell : (n.repr ++ "L").toList = Nat.toDigits 10 n ++ ['L'] := by
    rw [String.toList_append, Nat.toList_repr]
    rfl
  rw [number?, hspell, if_pos List.getLast?_concat, List.dropLast_concat, decimal?_toDigits]
  rfl

theorem value?_digits (n : Nat) (suffix : String) :
    value? (Tree.constant (n.repr ++ suffix)) = number? false (n.repr ++ suffix) := by
  have hhead : (n.repr ++ suffix).toList.head? ≠ some '"' := by
    obtain ⟨d, ds, hds⟩ := List.exists_cons_of_ne_nil (Nat.toDigits_ne_nil (b := 10) (n := n))
    have hd : d ∈ Nat.toDigits 10 n := by simp [hds]
    rw [String.toList_append, Nat.toList_repr, hds]
    rintro ⟨⟩
    have hdigit := Reading.isDigit_of_mem_toDigits hd
    cases hdigit
  rw [Tree.constant, value?, if_neg hhead]

theorem value?_string (s : String) :
    value? (Tree.constant (Target.java.literal (.string s))) = some (.string s) := by
  have hhead : (Target.java.literal (.string s)).toList.head? = some '"' := by
    rw [show Literal.string s = (Quoted.Constant.string s).literal from rfl,
      Quoted.toList_literal]
    rfl
  have hread : Quoted.readConstant .java (Target.java.literal (.string s)) = some (.string s) :=
    Quoted.readConstant_literal .java (.string s)
  rw [Tree.constant, value?, if_pos hhead, quoted?, hread]

theorem value?_number (negative : Bool) (n : Nat) (suffix : String) :
    value? (Reading.Atom.number negative (n.repr ++ suffix)).tree =
      number? negative (n.repr ++ suffix) := by
  cases negative with
  | false => exact value?_digits n suffix
  | true => rfl

/-- The spelling of a constant is read as its value. -/
theorem value?_literal (v : Value) :
    value? (Reading.Atom.ofLiteral .java v.literal).tree = some v := by
  cases v with
  | int v =>
    have h := value?_number (v.toInt < 0) v.toInt.natAbs ""
    rw [String.append_empty, number?_int, signed?_toInt] at h
    exact h
  | long v =>
    have h := value?_number (v.toInt < 0) v.toInt.natAbs "L"
    rw [number?_long, signed?_toInt] at h
    exact h
  | bool b => cases b <;> rfl
  | string s => exact value?_string s

end Unparse.Constants
