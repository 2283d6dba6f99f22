import Mathlib.Data.Fintype.Basic
import Mathlib.Tactic.Common
import Unparse.Program.Operator

/-! # Values of constant operations

Java's operations on numbers, truth values and strings. Numbers wrap around, and
an `int` is widened where it meets a `long`. An addition with a string appends
the spellings of its operands. What is no operation of Java has no value.

An operation may be regrouped if nothing is widened or spelled out at another
place then, which the types of the operands decide.
-/

namespace Unparse.Constants

/-- The operators whose operands may be regrouped. -/
inductive Operator where
  | add | mul | bitAnd | bitOr | bitXor | and | or
deriving DecidableEq, Repr

inductive Kind where
  | int | long | bool | string
deriving DecidableEq, Repr

instance : Fintype Operator where
  elems := {.add, .mul, .bitAnd, .bitOr, .bitXor, .and, .or}
  complete op := by cases op <;> decide

instance : Fintype Kind where
  elems := {.int, .long, .bool, .string}
  complete k := by cases k <;> decide

inductive Value where
  | int (v : BitVec 32)
  | long (v : BitVec 64)
  | bool (v : Bool)
  | string (v : String)
deriving DecidableEq, Repr

def Operator.binary : Operator → BinaryOp
  | add => .add
  | mul => .mul
  | bitAnd => .bitAnd
  | bitOr => .bitOr
  | bitXor => .bitXor
  | and => .and
  | or => .or

namespace Value

def kind : Value → Kind
  | int _ => .int
  | long _ => .long
  | bool _ => .bool
  | string _ => .string

def spell : Value → String
  | int v => toString v.toInt
  | long v => toString v.toInt
  | bool v => toString v
  | string v => v

def numeric (f : ∀ {w : Nat}, BitVec w → BitVec w → BitVec w) : Value → Value → Option Value
  | int x, int y => some (int (f x y))
  | int x, long y => some (long (f (x.signExtend 64) y))
  | long x, int y => some (long (f x (y.signExtend 64)))
  | long x, long y => some (long (f x y))
  | _, _ => none

def logical (f : Bool → Bool → Bool) : Value → Value → Option Value
  | bool x, bool y => some (bool (f x y))
  | _, _ => none

def plus : Value → Value → Option Value
  | string x, y => some (string (x ++ y.spell))
  | x, string y => some (string (x.spell ++ y))
  | x, y => numeric (· + ·) x y

end Value

open Value

/-- The value of an operation, if Java has it. -/
def Operator.apply : Operator → Value → Value → Option Value
  | add, x, y => plus x y
  | mul, x, y => numeric (· * ·) x y
  | bitAnd, x, y => numeric (· &&& ·) x y <|> logical (· && ·) x y
  | bitOr, x, y => numeric (· ||| ·) x y <|> logical (· || ·) x y
  | bitXor, x, y => numeric (· ^^^ ·) x y <|> logical Bool.xor x y
  | and, x, y => logical (· && ·) x y
  | or, x, y => logical (· || ·) x y

/-! ## Types -/

namespace Kind

def numeric : Kind → Kind → Option Kind
  | int, int => some int
  | int, long | long, int | long, long => some long
  | _, _ => none

def logical : Kind → Kind → Option Kind
  | bool, bool => some bool
  | _, _ => none

end Kind

def Operator.type : Operator → Kind → Kind → Option Kind
  | add, .string, _ | add, _, .string => some .string
  | add, a, b | mul, a, b => a.numeric b
  | bitAnd, a, b | bitOr, a, b | bitXor, a, b => a.numeric b <|> a.logical b
  | and, a, b | or, a, b => a.logical b

/-- Types decide whether an operation has a value, and of which type. -/
theorem Operator.kind_apply (op : Operator) (x y : Value) :
    (op.apply x y).map Value.kind = op.type x.kind y.kind := by
  cases op <;> cases x <;> cases y <;> rfl

theorem Operator.type_eq {op : Operator} {x y v : Value} (h : op.apply x y = some v) :
    op.type x.kind y.kind = some v.kind := by
  rw [← op.kind_apply, h]
  rfl

/-! ## Regrouping -/

/-- Whether an operation on two `int`s is the same before and after it is
widened. -/
def widensAlike : Kind → Kind → Kind → Bool
  | .int, .int, .long | .long, .int, .int => false
  | _, _, _ => true

/-- Whether `a op (b op c)` may be regrouped, in view of the types of `a`, `b` and
`c`. -/
def Operator.regroups : Operator → Kind → Kind → Kind → Bool
  | add, .string, b, c => b = .string || c = .string
  | add, _, .string, _ => true
  | add, _, _, .string => false
  | add, a, b, c | mul, a, b, c => widensAlike a b c
  | _, _, _, _ => true

section Regrouping

variable {x y z r v : Value}

theorem numeric_assoc {f : ∀ {w : Nat}, BitVec w → BitVec w → BitVec w}
    (hf : ∀ {w : Nat} (a b c : BitVec w), f (f a b) c = f a (f b c))
    (h : widensAlike x.kind y.kind z.kind = true ∨
      ∀ a b : BitVec 32, (f a b).signExtend 64 = f (a.signExtend 64) (b.signExtend 64))
    (hr : numeric f y z = some r) (hv : numeric f x r = some v) :
    ∃ q, numeric f x y = some q ∧ numeric f q z = some v := by
  cases x <;> cases y <;> cases z <;> cases hr <;> cases hv <;>
    simp_all [numeric, widensAlike, Value.kind]

theorem logical_assoc {f : Bool → Bool → Bool} (hf : ∀ a b c, f (f a b) c = f a (f b c))
    (hr : logical f y z = some r) (hv : logical f x r = some v) :
    ∃ q, logical f x y = some q ∧ logical f q z = some v := by
  cases x <;> cases y <;> cases z <;> cases hr <;> cases hv
  exact ⟨_, rfl, congrArg (some ∘ bool) (hf ..)⟩

theorem plus_assoc (h : Operator.add.regroups x.kind y.kind z.kind = true)
    (hr : plus y z = some r) (hv : plus x r = some v) :
    ∃ q, plus x y = some q ∧ plus q z = some v := by
  cases x <;> cases y <;> cases z <;> cases hr <;> cases hv <;>
    simp_all [plus, numeric, Operator.regroups, widensAlike, Value.kind, Value.spell,
      BitVec.add_assoc, String.append_assoc]

theorem bitwise_assoc {f : ∀ {w : Nat}, BitVec w → BitVec w → BitVec w} {g : Bool → Bool → Bool}
    (hf : ∀ {w : Nat} (a b c : BitVec w), f (f a b) c = f a (f b c))
    (hwiden : ∀ a b : BitVec 32, (f a b).signExtend 64 = f (a.signExtend 64) (b.signExtend 64))
    (hg : ∀ a b c, g (g a b) c = g a (g b c))
    (hr : (numeric f y z <|> logical g y z) = some r)
    (hv : (numeric f x r <|> logical g x r) = some v) :
    ∃ q, (numeric f x y <|> logical g x y) = some q ∧
      (numeric f q z <|> logical g q z) = some v := by
  cases x <;> cases y <;> cases z <;> cases hr <;> cases hv <;>
    simp [numeric, logical, hf, hwiden, hg]

/-- An operation may be regrouped if the types of its operands allow it. -/
theorem Operator.apply_assoc {op : Operator} (h : op.regroups x.kind y.kind z.kind = true)
    (hr : op.apply y z = some r) (hv : op.apply x r = some v) :
    ∃ q, op.apply x y = some q ∧ op.apply q z = some v := by
  cases op with
  | add => exact plus_assoc h hr hv
  | mul => exact numeric_assoc BitVec.mul_assoc (.inl h) hr hv
  | bitAnd =>
    exact bitwise_assoc BitVec.and_assoc (fun _ _ => BitVec.signExtend_and) Bool.and_assoc hr hv
  | bitOr =>
    exact bitwise_assoc BitVec.or_assoc (fun _ _ => BitVec.signExtend_or) Bool.or_assoc hr hv
  | bitXor =>
    exact bitwise_assoc BitVec.xor_assoc (fun _ _ => BitVec.signExtend_xor) Bool.xor_assoc hr hv
  | and => exact logical_assoc Bool.and_assoc hr hv
  | or => exact logical_assoc Bool.or_assoc hr hv

end Regrouping

/-- A constant of each type. Those of numbers make a product or a sum leave the range
of `int`, but not that of `long`. -/
def Operator.sample : Operator → Kind → Value
  | mul, .int => .int 0x10000
  | mul, .long => .long 0x10000
  | _, .int => .int 0x7FFFFFFF
  | _, .long => .long 1
  | _, .bool => .bool true
  | _, .string => .string ""

theorem Operator.kind_sample : ∀ (op : Operator) (a : Kind), (op.sample a).kind = a := by decide

/-- No other operation may be regrouped. -/
theorem Operator.apply_sample_ne : ∀ (op : Operator) (a b c : Kind),
    (op.type b c >>= op.type a).isSome = true → op.regroups a b c = false →
      (op.apply (op.sample a) (op.sample b) >>= fun q => op.apply q (op.sample c)) ≠
        (op.apply (op.sample b) (op.sample c) >>= op.apply (op.sample a)) := by
  decide +kernel

end Unparse.Constants
