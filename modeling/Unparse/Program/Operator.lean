/-! # Operators

The operators of the program model and their C-family spelling. `Operation`
covers every kind of expression that takes part in precedence decisions.
-/

namespace Unparse

inductive BinaryOp where
  | add | sub | mul | div | rem
  | shl | shr | ushr
  | lt | le | gt | ge | eq | ne
  | bitAnd | bitOr | bitXor
  | and | or
deriving DecidableEq, Repr

namespace BinaryOp

/-- The comparison that holds when this one does not. -/
def negated? : BinaryOp → Option BinaryOp
  | lt => some ge
  | le => some gt
  | gt => some le
  | ge => some lt
  | eq => some ne
  | ne => some eq
  | _ => none

def isComparison (op : BinaryOp) : Bool := op.negated?.isSome

def symbol : BinaryOp → String
  | add => "+"
  | sub => "-"
  | mul => "*"
  | div => "/"
  | rem => "%"
  | shl => "<<"
  | shr => ">>"
  | ushr => ">>>"
  | lt => "<"
  | le => "<="
  | gt => ">"
  | ge => ">="
  | eq => "=="
  | ne => "!="
  | bitAnd => "&"
  | bitOr => "|"
  | bitXor => "^"
  | and => "&&"
  | or => "||"

/-- Operators whose operands may be regrouped. -/
def isAssociative : BinaryOp → Bool
  | add | mul | bitAnd | bitOr | bitXor | and | or => true
  | _ => false

theorem negated?_negated? {op op' : BinaryOp} (h : op.negated? = some op') :
    op'.negated? = some op := by
  cases op <;> cases h <;> rfl

end BinaryOp

inductive UnaryOp where
  | not | negate | bitNot
deriving DecidableEq, Repr

def UnaryOp.symbol : UnaryOp → String
  | not => "!"
  | negate => "-"
  | bitNot => "~"

inductive Step where
  | increment | decrement
deriving DecidableEq, Repr

def Step.symbol : Step → String
  | increment => "++"
  | decrement => "--"

inductive Operation where
  | binary (op : BinaryOp)
  | unary (op : UnaryOp)
  | cast
  | instanceOf
  | ternary
  | stepBefore (step : Step)
  | stepAfter (step : Step)
  | compound (op : BinaryOp)
  | length
  | index
  | member
  | assign
deriving DecidableEq, Repr

/-- Whether an operation of priority `child` needs brackets as an operand of
one of priority `parent`. Lower numbers bind tighter, and equal ones group by
themselves only in an associative position. -/
def needsBrackets (child parent : Nat) (associative : Bool) : Bool :=
  child > parent || (child == parent && !associative)

end Unparse
