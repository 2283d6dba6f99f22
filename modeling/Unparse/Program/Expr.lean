import Unparse.Program.Literal
import Unparse.Program.Operator

/-! # Expressions

Expressions over variables `ν` and anonymous classes `κ`. A program refers to
its variables by keys; once these are looked up, the same type holds the
variables as they are to be written.
-/

namespace Unparse

/-- Expressions over variables `ν` and anonymous classes `κ`. -/
inductive Expr (ν κ : Type) where
  | const (value : Literal)
  | binary (op : BinaryOp) (left right : Expr ν κ)
  | unary (op : UnaryOp) (operand : Expr ν κ)
  | ternary (condition whenTrue whenFalse : Expr ν κ)
  | field (owner : Expr ν κ) (name : String)
  | staticField (qualifier name : String)
  | var (v : ν)
  /-- A method call. A checked receiver is asserted not to be null. -/
  | call (receiver : Expr ν κ) (checked : Bool) (function : String) (args : List (Expr ν κ))
  /-- A call without receiver. A static one carries its qualifier in the name. -/
  | apply (function : String) (args : List (Expr ν κ))
  | create (cls : String) (args : List (Expr ν κ))
  | createArray (element : String) (dimensions : List (Expr ν κ))
      (initializer : Option (List (Expr ν κ)))
  | length (array : Expr ν κ)
  | index (array position : Expr ν κ)
  | cast (type : String) (operand : Expr ν κ)
  | instanceOf (operand : Expr ν κ) (type : String) (inverted : Bool)
  | stepBefore (step : Step) (target : Expr ν κ)
  | stepAfter (step : Step) (target : Expr ν κ)
  | compound (op : BinaryOp) (target amount : Expr ν κ)
  | anonymous (cls : κ) (args : List (Expr ν κ))

namespace Expr

variable {ν κ : Type}

/-- Induction over an expression and the expressions in its lists. -/
theorem induct {motive : Expr ν κ → Prop}
    (const : ∀ value, motive (.const value))
    (binary : ∀ op l r, motive l → motive r → motive (.binary op l r))
    (unary : ∀ op e, motive e → motive (.unary op e))
    (ternary : ∀ e l r, motive e → motive l → motive r → motive (.ternary e l r))
    (field : ∀ owner name, motive owner → motive (.field owner name))
    (staticField : ∀ qualifier name, motive (.staticField qualifier name))
    (var : ∀ v, motive (.var v))
    (call : ∀ receiver checked function args, motive receiver → (∀ e ∈ args, motive e) →
      motive (.call receiver checked function args))
    (apply : ∀ function args, (∀ e ∈ args, motive e) → motive (.apply function args))
    (create : ∀ cls args, (∀ e ∈ args, motive e) → motive (.create cls args))
    (createArray : ∀ element dimensions initializer, (∀ e ∈ dimensions, motive e) →
      (∀ es ∈ initializer, ∀ e ∈ es, motive e) →
      motive (.createArray element dimensions initializer))
    (length : ∀ array, motive array → motive (.length array))
    (index : ∀ array position, motive array → motive position → motive (.index array position))
    (cast : ∀ type e, motive e → motive (.cast type e))
    (instanceOf : ∀ e type inverted, motive e → motive (.instanceOf e type inverted))
    (stepBefore : ∀ step target, motive target → motive (.stepBefore step target))
    (stepAfter : ∀ step target, motive target → motive (.stepAfter step target))
    (compound : ∀ op target amount, motive target → motive amount →
      motive (.compound op target amount))
    (anonymous : ∀ cls args, (∀ e ∈ args, motive e) → motive (.anonymous cls args))
    (e : Expr ν κ) : motive e := by
  refine Expr.rec (motive_1 := motive) (motive_2 := fun es => ∀ e ∈ es, motive e)
    (motive_3 := fun o => ∀ es ∈ o, ∀ e ∈ es, motive e) const binary unary ternary field
    staticField var call apply create createArray length index cast instanceOf stepBefore
    stepAfter compound anonymous ?_ ?_ ?_ ?_ e
  all_goals simp +contextual
/-- The logical negation of a condition. Comparisons and type tests are
inverted, conjunctions and disjunctions are exchanged and negated inside, and a
negation is undone. -/
def negate : Expr ν κ → Expr ν κ
  | unary .not e => e
  | const (.bool b) => const (.bool !b)
  | binary .and l r => binary .or l.negate r.negate
  | binary .or l r => binary .and l.negate r.negate
  | binary op l r =>
    match op.negated? with
    | some op' => binary op' l r
    | none => unary .not (binary op l r)
  | instanceOf e type inverted => instanceOf e type !inverted
  | e => unary .not e

/-- Constants, variables, and fields, lengths and elements of those. Writing
such an expression twice does not change what a program does. -/
def isPure : Expr ν κ → Bool
  | const _ | var _ | staticField _ _ => true
  | field owner _ => owner.isPure
  | index array position => array.isPure && position.isPure
  | length array => array.isPure
  | _ => false

/-- The operation that decides whether an expression needs brackets as an
operand. A negative constant counts as a negation. -/
def operation? : Expr ν κ → Option Operation
  | const value => if value.isNegative then some (.unary .negate) else none
  | binary op _ _ => some (.binary op)
  | unary op _ => some (.unary op)
  | ternary _ _ _ => some .ternary
  | field _ _ | staticField _ _ | call _ _ _ _ | apply _ _ => some .member
  | length _ => some .length
  | index _ _ => some .index
  | cast _ _ => some .cast
  | instanceOf _ _ _ => some .instanceOf
  | stepBefore step _ => some (.stepBefore step)
  | stepAfter step _ => some (.stepAfter step)
  | compound op _ _ => some (.compound op)
  | var _ | create _ _ | createArray _ _ _ | anonymous _ _ => none

end Expr

end Unparse
