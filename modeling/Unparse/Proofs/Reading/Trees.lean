import Unparse.Proofs.Reading.Readable
import Unparse.Proofs.Reading.Runs

/-! # Trees of expressions

An expression is read as a tree of what a language has spellings for. A right
operand that repeats an associative operator stands without brackets, so it is
joined from its own left end on.
-/

namespace Unparse.Reading

/-- The tree of an operand, an operator and a right operand without brackets.
The operators of one level group to the left. -/
def join (t : Target) (op : BinaryOp) (l : Tree) : Tree → Tree
  | .binary op' r₁ r₂ =>
    if t.priority (.binary op') = t.priority (.binary op) then .binary op' (join t op l r₁) r₂
    else .binary op l (.binary op' r₁ r₂)
  | r => .binary op l r

section Trees

variable {ν κ : Type} (group : BinaryOp → Option Operation → Tree → Tree → Tree) (t : Target)
  (name : ν → String)

mutual

/-- The tree of an expression as a language spells it. A negative constant is a
negation, a length is a field, and what a language has no operator for is
written as a call or in other operators. Binary operations are put together by
`group`, in view of the operation of the right operand. -/
def treeBy : Expr ν κ → Tree
  | .const value => (Atom.ofLiteral t value).tree
  | .binary op l r => group op r.operation? (treeBy l) (treeBy r)
  | .unary op e =>
    if t.followsOperand (.unary op) then .call (treeBy e) false "inv" []
    else .unary op (treeBy e)
  | .ternary e l r => .ternary (treeBy e) (treeBy l) (treeBy r)
  | .field owner n => .field (treeBy owner) n
  | .staticField qualifier n =>
    if qualifier = "" then Tree.name n else .field (Tree.name qualifier) n
  | .var v => Tree.name (name v)
  | .call receiver checked function args =>
    .call (treeBy receiver) (checked && t = .kotlin) function (treesBy args)
  | .apply function args => .apply function (treesBy args)
  | .create cls args =>
    match t with
    | .java => .create cls (treesBy args)
    | .kotlin => .apply cls (treesBy args)
  | .createArray element dimensions none => .createArray element (treesBy dimensions) none
  | .createArray element _ (some elements) => .createArray element [] (some (treesBy elements))
  | .length array => .field (treeBy array) (match t with | .java => "length" | .kotlin => "size")
  | .index array position => .index (treeBy array) (treeBy position)
  | .cast type e => .cast (castType t type) (treeBy e)
  | .instanceOf e type inverted =>
    if inverted && t = .java then .unary .not (.instanceOf (treeBy e) type false)
    else .instanceOf (treeBy e) type inverted
  | .stepBefore step target => .stepBefore step (treeBy target)
  | .stepAfter step target => .stepAfter step (treeBy target)
  | .compound op target amount => .compound op (treeBy target) (treeBy amount)
  | .anonymous _ args => .create "" (treesBy args)

def treesBy : List (Expr ν κ) → List Tree
  | [] => []
  | e :: es => treeBy e :: treesBy es

end

attribute [local simp] treeBy treesBy

theorem treesBy_eq_map (es : List (Expr ν κ)) :
    treesBy group t name es = es.map (treeBy group t name) := by
  induction es with
  | nil => simp
  | cons e es ih => simp [ih]

end Trees

/-- A right operand that stands without brackets joins what is in front of it. -/
def joined (t : Target) (op : BinaryOp) (own : Option Operation) (l r : Tree) : Tree :=
  if regroups t op own then join t op l r else .binary op l r

abbrev tree {ν κ : Type} (t : Target) (name : ν → String) : Expr ν κ → Tree :=
  treeBy (joined t) t name

abbrev codeTree (t : Target) (e : ExprCode) : Tree := tree t Occurrence.name e

variable {t : Target}

theorem isPlainName_join (op : BinaryOp) (l r : Tree) : isPlainName (join t op l r) = false := by
  unfold join
  split
  · split <;> rfl
  · rfl

theorem isPlainName_atom {a : Atom} (h : a.isNegative = true) : isPlainName a.tree = false := by
  cases a with
  | number negative digits =>
    obtain rfl : negative = true := h
    rfl
  | _ => cases h

def isBinary {ν κ : Type} : Expr ν κ → Bool
  | .binary _ _ _ => true
  | _ => false

theorem join_of_not_binary {op : BinaryOp} {x y : Tree} (h : isBinary y = false) :
    join t op x y = .binary op x y := by
  unfold join
  split
  · cases h
  · rfl

theorem isBinary_atom (a : Atom) : isBinary a.tree = false := by
  rcases a with _ | ⟨negative, _⟩ | _ | _
  · rfl
  · cases negative <;> rfl
  · rfl
  · rfl

theorem isBinary_treeBy {ν κ : Type} {group : BinaryOp → Option Operation → Tree → Tree → Tree}
    {name : ν → String} {e : Expr ν κ} (h : isBinary e = false) :
    isBinary (treeBy group t name e) = false := by
  cases e with
  | binary op l r => cases h
  | const value => exact isBinary_atom _
  | unary op e => rw [treeBy]; split <;> rfl
  | staticField qualifier n => rw [treeBy]; split <;> rfl
  | instanceOf e type inverted => rw [treeBy]; split <;> rfl
  | create cls args => cases t <;> rfl
  | createArray element dimensions initializer => cases initializer <;> rfl
  | _ => rfl

theorem codeTree_binary (t : Target) (op : BinaryOp) (l r : ExprCode) :
    ∃ q x y, codeTree t (.binary op l r) = .binary q x y ∧
      t.priority (.binary q) = t.priority (.binary op) := by
  have hjoin (x y : Tree) : ∃ q x' y', join t op x y = .binary q x' y' ∧
      t.priority (.binary q) = t.priority (.binary op) := by
    unfold join
    split
    · split
      · next h => exact ⟨_, _, _, rfl, h⟩
      · exact ⟨_, _, _, rfl, rfl⟩
    · exact ⟨_, _, _, rfl, rfl⟩
  rw [codeTree, tree, treeBy, joined]
  split
  · exact hjoin _ _
  · exact ⟨_, _, _, rfl, rfl⟩

/-- Joins of one level may be made in either order. -/
theorem join_join {op op' : BinaryOp} (h : t.priority (.binary op') = t.priority (.binary op))
    (x y z : Tree) : join t op x (join t op' y z) = join t op' (join t op x y) z := by
  fun_induction join t op' y z with
  | case1 q r₁ r₂ hq ih => rw [join, if_pos (hq.trans h), ih, join, if_pos hq]
  | case2 q r₁ r₂ hq => rw [join, if_pos h, join, if_neg hq]
  | case3 z hz =>
    have hbinary : isBinary z = false := by
      cases z <;> first | rfl | exact (hz _ _ _ rfl).elim
    rw [join, if_pos h, join_of_not_binary hbinary]

end Unparse.Reading
