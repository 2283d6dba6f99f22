import Mathlib.Order.Lattice
import Unparse.Program.Expr

/-! # Negated conditions

A condition is evaluated from left to right, and a conjunction or disjunction
stops as soon as it is decided. What is not logical is left to an
interpretation: any other expression may change the state and may throw.
Evaluating the negation of a condition evaluates the same operands, in the same
order and from the same states, and complements the outcome.
-/

namespace Unparse

/-- The meaning of what is not logical, over states `σ`, exceptions `ε` and
values `α`. -/
structure Interpretation (ν κ σ ε α : Type) where
  operand : Expr ν κ → σ → Except ε α × σ
  ofBool : Bool → α
  truth : α → Except ε Bool
  truth_ofBool : ∀ b, truth (ofBool b) = .ok b
  Rank : Type
  [order : LinearOrder Rank]
  rank : α → Except ε Rank
  same : α → α → Except ε Bool
  isInstance : String → α → Except ε Bool

attribute [instance] Interpretation.order

/-- How far an evaluation has got: the state, and the operands evaluated so
far, each with the state it was evaluated in. -/
structure Progress (ν κ σ : Type) where
  state : σ
  operands : List (Expr ν κ × σ)

abbrev Evaluation (ν κ σ ε : Type) := ExceptT ε (StateM (Progress ν κ σ))

namespace Interpretation

variable {ν κ σ ε α : Type} (m : Interpretation ν κ σ ε α)

def evalOperand (e : Expr ν κ) : Evaluation ν κ σ ε α :=
  ExceptT.mk fun p =>
    let (result, state) := m.operand e p.state
    (result, ⟨state, p.operands ++ [(e, p.state)]⟩)

def ranked (r : m.Rank → m.Rank → Prop) [DecidableRel r] (x y : α) : Except ε Bool := do
  let i ← m.rank x
  let j ← m.rank y
  return decide (r i j)

def compare? : BinaryOp → Option (α → α → Except ε Bool)
  | .lt => some (m.ranked (· < ·))
  | .le => some (m.ranked (· ≤ ·))
  | .gt => some (m.ranked (· > ·))
  | .ge => some (m.ranked (· ≥ ·))
  | .eq => some m.same
  | .ne => some fun x y => (!·) <$> m.same x y
  | _ => none

def truthOf (value : Evaluation ν κ σ ε α) : Evaluation ν κ σ ε Bool := do
  ofExcept (m.truth (← value))

def eval : Expr ν κ → Evaluation ν κ σ ε α
  | .const (.bool b) => pure (m.ofBool b)
  | .unary .not e => do return m.ofBool !(← m.truthOf (eval e))
  | .binary .and l r => do
    if ← m.truthOf (eval l) then return m.ofBool (← m.truthOf (eval r))
    return m.ofBool false
  | .binary .or l r => do
    if ← m.truthOf (eval l) then return m.ofBool true
    return m.ofBool (← m.truthOf (eval r))
  | .binary op l r =>
    match m.compare? op with
    | some compare => do
      let x ← eval l
      let y ← eval r
      return m.ofBool (← ofExcept (compare x y))
    | none => m.evalOperand (.binary op l r)
  | .instanceOf e type inverted => do
    let x ← eval e
    return m.ofBool ((← ofExcept (m.isInstance type x)) != inverted)
  | e => m.evalOperand e

/-- Decide a condition: its outcome, and the progress made. -/
def decides (e : Expr ν κ) (s : σ) : Except ε Bool × Progress ν κ σ :=
  (m.truthOf (m.eval e)).run.run ⟨s, []⟩

/-! ## Comparisons -/

theorem ranked_not {r q : m.Rank → m.Rank → Prop} [DecidableRel r] [DecidableRel q]
    (h : ∀ i j, ¬ r i j ↔ q i j) : m.ranked q = fun x y => (!·) <$> m.ranked r x y := by
  funext x y
  simp only [ranked, map_bind, map_pure, ← h, decide_not]

theorem compare?_negated {op op' : BinaryOp} {c : α → α → Except ε Bool}
    (hop : op.negated? = some op') (hc : m.compare? op = some c) :
    m.compare? op' = some fun x y => (!·) <$> c x y := by
  cases op <;> cases hop <;> cases hc <;> refine congrArg some ?_
  case lt => exact m.ranked_not fun _ _ => not_lt
  case le => exact m.ranked_not fun _ _ => not_le
  case gt => exact m.ranked_not fun _ _ => not_lt
  case ge => exact m.ranked_not fun _ _ => not_le
  case eq => rfl
  case ne =>
    funext x y
    simp only [Functor.map_map, Bool.not_not, id_map']

theorem compare?_of_negated {op op' : BinaryOp} (hop : op.negated? = some op') :
    ∃ c, m.compare? op = some c := by
  cases op <;> cases hop <;> exact ⟨_, rfl⟩

/-! ## Truth -/

variable {m}

attribute [local simp] eval

theorem ofExcept_map (f : Bool → Bool) (r : Except ε Bool) :
    (ofExcept (f <$> r) : Evaluation ν κ σ ε Bool) = f <$> ofExcept r := by
  cases r <;> rfl

@[simp] theorem truthOf_bind {β : Type} (x : Evaluation ν κ σ ε β)
    (f : β → Evaluation ν κ σ ε α) :
    m.truthOf (x >>= f) = x >>= fun a => m.truthOf (f a) := by
  simp only [truthOf, bind_assoc]

@[simp] theorem truthOf_pure (b : Bool) :
    m.truthOf (pure (m.ofBool b) : Evaluation ν κ σ ε α) = pure b := by
  simp only [truthOf, pure_bind, m.truth_ofBool]
  rfl

@[simp] theorem truthOf_map (x : Evaluation ν κ σ ε Bool) :
    m.truthOf (m.ofBool <$> x) = x := by
  simp only [map_eq_pure_bind, truthOf_bind, truthOf_pure, bind_pure]

theorem truthOf_not (e : Expr ν κ) :
    m.truthOf (m.eval (.unary .not e)) = (!·) <$> m.truthOf (m.eval e) := by
  simp only [eval, truthOf_bind, truthOf_pure, map_eq_pure_bind]

theorem truthOf_and (l r : Expr ν κ) :
    m.truthOf (m.eval (.binary .and l r)) = (do
      if ← m.truthOf (m.eval l) then m.truthOf (m.eval r) else return false) := by
  simp only [eval, truthOf_bind]
  congr; funext b
  cases b <;> simp

theorem truthOf_or (l r : Expr ν κ) :
    m.truthOf (m.eval (.binary .or l r)) = (do
      if ← m.truthOf (m.eval l) then return true else m.truthOf (m.eval r)) := by
  simp only [eval, truthOf_bind]
  congr; funext b
  cases b <;> simp

theorem truthOf_compare {op : BinaryOp} {c : α → α → Except ε Bool}
    (hc : m.compare? op = some c) (l r : Expr ν κ) :
    m.truthOf (m.eval (.binary op l r)) = (do
      let x ← m.eval l
      let y ← m.eval r
      ofExcept (c x y)) := by
  cases op <;> cases hc <;>
    simp only [eval, compare?, truthOf_bind, truthOf_pure, bind_pure]

theorem truthOf_instanceOf (e : Expr ν κ) (type : String) (inverted : Bool) :
    m.truthOf (m.eval (.instanceOf e type inverted)) = (do
      let x ← m.eval e
      return (← ofExcept (m.isInstance type x)) != inverted) := by
  simp only [eval, truthOf_bind, truthOf_pure]

/-! ## Negation -/

/-- A negated comparison evaluates the operands of the comparison. -/
theorem truthOf_negated {op op' : BinaryOp} (hop : op.negated? = some op') (l r : Expr ν κ) :
    m.truthOf (m.eval (.binary op' l r)) = (!·) <$> m.truthOf (m.eval (.binary op l r)) := by
  obtain ⟨c, hc⟩ := m.compare?_of_negated hop
  rw [truthOf_compare hc, truthOf_compare (m.compare?_negated hop hc)]
  simp only [map_bind, ofExcept_map]

theorem truthOf_negate (e : Expr ν κ) :
    m.truthOf (m.eval e.negate) = (!·) <$> m.truthOf (m.eval e) := by
  fun_induction Expr.negate e with
  | case1 e =>
    rw [truthOf_not]
    simp
  | case2 b => simp
  | case3 l r ihl ihr =>
    rw [truthOf_or, truthOf_and, ihl, ihr]
    simp only [map_bind, bind_map_left]
    congr; funext b
    cases b <;> simp
  | case4 l r ihl ihr =>
    rw [truthOf_or, truthOf_and, ihl, ihr]
    simp only [map_bind, bind_map_left]
    congr; funext b
    cases b <;> simp
  | case5 op l r _ _ op' hop => exact truthOf_negated hop l r
  | case6 => exact truthOf_not _
  | case7 e type inverted =>
    rw [truthOf_instanceOf, truthOf_instanceOf]
    simp
  | case8 => exact truthOf_not _

theorem run_map {β : Type} (f : Bool → β) (x : Evaluation ν κ σ ε Bool) (p : Progress ν κ σ) :
    (f <$> x).run.run p = ((x.run.run p).1.map f, (x.run.run p).2) := by
  rw [ExceptT.run_map]
  rfl

/-- The negation of a condition evaluates the operands of the condition, each
as often, in the same order and from the same state. It throws what the
condition throws, otherwise it has the opposite outcome, and it leaves the same
state. -/
theorem decides_negate (m : Interpretation ν κ σ ε α) (e : Expr ν κ) (s : σ) :
    m.decides e.negate s = ((m.decides e s).1.map (!·), (m.decides e s).2) := by
  unfold decides
  rw [truthOf_negate, run_map]

/-- An operand yields the number of operands before it, and the third throws. -/
def counting : Interpretation Unit Empty Nat Nat Nat where
  operand _ n := (if n < 2 then .ok n else .error n, n + 1)
  ofBool := Bool.toNat
  truth n := .ok (n != 0)
  truth_ofBool b := by cases b <;> rfl
  Rank := Nat
  rank := .ok
  same i j := .ok (i == j)
  isInstance _ _ := .ok true

theorem decides_negate_counting :
    let next : Expr Unit Empty := .apply "next" []
    let ascending := .binary .lt next next
    counting.decides ascending.negate 0 = (.ok false, ⟨2, [(next, 0), (next, 1)]⟩) ∧
      counting.decides (.negate (.binary .and ascending next)) 0 =
        (.error 2, ⟨3, [(next, 0), (next, 1), (next, 2)]⟩) := by
  intro next ascending
  constructor
  · exact decides_negate counting ascending 0
  · exact decides_negate counting (.binary .and ascending next) 0

end Interpretation

end Unparse
