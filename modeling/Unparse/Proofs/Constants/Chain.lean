import Unparse.Proofs.Constants.Value

/-! # Chains of constants

An expression of constants, and the same with its chains of one operator grouped
to the left, as they are read where brackets are left out. The two have the same
value if the types along every chain allow it.
-/

namespace Unparse.Constants

inductive Term where
  | value (v : Value)
  | binary (op : Operator) (left right : Term)
deriving DecidableEq, Repr

namespace Term

/-- The value of an expression, if every operation in it has one. -/
def eval : Term → Option Value
  | value v => some v
  | binary op l r => do op.apply (← l.eval) (← r.eval)

def kind? : Term → Option Kind
  | value v => some v.kind
  | binary op l r => do op.type (← l.kind?) (← r.kind?)

/-- An expression is well typed if and only if it has a value, and the value is of
its type. -/
theorem map_kind_eval (e : Term) : e.eval.map Value.kind = e.kind? := by
  induction e with
  | value v => rfl
  | binary op l r ihl ihr =>
    rw [eval, kind?, ← ihl, ← ihr]
    rcases l.eval with _ | x
    · rfl
    · rcases r.eval with _ | y
      · rfl
      · exact op.kind_apply x y

/-- An operation whose right operand is a chain of the same operator, grouped to
the left. -/
def rotate (op : Operator) (l : Term) : Term → Term
  | binary op' r₁ r₂ =>
    if op' = op then binary op (rotate op l r₁) r₂ else binary op l (binary op' r₁ r₂)
  | value v => binary op l (value v)

def regroup : Term → Term
  | value v => value v
  | binary op l r => rotate op l.regroup r.regroup

/-- Whether types decide that an operation may be regrouped. -/
def regroups (op : Operator) (a : Kind) (b c : Option Kind) : Bool :=
  match b, c with
  | some b, some c => op.regroups a b c
  | _, _ => false

/-- Whether an operand of type `a` may join the chain on its right. -/
def joins (op : Operator) (a : Kind) : Term → Bool
  | binary op' r₁ r₂ => op' ≠ op || (regroups op a r₁.kind? r₂.kind? && joins op a r₁)
  | value _ => true

/-- Whether every left operand may join the chain on its right. -/
def isRegular : Term → Bool
  | value _ => true
  | binary op l r => l.isRegular && r.isRegular && l.kind?.all fun a => r.joins op a

variable {op : Operator} {l r : Term} {x y v : Value}

attribute [local simp] eval rotate joins

theorem eval_binary (hl : l.eval = some x) (hr : r.eval = some y) :
    (binary op l r).eval = op.apply x y := by
  simp [hl, hr]

theorem exists_of_eval_binary (h : (binary op l r).eval = some v) :
    ∃ x y, l.eval = some x ∧ r.eval = some y ∧ op.apply x y = some v := by
  obtain ⟨x, hl, h⟩ := Option.bind_eq_some_iff.mp h
  obtain ⟨y, hr, h⟩ := Option.bind_eq_some_iff.mp h
  exact ⟨x, y, hl, hr, h⟩

theorem kind?_of_eval {e : Term} (h : e.eval = some v) : e.kind? = some v.kind := by
  rw [← map_kind_eval, h]
  rfl

theorem joins_binary {op' : Operator} (h : op' ≠ op) (a : Kind) :
    (binary op' l r).joins op a = true := by
  simp [h]

theorem joins_binary_self (hl : l.kind? = some x.kind) (hr : r.kind? = some y.kind) (a : Kind) :
    (binary op l r).joins op a = (op.regroups a x.kind y.kind && l.joins op a) := by
  simp [regroups, hl, hr]

theorem eval_rotate (hl : l.eval = some x) (hr : r.eval = some y)
    (hv : op.apply x y = some v) (h : r.joins op x.kind = true) :
    (rotate op l r).eval = some v := by
  fun_induction rotate op l r generalizing y v with
  | case1 r₁ r₂ ih =>
    obtain ⟨y₁, y₂, hr₁, hr₂, hy⟩ := exists_of_eval_binary hr
    rw [joins_binary_self (kind?_of_eval hr₁) (kind?_of_eval hr₂), Bool.and_eq_true] at h
    obtain ⟨q, hq, hqv⟩ := Operator.apply_assoc h.1 hy hv
    rw [eval_binary (ih hr₁ hq h.2) hr₂, hqv]
  | case2 => rw [eval_binary hl hr, hv]
  | case3 => rw [eval_binary hl hr, hv]

theorem regroups_of_regroups : ∀ (op : Operator) (b c₁ c₂ : Kind),
    op.regroups b c₁ c₂ = true → ∀ c, op.type c₁ c₂ = some c → ∀ d, op.type b c₁ = some d →
      ∀ a, op.regroups a b c = true → op.regroups a b c₁ = true ∧ op.regroups a d c₂ = true := by
  decide +kernel

theorem joins_rotate_of_ne {op' : Operator} (h : op' ≠ op) (a : Kind) :
    (rotate op' l r).joins op a = true := by
  fun_cases rotate op' l r <;> exact joins_binary h a

theorem joins_rotate {a : Kind} (hl : l.eval = some x) (hr : r.eval = some y)
    (hv : op.apply x y = some v) (h : r.joins op x.kind = true) (hla : l.joins op a = true)
    (ha : op.regroups a x.kind y.kind = true) : (rotate op l r).joins op a = true := by
  fun_induction rotate op l r generalizing y v with
  | case1 r₁ r₂ ih =>
    obtain ⟨y₁, y₂, hr₁, hr₂, hy⟩ := exists_of_eval_binary hr
    rw [joins_binary_self (kind?_of_eval hr₁) (kind?_of_eval hr₂), Bool.and_eq_true] at h
    obtain ⟨q, hq, hqv⟩ := Operator.apply_assoc h.1 hy hv
    have hkinds := regroups_of_regroups op x.kind y₁.kind y₂.kind h.1 y.kind
      (Operator.type_eq hy) q.kind (Operator.type_eq hq) a ha
    rw [joins_binary_self (kind?_of_eval (eval_rotate hl hr₁ hq h.2)) (kind?_of_eval hr₂),
      hkinds.2, ih hr₁ hq h.2 hkinds.1, Bool.and_self]
  | case2 =>
    rw [joins_binary_self (kind?_of_eval hl) (kind?_of_eval hr), ha, hla, Bool.and_self]
  | case3 =>
    rw [joins_binary_self (kind?_of_eval hl) (kind?_of_eval hr), ha, hla, Bool.and_self]

theorem eval_regroup_and_joins {e : Term} (h : e.isRegular = true) (he : e.eval = some v) :
    e.regroup.eval = some v ∧
      ∀ op a, e.joins op a = true → e.regroup.joins op a = true := by
  induction e generalizing v with
  | value => exact ⟨he, fun _ _ _ => rfl⟩
  | binary op l r ihl ihr =>
    obtain ⟨x, y, hl, hr, hv⟩ := exists_of_eval_binary he
    simp only [isRegular, Bool.and_eq_true, kind?_of_eval hl, Option.all_some] at h
    obtain ⟨hlv, hlj⟩ := ihl h.1.1 hl
    obtain ⟨hrv, hrj⟩ := ihr h.1.2 hr
    have hj := hrj op x.kind h.2
    constructor
    · exact eval_rotate hlv hrv hv hj
    intro op' a ha
    by_cases hop : op = op'
    · subst hop
      rw [joins_binary_self (kind?_of_eval hl) (kind?_of_eval hr), Bool.and_eq_true] at ha
      exact joins_rotate hlv hrv hv hj (hlj op a ha.2) ha.1
    · exact joins_rotate_of_ne hop a

/-- An expression keeps its value where its chains are grouped to the left, if every
left operand may join the chain on its right. -/
theorem eval_regroup {e : Term} (h : e.isRegular = true) (he : e.eval = some v) :
    e.regroup.eval = some v :=
  (eval_regroup_and_joins h he).1

end Term

end Unparse.Constants
