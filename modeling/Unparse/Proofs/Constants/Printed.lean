import Unparse.Proofs.Constants.Spelled
import Unparse.Proofs.Reading.Laid
import Unparse.Proofs.Reading.Printed

/-! # Printed operations of constants

The text of an operation of constants, on a page of any width, has the value of
the operation with its chains grouped to the left. That is its own value if the
types along the chains allow it. Where the types of three operands do not, some
constants of these types show the difference.
-/

namespace Unparse.Constants

open Reading (Tree)

namespace Term

def toExpr {ν κ : Type} : Term → Expr ν κ
  | value v => .const v.literal
  | binary op l r => .binary op.binary l.toExpr r.toExpr

variable {ν κ : Type} {op : Operator} {l r : Term}

theorem literal_ne_name (v : Value) (s : String) : v.literal ≠ .name s := by
  cases v <;> nofun

theorem binary_injective {op op' : Operator} (h : op.binary = op'.binary) : op = op' := by
  cases op <;> cases op' <;> first | rfl | cases h

theorem isAssociative_binary (t : Target) (op : Operator) :
    t.isAssociative (.binary op.binary) = true := by
  cases t <;> cases op <;> rfl

theorem eq_of_priority_eq {op op' : Operator}
    (h : Target.java.priority (.binary op.binary) = Target.java.priority (.binary op'.binary)) :
    op = op' := by
  cases op <;> cases op' <;> first | rfl | cases h

theorem resolve_toExpr (c : Context κ) (e : Term) :
    (e.toExpr : Expr VariableId κ).resolve c = pure e.toExpr := by
  induction e with
  | value v => rfl
  | binary op l r ihl ihr => simp [toExpr, Expr.resolve, ihl, ihr]

theorem run_toExpr (c : Context κ) (sc : Scope) (e : Term) :
    ((e.toExpr : Expr VariableId κ).resolve c).run.run sc = (.ok e.toExpr, sc) := by
  rw [resolve_toExpr]
  rfl

theorem eq_of_run_toExpr {c : Context κ} {sc sc' : Scope} {e : Term} {code : ExprCode}
    (h : ((e.toExpr : Expr VariableId κ).resolve c).run.run sc = (.ok code, sc')) :
    code = e.toExpr := by
  rw [run_toExpr] at h
  cases h
  rfl

theorem isReadable_toExpr (t : Target) (bare : ν → Bool) (this : Expr ν κ → Bool) (e : Term) :
    Reading.isReadable t bare this e.toExpr = true := by
  induction e with
  | value v => cases v <;> rfl
  | binary op l r ihl ihr => simp [toExpr, Reading.isReadable, ihl, ihr]

theorem standsLaid_toExpr (s : Style) (e : Term) : Reading.StandsLaid s e.toExpr := by
  induction e with
  | value v => exact .const fun w h => absurd h (literal_ne_name v w)
  | binary op l r ihl ihr => exact .binary op.binary ihl ihr

theorem repeats_toExpr (op : Operator) (e : Term) :
    Reading.repeats .java op.binary (e.toExpr : Expr ν κ) = true := by
  induction e with
  | value v => rfl
  | binary op' l r ihl _ =>
    rw [toExpr, Reading.repeats]
    split
    · next hlevel => simp [eq_of_priority_eq hlevel, ihl]
    · rfl

theorem isUnmixed_toExpr (e : Term) : Reading.isUnmixed .java (e.toExpr : Expr ν κ) = true := by
  induction e with
  | value v => rfl
  | binary op l r ihl ihr => simp [toExpr, Reading.isUnmixed, repeats_toExpr, ihl, ihr]

/-! ## Chains -/

theorem rotate_eq_binary (op : Operator) (l r : Term) : ∃ x y, rotate op l r = binary op x y := by
  fun_cases rotate op l r <;> exact ⟨_, _, rfl⟩

theorem toExpr_rotate (op : Operator) (l r : Term) :
    (rotate op l r).toExpr = Reading.rotate op.binary (l.toExpr : Expr ν κ) r.toExpr := by
  fun_induction rotate op l r with
  | case1 r₁ r₂ ih => rw [toExpr, toExpr, Reading.rotate, if_pos rfl, ih]
  | case2 op' r₁ r₂ hne =>
    rw [toExpr, toExpr, Reading.rotate, if_neg fun h => hne (binary_injective h)]
  | case3 v => rfl

theorem rotate_of_not_regroups {t : Target}
    (h : Reading.regroups t op.binary (r.toExpr : Expr ν κ).operation? = false) (l : Term) :
    rotate op l r.regroup = binary op l r.regroup := by
  cases r with
  | value v => rfl
  | binary op' r₁ r₂ =>
    have hne : op' ≠ op := by
      rintro rfl
      simp [toExpr, Expr.operation?, Reading.regroups, isAssociative_binary] at h
    obtain ⟨x, y, hxy⟩ := rotate_eq_binary op' r₁.regroup r₂.regroup
    rw [regroup, hxy, rotate, if_neg hne]

theorem toExpr_regroup (t : Target) (e : Term) :
    Reading.regroup t (e.toExpr : Expr ν κ) = e.regroup.toExpr := by
  induction e with
  | value v => rfl
  | binary op l r ihl ihr =>
    rw [toExpr, Reading.regroup, ihl, ihr, regroup]
    split
    · rw [toExpr_rotate]
    · next h =>
      rw [rotate_of_not_regroups (by simpa using h)]
      rfl

/-! ## Values -/

theorem value?_spelled (name : ν → String) (e : Term) :
    value? (Reading.spelled .java name (e.toExpr : Expr ν κ)) = e.eval := by
  induction e with
  | value v => exact value?_literal v
  | binary op l r ihl ihr =>
    simp only [Reading.spelled, toExpr, Reading.treeBy] at ihl ihr ⊢
    rw [value?, ihl, ihr, Operator.ofBinary?_binary]
    rfl

/-- The value that the text of code has on a page of some width. -/
def valueOn (s : Style) (width : Nat) (code : ExprCode) : Option Value :=
  Reading.read .java ((code.doc s).render width) >>= value?

theorem valueOn_toExpr {s : Style} (hs : s.target = .java) (width : Nat) (e : Term) :
    valueOn s width e.toExpr = e.regroup.eval := by
  have hread := Reading.read_render_of_standsLaid (standsLaid_toExpr s e)
    (isReadable_toExpr s.target _ _ e) width
  rw [hs] at hread
  have htree : Reading.codeTree .java e.toExpr =
      Reading.spelled .java Occurrence.name (e.regroup.toExpr : ExprCode) := by
    rw [Reading.codeTree, Reading.tree_eq_spelled (isUnmixed_toExpr e), toExpr_regroup]
  rw [valueOn, hread, htree]
  exact value?_spelled _ e.regroup

def nested (op : Operator) (x y z : Value) : Term :=
  binary op (value x) (binary op (value y) (value z))

theorem eval_nested (op : Operator) (x y z : Value) :
    (nested op x y z).eval = (op.apply y z >>= op.apply x) := rfl

theorem eval_regroup_nested (op : Operator) (x y z : Value) :
    (nested op x y z).regroup.eval = (op.apply x y >>= fun q => op.apply q z) := by
  have hregroup : (nested op x y z).regroup = binary op (binary op (value x) (value y)) (value z) := by
    simp [nested, regroup, rotate]
  rw [hregroup]
  exact Option.bind_congr fun _ _ => rfl

theorem kind?_nested (op : Operator) (x y z : Value) :
    (nested op x y z).kind? = (op.type y.kind z.kind >>= op.type x.kind) := rfl

theorem isRegular_nested {op : Operator} {x y z : Value}
    (h : op.regroups x.kind y.kind z.kind = true) : (nested op x y z).isRegular = true := by
  simp [nested, isRegular, joins, regroups, kind?, h]

/-- A well typed term whose left operands may join the chains on their right has its
value in its text. -/
theorem valueOn_of_isRegular {e : Term} {k : Kind} (hk : e.kind? = some k)
    (h : e.isRegular = true) :
    ∃ v, e.eval = some v ∧ v.kind = k ∧
      ∀ s : Style, s.target = .java → ∀ width, valueOn s width e.toExpr = some v := by
  rw [← map_kind_eval] at hk
  obtain ⟨v, he, hv⟩ := Option.map_eq_some_iff.mp hk
  refine ⟨v, he, hv, fun s hs width => ?_⟩
  rw [valueOn_toExpr hs, eval_regroup h he]

/-- The types of three operands decide whether a text has the value of the operation. -/
theorem regroups_iff_valueOn {op : Operator} {a b c : Kind}
    (hk : (op.type b c >>= op.type a).isSome = true) :
    op.regroups a b c = true ↔
      ∀ x y z : Value, x.kind = a → y.kind = b → z.kind = c →
        ∀ s : Style, s.target = .java → ∀ width,
          valueOn s width (nested op x y z).toExpr = (nested op x y z).eval := by
  constructor
  · rintro h x y z rfl rfl rfl s hs width
    obtain ⟨k, hk⟩ := Option.isSome_iff_exists.mp hk
    rw [← kind?_nested] at hk
    obtain ⟨v, he, -, hv⟩ := valueOn_of_isRegular hk (isRegular_nested h)
    rw [hv s hs, he]
  · intro h
    by_contra hne
    have hsample := h (op.sample a) (op.sample b) (op.sample c) (op.kind_sample a)
      (op.kind_sample b) (op.kind_sample c) ⟨.java, 4⟩ rfl 0
    rw [valueOn_toExpr rfl, eval_regroup_nested, eval_nested] at hsample
    exact op.apply_sample_ne a b c hk (by simpa using hne) hsample

end Term

open Term

/-! ## Values of printed texts -/

/-- A term is printed, and on a page of any width its text has the value of the term
with its chains grouped to the left. That is the value of the term itself if it is
well typed and every left operand may join the chain on its right. The types of
three operands that do not allow it have constants whose text has another value. -/
theorem printed_value {κ : Type} (c : Context κ) (sc : Scope) :
    (∀ e : Term, ∃ code, (e.toExpr.resolve c).run.run sc = (.ok code, sc) ∧
      ∀ s : Style, s.target = .java → ∀ width, valueOn s width code = e.regroup.eval) ∧
    (∀ (e : Term) (k : Kind), e.kind? = some k → e.isRegular = true →
      ∃ v code, e.eval = some v ∧ v.kind = k ∧
        (e.toExpr.resolve c).run.run sc = (.ok code, sc) ∧
          ∀ s : Style, s.target = .java → ∀ width, valueOn s width code = some v) ∧
    ∀ (op : Operator) (a b d : Kind), (op.type b d >>= op.type a).isSome = true →
      (op.regroups a b d = true ↔
        ∀ x y z : Value, x.kind = a → y.kind = b → z.kind = d →
          ∃ code, ((nested op x y z).toExpr.resolve c).run.run sc = (.ok code, sc) ∧
            ∀ s : Style, s.target = .java → ∀ width,
              valueOn s width code = (nested op x y z).eval) := by
  refine ⟨?_, ?_, ?_⟩
  · intro e
    exact ⟨e.toExpr, run_toExpr c sc e, fun s hs width => valueOn_toExpr hs width e⟩
  · intro e k hk h
    obtain ⟨v, he, hv, hvalue⟩ := valueOn_of_isRegular hk h
    exact ⟨v, e.toExpr, he, hv, run_toExpr c sc e, hvalue⟩
  · intro op a b d hk
    rw [regroups_iff_valueOn hk]
    constructor
    · intro h x y z hx hy hz
      exact ⟨_, run_toExpr c sc _, h x y z hx hy hz⟩
    · intro h x y z hx hy hz
      obtain ⟨code, hrun, hvalue⟩ := h x y z hx hy hz
      rwa [eq_of_run_toExpr hrun] at hvalue

def total : Term :=
  binary .add (value (.string "n = "))
    (binary .add (nested .mul (.int 3) (.int (-4)) (.int 5)) (value (.string "!")))

theorem printed_value_total :
    (∃ v code, total.eval = some v ∧ v.kind = .string ∧
      (total.toExpr.resolve Reading.bare).run.run {} = (.ok code, {}) ∧
        ∀ s : Style, s.target = .java → ∀ width, valueOn s width code = some v) ∧
    ¬ ∀ x y z : Value, x.kind = .long → y.kind = .int → z.kind = .int →
      ∃ code, ((nested .mul x y z).toExpr.resolve Reading.bare).run.run {} = (.ok code, {}) ∧
        ∀ s : Style, s.target = .java → ∀ width,
          valueOn s width code = (nested .mul x y z).eval := by
  constructor
  · exact (printed_value Reading.bare {}).2.1 total .string (by decide) (by decide)
  · exact ((printed_value Reading.bare {}).2.2 .mul .long .int .int (by decide)).not.mp (by decide)

/-- The text of `1 + (2 + "a")` is that of `1 + 2 + "a"`. -/
theorem exists_printed_value_ne :
    ¬ ∀ (c : Context Empty) (sc : Scope) (e : Term) (k : Kind), e.kind? = some k →
      ∃ v code, e.eval = some v ∧ (e.toExpr.resolve c).run.run sc = (.ok code, sc) ∧
        ∀ s : Style, s.target = .java → ∀ width, valueOn s width code = some v := by
  intro h
  obtain ⟨v, code, he, hrun, hvalue⟩ :=
    h Reading.bare {} (nested .add (.int 1) (.int 2) (.string "a")) .string (by decide)
  have hother := hvalue ⟨.java, 4⟩ rfl 0
  rw [eq_of_run_toExpr hrun, valueOn_toExpr rfl, eval_regroup_nested, ← he, eval_nested] at hother
  have hne : (Operator.add.apply (.int 1) (.int 2) >>= fun q => Operator.add.apply q (.string "a")) ≠
      (Operator.add.apply (.int 2) (.string "a") >>= Operator.add.apply (.int 1)) := by
    decide +kernel
  exact hne hother

end Unparse.Constants
