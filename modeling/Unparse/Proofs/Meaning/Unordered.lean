import Mathlib.Data.Rat.Cast.Order
import Mathlib.Order.WithBot
import Unparse.Proofs.Meaning.Negation

/-! # Negated comparisons of floating-point numbers

What is no number is unordered: it is different from everything, and otherwise no
comparison with it holds. A comparison that is turned around to be negated then fails
together with the negated one. Three-valued logic tells how far this goes: a comparison
of unordered numbers is left open, and a condition is negated rightly if it is settled
all the same.
-/

namespace Unparse

open Decimal (BinaryValue)

/-- The meaning of what is not logical: the numbers of type `R` that are compared, none
for what is no number, and the truth of everything else. -/
structure Valuation (ν κ R : Type) where
  number : Expr ν κ → Option R
  truth : Expr ν κ → Bool

namespace Valuation

variable {ν κ R : Type} [LinearOrder R]

def ordered (r : R → R → Prop) [DecidableRel r] : Option R → Option R → Bool
  | some x, some y => decide (r x y)
  | _, _ => false

def compare? : BinaryOp → Option (Option R → Option R → Bool)
  | .lt => some (ordered (· < ·))
  | .le => some (ordered (· ≤ ·))
  | .gt => some (ordered (· > ·))
  | .ge => some (ordered (· ≥ ·))
  | .eq => some (ordered (· = ·))
  | .ne => some fun x y => !ordered (· = ·) x y
  | _ => none

/-- Numbers are ordered, and equality is decided of everything. -/
def settles : BinaryOp → Option R → Option R → Bool
  | .eq, _, _ | .ne, _, _ => true
  | _, x, y => x.isSome && y.isSome

omit [LinearOrder R] in
theorem settles_iff {op op' : BinaryOp} (hop : op.negated? = some op') {x y : Option R} :
    settles op x y = true ↔ op = .eq ∨ op = .ne ∨ (x.isSome ∧ y.isSome) := by
  cases op <;> cases hop <;> simp [settles]

variable (m : Valuation ν κ R)

def holds : Expr ν κ → Bool
  | .const (.bool b) => b
  | .unary .not e => !holds e
  | .binary .and l r => holds l && holds r
  | .binary .or l r => holds l || holds r
  | .binary op l r =>
    match compare? op with
    | some compare => compare (m.number l) (m.number r)
    | none => m.truth (.binary op l r)
  | .instanceOf e type inverted => m.truth (.instanceOf e type false) != inverted
  | e => m.truth e

def both : Option Bool → Option Bool → Option Bool
  | some false, _ | _, some false => some false
  | some true, some true => some true
  | _, _ => none

def either : Option Bool → Option Bool → Option Bool
  | some true, _ | _, some true => some true
  | some false, some false => some false
  | _, _ => none

/-- Whether a condition holds, if comparisons of unordered numbers are left open. What
is below a negation is taken as it is, for the negation is only undone. -/
def verdict : Expr ν κ → Option Bool
  | .const (.bool b) => some b
  | .unary .not e => some !m.holds e
  | .binary .and l r => both (verdict l) (verdict r)
  | .binary .or l r => either (verdict l) (verdict r)
  | .binary op l r =>
    match compare? op with
    | some compare =>
      if settles op (m.number l) (m.number r) then some (compare (m.number l) (m.number r))
      else none
    | none => some (m.truth (.binary op l r))
  | .instanceOf e type inverted => some (m.truth (.instanceOf e type false) != inverted)
  | e => some (m.truth e)

/-! ## Verdicts -/

theorem both_eq_true {x y : Option Bool} :
    both x y = some true ↔ x = some true ∧ y = some true := by
  rcases x with _ | _ | _ <;> rcases y with _ | _ | _ <;> simp [both]

theorem both_eq_false {x y : Option Bool} :
    both x y = some false ↔ x = some false ∨ y = some false := by
  rcases x with _ | _ | _ <;> rcases y with _ | _ | _ <;> simp [both]

theorem either_eq_true {x y : Option Bool} :
    either x y = some true ↔ x = some true ∨ y = some true := by
  rcases x with _ | _ | _ <;> rcases y with _ | _ | _ <;> simp [either]

theorem either_eq_false {x y : Option Bool} :
    either x y = some false ↔ x = some false ∧ y = some false := by
  rcases x with _ | _ | _ <;> rcases y with _ | _ | _ <;> simp [either]

theorem both_isSome {x y : Option Bool} (hx : x.isSome) (hy : y.isSome) : (both x y).isSome := by
  rcases x with _ | _ | _ <;> rcases y with _ | _ | _ <;> trivial

theorem either_isSome {x y : Option Bool} (hx : x.isSome) (hy : y.isSome) :
    (either x y).isSome := by
  rcases x with _ | _ | _ <;> rcases y with _ | _ | _ <;> trivial

/-! ## Comparisons -/

theorem compare?_of_negated {op op' : BinaryOp} (hop : op.negated? = some op') :
    ∃ c, compare? (R := R) op = some c := by
  cases op <;> cases hop <;> exact ⟨_, rfl⟩

/-- Where a comparison is settled, the one that it is turned into has the opposite
outcome. Elsewhere neither holds. -/
theorem compare?_negated {op op' : BinaryOp} {c : Option R → Option R → Bool}
    (hop : op.negated? = some op') (hc : compare? op = some c) :
    ∃ c', compare? op' = some c' ∧
      ∀ x y, (settles op x y = true → c' x y = !c x y) ∧
        (settles op x y = false → c x y = false ∧ c' x y = false) := by
  cases op <;> cases hop <;> cases hc <;> refine ⟨_, rfl, fun x y => ?_⟩ <;>
    rcases x with _ | x <;> rcases y with _ | y <;> simp [ordered, settles, ← not_lt]

variable {m}

attribute [local simp] holds verdict

theorem holds_compare {op : BinaryOp} {c : Option R → Option R → Bool} (hc : compare? op = some c)
    (l r : Expr ν κ) : m.holds (.binary op l r) = c (m.number l) (m.number r) := by
  cases op <;> cases hc <;> simp only [holds, compare?]

theorem verdict_compare {op : BinaryOp} {c : Option R → Option R → Bool}
    (hc : compare? op = some c) (l r : Expr ν κ) :
    m.verdict (.binary op l r) =
      if settles op (m.number l) (m.number r) then some (c (m.number l) (m.number r))
      else none := by
  cases op <;> cases hc <;> simp only [verdict, compare?]

theorem compare?_of_not_negated {op : BinaryOp} (hop : op.negated? = none) :
    compare? (R := R) op = none := by
  cases op <;> first | rfl | cases hop

/-! ## Negation -/

/-- A condition and its negation hold as the verdict on the condition says. -/
theorem holds_iff_verdict (e : Expr ν κ) :
    (m.holds e = true ↔ m.verdict e = some true) ∧
      (m.holds e.negate = true ↔ m.verdict e = some false) := by
  fun_induction Expr.negate e with
  | case1 e => simp
  | case2 b => cases b <;> simp
  | case3 l r ihl ihr =>
    simp only [holds, verdict, Bool.and_eq_true, Bool.or_eq_true, both_eq_true, both_eq_false, ihl,
      ihr, and_self]
  | case4 l r ihl ihr =>
    simp only [holds, verdict, Bool.and_eq_true, Bool.or_eq_true, either_eq_true, either_eq_false,
      ihl, ihr, and_self]
  | case5 op l r _ _ op' hop =>
    obtain ⟨c, hc⟩ := compare?_of_negated (R := R) hop
    obtain ⟨c', hc', hspec⟩ := compare?_negated hop hc
    obtain ⟨hsettled, hopen⟩ := hspec (m.number l) (m.number r)
    rw [holds_compare hc, holds_compare hc', verdict_compare hc]
    cases hs : settles op (m.number l) (m.number r) with
    | true => simp [hsettled hs]
    | false => simp [hopen hs]
  | case6 op l r hand hor hop =>
    have hnone := compare?_of_not_negated (R := R) hop
    simp [hnone]
  | case7 e type inverted =>
    simp
  | case8 e => simp

theorem verdict_isSome (h : ∀ e, (m.number e).isSome) (e : Expr ν κ) : (m.verdict e).isSome := by
  have hsettles (op : BinaryOp) (l r : Expr ν κ) :
      settles op (m.number l) (m.number r) = true := by
    cases op <;> simp [settles, h l, h r]
  fun_induction verdict m e with
  | case3 l r ihl ihr => exact both_isSome ihl ihr
  | case4 l r ihl ihr => exact either_isSome ihl ihr
  | case6 op l r _ _ compare _ hopen => exact absurd (hsettles op l r) hopen
  | _ => rfl

/-- The negation of a condition has the opposite outcome exactly where the condition is
settled, so wherever no number is unordered. Elsewhere both fail. For a single comparison:
it is turned around rightly exactly on numbers that are ordered, unless it is an equality
or a difference, which always are. -/
theorem opposite_iff_settled (m : Valuation ν κ R) (e : Expr ν κ) :
    (m.holds e.negate = !m.holds e ↔ (m.verdict e).isSome) ∧
    ((∀ e, (m.number e).isSome) → (m.verdict e).isSome) ∧
    ((m.verdict e).isNone → m.holds e = false ∧ m.holds e.negate = false) ∧
    ∀ op op', op.negated? = some op' → ∃ c c' : Option R → Option R → Bool,
      compare? op = some c ∧ compare? op' = some c' ∧
        ∀ x y, c' x y = !c x y ↔ op = .eq ∨ op = .ne ∨ (x.isSome ∧ y.isSome) := by
  obtain ⟨hholds, hnegate⟩ := holds_iff_verdict (m := m) e
  refine ⟨?_, fun h => verdict_isSome h e, fun h => ?_, fun op op' hop => ?_⟩
  · rw [Bool.eq_iff_iff, hnegate, Bool.not_eq_true', ← Bool.not_eq_true, hholds]
    rcases m.verdict e with _ | _ | _ <;> simp
  · rw [Option.isNone_iff_eq_none.mp h] at hholds hnegate
    exact ⟨by simpa using hholds, by simpa using hnegate⟩
  · obtain ⟨c, hc⟩ := compare?_of_negated (R := R) hop
    obtain ⟨c', hc', hspec⟩ := compare?_negated hop hc
    refine ⟨c, c', hc, hc', fun x y => ?_⟩
    rw [← settles_iff hop]
    obtain ⟨hsettled, hopen⟩ := hspec x y
    cases hs : settles op x y with
    | true => simp [hsettled hs]
    | false => simp [hopen hs]

/-! ## Constants -/

/-- The number a floating-point value stands for, with the infinities at both ends. -/
def numberOf? : BinaryValue → Option (WithBot (WithTop ℚ))
  | .nan => none
  | .infinite negative => some (if negative then ⊥ else (⊤ : WithTop ℚ))
  | .finite negative mantissa exponent =>
    some ((((if negative then -1 else 1) * mantissa * 2 ^ exponent : ℚ) : WithTop ℚ))

def constants : Valuation Empty Empty (WithBot (WithTop ℚ)) where
  number
    | .const value => value.floating?.bind numberOf?
    | _ => none
  truth _ := false

def unordered : Expr Empty Empty :=
  .binary .lt (.const (.double 0x3FF0000000000000)) (.const (.double 0x7FF8000000000000))

theorem opposite_iff_settled_conjunction :
    let e := Expr.binary .and unordered (.const (.bool false))
    (constants.verdict e).isSome ∧ constants.holds e.negate = !constants.holds e :=
  ⟨by decide, (opposite_iff_settled constants _).1.mpr (by decide)⟩

/-- One is not less than what is no number. The negation says that it is at least that,
and fails as well. -/
theorem unordered_not_opposite :
    constants.holds unordered.negate ≠ !constants.holds unordered := by
  decide

end Valuation

end Unparse
