import Unparse.Proofs.Reading.Grouping

/-! # Chains of one operator

An associative operator stands without brackets as the right operand of another
one like it. The text of such a chain is read from the left, so reading groups
the chain to the left and leaves every other group as it was.
-/

namespace Unparse.Reading

section Regrouping

variable {ν κ : Type} (t : Target)

/-- An operation whose right operand is a chain of the same operator, grouped to
the left. -/
def rotate (op : BinaryOp) (l : Expr ν κ) : Expr ν κ → Expr ν κ
  | .binary op' r₁ r₂ =>
    if op' = op then .binary op (rotate op l r₁) r₂ else .binary op l (.binary op' r₁ r₂)
  | r => .binary op l r

mutual

/-- An expression with its chains of one associative operator grouped to the
left. -/
def regroup : Expr ν κ → Expr ν κ
  | .const value => .const value
  | .binary op l r =>
    if regroups t op r.operation? then rotate op (regroup l) (regroup r)
    else .binary op (regroup l) (regroup r)
  | .unary op e => .unary op (regroup e)
  | .ternary e l r => .ternary (regroup e) (regroup l) (regroup r)
  | .field owner name => .field (regroup owner) name
  | .staticField qualifier name => .staticField qualifier name
  | .var v => .var v
  | .call receiver checked function args =>
    .call (regroup receiver) checked function (regroupAll args)
  | .apply function args => .apply function (regroupAll args)
  | .create cls args => .create cls (regroupAll args)
  | .createArray element dimensions none => .createArray element (regroupAll dimensions) none
  | .createArray element dimensions (some elements) =>
    .createArray element (regroupAll dimensions) (some (regroupAll elements))
  | .length array => .length (regroup array)
  | .index array position => .index (regroup array) (regroup position)
  | .cast type e => .cast type (regroup e)
  | .instanceOf e type inverted => .instanceOf (regroup e) type inverted
  | .stepBefore step target => .stepBefore step (regroup target)
  | .stepAfter step target => .stepAfter step (regroup target)
  | .compound op target amount => .compound op (regroup target) (regroup amount)
  | .anonymous cls args => .anonymous cls (regroupAll args)

def regroupAll : List (Expr ν κ) → List (Expr ν κ)
  | [] => []
  | e :: es => regroup e :: regroupAll es

end

/-- Whether the operators of one level at the left end of an operand all repeat
`op`. -/
def repeats (op : BinaryOp) : Expr ν κ → Bool
  | .binary op' l _ =>
    if t.priority (.binary op') = t.priority (.binary op) then op' = op && repeats op l else true
  | _ => true

mutual

/-- Whether a right operand that stands without brackets is a chain of a single
operator. -/
def isUnmixed : Expr ν κ → Bool
  | .binary op l r =>
    (!regroups t op r.operation? || repeats t op r) && isUnmixed l && isUnmixed r
  | .ternary e l r => isUnmixed e && isUnmixed l && isUnmixed r
  | .call receiver _ _ args => isUnmixed receiver && areUnmixed args
  | .apply _ args | .create _ args | .anonymous _ args => areUnmixed args
  | .createArray _ dimensions none => areUnmixed dimensions
  | .createArray _ dimensions (some elements) => areUnmixed dimensions && areUnmixed elements
  | .index l r | .compound _ l r => isUnmixed l && isUnmixed r
  | .unary _ e | .field e _ | .length e | .cast _ e | .instanceOf e _ _ | .stepBefore _ e
  | .stepAfter _ e => isUnmixed e
  | .const _ | .staticField _ _ | .var _ => true

def areUnmixed : List (Expr ν κ) → Bool
  | [] => true
  | e :: es => isUnmixed e && areUnmixed es

end

/-- The tree of an expression as a language spells it, with every operation
grouped as in the expression. -/
abbrev spelled (name : ν → String) : Expr ν κ → Tree := treeBy (fun op _ => .binary op) t name

@[simp] theorem areUnmixed_iff {es : List (Expr ν κ)} :
    areUnmixed t es = true ↔ ∀ e ∈ es, isUnmixed t e = true := by
  induction es with
  | nil => simp [areUnmixed]
  | cons e es ih => simp [areUnmixed, ih]

theorem regroupAll_eq_map (es : List (Expr ν κ)) : regroupAll t es = es.map (regroup t) := by
  induction es with
  | nil => simp [regroupAll]
  | cons e es ih => simp [regroupAll, ih]

variable {t} {op op' : BinaryOp} {l r : Expr ν κ}

theorem repeats_binary_self : repeats t op (.binary op l r) = repeats t op l := by simp [repeats]

theorem repeats_binary_of_ne (h : t.priority (.binary op') ≠ t.priority (.binary op)) :
    repeats t op (.binary op' l r) = true := by simp [repeats, h]

theorem rotate_eq_binary (op : BinaryOp) (l r : Expr ν κ) :
    ∃ x y, rotate op l r = .binary op x y := by
  unfold rotate
  split
  · split <;> exact ⟨_, _, rfl⟩
  · exact ⟨_, _, rfl⟩

theorem repeats_rotate (h : repeats t op l = true) : repeats t op (rotate op l r) = true := by
  fun_induction rotate op l r with
  | case1 r₁ r₂ ih => rwa [repeats_binary_self]
  | case2 => rwa [repeats_binary_self]
  | case3 => rwa [repeats_binary_self]

theorem repeats_regroup {e : Expr ν κ} (h : repeats t op e = true) :
    repeats t op (regroup t e) = true := by
  induction e using Expr.induct with
  | binary op' l r ihl _ =>
    by_cases heq : op' = op
    · subst heq
      rw [repeats_binary_self] at h
      rw [regroup]
      split
      · exact repeats_rotate (ihl h)
      · rw [repeats_binary_self]
        exact ihl h
    · have hne : t.priority (.binary op') ≠ t.priority (.binary op) := by
        intro hp
        simp [repeats, hp, heq] at h
      rw [regroup]
      split
      · obtain ⟨x, y, hxy⟩ := rotate_eq_binary op' (regroup t l) (regroup t r)
        rw [hxy, repeats_binary_of_ne hne]
      · exact repeats_binary_of_ne hne
  | createArray element dimensions initializer => cases initializer <;> rfl
  | _ => rfl

/-- A chain of one operator is joined as it is grouped to the left. -/
theorem join_spelled {name : ν → String} (h : repeats t op r = true) :
    join t op (spelled t name l) (spelled t name r) = spelled t name (rotate op l r) := by
  fun_induction rotate op l r with
  | case1 r₁ r₂ ih =>
    rw [repeats_binary_self] at h
    simp only [spelled, treeBy] at ih ⊢
    rw [join, if_pos rfl, ih h]
  | case2 op' r₁ r₂ hne =>
    have hlevel : t.priority (.binary op') ≠ t.priority (.binary op) := by
      intro hp
      simp [repeats, hp, hne] at h
    simp only [spelled, treeBy]
    rw [join, if_neg hlevel]
  | case3 r hr =>
    have hbinary : isBinary r = false := by
      cases r <;> first | rfl | exact (hr _ _ _ rfl).elim
    exact join_of_not_binary (isBinary_treeBy hbinary)

/-- Where no other operator of the same level comes in between, the expression
that is read differs in the grouping of such chains only. -/
theorem tree_eq_spelled {name : ν → String} {e : Expr ν κ} (h : isUnmixed t e = true) :
    tree t name e = spelled t name (regroup t e) := by
  have hall {es : List (Expr ν κ)} (hes : areUnmixed t es = true)
      (ih : ∀ e ∈ es, isUnmixed t e = true → tree t name e = spelled t name (regroup t e)) :
      treesBy (joined t) t name es =
        treesBy (fun op _ => .binary op) t name (regroupAll t es) := by
    simp only [treesBy_eq_map, regroupAll_eq_map, List.map_map]
    exact List.map_congr_left fun e he => ih e he ((areUnmixed_iff t).mp hes e he)
  simp only [tree, spelled] at hall ⊢
  induction e using Expr.induct with
  | const value => rfl
  | binary op l r ihl ihr =>
    simp only [isUnmixed, Bool.and_eq_true, Bool.or_eq_true, Bool.not_eq_true'] at h
    obtain ⟨⟨hop, hl⟩, hr⟩ := h
    rw [treeBy, regroup, ihl hl, ihr hr, joined]
    split
    · next hg =>
      exact join_spelled (repeats_regroup (hop.resolve_left (by simp [hg])))
    · rfl
  | unary op e ih => simp only [regroup, treeBy, ih h]
  | ternary e l r ihe ihl ihr =>
    simp only [isUnmixed, Bool.and_eq_true] at h
    simp only [regroup, treeBy, ihe h.1.1, ihl h.1.2, ihr h.2]
  | field owner n ih => simp only [regroup, treeBy, ih h]
  | staticField qualifier n => rfl
  | var v => rfl
  | call receiver checked function args ih iha =>
    simp only [isUnmixed, Bool.and_eq_true] at h
    simp only [regroup, treeBy, ih h.1, hall h.2 iha]
  | apply function args iha => simp only [regroup, treeBy, hall h iha]
  | create cls args iha => simp only [regroup, treeBy, hall h iha]
  | createArray element dimensions initializer ihd ihi =>
    cases initializer with
    | none => simp only [regroup, treeBy, hall h ihd]
    | some elements =>
      simp only [isUnmixed, Bool.and_eq_true] at h
      simp only [regroup, treeBy, hall h.2 (ihi elements rfl)]
  | length array ih => simp only [regroup, treeBy, ih h]
  | index array position iha ihp =>
    simp only [isUnmixed, Bool.and_eq_true] at h
    simp only [regroup, treeBy, iha h.1, ihp h.2]
  | cast type e ih => simp only [regroup, treeBy, ih h]
  | instanceOf e type inverted ih => simp only [regroup, treeBy, ih h]
  | stepBefore step target ih => simp only [regroup, treeBy, ih h]
  | stepAfter step target ih => simp only [regroup, treeBy, ih h]
  | compound op target amount iht iha =>
    simp only [isUnmixed, Bool.and_eq_true] at h
    simp only [regroup, treeBy, iht h.1, iha h.2]
  | anonymous cls args iha => simp only [regroup, treeBy, hall h iha]

end Regrouping

end Unparse.Reading
