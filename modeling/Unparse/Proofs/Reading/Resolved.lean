import Unparse.Proofs.Reading.Grouping
import Unparse.Proofs.Walk.Resolve

/-! # Resolving readable expressions

Where every variable is written as a name, an expression is resolved without a
failure and without a declaration, and the code is read as the expression is.
-/

namespace Unparse.Reading

open Walking

variable {κ α β : Type}

/-- Whether a variable is written as a name: it is no local one, or is declared
already. -/
def writesBare (c : Context κ) (declared : KeySet) (id : VariableId) : Bool :=
  match c.body.vars.get? id with
  | some v => (v.kind ≠ .localVar || declared.contains id) && isName c.target v.name
  | none => false

def nameOf (b : Body κ) (id : VariableId) : String := ((b.vars.get? id).map Variable.name).getD ""

/-- A traversal that succeeds and declares nothing. -/
def Yields (declared : KeySet) (w : Walking α) (P : α → Prop) : Prop :=
  ∀ s, s.declared = declared →
    Meets s w (fun a s' => s'.declared = declared ∧ P a) fun _ _ => False

namespace Yields

variable {D : KeySet} {w : Walking α} {f : α → Walking β} {P : α → Prop} {R : β → Prop}

theorem pure {a : α} (h : P a) : Yields D (Pure.pure a) P := fun _ hs => ⟨hs, h⟩

theorem bind (hw : Yields D w P) (hf : ∀ a, P a → Yields D (f a) R) : Yields D (w >>= f) R := by
  intro s hs
  rw [meets_bind]
  refine (hw s hs).mono ?_ fun _ _ => id
  rintro a s' ⟨hs', ha⟩
  exact hf a ha s' hs'

end Yields

/-- What is the same of an expression and its code. -/
structure Resolved (c : Context κ) (e : Expr VariableId κ) (code : ExprCode) : Prop where
  operation : code.operation? = e.operation?
  target : isTarget code = isTarget e
  readable : isReadable c.target (isBare c.target) (fun _ => false) code = true
  tree : treeBy (joined c.target) c.target Occurrence.name code =
    treeBy (joined c.target) c.target (nameOf c.body) e

theorem yields_use {c : Context κ} {D : KeySet} {id : VariableId} (h : writesBare c D id = true) :
    Yields D (c.use id) fun v => v.name = nameOf c.body id ∧ isBare c.target v = true := by
  rintro s rfl
  unfold writesBare at h
  split at h
  · next v hv =>
    simp only [Bool.and_eq_true, Bool.or_eq_true, decide_eq_true_eq] at h
    have hname : nameOf c.body id = v.name := by rw [nameOf, hv]; rfl
    refine (meets_use_of_declared hv fun hk => h.1.resolve_left (by simp [hk])).mono ?_
      fun _ _ => False.elim
    rintro _ t ⟨rfl, ht⟩
    exact ⟨ht, hname.symm, by simp [isBare, h.2]⟩
  · cases h

abbrev AreResolved (c : Context κ) (es : List (Expr VariableId κ)) (codes : List ExprCode) : Prop :=
  List.Forall₂ (Resolved c) es codes

namespace AreResolved

variable {c : Context κ} {es : List (Expr VariableId κ)} {codes : List ExprCode}

theorem readable (h : AreResolved c es codes) :
    areReadable c.target (isBare c.target) (fun _ => false) codes = true := by
  induction h with
  | nil => rfl
  | cons h _ ih => simp only [areReadable, h.readable, ih, Bool.and_self]

theorem isEmpty (h : AreResolved c es codes) : codes.isEmpty = es.isEmpty := by
  cases h <;> rfl

theorem trees (h : AreResolved c es codes) :
    treesBy (joined c.target) c.target Occurrence.name codes =
      treesBy (joined c.target) c.target (nameOf c.body) es := by
  induction h with
  | nil => rfl
  | cons h _ ih =>
    simp only [treesBy, h.tree, ih]

end AreResolved

theorem yields_resolveAll {c : Context κ} {D : KeySet} {es : List (Expr VariableId κ)}
    (h : ∀ e ∈ es, Yields D (e.resolve c) (Resolved c e)) :
    Yields D (Expr.resolveAll c es) (AreResolved c es) := by
  induction es with
  | nil => exact .pure .nil
  | cons e es ih =>
    rw [Expr.resolveAll]
    refine (h e List.mem_cons_self).bind fun code hcode => ?_
    refine (ih fun x hx => h x (List.mem_cons_of_mem e hx)).bind fun codes hcodes => ?_
    exact .pure (.cons hcode hcodes)

/-- A readable expression is resolved, and its code is read as the same tree. -/
theorem yields_resolve {c : Context κ} {D : KeySet} {e : Expr VariableId κ}
    (h : isReadable c.target (writesBare c D) c.body.isThis e = true) :
    Yields D (e.resolve c) (Resolved c e) := by
  induction e using Expr.induct with
  | const value =>
    rw [Expr.resolve]
    refine .pure ⟨rfl, by cases value <;> rfl, ?_, rfl⟩
    cases value <;> exact h
  | binary op l r ihl ihr =>
    simp only [isReadable, Bool.and_eq_true] at h
    rw [Expr.resolve]
    refine (ihl h.1).bind fun l' hl => (ihr h.2).bind fun r' hr => .pure ⟨rfl, rfl, ?_, ?_⟩
    · simp only [isReadable, hl.readable, hr.readable, Bool.and_self]
    · simp only [treeBy, hr.operation, hl.tree, hr.tree]
  | unary op e ih =>
    rw [Expr.resolve]
    refine (ih h).bind fun e' he => .pure ⟨rfl, rfl, he.readable, ?_⟩
    simp only [treeBy, he.tree]
  | ternary e l r ihe ihl ihr =>
    simp only [isReadable, Bool.and_eq_true] at h
    rw [Expr.resolve]
    refine (ihe h.1.1).bind fun e' he => (ihl h.1.2).bind fun l' hl =>
      (ihr h.2).bind fun r' hr => .pure ⟨rfl, rfl, ?_, ?_⟩
    · simp only [isReadable, he.readable, hl.readable, hr.readable, Bool.and_self]
    · simp only [treeBy, he.tree, hl.tree, hr.tree]
  | field owner name ih =>
    simp only [isReadable, Bool.and_eq_true] at h
    rw [Expr.resolve]
    refine (ih h.1).bind fun owner' ho => .pure ⟨rfl, rfl, ?_, ?_⟩
    · simp only [isReadable, ho.readable, h.2, Bool.and_self]
    · simp only [treeBy, ho.tree]
  | staticField qualifier name =>
    rw [Expr.resolve]
    exact .pure ⟨rfl, rfl, h, rfl⟩
  | var id =>
    rw [Expr.resolve]
    refine (yields_use h).bind fun v hv => .pure ⟨rfl, rfl, hv.2, ?_⟩
    simp only [treeBy, hv.1]
  | call receiver checked function args ih iha =>
    simp only [isReadable, Bool.and_eq_true, areReadable_iff, Bool.not_eq_true'] at h
    obtain ⟨⟨⟨hthis, hreceiver⟩, hfunction⟩, hargs⟩ := h
    rw [Expr.resolve, if_neg (by simp [hthis])]
    refine (ih hreceiver).bind fun receiver' hr =>
      (yields_resolveAll fun a ha => iha a ha (hargs a ha)).bind fun args' ha =>
        .pure ⟨rfl, rfl, ?_, ?_⟩
    · simp only [isReadable, hr.readable, hfunction, ha.readable, Bool.not_false, Bool.and_self]
    · simp only [treeBy, hr.tree, ha.trees]
  | apply function args iha =>
    simp only [isReadable, Bool.and_eq_true, areReadable_iff] at h
    rw [Expr.resolve]
    refine (yields_resolveAll fun a ha => iha a ha (h.2 a ha)).bind fun args' ha =>
      .pure ⟨rfl, rfl, ?_, ?_⟩
    · simp only [isReadable, h.1, ha.readable, Bool.and_self]
    · simp only [treeBy, ha.trees]
  | create cls args iha =>
    simp only [isReadable, Bool.and_eq_true, areReadable_iff] at h
    rw [Expr.resolve]
    refine (yields_resolveAll fun a ha => iha a ha (h.2 a ha)).bind fun args' ha =>
      .pure ⟨rfl, rfl, ?_, ?_⟩
    · simp only [isReadable, h.1, ha.readable, Bool.and_self]
    · simp only [treeBy, ha.trees]
  | createArray element dimensions initializer ihd ihi =>
    cases initializer with
    | none =>
      simp only [isReadable, Bool.and_eq_true, areReadable_iff] at h
      rw [Expr.resolve]
      refine (yields_resolveAll fun d hd => ihd d hd (h.2 d hd)).bind fun ds hds =>
        .pure ⟨rfl, rfl, ?_, ?_⟩
      · simp only [isReadable, h.1.1.1.1, h.1.1.1.2, h.1.1.2, h.1.2, hds.isEmpty, hds.readable,
          Bool.and_self]
      · simp only [treeBy, hds.trees]
    | some elements =>
      simp only [isReadable, Bool.and_eq_true, areReadable_iff] at h
      rw [Expr.resolve]
      refine (yields_resolveAll fun e he => ihi elements rfl e he (h.2 e he)).bind fun es hes =>
        .pure ⟨rfl, rfl, ?_, ?_⟩
      · simp only [isReadable, h.1.1.1.1, h.1.1.1.2, h.1.1.2, List.isEmpty_nil, hes.readable,
          Bool.and_self]
      · simp only [treeBy, hes.trees]
  | length array ih =>
    rw [Expr.resolve]
    refine (ih h).bind fun array' ha => .pure ⟨rfl, rfl, ha.readable, ?_⟩
    simp only [treeBy, ha.tree]
  | index array position iha ihp =>
    simp only [isReadable, Bool.and_eq_true] at h
    rw [Expr.resolve]
    refine (iha h.1).bind fun array' ha => (ihp h.2).bind fun position' hp =>
      .pure ⟨rfl, rfl, ?_, ?_⟩
    · simp only [isReadable, ha.readable, hp.readable, Bool.and_self]
    · simp only [treeBy, ha.tree, hp.tree]
  | cast type e ih =>
    simp only [isReadable, Bool.and_eq_true] at h
    rw [Expr.resolve]
    refine (ih h.2).bind fun e' he => .pure ⟨rfl, rfl, ?_, ?_⟩
    · simp only [isReadable, he.readable, h.1, Bool.and_self]
    · simp only [treeBy, he.tree]
  | instanceOf e type inverted ih =>
    simp only [isReadable, Bool.and_eq_true] at h
    rw [Expr.resolve]
    refine (ih h.2).bind fun e' he => .pure ⟨rfl, rfl, ?_, ?_⟩
    · simp only [isReadable, he.readable, h.1, Bool.and_self]
    · simp only [treeBy, he.tree]
  | stepBefore step target ih =>
    simp only [isReadable, Bool.and_eq_true] at h
    rw [Expr.resolve]
    refine (ih h.2).bind fun target' ht => .pure ⟨rfl, rfl, ?_, ?_⟩
    · simp only [isReadable, ht.target, h.1, ht.readable, Bool.and_self]
    · simp only [treeBy, ht.tree]
  | stepAfter step target ih =>
    simp only [isReadable, Bool.and_eq_true] at h
    rw [Expr.resolve]
    refine (ih h.2).bind fun target' ht => .pure ⟨rfl, rfl, ?_, ?_⟩
    · simp only [isReadable, ht.target, h.1, ht.readable, Bool.and_self]
    · simp only [treeBy, ht.tree]
  | compound op target amount iht iha =>
    simp only [isReadable, Bool.and_eq_true] at h
    obtain ⟨⟨⟨hop, htarget⟩, ht⟩, hamount⟩ := h
    have hsome : (c.target.compoundToken? op).isNone = false := by
      rw [hasAssignment] at hop
      rw [← Option.not_isSome, hop, Bool.not_true]
    rw [Expr.resolve, hsome]
    refine (iht ht).bind fun target' ht => (iha hamount).bind fun amount' ha =>
      .pure ⟨rfl, rfl, ?_, ?_⟩
    · simp only [isReadable, hop, ht.target, htarget, ht.readable, ha.readable, Bool.and_self]
    · simp only [treeBy, ht.tree, ha.tree]
  | anonymous cls args => cases h

end Unparse.Reading
