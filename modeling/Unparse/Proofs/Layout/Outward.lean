import Mathlib.Data.List.Forall2
import Unparse.Print.Class
import Unparse.Proofs.Branching.Else
import Unparse.Proofs.Layout.Indents
import Unparse.Proofs.Listing.Parts
import Unparse.Proofs.Walk.Related

/-! # What passes from a document to those around it

A condition on documents passes outward if it passes to every document that is
made of one that satisfies it. It then passes from the parts of an expression, a
statement or a control structure to the whole. That a document stands somewhere
inside is such a condition, and so is that a word is written.
-/

namespace Unparse

open Layout (Doc)
open Layout.Doc (text)

/-- A condition passes from a document to those that go on with others before or behind it. -/
structure Layout.Doc.Sideways (P : Doc → Prop) : Prop where
  not_empty : ¬ P .empty
  left {a : Doc} (b : Doc) : P a → P (a ++ b)
  right (a : Doc) {b : Doc} : P b → P (a ++ b)

/-- A condition passes from a document to every document around it. -/
structure Layout.Doc.Outward (P : Doc → Prop) : Prop extends Layout.Doc.Sideways P where
  indented {d : Doc} (n : Int) : P d → P (d.indented n)
  grouped {d : Doc} : P d → P d.grouped

namespace Layout.Doc

theorem outward_leaf (leaf : Doc) : Outward fun d => leaf ∈ d.leaves where
  not_empty := nofun
  left b h := by simp [h]
  right a _ h := by simp [h]
  indented n h := by simp [h]
  grouped h := by simp [h]

theorem sideways_stands {x : Doc} (hx : x ≠ empty) (j i : Nat) : Sideways (x.Stands j i) := by
  have hempty : ¬ x.Stands j i empty := by
    rintro ⟨above, below, h⟩
    cases h
    exact hx rfl
  exact {
    not_empty := hempty
    left := by
      intro a b h
      change x.Stands j i (append a b)
      fun_cases append a b with
      | case1 => exact absurd h hempty
      | case2 => exact h
      | case3 => exact .left h
    right := by
      intro a b h
      change x.Stands j i (append a b)
      fun_cases append a b with
      | case1 => exact h
      | case2 => exact absurd h hempty
      | case3 => exact .right h }

theorem stands_indented {x d : Doc} (hx : x ≠ empty) {i j : Nat} (hi : i ≤ deepest) (n : Int)
    (h : x.Stands j (shift i n) d) : x.Stands j i (d.indented n) := by
  fun_cases indented n d with
  | case1 => exact absurd h (sideways_stands hx j _).not_empty
  | case2 _ _ hn => rwa [hn, shift_zero hi] at h
  | case3 => exact .nest h

theorem outward_stands {x : Doc} (hx : x ≠ empty) :
    Outward fun d => ∀ i, ∃ j, x.Stands j i d where
  not_empty h := by
    obtain ⟨j, h⟩ := h 0
    exact (sideways_stands hx j 0).not_empty h
  left b h i := (h i).imp fun j => (sideways_stands hx j i).left b
  right a _ h i := (h i).imp fun j => (sideways_stands hx j i).right a
  indented := by
    intro d n h
    fun_cases indented n d with
    | case1 => exact h
    | case2 => exact h
    | case3 => exact fun i => (h (shift i n)).imp fun _ => .nest
  grouped := by
    intro d h
    fun_cases grouped d with
    | case1 => exact h
    | case2 => exact h
    | case3 => exact fun i => (h i).imp fun _ => .group

namespace Sideways

variable {P : Doc → Prop} {d : Doc} {ds : List Doc}

theorem foldl {f : Doc → Doc → Doc} (hl : ∀ a b, P a → P (f a b)) (hr : ∀ a b, P b → P (f a b))
    (h : P d ∨ ∃ e ∈ ds, P e) : P (ds.foldl f d) := by
  induction ds generalizing d with
  | nil => simpa using h
  | cons e ds ih =>
    apply ih
    rcases h with h | ⟨x, hx, h⟩
    · exact .inl (hl _ _ h)
    · rcases List.mem_cons.1 hx with rfl | hx
      · exact .inl (hr _ _ h)
      · exact .inr ⟨x, hx, h⟩

variable (hP : Sideways P)
include hP

theorem enclosed (opening closing : String) (h : P d) : P (d.enclosed opening closing) :=
  hP.left _ (hP.right _ h)

theorem parens (h : P d) : P d.parens := hP.enclosed _ _ h

theorem brackets (h : P d) : P d.brackets := hP.enclosed _ _ h

theorem braces (h : P d) : P d.braces := hP.enclosed _ _ h

theorem separated (sep : Doc) (h : ∃ d ∈ ds, P d) : P (separated sep ds) := by
  obtain ⟨d, hd, h⟩ := h
  cases ds with
  | nil => cases hd
  | cons e ds =>
    refine foldl (fun _ _ h => hP.left _ (hP.left _ h)) (fun _ _ => hP.right _) ?_
    rcases List.mem_cons.1 hd with rfl | hd
    · exact .inl h
    · exact .inr ⟨d, hd, h⟩

theorem concat (h : ∃ d ∈ ds, P d) : P (concat ds) :=
  foldl (fun _ _ => hP.left _) (fun _ _ => hP.right _) (.inr h)

end Sideways

end Layout.Doc

open Layout.Doc (Outward)

theorem Element.doc_of_isEmptyBlock (e : Element) (s : Style) (h : e.isEmptyBlock = true) :
    e.doc s = Doc.empty := by
  have hform := e.form_of_isEmptyBlock h
  obtain ⟨form, place⟩ := e
  obtain rfl : form = .block [] := hform
  have hbare := (Bool.and_eq_true_iff.mp h).2
  simp only [Element.place, Place.isBare, Bool.and_eq_true, Option.isNone_iff_eq_none] at hbare
  rw [Element.doc]
  simp [Style.labelDoc, Style.jumpsDoc, Style.jumpDoc, formDoc, Style.blockDoc, hbare, Doc.concat]

namespace Layout.Doc.Outward

variable {P : Doc → Prop} (hP : Outward P) (s : Style) {d l r : Doc} {ds : List Doc}
include hP

/-! ## Styles -/

theorem operand (h : P d) (own : Option Operation) (around : Operation) (associative : Bool) :
    P (s.operand own around associative d) := by
  unfold Style.operand
  split
  · split
    · exact hP.parens h
    · exact h
  · exact h

theorem owner (h : P d) (own : Option Operation) (around : Operation) : P (s.owner own around d) :=
  hP.operand s h own around _

theorem continued (h : P d) : P (s.continued d) := hP.indented _ (hP.right _ h)

theorem list (h : ∃ d ∈ ds, P d) : P (s.list ds) :=
  hP.grouped (hP.indented _ (hP.separated _ h))

theorem arguments (h : ∃ d ∈ ds, P d) : P (s.arguments ds) := by
  obtain ⟨d, hd, h⟩ := h
  exact hP.parens (hP.list s ⟨d.grouped, List.mem_map_of_mem hd, hP.grouped h⟩)

theorem braced (h : P d) : P (s.braced d) := hP.left _ (hP.left _ (hP.right _ (hP.indented _ h)))

theorem sizedArray (h : ∃ d ∈ ds, P d) (element : String) : P (Style.sizedArray element ds) := by
  fun_induction Style.sizedArray element ds with
  | case1 => simp at h
  | case2 size head =>
    obtain ⟨d, hd, h⟩ := h
    obtain rfl := List.mem_singleton.1 hd
    exact hP.right _ (hP.parens h)
  | case3 size sizes _ ih =>
    obtain ⟨d, hd, h⟩ := h
    rcases List.mem_cons.1 hd with rfl | hd
    · exact hP.left _ (hP.left _ (hP.left _ (hP.right _ (hP.parens h))))
    · exact hP.left _ (hP.right _ (ih ⟨d, hd, h⟩))

theorem createArray (h : ∃ d ∈ ds, P d) (element : String) : P (s.createArray element ds none) := by
  rw [Style.createArray]
  split
  · exact Sideways.foldl (fun _ _ => hP.left _) (fun _ _ h => hP.right _ (hP.brackets h)) (.inr h)
  · exact hP.sizedArray h element

theorem createArray_elements (h : ∃ d ∈ ds, P d) (element : String) :
    P (s.createArray element [] (some ds)) := by
  rw [Style.createArray]
  split
  · exact hP.right _ (hP.braces (hP.list s h))
  · exact hP.right _ (hP.parens (hP.list s h))

theorem binary {left right : Option Operation × Doc} (h : P left.2 ∨ P right.2) (op : BinaryOp) :
    P (s.binary op left right) := by
  refine hP.grouped ?_
  rcases h with h | h
  · exact hP.left _ (hP.left _ (hP.operand s h _ _ _))
  · exact hP.right _ (hP.continued s (hP.operand s h _ _ _))

theorem compound {target amount : Option Operation × Doc} (h : P target.2 ∨ P amount.2)
    (op : BinaryOp) : P (s.compound op target amount) := by
  refine hP.grouped ?_
  rcases h with h | h
  · exact hP.left _ (hP.left _ (hP.operand s h _ _ _))
  · exact hP.right _ (hP.continued s (hP.operand s h _ _ _))

theorem unary (h : P d) (op : Operation) (own : Option Operation) : P (s.unary op own d) := by
  unfold Style.unary
  split
  · exact hP.left _ (hP.owner s h _ _)
  · exact hP.right _ (hP.owner s h _ _)

theorem ternary {e : Doc} (h : P e ∨ P l ∨ P r) : P (s.ternary e l r) := by
  refine hP.grouped ?_
  rcases h with h | h | h
  · exact hP.left _ (hP.right _ (hP.parens h))
  · exact hP.right _ (hP.indented _ (hP.left _ (hP.left _ (hP.right _ h))))
  · exact hP.right _ (hP.indented _ (hP.right _ h))

theorem instanceOf (h : P d) (type : String) (inverted : Bool) (own : Option Operation) :
    P (s.instanceOf type inverted own d) := by
  have htest := hP.operand s h own .instanceOf true
  unfold Style.instanceOf
  split
  · exact hP.left _ htest
  · exact hP.left _ htest
  · exact hP.right _ (hP.parens (hP.left _ htest))

theorem cast (h : P d) (type : String) (own : Option Operation) : P (s.cast type own d) := by
  unfold Style.cast
  split
  · exact hP.right _ (hP.owner s h _ _)
  · exact hP.left _ (hP.owner s h _ _)

theorem index {array position : ExprCode} (h : P (array.doc s) ∨ P (position.doc s)) :
    P ((Expr.index array position).doc s) := by
  simp only [Expr.doc]
  rcases h with h | h
  · refine hP.left _ ?_
    split
    · exact hP.parens h
    · exact hP.owner s h _ _
  · exact hP.right _ (hP.brackets h)

theorem call {receiver : ExprCode} {args : List ExprCode}
    (h : P (receiver.doc s) ∨ ∃ d ∈ Expr.docs s args, P d) (checked : Bool) (function : String) :
    P ((Expr.call receiver checked function args).doc s) := by
  rw [Expr.doc]
  rcases h with h | h
  · exact hP.left _ (hP.left _ (hP.left _ (hP.owner s h _ _)))
  · exact hP.right _ (hP.arguments s h)

theorem anonymous {cls : AnonymousCode}
    (h : (cls.interface = none ∧ ∃ d ∈ ds, P d) ∨ P cls.members) : P (s.anonymous cls ds) := by
  rcases h with ⟨hinterface, h⟩ | h
  · rw [Style.anonymous, hinterface]
    exact hP.left _ (hP.left _ (hP.right _ (hP.right _ (hP.arguments s h))))
  · exact hP.right _ h

/-! ## Control structures -/

theorem block {statements : List StmtCode} (h : ∃ stmt ∈ statements, P (stmt.bodyDoc s)) :
    P (s.blockDoc statements) := by
  obtain ⟨stmt, hstmt, h⟩ := h
  have hspoken : stmt.isSilent = false := by
    by_contra hsilent
    rw [stmt.bodyDoc_of_isSilent s (by simpa using hsilent)] at h
    exact hP.not_empty h
  refine hP.concat ⟨_, List.mem_map_of_mem (List.mem_filter.2 ⟨hstmt, ?_⟩), hP.right _ (hP.left _ h)⟩
  simp [hspoken]

theorem optional {stmt : Option StmtCode} {f : Doc → Doc} (hf : ∀ d, P d → P (f d))
    (h : ∃ x ∈ stmt, P (x.bodyDoc s)) : P (s.optional f stmt) := by
  obtain ⟨x, rfl, h⟩ := h
  have hspoken : x.isSilent = false := by
    by_contra hsilent
    rw [x.bodyDoc_of_isSilent s (by simpa using hsilent)] at h
    exact hP.not_empty h
  simp only [Style.optional, hspoken]
  exact hf _ (hP.left _ h)

theorem countedHeader {init update : Option StmtCode}
    (h : (∃ x ∈ init, P (x.bodyDoc s)) ∨ P d ∨ ∃ x ∈ update, P (x.bodyDoc s)) :
    P (s.countedHeader init d update) := by
  unfold Style.countedHeader
  rcases h with ⟨x, rfl, h⟩ | h | ⟨x, rfl, h⟩
  · exact hP.left _ (hP.left _ (hP.left _ (hP.left _ (hP.left _ (hP.right _ h)))))
  · exact hP.left _ (hP.left _ (hP.left _ (hP.right _ h)))
  · exact hP.left _ (hP.right _ (hP.right _ h))

theorem code {code : Code} (h : ∃ e ∈ code, P (e.doc s)) : P (codeDoc s code) := by
  obtain ⟨e, he, h⟩ := h
  induction code with
  | nil => cases he
  | cons f code ih =>
    rw [codeDoc]
    rcases List.mem_cons.1 he with rfl | he
    · exact hP.left _ (hP.right _ h)
    · exact hP.right _ (ih he)

theorem element {e : Element} (h : P (formDoc s e.place e.form)) : P (e.doc s) := by
  obtain ⟨form, place⟩ := e
  rw [Element.doc]
  exact hP.left _ (hP.right _ h)

/-- An empty block that is left out in front of an `else if` holds nothing. -/
theorem elseBranch {code : Code} (h : ∃ e ∈ code, P (e.doc s)) : P (elseDoc s (some code)) := by
  have hbraced {code : Code} (h : ∃ e ∈ code, P (e.doc s)) : P (s.braced (codeDoc s code)) :=
    hP.braced s (hP.code s h)
  rcases code with _ | ⟨e, _ | ⟨f, es⟩⟩
  · simp at h
  · refine hP.right _ ?_
    have hcode := hbraced h
    rwa [codeDoc, codeDoc, Doc.append_empty] at hcode
  · rw [elseDoc]
    split
    · next hcollapse =>
      refine hP.right _ ?_
      obtain ⟨x, hx, h⟩ := h
      rcases List.mem_cons.1 hx with rfl | hx
      · rw [x.doc_of_isEmptyBlock s (Bool.and_eq_true_iff.1 hcollapse).1] at h
        exact absurd h hP.not_empty
      · rcases List.mem_cons.1 hx with rfl | hx
        · exact hP.left _ h
        · exact hP.right _ (hP.code s ⟨x, hx, h⟩)
    · exact hP.right _ (hbraced h)

theorem handlers {handlers : List (Occurrence × Code)}
    (h : ∃ handler ∈ handlers, P (codeDoc s handler.2)) : P (handlersDoc s handlers) := by
  obtain ⟨handler, hmem, h⟩ := h
  induction handlers with
  | nil => cases hmem
  | cons other handlers ih =>
    rw [handlersDoc]
    rcases List.mem_cons.1 hmem with rfl | hmem
    · exact hP.left _ (hP.right _ (hP.braced s h))
    · exact hP.right _ (ih hmem)

theorem cases {cases : List (List (Option Literal) × Code)}
    (h : ∃ case ∈ cases, P (codeDoc s case.2)) : P (casesDoc s cases) := by
  obtain ⟨case, hmem, h⟩ := h
  induction cases with
  | nil => cases hmem
  | cons other cases ih =>
    rw [casesDoc]
    rcases List.mem_cons.1 hmem with rfl | hmem
    · exact hP.left _ (hP.right _ (hP.indented _ h))
    · exact hP.right _ (ih hmem)

theorem arms {arms : List (ExprCode × Code)}
    (h : ∃ arm ∈ arms, P (arm.1.doc s) ∨ P (codeDoc s arm.2)) : P (armsDoc s arms) := by
  obtain ⟨arm, hmem, h⟩ := h
  induction arms with
  | nil => cases hmem
  | cons other arms ih =>
    rw [armsDoc]
    rcases List.mem_cons.1 hmem with rfl | hmem
    · rcases h with h | h
      · exact hP.left _ (hP.left _ (hP.left _ (hP.right _ h)))
      · exact hP.left _ (hP.right _ (hP.braced s h))
    · exact hP.right _ (ih hmem)

theorem countedLoop {init update : Option StmtCode} {condition : ExprCode} {body : Code}
    (place : Place)
    (h : (∃ x ∈ init, P (x.bodyDoc s)) ∨ P (condition.doc s) ∨ (∃ x ∈ update, P (x.bodyDoc s)) ∨
      P (codeDoc s body)) :
    P (formDoc s place (.countedLoop init condition update body)) := by
  rw [formDoc]
  split
  · rcases h with h | h | h | h
    · exact hP.left _ (hP.countedHeader s (.inl h))
    · exact hP.left _ (hP.countedHeader s (.inr (.inl h)))
    · exact hP.left _ (hP.countedHeader s (.inr (.inr h)))
    · exact hP.right _ (hP.braced s h)
  · rcases h with h | h | h | h
    · have hinit : P (s.optional (· ++ Doc.newline) init) :=
        hP.optional s (fun _ h => hP.left _ h) h
      exact hP.left _ (hP.left _ (hP.left _ (hP.left _ (hP.left _ hinit))))
    · exact hP.left _ (hP.left _ (hP.right _ (hP.parens h)))
    · have hupdate : P (s.optional (Doc.newline ++ ·) update) :=
        hP.optional s (fun _ h => hP.right _ h) h
      exact hP.right _ (hP.braced s (hP.right _ hupdate))
    · exact hP.right _ (hP.braced s (hP.left _ h))

theorem form {form : FormCode} (place : Place)
    (h : form.Some (fun e => P (e.doc s)) (fun stmt => P (stmt.bodyDoc s))
      fun code => ∃ e ∈ code, P (e.doc s)) : P (formDoc s place form) := by
  have hbody {code : Code} (h : ∃ e ∈ code, P (e.doc s)) : P (s.braced (codeDoc s code)) :=
    hP.braced s (hP.code s h)
  cases form with
  | block statements => exact hP.block s h
  | conditional e whenTrue whenFalse =>
    rw [formDoc]
    rcases h with h | h | ⟨branch, rfl, h⟩
    · exact hP.left _ (hP.left _ (hP.left _ (hP.right _ (hP.parens h))))
    · exact hP.left _ (hP.right _ (hbody h))
    · exact hP.right _ (hP.elseBranch s h)
  | whileLoop e body =>
    rw [formDoc]
    rcases h with h | h
    · exact hP.left _ (hP.left _ (hP.right _ (hP.parens h)))
    · exact hP.right _ (hbody h)
  | doLoop e body =>
    rw [formDoc]
    rcases h with h | h
    · exact hP.left _ (hP.right _ (hP.parens h))
    · exact hP.left _ (hP.left _ (hP.left _ (hP.right _ (hbody h))))
  | countedLoop init e update body =>
    exact hP.countedLoop s place (h.imp_right (.imp_right (.imp_right (hP.code s))))
  | forEach vars e body =>
    rw [formDoc]
    rcases h with h | h
    · exact hP.left _ (hP.left _ (hP.right _ h))
    · exact hP.right _ (hbody h)
  | guarded body handlers cleanup =>
    rw [formDoc]
    rcases h with h | ⟨handler, hmem, h⟩ | ⟨last, rfl, h⟩
    · exact hP.left _ (hP.left _ (hP.right _ (hbody h)))
    · exact hP.left _ (hP.right _ (hP.handlers s ⟨handler, hmem, hP.code s h⟩))
    · exact hP.right _ (hP.right _ (hbody h))
  | switch e cases =>
    rw [formDoc]
    rcases h with h | ⟨case, hmem, h⟩
    · exact hP.left _ (hP.left _ (hP.left _ (hP.left _ (hP.right _ (hP.parens h)))))
    · exact hP.left _ (hP.left _
        (hP.right _ (hP.indented _ (hP.cases s ⟨case, hmem, hP.code s h⟩))))
  | select e arms fallback =>
    rw [formDoc]
    rcases h with h | ⟨arm, hmem, h⟩ | ⟨last, rfl, h⟩
    · exact hP.left _ (hP.left _ (hP.left _ (hP.left _ (hP.right _ (hP.parens h)))))
    · have harms := hP.arms s ⟨arm, hmem, h.imp_right (hP.code s)⟩
      exact hP.left _ (hP.left _ (hP.right _ (hP.indented _ (hP.left _ (hP.left _ (hP.left _ harms))))))
    · exact hP.left _ (hP.left _ (hP.right _ (hP.indented _ (hP.right _ (hbody h)))))

end Layout.Doc.Outward

end Unparse
