import Unparse.Print.Class
import Unparse.Proofs.Layout.Alike
import Unparse.Proofs.Walk.Related

/-! # Documents of code with different comments

Codes are alike if their documents differ only in the comments on dropped methods,
and if they are the same to the construct around them. What is made of such codes is
alike again.
-/

namespace Unparse

open Layout (Doc)
open Layout.Doc (Like)

variable {W : String → String → Prop} (s : Style) {d d' : Doc} {ds ds' : List Doc}

section Styles

theorem like_parens (h : Like W d d') : Like W d.parens d'.parens := h.enclosed _ _

theorem like_brackets (h : Like W d d') : Like W d.brackets d'.brackets := h.enclosed _ _

theorem like_braces (h : Like W d d') : Like W d.braces d'.braces := h.enclosed _ _

theorem like_operand (h : Like W d d') (own : Option Operation) (around : Operation)
    (associative : Bool) :
    Like W (s.operand own around associative d) (s.operand own around associative d') := by
  unfold Style.operand
  split
  · split
    · exact like_parens h
    · exact h
  · exact h

theorem like_continued (h : Like W d d') : Like W (s.continued d) (s.continued d') :=
  ((Doc.Alike.refl _).append h).indented _

theorem like_braced {q : Layout.Position} (h : Doc.Alike W .inside d d' q) :
    Like W (s.braced d) (s.braced d') := by
  refine (((Doc.Alike.refl _).append (h.indented _)).append (.newline q)).append ?_
  exact (Doc.Alike.refl _).sub (.fresh _) le_rfl

theorem like_list (h : List.Forall₂ (Like W) ds ds') : Like W (s.list ds) (s.list ds') :=
  ((Doc.Alike.separated le_rfl (.refl _) h).indented _).grouped

theorem like_arguments (h : List.Forall₂ (Like W) ds ds') :
    Like W (s.arguments ds) (s.arguments ds') := by
  refine like_parens (like_list s ?_)
  rw [List.forall₂_map_left_iff, List.forall₂_map_right_iff]
  exact h.imp fun _ _ h => h.grouped

theorem like_sizedArray (h : List.Forall₂ (Like W) ds ds') (element : String) :
    Like W (Style.sizedArray element ds) (Style.sizedArray element ds') := by
  induction h with
  | nil => exact .refl _
  | cons hd hds ih =>
    cases hds with
    | nil => exact (Doc.Alike.refl _).append (like_parens hd)
    | cons he hes =>
      exact (((((Doc.Alike.refl _).append (like_parens hd)).append (.refl _)).append ih).append
        (.refl _))

theorem like_createArray (h : List.Forall₂ (Like W) ds ds') (element : String) :
    Like W (s.createArray element ds none) (s.createArray element ds' none) := by
  rw [Style.createArray, Style.createArray]
  cases s.target with
  | java =>
    have hfold {d d' : Doc} (hd : Like W d d') :
        Like W (ds.foldl (fun d size => d ++ size.brackets) d)
          (ds'.foldl (fun d size => d ++ size.brackets) d') := by
      induction h generalizing d d' with
      | nil => exact hd
      | cons he _ ih => exact ih (hd.append (like_brackets he))
    exact hfold (.refl _)
  | kotlin => exact like_sizedArray h element

theorem like_createArray_elements (h : List.Forall₂ (Like W) ds ds') (element : String) :
    Like W (s.createArray element [] (some ds)) (s.createArray element [] (some ds')) := by
  rw [Style.createArray, Style.createArray]
  cases s.target with
  | java => exact ((Doc.Alike.refl _).append (.refl _)).append (like_braces (like_list s h))
  | kotlin => exact (Doc.Alike.refl _).append (like_parens (like_list s h))

end Styles

def Expr.createsArray {ν κ : Type} : Expr ν κ → Bool
  | createArray _ _ _ => true
  | _ => false

structure Occurrence.Alike (v v' : Occurrence) : Prop where
  name : v.name = v'.name
  type : v.type = v'.type
  declares : v.declares = v'.declares

/-- The documents differ only in comments, and around them the expressions are the
same. -/
structure Expr.Alike (W : String → String → Prop) (s : Style) (e e' : ExprCode) : Prop where
  doc : Like W (e.doc s) (e'.doc s)
  operation : e.operation? = e'.operation?
  createsArray : e.createsArray = e'.createsArray

namespace Expr

variable {s} {e e' l l' r r' : ExprCode} {es es' : List ExprCode}

theorem like_docs (h : List.Forall₂ (Alike W s) es es') :
    List.Forall₂ (Like W) (docs s es) (docs s es') := by
  induction h with
  | nil => exact .nil
  | cons he _ ih => exact .cons he.doc ih

namespace Alike

theorem operand (h : Alike W s e e') (around : Operation) (associative : Bool) :
    Like W (s.operand e.operation? around associative (e.doc s))
      (s.operand e'.operation? around associative (e'.doc s)) := by
  rw [h.operation]
  exact like_operand s h.doc _ _ _

theorem owner (h : Alike W s e e') (around : Operation) :
    Like W (s.owner e.operation? around (e.doc s)) (s.owner e'.operation? around (e'.doc s)) :=
  h.operand around _

theorem refl (e : ExprCode) : Alike W s e e := ⟨.refl _, rfl, rfl⟩

theorem var {v v' : Occurrence} (h : v.Alike v') : Alike W s (.var v) (.var v') := by
  refine ⟨?_, rfl, rfl⟩
  simp only [Expr.doc, Style.occurrence, h.name, h.type, h.declares]
  exact .refl _

theorem binary_doc (hl : Alike W s l l') (hr : Alike W s r r') (op : BinaryOp) :
    Like W (s.binary op (l.operandDoc s) (r.operandDoc s))
      (s.binary op (l'.operandDoc s) (r'.operandDoc s)) := by
  simp only [operandDoc, Style.binary, hr.operation]
  refine (((hl.operand _ _).append (.refl _)).append (like_continued s ?_)).grouped
  exact like_operand s hr.doc _ _ _

theorem binary (hl : Alike W s l l') (hr : Alike W s r r') (op : BinaryOp) :
    Alike W s (.binary op l r) (.binary op l' r') :=
  ⟨hl.binary_doc hr op, rfl, rfl⟩

theorem compound (hl : Alike W s l l') (hr : Alike W s r r') (op : BinaryOp) :
    Alike W s (.compound op l r) (.compound op l' r') := by
  refine ⟨?_, rfl, rfl⟩
  exact (((hl.operand _ _).append (.refl _)).append (like_continued s (hr.operand _ _))).grouped

theorem unary (h : Alike W s e e') (op : UnaryOp) : Alike W s (.unary op e) (.unary op e') := by
  refine ⟨?_, rfl, rfl⟩
  simp only [Expr.doc, Style.unary]
  split
  · exact (h.owner _).append (.refl _)
  · exact (Doc.Alike.refl _).append (h.owner _)

theorem ternary (he : Alike W s e e') (hl : Alike W s l l') (hr : Alike W s r r') :
    Alike W s (.ternary e l r) (.ternary e' l' r') := by
  refine ⟨?_, rfl, rfl⟩
  simp only [Expr.doc, Style.ternary]
  refine (((Doc.Alike.refl _).append (like_parens he.doc)).append (.indented ?_ _)).grouped
  exact ((((Doc.Alike.refl _).append (.refl _)).append (hl.operand _ _)).append (.refl _)).append
    (hr.operand _ _)

theorem field (h : Alike W s e e') (name : String) :
    Alike W s (.field e name) (.field e' name) :=
  ⟨((h.owner _).append (.refl _)).append (.refl _), rfl, rfl⟩

theorem length (h : Alike W s e e') : Alike W s (.length e) (.length e') :=
  ⟨(h.owner _).append (.refl _), rfl, rfl⟩

theorem index (hl : Alike W s l l') (hr : Alike W s r r') :
    Alike W s (.index l r) (.index l' r') := by
  have hindex (l r : ExprCode) : (Expr.index l r).doc s =
      (if l.createsArray then (l.doc s).parens else s.owner l.operation? .index (l.doc s)) ++
        (r.doc s).brackets := by
    cases l <;> rfl
  refine ⟨?_, rfl, rfl⟩
  rw [hindex, hindex, hl.createsArray]
  refine .append ?_ (like_brackets hr.doc)
  split
  · exact like_parens hl.doc
  · exact hl.owner _

theorem cast (h : Alike W s e e') (type : String) :
    Alike W s (.cast type e) (.cast type e') := by
  refine ⟨?_, rfl, rfl⟩
  simp only [Expr.doc, Style.cast]
  split
  · exact (Doc.Alike.refl _).append (h.owner _)
  · exact (h.owner _).append (.refl _)

theorem instanceOf (h : Alike W s e e') (type : String) (inverted : Bool) :
    Alike W s (.instanceOf e type inverted) (.instanceOf e' type inverted) := by
  refine ⟨?_, rfl, rfl⟩
  simp only [Expr.doc, Style.instanceOf]
  split
  · exact (h.operand _ _).append (.refl _)
  · exact (h.operand _ _).append (.refl _)
  · exact (Doc.Alike.refl _).append (like_parens ((h.operand _ _).append (.refl _)))

theorem stepBefore (h : Alike W s e e') (step : Step) :
    Alike W s (.stepBefore step e) (.stepBefore step e') :=
  ⟨(Doc.Alike.refl _).append (h.owner _), rfl, rfl⟩

theorem stepAfter (h : Alike W s e e') (step : Step) :
    Alike W s (.stepAfter step e) (.stepAfter step e') :=
  ⟨(h.owner _).append (.refl _), rfl, rfl⟩

theorem call (h : Alike W s e e') (hes : List.Forall₂ (Alike W s) es es') (checked : Bool)
    (function : String) :
    Alike W s (.call e checked function es) (.call e' checked function es') := by
  refine ⟨?_, rfl, rfl⟩
  exact (((h.owner _).append (.refl _)).append (.refl _)).append (like_arguments s (like_docs hes))

theorem apply (hes : List.Forall₂ (Alike W s) es es') (function : String) :
    Alike W s (.apply function es) (.apply function es') :=
  ⟨(Doc.Alike.refl _).append (like_arguments s (like_docs hes)), rfl, rfl⟩

theorem create (hes : List.Forall₂ (Alike W s) es es') (cls : String) :
    Alike W s (.create cls es) (.create cls es') :=
  ⟨(Doc.Alike.refl _).append (like_arguments s (like_docs hes)), rfl, rfl⟩

theorem createArray (hes : List.Forall₂ (Alike W s) es es') (element : String) :
    Alike W s (.createArray element es none) (.createArray element es' none) :=
  ⟨like_createArray s (like_docs hes) element, rfl, rfl⟩

theorem createArray_elements (hes : List.Forall₂ (Alike W s) es es') (element : String) :
    Alike W s (.createArray element [] (some es)) (.createArray element [] (some es')) :=
  ⟨like_createArray_elements s (like_docs hes) element, rfl, rfl⟩

theorem anonymous (hes : List.Forall₂ (Alike W s) es es') (h : Like W d d')
    (interface superclass : Option String) :
    Alike W s (.anonymous ⟨interface, superclass, d⟩ es)
      (.anonymous ⟨interface, superclass, d'⟩ es') := by
  refine ⟨?_, rfl, rfl⟩
  refine (((Doc.Alike.refl _).append ?_).append (.refl _)).append h
  cases interface with
  | none => exact (Doc.Alike.refl _).append (like_arguments s (like_docs hes))
  | some interface => exact .refl _

end Alike

end Expr

structure StmtCode.Alike (W : String → String → Prop) (s : Style) (stmt stmt' : StmtCode) :
    Prop where
  doc : Like W (stmt.bodyDoc s) (stmt'.bodyDoc s)
  silent : stmt.isSilent = stmt'.isSilent

namespace StmtCode.Alike

variable {s} {e e' l l' r r' : ExprCode}

theorem eval (h : Expr.Alike W s e e') : Alike W s (.plain (.eval e)) (.plain (.eval e')) :=
  ⟨h.doc, rfl⟩

theorem assign (hl : Expr.Alike W s l l') (hr : Expr.Alike W s r r') :
    Alike W s (.plain (.assign l r)) (.plain (.assign l' r')) :=
  ⟨((hl.doc.append (.refl _)).append (like_continued s (hr.operand _ _))).grouped, rfl⟩

theorem ret (h : Expr.Alike W s e e') (explicit : Bool) :
    Alike W s (.plain (.ret (some e) explicit)) (.plain (.ret (some e') explicit)) := by
  refine ⟨?_, rfl⟩
  cases explicit with
  | true => exact (Doc.Alike.refl _).append h.doc
  | false => exact h.doc

theorem throw (h : Expr.Alike W s e e') : Alike W s (.plain (.throw e)) (.plain (.throw e')) :=
  ⟨((Doc.Alike.refl _).append (like_continued s h.doc)).grouped, rfl⟩

theorem restated (he : Expr.Alike W s e e') (hl : Expr.Alike W s l l')
    (hr : Expr.Alike W s r r') (op : BinaryOp) :
    Alike W s (.restated op e l r) (.restated op e' l' r') :=
  ⟨((he.operand _ _).append (.refl _)).append (hl.binary_doc hr op), rfl⟩

end StmtCode.Alike

theorem like_stmt {s : Style} {stmt stmt' : StmtCode} (h : stmt.Alike W s stmt') :
    Like W (stmt.doc s) (stmt'.doc s) := h.doc.append (.refl _)

/-- The documents differ only in comments, and around them the constructions are the
same. -/
structure Element.Alike (W : String → String → Prop) (s : Style) (e e' : Element) : Prop where
  place : e.place = e'.place
  form : Like W (formDoc s e.place e.form) (formDoc s e'.place e'.form)
  isBlock : e.form.isBlock = e'.form.isBlock
  isEmptyBlock : e.form.isEmptyBlock = e'.form.isEmptyBlock
  isConditional : e.form.isConditional = e'.form.isConditional
  isCountedLoop : e.form.isCountedLoop = e'.form.isCountedLoop

abbrev Code.Alike (W : String → String → Prop) (s : Style) : Code → Code → Prop :=
  List.Forall₂ (Element.Alike W s)

section Chains

variable {s} {e e' : Element} {code code' : Code} {stmt stmt' : Option StmtCode}
  {stmts stmts' : List StmtCode}

theorem Element.Alike.doc (h : e.Alike W s e') : Like W (e.doc s) (e'.doc s) := by
  obtain ⟨form, place⟩ := e
  obtain ⟨form', place'⟩ := e'
  obtain ⟨rfl, hform, -, -, -, hcounted⟩ := h
  have hwhile : s.writesAsWhile form = s.writesAsWhile form' := by
    simp only [Style.writesAsWhile]
    exact congrArg (· && !s.lexicon.countedLoops) hcounted
  rw [Element.doc, Element.doc, hwhile]
  exact ((Doc.Alike.refl _).append hform).append (.refl _)

theorem Element.Alike.led (h : e.Alike W s e') :
    Like W (Style.leadDoc e.form ++ e.doc s) (Style.leadDoc e'.form ++ e'.doc s) := by
  rw [Style.leadDoc, Style.leadDoc, h.isBlock]
  exact (Doc.Alike.refl _).append h.doc

theorem like_code (h : Code.Alike W s code code') : Like W (codeDoc s code) (codeDoc s code') := by
  induction h with
  | nil => exact .refl _
  | cons he _ ih => exact he.led.append ih

theorem behind_jumps (p : Place) :
    Doc.Alike W .loose (s.jumpsDoc p) (s.jumpsDoc p) .loose := by
  have hjump (keyword : String) (j : Option Jump) :
      s.jumpDoc keyword j = .empty ∨ (s.jumpDoc keyword j).breaks = true := by
    unfold Style.jumpDoc
    split
    · exact .inr (Doc.breaks_append rfl _)
    · exact .inr (Doc.breaks_append rfl _)
    · exact .inl rfl
  exact ((Doc.Alike.refl _).behind_of_breaks (hjump _ _)).append
    ((Doc.Alike.refl _).behind_of_breaks (hjump _ _))

theorem breaks_block (stmts : List StmtCode) :
    s.blockDoc stmts = .empty ∨ (s.blockDoc stmts).breaks = true := by
  refine Doc.breaks_concat ?_
  simp only [List.forall_mem_map]
  exact fun stmt _ => Doc.breaks_append rfl _

/-- Behind a comment, only the label of a block stands on the same line. -/
theorem Element.Alike.behind (h : e.Alike W s e') :
    Doc.Alike W .loose (Style.leadDoc e.form ++ e.doc s) (Style.leadDoc e'.form ++ e'.doc s)
      .loose := by
  by_cases hblock : e.form.isBlock = true
  · obtain ⟨form, place⟩ := e
    obtain ⟨form', place'⟩ := e'
    obtain ⟨rfl, hform, hblock', -, -, hcounted⟩ := h
    simp only [Element.form, Element.place] at hblock hblock' hform hcounted ⊢
    have hlabel : Doc.Alike W .loose (s.labelDoc place) (s.labelDoc place) .loose := by
      unfold Style.labelDoc
      split
      · exact .text_behind _
      · exact .empty _
    have hdoc : formDoc s place form = .empty ∨ (formDoc s place form).breaks = true := by
      cases form with
      | block stmts =>
        rw [formDoc]
        exact breaks_block stmts
      | _ => cases hblock
    have hwhile (form : FormCode) (h : form.isCountedLoop = false) :
        s.writesAsWhile form = false := by rw [Style.writesAsWhile, h, Bool.false_and]
    have hcounted : form.isCountedLoop = false ∧ form'.isCountedLoop = false := by
      rw [← hcounted, and_self]
      cases form <;> first | rfl | cases hblock
    rw [Style.leadDoc, Style.leadDoc, ← hblock', if_pos hblock, Doc.empty_append, Doc.empty_append,
      Element.doc, Element.doc, hwhile form hcounted.1, hwhile form' hcounted.2]
    exact (hlabel.append (hform.behind_of_breaks hdoc)).append (behind_jumps place)
  · have hbreaks : (Style.leadDoc e.form).breaks = true := by
      rw [Style.leadDoc, if_neg hblock]
      rfl
    exact h.led.behind_of_breaks (.inr (Doc.breaks_append hbreaks _))

theorem behind_code_doc (h : Code.Alike W s code code') :
    Doc.Alike W .loose (code.doc s false) (code'.doc s false) .loose := by
  have hcode {code code' : Code} (h : Code.Alike W s code code') :
      Doc.Alike W .loose (codeDoc s code) (codeDoc s code') .loose := by
    induction h with
    | nil => exact .empty _
    | cons he _ ih => exact he.behind.append ih
  cases h with
  | nil => exact .empty _
  | cons he hes => exact he.behind.append (hcode hes)

theorem like_else {code code' : Option Code} (h : Option.Rel (Code.Alike W s) code code') :
    Like W (elseDoc s code) (elseDoc s code') := by
  cases h with
  | none => exact .refl _
  | some h =>
    cases h with
    | nil => exact .refl _
    | @cons e e' es es' he hes =>
      cases hes with
      | nil =>
        rw [elseDoc, elseDoc]
        exact (Doc.Alike.refl _).append (like_braced s he.led)
      | @cons f f' es es' hf hes =>
        have hempty : e.isEmptyBlock = e'.isEmptyBlock := by
          rw [Element.isEmptyBlock, Element.isEmptyBlock, he.isEmptyBlock, he.place]
        rw [elseDoc, elseDoc, hempty, hf.isConditional]
        split
        · exact (Doc.Alike.refl _).append (hf.doc.append (like_code hes))
        · exact (Doc.Alike.refl _).append
            (like_braced s (he.led.append (hf.led.append (like_code hes))))

theorem like_optional {f : Doc → Doc} (h : Option.Rel (StmtCode.Alike W s) stmt stmt')
    (hf : ∀ {d d' : Doc}, Like W d d' → Like W (f d) (f d')) :
    Like W (s.optional f stmt) (s.optional f stmt') := by
  cases h with
  | none => exact .refl _
  | some h =>
    rw [Style.optional, Style.optional, h.silent]
    split
    · exact .refl _
    · exact hf (like_stmt h)

theorem like_block (h : List.Forall₂ (StmtCode.Alike W s) stmts stmts') :
    Like W (s.blockDoc stmts) (s.blockDoc stmts') := by
  refine .concat ?_
  induction h with
  | nil => exact .nil
  | @cons stmt stmt' _ _ h _ ih =>
    rw [List.filter_cons, List.filter_cons, h.silent]
    split
    · exact .cons ((Doc.Alike.refl _).append (like_stmt h)) ih
    · exact ih

theorem like_countedHeader {init init' update update' : Option StmtCode} {d d' : Doc}
    (hi : Option.Rel (StmtCode.Alike W s) init init') (hd : Like W d d')
    (hu : Option.Rel (StmtCode.Alike W s) update update') :
    Like W (s.countedHeader init d update) (s.countedHeader init' d' update') := by
  unfold Style.countedHeader
  refine (((((Doc.Alike.refl _).append ?_).append (.refl _)).append hd).append (.refl _)
    |>.append ?_).append (.refl _)
  · cases hi with
    | none => exact .refl _
    | some h => exact h.doc
  · cases hu with
    | none => exact .refl _
    | some h => exact (Doc.Alike.refl _).append h.doc

theorem loopVariables_eq {vs vs' : List Occurrence} (h : List.Forall₂ Occurrence.Alike vs vs') :
    s.loopVariables vs = s.loopVariables vs' := by
  have hmap : (vs.map fun v => Doc.text (s.target.declaration .forEach v.name v.type)) =
      vs'.map fun v => Doc.text (s.target.declaration .forEach v.name v.type) := by
    induction h with
    | nil => rfl
    | cons hv _ ih => simp only [List.map_cons, hv.name, hv.type, ih]
  rw [Style.loopVariables, Style.loopVariables, hmap]

theorem like_handlers {handlers handlers' : List (Occurrence × Code)}
    (h : List.Forall₂ (fun h h' => h.1.Alike h'.1 ∧ Code.Alike W s h.2 h'.2) handlers handlers') :
    Like W (handlersDoc s handlers) (handlersDoc s handlers') := by
  induction h with
  | nil => exact .refl _
  | @cons h h' _ _ hh _ ih =>
    obtain ⟨hv, hcode⟩ := hh
    rw [handlersDoc, handlersDoc, hv.name, hv.type]
    exact ((((Doc.Alike.refl _).append (.refl _)).append (.refl _)).append
      (like_braced s (like_code hcode))).append ih

theorem like_cases {cases cases' : List (List (Option Literal) × Code)}
    (h : List.Forall₂ (fun c c' => c.1 = c'.1 ∧ Code.Alike W s c.2 c'.2) cases cases') :
    Like W (casesDoc s cases) (casesDoc s cases') := by
  induction h with
  | nil => exact .refl _
  | @cons c c' _ _ hc _ ih =>
    obtain ⟨hkeys, hcode⟩ := hc
    rw [casesDoc, casesDoc, hkeys]
    exact ((Doc.Alike.refl _).append ((like_code hcode).indented _)).append ih

theorem like_arms {arms arms' : List (ExprCode × Code)}
    (h : List.Forall₂ (fun a a' => a.1.Alike W s a'.1 ∧ Code.Alike W s a.2 a'.2) arms arms') :
    Like W (armsDoc s arms) (armsDoc s arms') := by
  induction h with
  | nil => exact .refl _
  | @cons a a' _ _ ha _ ih =>
    obtain ⟨hguard, hcode⟩ := ha
    rw [armsDoc, armsDoc]
    exact (((((Doc.Alike.refl _).append (.refl _)).append hguard.doc).append (.refl _)).append
      (like_braced s (like_code hcode))).append ih

/-- Constructions are alike if they are of one kind and their parts are alike. -/
theorem Element.Alike.of_rel {form form' : FormCode} (place : Place)
    (h : Form.Rel Occurrence.Alike (Expr.Alike W s) (StmtCode.Alike W s) (Code.Alike W s)
      form form') : Element.Alike W s (.mk form place) (.mk form' place) := by
  refine ⟨rfl, ?_, h.isBlock_eq, h.isEmptyBlock_eq, h.isConditional_eq, h.isCountedLoop_eq⟩
  simp only [Element.place, Element.form]
  cases h with
  | block hs =>
    rw [formDoc, formDoc]
    exact like_block hs
  | conditional he ht hf =>
    rw [formDoc, formDoc]
    exact ((((Doc.Alike.refl _).append (like_parens he.doc)).append (.refl _)).append
      (like_braced s (like_code ht))).append (like_else hf)
  | whileLoop he hb =>
    rw [formDoc, formDoc]
    exact (((Doc.Alike.refl _).append (like_parens he.doc)).append (.refl _)).append
      (like_braced s (like_code hb))
  | doLoop he hb =>
    rw [formDoc, formDoc]
    exact ((((Doc.Alike.refl _).append (like_braced s (like_code hb))).append (.refl _)).append
      (like_parens he.doc)).append (.refl _)
  | countedLoop hi he hu hb =>
    rw [formDoc, formDoc]
    split
    · exact (like_countedHeader hi he.doc hu).append (like_braced s (like_code hb))
    · refine (((((like_optional hi ?_).append (.refl _)).append (.refl _)).append
        (like_parens he.doc)).append (.refl _)).append
          (like_braced s ((like_code hb).append (like_optional hu ?_)))
      · exact fun h => h.append (.refl _)
      · exact fun h => (Doc.Alike.refl _).append h
  | forEach hv he hb =>
    rw [formDoc, formDoc, loopVariables_eq hv]
    exact ((((((Doc.Alike.refl _).append (.refl _)).append (.refl _)).append he.doc).append
      (.refl _))).append (like_braced s (like_code hb))
  | guarded hb hh hc =>
    rw [formDoc, formDoc]
    refine (((Doc.Alike.refl _).append (like_braced s (like_code hb))).append
      (like_handlers hh)).append ?_
    cases hc with
    | none => exact .refl _
    | some h =>
      rw [cleanupDoc, cleanupDoc]
      exact (Doc.Alike.refl _).append (like_braced s (like_code h))
  | switch he hc =>
    rw [formDoc, formDoc]
    exact (((((Doc.Alike.refl _).append (like_parens he.doc)).append (.refl _)).append
      ((like_cases hc).indented _)).append (.refl _)).append (.refl _)
  | select he ha hf =>
    rw [formDoc, formDoc]
    refine (((((Doc.Alike.refl _).append (like_parens he.doc)).append (.refl _)).append
      (.indented ((((like_arms ha).append (.refl _)).append (.refl _)).append ?_) _)).append
        (.refl _)).append (.refl _)
    cases hf with
    | none => exact .refl _
    | some h =>
      rw [fallbackDoc, fallbackDoc]
      exact like_braced s (like_code h)

end Chains

end Unparse
