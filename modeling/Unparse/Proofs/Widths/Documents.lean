import Unparse.Print.Class
import Unparse.Proofs.Layout.Stretches
import Unparse.Proofs.Walk.Ensures

/-! # Where documents of code break

Whatever is printed of code leaves nothing open but where its lines break. An
expression breaks its line only inside the braces of an anonymous class, which
are closed behind the last line break.
-/

namespace Unparse

open Layout (Doc)
open Layout.Doc (text)

namespace Layout.Doc

section Simple

variable {d e : Doc} {ds : List Doc}

@[simp] theorem simple_empty : empty.Simple := nofun

@[simp] theorem simple_text (s : String) : (text s).Simple := by
  intro leaf hleaf
  rw [leaves_text] at hleaf
  split at hleaf
  · cases hleaf
  · obtain rfl := List.mem_singleton.mp hleaf
    exact .word s

@[simp] theorem simple_line : line.Simple := by
  intro leaf hleaf
  obtain rfl := List.mem_singleton.mp hleaf
  exact .line

@[simp] theorem simple_newline : newline.Simple := by
  intro leaf hleaf
  obtain rfl := List.mem_singleton.mp hleaf
  exact .newline

@[simp] theorem simple_softline : softline.Simple := simple_line

@[simp] theorem simple_append : (d ++ e).Simple ↔ d.Simple ∧ e.Simple := by
  simp [Simple, or_imp, forall_and]

@[simp] theorem simple_indented (n : Int) : (d.indented n).Simple ↔ d.Simple := by
  simp [Simple]

@[simp] theorem simple_grouped : d.grouped.Simple ↔ d.Simple := by simp [Simple]

@[simp] theorem simple_enclosed (opening closing : String) :
    (d.enclosed opening closing).Simple ↔ d.Simple := by
  have hword (s : String) : (word s).IsLeaf := .word s
  simp [Simple, or_imp, forall_and, hword]

@[simp] theorem simple_parens : d.parens.Simple ↔ d.Simple := simple_enclosed _ _

theorem simple_separated {sep : Doc} (hsep : sep.Simple) (h : ∀ d ∈ ds, d.Simple) :
    (separated sep ds).Simple := by
  cases ds with
  | nil => exact simple_empty
  | cons d ds =>
    rw [List.forall_mem_cons] at h
    intro leaf hleaf
    simp only [leaves_separated_cons, List.mem_append, List.mem_flatMap] at hleaf
    rcases hleaf with hleaf | ⟨e, he, hleaf | hleaf⟩
    · exact h.1 leaf hleaf
    · exact hsep leaf hleaf
    · exact h.2 e he leaf hleaf

theorem simple_concat (h : ∀ d ∈ ds, d.Simple) : (concat ds).Simple := by
  intro leaf hleaf
  rw [leaves_concat] at hleaf
  obtain ⟨d, hd, hleaf⟩ := List.mem_flatMap.mp hleaf
  exact h d hd leaf hleaf

end Simple

section Closed

variable {ls ms : List Doc} {s : String}

theorem Inked.append_left (h : Inked ms) : Inked (ls ++ ms) := by
  obtain ⟨s, hs, hne⟩ := h
  exact ⟨s, List.mem_append_right _ hs, hne⟩

theorem Inked.append_right (h : Inked ls) : Inked (ls ++ ms) := by
  obtain ⟨s, hs, hne⟩ := h
  exact ⟨s, List.mem_append_left _ hs, hne⟩

theorem Closed.append (h : Closed ls) (h' : Closed ms) : Closed (ls ++ ms) := by
  induction ls with
  | nil => exact h'
  | cons leaf ls ih => exact ⟨fun hleaf => (h.1 hleaf).append_right, ih h.2⟩

theorem Closed.append_inked (h : Closed ms) (hink : Inked ms) (ls : List Doc) : Closed (ls ++ ms) := by
  induction ls with
  | nil => exact h
  | cons leaf ls ih => exact ⟨fun _ => hink.append_left, ih⟩

theorem closed_of_newline_not_mem (h : newline ∉ ls) : Closed ls := by
  induction ls with
  | nil => trivial
  | cons leaf ls ih =>
    rw [List.mem_cons, not_or] at h
    exact ⟨fun hleaf => (h.1 hleaf.symm).elim, ih h.2⟩

end Closed

namespace Tame

variable {d e : Doc} {ds : List Doc}

theorem empty : Doc.empty.Tame := ⟨simple_empty, trivial⟩

theorem text (s : String) : (text s).Tame := by
  refine ⟨simple_text s, closed_of_newline_not_mem ?_⟩
  rw [leaves_text]
  split <;> simp

theorem line : line.Tame := ⟨simple_line, closed_of_newline_not_mem (by simp [Doc.line])⟩

theorem append (hd : d.Tame) (he : e.Tame) : (d ++ e).Tame := by
  refine ⟨simple_append.mpr ⟨hd.simple, he.simple⟩, ?_⟩
  rw [leaves_append]
  exact hd.closed.append he.closed

/-- In front of something that is written, a document may be any simple one. -/
theorem append_inked (he : e.Tame) (hink : Inked e.leaves) (hd : d.Simple) : (d ++ e).Tame := by
  refine ⟨simple_append.mpr ⟨hd, he.simple⟩, ?_⟩
  rw [leaves_append]
  exact he.closed.append_inked hink _

theorem indented (h : d.Tame) (n : Int) : (d.indented n).Tame := by
  refine ⟨(simple_indented n).mpr h.simple, ?_⟩
  rw [leaves_indented]
  exact h.closed

theorem grouped (h : d.Tame) : d.grouped.Tame := by
  refine ⟨simple_grouped.mpr h.simple, ?_⟩
  rw [leaves_grouped]
  exact h.closed

theorem enclosed (h : d.Tame) (opening closing : String) : (d.enclosed opening closing).Tame := by
  have hword (s : String) : (word s).Tame :=
    ⟨fun leaf hleaf => List.mem_singleton.mp hleaf ▸ .word s, closed_of_newline_not_mem (by simp)⟩
  exact ((hword opening).append h).append (hword closing)

theorem separated {sep : Doc} (hsep : sep.Tame) (h : ∀ d ∈ ds, d.Tame) :
    (separated sep ds).Tame := by
  cases ds with
  | nil => exact empty
  | cons d ds =>
    rw [Doc.separated]
    induction ds generalizing d with
    | nil => simpa using h
    | cons e ds ih =>
      simp only [List.forall_mem_cons] at h
      refine ih (d ++ sep ++ e) ?_
      exact List.forall_mem_cons.mpr ⟨(h.1.append hsep).append h.2.1, h.2.2⟩

end Tame

end Layout.Doc

section Expressions

variable (s : Style) {d : Doc} {ds : List Doc}

theorem tame_operand (h : d.Tame) (own : Option Operation) (around : Operation)
    (associative : Bool) : (s.operand own around associative d).Tame := by
  unfold Style.operand
  split
  · split
    · exact h.enclosed _ _
    · exact h
  · exact h

theorem tame_owner (h : d.Tame) (own : Option Operation) (around : Operation) :
    (s.owner own around d).Tame := tame_operand s h own around _

theorem tame_continued (h : d.Tame) : (s.continued d).Tame := (Doc.Tame.line.append h).indented _

theorem tame_list (h : ∀ d ∈ ds, d.Tame) : (s.list ds).Tame :=
  ((Doc.Tame.separated ((Doc.Tame.text ",").append Doc.Tame.line.grouped) h).indented _).grouped

theorem tame_arguments (h : ∀ d ∈ ds, d.Tame) : (s.arguments ds).Tame := by
  refine (tame_list s ?_).enclosed _ _
  rintro _ hgrouped
  obtain ⟨d, hd, rfl⟩ := List.mem_map.mp hgrouped
  exact (h d hd).grouped

theorem tame_sizedArray (h : ∀ d ∈ ds, d.Tame) (element : String) :
    (Style.sizedArray element ds).Tame := by
  induction ds with
  | nil => exact .empty
  | cons size sizes ih =>
    rw [List.forall_mem_cons] at h
    cases sizes with
    | nil => exact (Doc.Tame.text _).append (h.1.enclosed _ _)
    | cons next sizes =>
      exact ((((Doc.Tame.text _).append (h.1.enclosed _ _)).append (.text _)).append
        (ih h.2)).append (.text _)

theorem tame_createArray (h : ∀ d ∈ ds, d.Tame) (element : String) :
    (s.createArray element ds none).Tame := by
  rw [Style.createArray]
  split
  · have hfold (d : Doc) (hd : d.Tame) : (ds.foldl (fun d size => d ++ size.brackets) d).Tame := by
      induction ds generalizing d with
      | nil => exact hd
      | cons size ds ih =>
        rw [List.forall_mem_cons] at h
        exact ih h.2 (d ++ size.brackets) (hd.append (h.1.enclosed _ _))
    exact hfold _ (.text _)
  · exact tame_sizedArray h element

theorem tame_createArray_elements (h : ∀ d ∈ ds, d.Tame) (element : String) :
    (s.createArray element [] (some ds)).Tame := by
  rw [Style.createArray]
  split
  · exact ((Doc.Tame.text _).append (.text _)).append ((tame_list s h).enclosed _ _)
  · exact (Doc.Tame.text _).append ((tame_list s h).enclosed _ _)

theorem tame_binary {left right : Option Operation × Doc} (hl : left.2.Tame) (hr : right.2.Tame)
    (op : BinaryOp) : (s.binary op left right).Tame :=
  (((tame_operand s hl _ _ _).append (.text _)).append
    (tame_continued s (tame_operand s hr _ _ _))).grouped

theorem tame_compound {target amount : Option Operation × Doc} (ht : target.2.Tame)
    (ha : amount.2.Tame) (op : BinaryOp) : (s.compound op target amount).Tame :=
  (((tame_operand s ht _ _ _).append (.text _)).append
    (tame_continued s (tame_operand s ha _ _ _))).grouped

theorem tame_unary (h : d.Tame) (op : Operation) (own : Option Operation) :
    (s.unary op own d).Tame := by
  unfold Style.unary
  split
  · exact (tame_owner s h _ _).append (.text _)
  · exact (Doc.Tame.text _).append (tame_owner s h _ _)

theorem tame_cast (h : d.Tame) (type : String) (own : Option Operation) :
    (s.cast type own d).Tame := by
  unfold Style.cast
  split
  · exact (Doc.Tame.text _).append (tame_owner s h _ _)
  · exact (tame_owner s h _ _).append (.text _)

theorem tame_instanceOf (h : d.Tame) (type : String) (inverted : Bool) (own : Option Operation) :
    (s.instanceOf type inverted own d).Tame := by
  have htest (token : String) :
      (s.operand own .instanceOf true d ++ text (" " ++ token ++ " " ++ type)).Tame :=
    (tame_operand s h _ _ _).append (.text _)
  unfold Style.instanceOf
  split
  · exact htest _
  · exact htest _
  · exact (Doc.Tame.text _).append ((htest _).enclosed _ _)

theorem tame_ternary {e l r : Doc} (he : e.Tame) (hl : l.Tame) (hr : r.Tame) :
    (s.ternary e l r).Tame :=
  (((Doc.Tame.text _).append (he.enclosed _ _)).append
    (((((Doc.Tame.line.append (.text _)).append hl).append (.text _)).append hr).indented _)).grouped

theorem tame_anonymous {cls : AnonymousCode} (hcls : cls.members.Tame) (h : ∀ d ∈ ds, d.Tame) :
    (s.anonymous cls ds).Tame := by
  have haround {header : Doc} (hheader : header.Tame) :=
    (((Doc.Tame.text s.lexicon.anonymousKeyword).append hheader).append (.text " ")).append hcls
  unfold Style.anonymous
  cases cls.interface with
  | some interface => exact haround (.text _)
  | none => exact haround ((Doc.Tame.text _).append (tame_arguments s h))

end Expressions

section Code

variable (s : Style)

theorem simple_braced {d : Doc} : (s.braced d).Simple ↔ d.Simple := by simp [Style.braced]

theorem simple_labelDoc (p : Place) : (s.labelDoc p).Simple := by
  unfold Style.labelDoc
  split <;> simp

theorem simple_jumpsDoc (p : Place) : (s.jumpsDoc p).Simple := by
  have hjump (keyword : String) (j : Option Jump) : (s.jumpDoc keyword j).Simple := by
    unfold Style.jumpDoc
    split <;> simp
  simp [Style.jumpsDoc, hjump]

theorem simple_leadDoc (form : FormCode) : (Style.leadDoc form).Simple := by
  unfold Style.leadDoc
  split <;> simp

theorem simple_stmt {stmt : StmtCode} (h : (stmt.bodyDoc s).Simple) : (stmt.doc s).Simple := by
  simp [StmtCode.doc, Style.terminator, h]

theorem simple_optional {stmt : Option StmtCode} {f : Doc → Doc}
    (h : ∀ code ∈ stmt, (code.bodyDoc s).Simple) (hf : ∀ d : Doc, d.Simple → (f d).Simple) :
    (s.optional f stmt).Simple := by
  cases stmt with
  | none => exact Doc.simple_empty
  | some code =>
    rw [Style.optional]
    split
    · exact Doc.simple_empty
    · exact hf _ (simple_stmt s (h code rfl))

theorem simple_blockDoc {statements : List StmtCode}
    (h : ∀ code ∈ statements, (code.bodyDoc s).Simple) : (s.blockDoc statements).Simple := by
  refine Doc.simple_concat ?_
  simp only [List.forall_mem_map, List.mem_filter]
  rintro code ⟨hcode, -⟩
  simpa using simple_stmt s (h code hcode)

theorem simple_countedHeader {init update : Option StmtCode} {condition : Doc}
    (hi : ∀ code ∈ init, (code.bodyDoc s).Simple) (hc : condition.Simple)
    (hu : ∀ code ∈ update, (code.bodyDoc s).Simple) :
    (s.countedHeader init condition update).Simple := by
  cases init <;> cases update <;> simp_all [Style.countedHeader]

theorem simple_loopVariables (vs : List Occurrence) : (s.loopVariables vs).Simple := by
  have htexts : ∀ d ∈ vs.map fun v => text (s.target.declaration .forEach v.name v.type),
      d.Simple := by simp
  unfold Style.loopVariables
  split
  · next d heq => exact htexts d (by simp [heq])
  · exact Doc.simple_parens.mpr (Doc.simple_separated (Doc.simple_text _) htexts)

theorem simple_caseLabels (keys : List (Option Literal)) : (s.caseLabels keys).Simple := by
  refine Doc.simple_concat ?_
  simp only [List.forall_mem_map]
  rintro (_ | key) _ <;> simp

theorem simple_handlersDoc {handlers : List (Occurrence × Code)}
    (h : ∀ handler ∈ handlers, (codeDoc s handler.2).Simple) : (handlersDoc s handlers).Simple := by
  induction handlers with
  | nil => exact Doc.simple_empty
  | cons handler handlers ih =>
    rw [List.forall_mem_cons] at h
    simp [handlersDoc, simple_braced, h.1, ih h.2]

theorem simple_casesDoc {cases : List (List (Option Literal) × Code)}
    (h : ∀ case ∈ cases, (codeDoc s case.2).Simple) : (casesDoc s cases).Simple := by
  induction cases with
  | nil => exact Doc.simple_empty
  | cons case cases ih =>
    rw [List.forall_mem_cons] at h
    simp [casesDoc, simple_caseLabels, h.1, ih h.2]

theorem simple_armsDoc {arms : List (ExprCode × Code)}
    (h : ∀ arm ∈ arms, (arm.1.doc s).Simple ∧ (codeDoc s arm.2).Simple) :
    (armsDoc s arms).Simple := by
  induction arms with
  | nil => exact Doc.simple_empty
  | cons arm arms ih =>
    rw [List.forall_mem_cons] at h
    simp [armsDoc, simple_braced, h.1, ih h.2]

/-- An `else` branch writes its chain, collapsed or not. -/
theorem simple_elseDoc {code : Code} (h : (codeDoc s code).Simple) :
    (elseDoc s (some code)).Simple := by
  rcases code with _ | ⟨e, _ | ⟨f, es⟩⟩
  · simp [elseDoc, simple_braced]
  · simpa [elseDoc, simple_braced, codeDoc] using h
  · rw [elseDoc]
    split <;> simp_all [simple_braced, codeDoc]

theorem simple_formDoc {form : FormCode}
    (h : form.Each (fun e => (e.doc s).Simple) (fun stmt => (stmt.bodyDoc s).Simple)
      fun code => (codeDoc s code).Simple) (place : Place) : (formDoc s place form).Simple := by
  cases form with
  | block statements => exact simple_blockDoc s h
  | conditional e whenTrue whenFalse =>
    obtain ⟨he, ht, hf⟩ := h
    have helse : (elseDoc s whenFalse).Simple := by
      cases whenFalse with
      | none => exact Doc.simple_empty
      | some code => exact simple_elseDoc s (hf code rfl)
    simp [formDoc, simple_braced, he, ht, helse]
  | whileLoop e body => simp [formDoc, simple_braced, h.1, h.2]
  | doLoop e body => simp [formDoc, simple_braced, Style.terminator, h.1, h.2]
  | countedLoop init e update body =>
    obtain ⟨hi, he, hu, hb⟩ := h
    rw [formDoc]
    split
    · simp [simple_braced, simple_countedHeader s hi he hu, hb]
    · simp [simple_braced, simple_labelDoc, he, hb,
        simple_optional s hi (f := (· ++ Doc.newline)) (by simp),
        simple_optional s hu (f := (Doc.newline ++ ·)) (by simp)]
  | forEach vars e body => simp [formDoc, simple_braced, simple_loopVariables, h.1, h.2]
  | guarded body handlers cleanup =>
    obtain ⟨hb, hh, hc⟩ := h
    have hcleanup : (cleanupDoc s cleanup).Simple := by
      cases cleanup with
      | none => exact Doc.simple_empty
      | some code => simp [cleanupDoc, simple_braced, hc code rfl]
    simp [formDoc, simple_braced, hb, simple_handlersDoc s hh, hcleanup]
  | switch e cases => simp [formDoc, h.1, simple_casesDoc s h.2]
  | select e arms fallback =>
    obtain ⟨he, ha, hf⟩ := h
    have hfallback : (fallbackDoc s fallback).Simple := by
      cases fallback with
      | none => exact Doc.simple_text _
      | some code => simp [fallbackDoc, simple_braced, hf code rfl]
    simp [formDoc, he, simple_armsDoc s ha, hfallback]

end Code

end Unparse
