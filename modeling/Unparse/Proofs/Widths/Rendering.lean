import Unparse.Print.Render
import Unparse.Proofs.Failure.Isolation
import Unparse.Proofs.Renaming.Mirror
import Unparse.Proofs.Widths.Traversal

/-! # Renderings of different widths

The width of lines moves blanks only. A class, a method and a field have one
document for all widths. Every line break of it is a line break of the text, and
between two of them stand the same characters but for blanks.
-/

namespace Unparse

open Layout (Doc BrokenInto)
open Layout.Doc (text Inked Tame)

variable {κ : Type}

section Declarations

variable (s : Style) {view : κ → ClassText} {d : Doc}

theorem inked_text {w : String} (hw : Text.ink w.toList ≠ []) : Inked (text w).leaves := by
  have hne : w ≠ "" := by
    rintro rfl
    exact hw rfl
  exact ⟨w, by simp [hne], hw⟩

theorem inked_parens : Inked d.parens.leaves := by
  rw [Doc.leaves_parens]
  exact ⟨"(", List.mem_cons_self, by decide⟩

theorem inked_braced : Inked (s.braced d).leaves :=
  ⟨"\x7d", by simp [Style.braced], by decide⟩

theorem tame_braced (h : d.Simple) : (s.braced d).Tame := by
  have hclosing : (text "\x7d").Tame := .text _
  exact hclosing.append_inked ⟨"\x7d", by simp, by decide⟩ (by simp [h])

theorem tame_annotationDoc (a : Annotation) : (s.annotationDoc a).Tame := by
  unfold Style.annotationDoc
  split
  · exact .text _
  · refine (Tame.text _).append ((tame_list s ?_).enclosed _ _)
    simp only [List.forall_mem_map]
    exact fun _ _ => .text _

theorem simple_annotations (as : List Annotation) : (s.annotations as).Simple := by
  refine Doc.simple_concat ?_
  simp only [List.forall_mem_map]
  intro a _
  simp [(tame_annotationDoc s a).simple]

theorem tame_concat {ds : List Doc} (h : ∀ d ∈ ds, d.Tame) : (Doc.concat ds).Tame := by
  have hfold : Doc.concat ds = Doc.separated .empty (.empty :: ds) := by
    simp [Doc.concat, Doc.separated]
  rw [hfold]
  exact Tame.separated .empty (List.forall_mem_cons.mpr ⟨.empty, h⟩)

theorem tame_parameterDoc (m : MethodDecl κ) (annotations : List Annotation) (last : Bool)
    (v : Occurrence) : (m.parameterDoc s annotations last v).Tame := by
  refine (tame_concat ?_).append (.text _)
  simp only [List.forall_mem_map]
  exact fun a _ => (tame_annotationDoc s a).append (.text _)

theorem tame_typeList (keyword : String) (types : List String) : (s.typeList keyword types).Tame := by
  cases types with
  | nil => exact .empty
  | cons first types =>
    have hfold (d : Doc) (hd : d.Tame) : (types.foldl
        (fun d type => d ++ text "," ++ (Doc.line ++ text type).indented s.double) d).Tame := by
      induction types generalizing d with
      | nil => exact hd
      | cons type types ih =>
        exact ih _ ((hd.append (.text _)).append ((Tame.line.append (.text _)).indented _))
    exact hfold _ ((Tame.line.append (.text _)).indented _)

theorem tame_supertypes (c : ClassDecl κ) : (s.supertypes c).Tame := by
  have hextended {extension : Doc} (h : extension.Tame) :=
    (h.append (tame_typeList s "implements " c.interfaces)).grouped
  unfold Style.supertypes
  split
  · cases c.superclass.filter (· ≠ s.lexicon.baseClass) with
    | none =>
      split
      · exact (tame_typeList s _ _).grouped
      · exact .empty
      · exact hextended .empty
      · exact hextended .empty
    | some name =>
      have hextends := hextended (tame_continued s (Tame.text ("extends " ++ name)))
      split
      · exact (tame_typeList s _ _).grouped
      · exact .empty
      · exact hextends
      · exact hextends
  · exact (tame_typeList s _ _).grouped

theorem simple_packageAndImports (c : ClassDecl κ) : (s.packageAndImports c).Simple := by
  have himports : (Doc.concat (c.imports.eraseDups.map fun name =>
      text ("import " ++ name ++ s.lexicon.terminator) ++ Doc.newline)).Simple := by
    refine Doc.simple_concat ?_
    simp
  unfold Style.packageAndImports
  split
  · exact Doc.simple_empty
  · cases c.package <;> simp [himports, apply_ite Doc.Simple]

theorem simple_generics (names : List String) : (Style.generics names).Simple := by
  unfold Style.generics
  split <;> simp

theorem simple_classHeader (c : ClassDecl κ) : (s.classHeader c).Simple := by
  simp [Style.classHeader, simple_packageAndImports, simple_annotations, Style.modifiers,
    simple_generics, (tame_supertypes s c).simple]

theorem simple_methodHead (m : MethodDecl κ) : (s.methodHead m).Simple := by
  unfold Style.methodHead
  cases s.target with
  | java =>
    cases m.returnType <;>
      simp [simple_annotations, Style.modifiers, simple_generics, apply_ite Doc.Simple]
  | kotlin => simp [simple_annotations, Style.modifiers, simple_generics, apply_ite Doc.Simple]

theorem tame_methodTail (m : MethodDecl κ) : (s.methodTail m).Tame := by
  unfold Style.methodTail
  split
  · unfold Style.throwsClause
    split
    · exact .empty
    · exact ((Tame.line.append (.text _)).indented _).grouped
  · split
    · split
      · exact .empty
      · exact .text _
    · exact .empty

theorem tame_field (f : FieldDecl κ) (h : d.Tame) : (s.fieldHead f ++ d ++ s.terminator).Tame := by
  have hfront : (s.annotations f.annotations ++ s.modifiers f.modifiers).Simple := by
    simp [simple_annotations, Style.modifiers]
  cases htarget : s.target with
  | java =>
    have hterminator : s.terminator = text ";" := by
      simp [Style.terminator, Style.lexicon, htarget, Target.lexicon]
    rw [hterminator]
    refine (Tame.text ";").append_inked (inked_text (by decide)) ?_
    exact Doc.simple_append.mpr ⟨Doc.simple_append.mpr ⟨hfront, Doc.simple_text _⟩, h.simple⟩
  | kotlin =>
    have hkeyword : Text.ink (if f.modifiers.contains .final then "val" else "var").toList ≠ [] := by
      split <;> decide
    have hhead : (s.fieldHead f).Tame := by
      simp only [Style.fieldHead, htarget]
      refine (Tame.text _).append_inked (inked_text ?_) hfront
      simp only [String.toList_append, Text.ink_append, ne_eq, List.append_eq_nil_iff]
      exact fun hnil => hkeyword hnil.1.1.1.1
    exact (hhead.append h).append (.text _)

theorem tame_bracedBody (m : MethodDecl κ) {classes : List Doc} (hclasses : ∀ d ∈ classes, d.Tame)
    (h : d.Simple) : (m.bracedBody s classes d).Tame := by
  have hlocals : (Doc.concat (classes.map (Doc.newline ++ ·))).Simple := by
    refine Doc.simple_concat ?_
    simp only [List.forall_mem_map]
    exact fun d hd => by simp [(hclasses d hd).simple]
  have hcomment : m.comment.Simple := by
    unfold MethodDecl.comment
    split <;> simp
  refine (Tame.text _).append (tame_braced s ?_)
  simp [hlocals, hcomment, h]

theorem tame_assembledBody (m : MethodDecl κ) {classes : Except PrintError (List Doc)}
    {chain : Except PrintError Code} (hclasses : ∀ ds, classes = .ok ds → ∀ d ∈ ds, d.Tame)
    (hchain : ∀ code, chain = .ok code → (codeDoc s code).Simple)
    (h : m.assembledBody s classes chain = .ok d) : d.Tame := by
  cases hcode : m.hasCode with
  | false =>
    rw [MethodDecl.assembledBody, hcode] at h
    cases h
    exact .text _
  | true =>
    obtain ⟨ds, kept, rfl, hkept, rfl⟩ := MethodDecl.exists_of_assembledBody hcode h
    refine tame_bracedBody s m (hclasses ds rfl) ?_
    unfold MethodDecl.kept at hkept
    split at hkept
    · next code =>
      cases hkept
      rw [MethodDecl.Code.doc_false]
      exact hchain code rfl
    · split at hkept
      · cases hkept
      · cases hkept
        exact Doc.simple_empty

/-- The parameters are written after every line break in front of them. -/
theorem tame_assembledMethod (m : MethodDecl κ) {parameters : Except PrintError Doc}
    {classes : Except PrintError (List Doc)} {chain : Except PrintError Code}
    (hparameters : ∀ d, parameters = .ok d → d.Tame ∧ Inked d.leaves)
    (hclasses : ∀ ds, classes = .ok ds → ∀ d ∈ ds, d.Tame)
    (hchain : ∀ code, chain = .ok code → (codeDoc s code).Simple)
    (h : m.assembled s parameters classes chain = .ok d) : d.Tame := by
  cases parameters with
  | error e => cases h
  | ok parameters =>
    obtain ⟨hp, hink⟩ := hparameters parameters rfl
    change (m.assembledBody s classes chain).map _ = _ at h
    cases hbody : m.assembledBody s classes chain with
    | error e =>
      rw [hbody] at h
      cases h
    | ok body =>
      rw [hbody] at h
      cases h
      have htail := (hp.append_inked hink (simple_methodHead s m)).append (tame_methodTail s m)
      exact htail.append (tame_assembledBody s m hclasses hchain hbody)

theorem tame_recoveredMethod (m : MethodDecl κ) {declaration : Except PrintError Doc}
    (hdeclaration : ∀ d, declaration = .ok d → d.Tame) (h : m.recovered declaration = .ok d) :
    d.Tame := by
  unfold MethodDecl.recovered at h
  split at h
  · next declaration =>
    cases h
    exact hdeclaration _ rfl
  · split at h
    · cases h
    · cases h
      exact .text _

theorem tame_assembled (c : ClassDecl κ) {fields methods classes : List Doc}
    (h : ∀ d ∈ fields ++ methods ++ classes, d.Tame) :
    (c.assembled s fields methods classes).Tame ∧
      Inked (c.assembled s fields methods classes).leaves := by
  have hsections : ∀ d ∈ c.sections fields methods classes, d.Simple := by
    have hfields : (Doc.separated Doc.newline fields).Simple :=
      Doc.simple_separated Doc.simple_newline fun d hd => (h d (by simp [hd])).simple
    unfold ClassDecl.sections
    simp only [List.forall_mem_append]
    refine ⟨⟨⟨?_, ?_⟩, fun d hd => (h d (by simp [hd])).simple⟩,
      fun d hd => (h d (by simp [hd])).simple⟩
    · split <;> simp [ClassDecl.enumConstantsDoc]
    · split <;> simp [hfields]
  unfold ClassDecl.assembled
  split
  · exact ⟨tame_braced s Doc.simple_empty, inked_braced s⟩
  · refine ⟨tame_braced s (Doc.simple_append.mpr ⟨Doc.simple_newline, ?_⟩), inked_braced s⟩
    exact Doc.simple_separated (by simp) (by assumption)

end Declarations

section Printings

variable {α β : Type} {s : Style} {view : κ → ClassText} {r : Recorded} {D M : κ → Prop}

def Printing.Ensures (p : Printing α) (P : α → Prop) : Prop := ∀ a, p.outcome = .ok a → P a

theorem Ensures.outside {p : Printing α} {P : α → Prop} {L : α → List Event → Prop}
    (h : p.Ensures P) (hp : Logs p L) : Ensures (Walking.outside p) P := by
  intro sc
  obtain ⟨log, hrun, -⟩ := hp.exists_run (x := sc.events)
  have houtside : (Walking.outside p).run.run sc =
      ((p.run.run sc.events).1, { sc with events := (p.run.run sc.events).2 }) := rfl
  rw [Walking.Meets, houtside, hrun.result_eq]
  cases hout : p.outcome with
  | ok a => exact h a hout
  | error e => trivial

theorem Ensures.alone {w : Walking α} {P : α → Prop} (h : Ensures w P) :
    (Walking.alone w).Ensures P := by
  intro a ha
  have hrun : (w.run.run {}).1 = .ok a := ha
  rcases hw : w.run.run {} with ⟨result, sc⟩
  rw [hw] at hrun
  obtain rfl : result = .ok a := hrun
  exact h.result hw

theorem Printing.Ensures.map {p : Printing α} {P : α → Prop} {Q : β → Prop}
    {L : α → List Event → Prop} (h : p.Ensures P) (hp : Logs p L) {g : α → β}
    (hg : ∀ a, P a → Q (g a)) : Printing.Ensures (do return g (← p)) Q := by
  intro b hb
  rw [outcome_map hp] at hb
  cases hout : p.outcome with
  | error e =>
    rw [hout] at hb
    cases hb
  | ok a =>
    rw [hout] at hb
    cases hb
    exact hg a (h a hout)

structure TameView (view : κ → ClassText) : Prop where
  declaration : ∀ cls, (view cls).declaration.Ensures Tame
  members : ∀ cls, (view cls).members.Ensures Tame

variable (hview : TameView view)
  (hm : ∀ cls, Logs (view cls).members fun d log => Told r (M cls) d.leaves log)
  (hd : ∀ cls, Logs (view cls).declaration fun d log => Told r (D cls) d.leaves log)
include hview hm

theorem FieldDecl.ensures_doc (f : FieldDecl κ) : (f.doc s view).Ensures Tame := by
  have hmembers (cls : κ) : Ensures (Walking.outside (view cls).members) Tame :=
    .outside (hview.members cls) (hm cls)
  have hinitializer : (f.initializerDoc s view).Ensures Tame := by
    unfold initializerDoc
    cases f.initializer with
    | none =>
      rintro _ ⟨⟩
      exact .empty
    | some e =>
      refine (ensures_resolve (c := s.context view f.body) s hmembers e).alone.map
        (logs_resolve s hm e).alone fun code h => ?_
      exact ((Tame.text _).append (tame_continued s h)).grouped
  exact hinitializer.map (logs_initializerDoc hm f) fun d h => tame_field s f h

include hd in
theorem MethodDecl.ensures_doc (m : MethodDecl κ) : (m.doc s view).Ensures Tame := by
  have hmembers (cls : κ) : Ensures (Walking.outside (view cls).members) Tame :=
    .outside (hview.members cls) (hm cls)
  have hsignature : (m.signature s view).Ensures fun d => d.Tame ∧ Inked d.leaves := by
    refine Ensures.alone ?_
    have hdocs : Ensures (m.parameters.zipIdx.mapM fun p => do
        let v ← (s.context view m.body).bind p.1.variableId
        return m.parameterDoc s p.1.annotations (p.2 + 1 == m.parameters.length) v)
        (List.Forall₂ (fun _ d => d.Tame) m.parameters.zipIdx) :=
      .mapM fun p => (Ensures.trivial _).map fun v _ => tame_parameterDoc s m _ _ v
    exact hdocs.map fun ds hds =>
      ⟨(tame_list s (forall_of_forall₂ hds)).enclosed _ _, inked_parens⟩
  have hchain : (m.chain s view).Ensures fun code => (codeDoc s code).Simple :=
    Ensures.alone ((Ensures.trivial _).bind fun _ _ =>
      ensures_simple_unfoldWithin (c := s.context view m.body) s hmembers _ _)
  have hclasses : ∀ ds, m.localClasses.mapM (fun cls => (view cls).declaration.outcome) = .ok ds →
      ∀ d ∈ ds, d.Tame :=
    fun ds hds => forall_of_mapM (fun cls => hview.declaration cls) hds
  intro d hdoc
  rw [m.outcome_doc hm hd] at hdoc
  exact tame_recoveredMethod m
    (fun _ => tame_assembledMethod s m hsignature hclasses hchain) hdoc

include hd in
theorem ClassDecl.ensures_membersDoc (c : ClassDecl κ) :
    (c.membersDoc s view).Ensures fun d => d.Tame ∧ Inked d.leaves := by
  intro d hdoc
  obtain ⟨fields, methods, classes, hfields, hmethods, hclasses, rfl⟩ :=
    c.exists_of_membersDoc hm hd hdoc
  refine tame_assembled s c ?_
  simp only [List.forall_mem_append]
  exact ⟨⟨forall_of_mapM (fun f => f.ensures_doc hview hm) hfields,
    forall_of_mapM (fun m => m.ensures_doc hview hm hd) hmethods⟩,
    forall_of_mapM (fun cls => hview.declaration cls) hclasses⟩

include hd in
theorem ClassDecl.ensures_doc (c : ClassDecl κ) : (c.doc s view).Ensures Tame := by
  have hmembers := c.ensures_membersDoc (s := s) hview hm hd
  have hdeclaration {members : Doc} (h : members.Tame ∧ Inked members.leaves) :
      (s.classHeader c ++ members).Tame ∧ Inked (s.classHeader c ++ members).leaves :=
    ⟨h.1.append_inked h.2 (simple_classHeader s c), by simpa using h.2.append_left⟩
  intro d hdoc
  rw [c.outcome_doc hm hd] at hdoc
  unfold recovered at hdoc
  split at hdoc
  · cases hout : (c.membersDoc s view).outcome with
    | error e =>
      rw [hout] at hdoc
      cases hdoc
    | ok members =>
      rw [hout] at hdoc
      cases hdoc
      exact (hdeclaration (hmembers members hout)).1
  · split at hdoc
    · next members hout =>
      cases hdoc
      obtain ⟨htame, hink⟩ := hdeclaration (hmembers members hout)
      exact htame.append_inked hink (by simp [Style.failure])
    · cases hdoc
      exact .text _

end Printings

/-- By induction on the depth, whatever is printed of a class is tame. -/
theorem ClassTree.ensures_toText (s : Style) {depth : Nat} (c : ClassTree depth) :
    (c.toText s).declaration.Ensures Tame ∧ (c.toText s).members.Ensures Tame := by
  induction depth with
  | zero => exact c.elim
  | succ depth ih =>
    have hview : TameView (ClassTree.toText s : ClassTree depth → ClassText) :=
      ⟨fun cls => (ih cls).1, fun cls => (ih cls).2⟩
    have hm (cls : ClassTree depth) := (cls.logs_toText s (.cls "" ⟨"", ""⟩)).2
    have hd (cls : ClassTree depth) := (cls.logs_toText s (.cls "" ⟨"", ""⟩)).1
    refine ⟨ClassDecl.ensures_doc hview hm hd c, fun d hdoc => ?_⟩
    exact (ClassDecl.ensures_membersDoc hview hm hd c d hdoc).1

/-- In every language and with every indentation, two widths make two texts of one
document, or fail with the same error. Between the line breaks of the document, which are
line breaks of both texts, stand the same characters but for blanks. -/
def BreaksAlike (p : Style → Printing Doc) : Prop :=
  ∀ (target : Target) (indentSize width width' : Nat) (events : List Event),
    Twin Eq
      (fun text text' => Text.ink text.toList = Text.ink text'.toList ∧
        ∃ d, ((p ⟨target, indentSize⟩).run.run events).1 = .ok d ∧ d.Simple ∧
          BrokenInto text.toList d.stretchInks ∧ BrokenInto text'.toList d.stretchInks)
      ((p ⟨target, indentSize⟩).render ⟨width, indentSize⟩ events).1
      ((p ⟨target, indentSize⟩).render ⟨width', indentSize⟩ events).1

theorem Printing.breaksAlike_of_ensures {p : Style → Printing Doc} {L : Style → Doc → List Event → Prop}
    (h : ∀ s, (p s).Ensures Tame) (hp : ∀ s, Logs (p s) (L s)) : BreaksAlike p := by
  intro target indentSize width width' events
  obtain ⟨log, hrun, -⟩ := (hp ⟨target, indentSize⟩).exists_run (x := events)
  have hresult := hrun.result_eq events
  unfold Printing.render
  rcases hout : (p ⟨target, indentSize⟩).run.run events with ⟨result, t⟩
  rw [hout] at hresult
  obtain rfl : result = _ := hresult
  cases houtcome : (p ⟨target, indentSize⟩).outcome with
  | error e => exact .error rfl
  | ok d =>
    have htame := h _ d houtcome
    refine .ok ⟨?_, d, rfl, htame.simple, htame.render width, htame.render width'⟩
    rw [(htame.render width).ink_eq, (htame.render width').ink_eq]

/-- Whatever the widths, classes, methods and fields break alike. -/
theorem renderings_break_alike {depth : Nat} :
    (∀ c : ClassTree depth, BreaksAlike fun s => c.doc s) ∧
      (∀ m : MethodDecl (ClassTree depth), BreaksAlike fun s => m.doc s (ClassTree.toText s)) ∧
      ∀ f : FieldDecl (ClassTree depth), BreaksAlike fun s => f.doc s (ClassTree.toText s) := by
  have hview (s : Style) : TameView (ClassTree.toText s : ClassTree depth → ClassText) :=
    ⟨fun cls => (cls.ensures_toText s).1, fun cls => (cls.ensures_toText s).2⟩
  have hm (s : Style) (cls : ClassTree depth) := (cls.logs_toText s (.cls "" ⟨"", ""⟩)).2
  have hd (s : Style) (cls : ClassTree depth) := (cls.logs_toText s (.cls "" ⟨"", ""⟩)).1
  refine ⟨fun c => ?_, fun m => ?_, fun f => ?_⟩
  · have hlogs (s : Style) : Logs (c.doc s) fun _ _ => True := by
      have hreport : Logs (Printing.report (.rendering c.name)) fun _ _ => True :=
        fun x => ⟨_, _, _, runs_printing_report x _, fun _ _ => trivial⟩
      exact hreport.bind fun _ _ _ => (hd s c).mono fun _ _ _ => trivial
    refine Printing.breaksAlike_of_ensures (fun s d hdoc => ?_) hlogs
    obtain ⟨log, hrun, -⟩ := (hd s c).exists_run (x := [])
    have hdeclaration := hrun.result_eq [.rendering c.name]
    exact (c.ensures_toText s).1 d (hdeclaration.symm.trans hdoc)
  · exact Printing.breaksAlike_of_ensures (fun s => m.ensures_doc (hview s) (hm s) (hd s))
      fun s => m.logs_doc (hm s) (hd s)
  · exact Printing.breaksAlike_of_ensures (fun s => f.ensures_doc (hview s) (hm s)) fun s => f.logs_doc (hm s)

end Unparse
