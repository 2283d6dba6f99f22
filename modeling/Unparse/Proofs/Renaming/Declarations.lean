import Unparse.Proofs.Failure.Classes
import Unparse.Proofs.Renaming.Chains

/-! # Declarations with renamed bodies

Declarations that are the same up to the keys of their bodies and up to the failures
recorded for them are printed alike, or fail alike. They differ only in comments: a
recorded failure is told by one, and the one that stands for a dropped method spells
the cause, and with it a key.
-/

namespace Unparse

open Layout (Doc)
open Layout.Doc (Like text)

variable {κ κ' : Type}

section Relations

variable (E : PrintError → PrintError → Prop) (N : String → Prop) (K : κ → κ' → Prop)

structure FieldDecl.Renamed (f : FieldDecl κ) (f' : FieldDecl κ') : Prop where
  annotations : f.annotations = f'.annotations
  modifiers : f.modifiers = f'.modifiers
  type : f.type = f'.type
  name : f.name = f'.name
  body : ∃ V C, f.body.Renamed V K C f'.body ∧ (∀ e e', PrintError.Renamed V C e e' → E e e') ∧
    Option.Rel (Expr.Renamed V K) f.initializer f'.initializer

/-- The methods differ only in the keys of their bodies. Failures are recorded for
methods of the names in `N` only. -/
structure MethodDecl.Renamed (m : MethodDecl κ) (m' : MethodDecl κ') : Prop where
  annotations : m.annotations = m'.annotations
  modifiers : m.modifiers = m'.modifiers
  generics : m.generics = m'.generics
  returnType : m.returnType = m'.returnType
  name : m.name = m'.name
  variadic : m.variadic = m'.variadic
  throws : m.throws = m'.throws
  error : m.error = m'.error
  recorded : m.error ≠ none → N m.name
  localClasses : List.Forall₂ K m.localClasses m'.localClasses
  body : ∃ V C, m.body.Renamed V K C m'.body ∧ (∀ e e', PrintError.Renamed V C e e' → E e e') ∧
    List.Forall₂ (fun p p' => V p.variableId p'.variableId ∧ p.annotations = p'.annotations)
      m.parameters m'.parameters

structure ClassDecl.Renamed (c : ClassDecl κ) (c' : ClassDecl κ') : Prop where
  package : c.package = c'.package
  imports : c.imports = c'.imports
  annotations : c.annotations = c'.annotations
  modifiers : c.modifiers = c'.modifiers
  kind : c.kind = c'.kind
  name : c.name = c'.name
  generics : c.generics = c'.generics
  superclass : c.superclass = c'.superclass
  interfaces : c.interfaces = c'.interfaces
  enumConstants : c.enumConstants = c'.enumConstants
  nested : c.nested = c'.nested
  error : c.error = c'.error
  fields : List.Forall₂ (FieldDecl.Renamed E K) c.fields c'.fields
  methods : List.Forall₂ (MethodDecl.Renamed E N K) c.methods c'.methods
  innerClasses : List.Forall₂ K c.innerClasses c'.innerClasses

/-- The comments stand for one dropped method, with causes that correspond. -/
inductive DroppedComment : String → String → Prop where
  | intro {name : String} {cause cause' : PrintError} (hn : N name) (he : E cause cause') :
    DroppedComment (Recorded.failureText "method" name cause.message)
      (Recorded.failureText "method" name cause'.message)

/-- Failures are recorded for both methods or for none, and are then related by `F`.
Besides, the methods differ only in the keys of their bodies. -/
structure MethodDecl.Matches (F : String → UnitError → UnitError → Prop) (m : MethodDecl κ)
    (m' : MethodDecl κ') : Prop where
  annotations : m.annotations = m'.annotations
  modifiers : m.modifiers = m'.modifiers
  generics : m.generics = m'.generics
  returnType : m.returnType = m'.returnType
  name : m.name = m'.name
  variadic : m.variadic = m'.variadic
  throws : m.throws = m'.throws
  error : Option.Rel (F m.name) m.error m'.error
  localClasses : List.Forall₂ K m.localClasses m'.localClasses
  body : ∃ V C, m.body.Renamed V K C m'.body ∧ (∀ e e', PrintError.Renamed V C e e' → E e e') ∧
    List.Forall₂ (fun p p' => V p.variableId p'.variableId ∧ p.annotations = p'.annotations)
      m.parameters m'.parameters

/-- Failures are recorded for both classes or for none, and are then related by `G`, as
those of their methods are by `F`. Besides, the classes differ only in the keys of the
bodies of their members. -/
structure ClassDecl.Matches (F G : String → UnitError → UnitError → Prop) (c : ClassDecl κ)
    (c' : ClassDecl κ') : Prop where
  package : c.package = c'.package
  imports : c.imports = c'.imports
  annotations : c.annotations = c'.annotations
  modifiers : c.modifiers = c'.modifiers
  kind : c.kind = c'.kind
  name : c.name = c'.name
  generics : c.generics = c'.generics
  superclass : c.superclass = c'.superclass
  interfaces : c.interfaces = c'.interfaces
  enumConstants : c.enumConstants = c'.enumConstants
  nested : c.nested = c'.nested
  error : Option.Rel (G c.name) c.error c'.error
  fields : List.Forall₂ (FieldDecl.Renamed E K) c.fields c'.fields
  methods : List.Forall₂ (MethodDecl.Matches E K F) c.methods c'.methods
  innerClasses : List.Forall₂ K c.innerClasses c'.innerClasses

end Relations

/-- The comments on failures that are related are the same or related by `W`, and so are
those on methods that are dropped for related causes. -/
structure Comments (E : PrintError → PrintError → Prop) (F G : String → UnitError → UnitError → Prop)
    (W : String → String → Prop) : Prop where
  method : ∀ {name error error'}, F name error error' →
    (Recorded.method name error).comment = (Recorded.method name error').comment ∨
      W (Recorded.method name error).comment (Recorded.method name error').comment
  dropped : ∀ {name error error' cause cause'}, F name error error' → E cause cause' →
    Recorded.failureText "method" name cause.message =
        Recorded.failureText "method" name cause'.message ∨
      W (Recorded.failureText "method" name cause.message)
        (Recorded.failureText "method" name cause'.message)
  cls : ∀ {name error error'}, G name error error' →
    (Recorded.cls name error).comment = (Recorded.cls name error').comment ∨
      W (Recorded.cls name error).comment (Recorded.cls name error').comment

variable {E : PrintError → PrintError → Prop} {N : String → Prop} {K : κ → κ' → Prop}
  {F G : String → UnitError → UnitError → Prop} {W : String → String → Prop}

abbrev SameFailure (N : String → Prop) (name : String) (error error' : UnitError) : Prop :=
  error = error' ∧ N name

theorem comments_renamed :
    Comments E (SameFailure N) (fun _ => Eq) (DroppedComment E N) where
  method h := .inl (by rw [h.1])
  dropped h hcause := .inr (.intro h.2 hcause)
  cls h := .inl (by rw [h])

theorem MethodDecl.Renamed.matched {m : MethodDecl κ} {m' : MethodDecl κ'}
    (h : m.Renamed E N K m') : m.Matches E K (SameFailure N) m' := by
  refine ⟨h.annotations, h.modifiers, h.generics, h.returnType, h.name, h.variadic, h.throws, ?_,
    h.localClasses, h.body⟩
  rw [← h.error]
  cases herror : m.error with
  | none => exact .none
  | some error => exact .some ⟨rfl, h.recorded (by simp [herror])⟩

theorem ClassDecl.Renamed.matched {c : ClassDecl κ} {c' : ClassDecl κ'} (h : c.Renamed E N K c') :
    c.Matches E K (SameFailure N) (fun _ => Eq) c' := by
  refine ⟨h.package, h.imports, h.annotations, h.modifiers, h.kind, h.name, h.generics,
    h.superclass, h.interfaces, h.enumConstants, h.nested, ?_, h.fields, ?_, h.innerClasses⟩
  · rw [← h.error]
    cases c.error with
    | none => exact .none
    | some error => exact .some rfl
  · exact h.methods.imp fun _ _ hm => hm.matched

section Heads

variable (s : Style)

theorem FieldDecl.Renamed.head_eq {f : FieldDecl κ} {f' : FieldDecl κ'} (h : f.Renamed E K f') :
    s.fieldHead f = s.fieldHead f' := by
  simp only [Style.fieldHead, h.annotations, h.modifiers, h.type, h.name]

theorem MethodDecl.Matches.head_eq {m : MethodDecl κ} {m' : MethodDecl κ'}
    (h : m.Matches E K F m') : s.methodHead m = s.methodHead m' := by
  simp only [Style.methodHead, isConstructor, h.annotations, h.modifiers, h.generics,
    h.returnType, h.name, h.throws]
  rfl

theorem MethodDecl.Matches.tail_eq {m : MethodDecl κ} {m' : MethodDecl κ'}
    (h : m.Matches E K F m') : s.methodTail m = s.methodTail m' := by
  simp only [Style.methodTail, h.returnType, h.throws]

theorem ClassDecl.Matches.header_eq {c : ClassDecl κ} {c' : ClassDecl κ'}
    (h : c.Matches E K F G c') : s.classHeader c = s.classHeader c' := by
  simp only [Style.classHeader, Style.packageAndImports, Style.supertypes, h.package, h.imports,
    h.annotations, h.modifiers, h.kind, h.name, h.generics, h.superclass, h.interfaces, h.nested]

end Heads

variable {s : Style} {view : κ → ClassText} {view' : κ' → ClassText}
  (hview : ∀ cls cls', K cls cls' → ClassText.Alike E W (view cls) (view' cls'))

include hview

theorem FieldDecl.Renamed.mirror_doc {f : FieldDecl κ} {f' : FieldDecl κ'}
    (h : f.Renamed E K f') :
    Printing.Mirror E (f.doc s view) (f'.doc s view') (Like W) := by
  obtain ⟨V, C, hbody, hE, hinitializer⟩ := h.body
  have hdoc : Printing.Mirror E (f.initializerDoc s view) (f'.initializerDoc s view') (Like W) := by
    unfold initializerDoc
    generalize f.initializer = initializer, f'.initializer = initializer' at hinitializer
    cases hinitializer with
    | none => exact .pure (.refl _)
    | some he =>
      have hcode := mirror_expr (s := s) hbody hE hview he
      refine (mirror_alone (fun _ _ => .fresh _ _) hcode).map fun _ _ he => ?_
      exact ((Doc.Alike.refl _).append (like_continued s he.doc)).grouped
  unfold doc
  rw [h.head_eq s]
  exact hdoc.map fun _ _ hd => ((Doc.Alike.refl _).append hd).append (.refl _)

variable (hW : Comments E F G W)

namespace MethodDecl.Matches

variable {m : MethodDecl κ} {m' : MethodDecl κ'} (h : m.Matches E K F m')
  {V : VariableId → VariableId → Prop} {C : ConstructionId → ConstructionId → Prop}
  (hbody : m.body.Renamed V K C m'.body) (hE : ∀ e e', PrintError.Renamed V C e e' → E e e')

include h hbody hE

omit hview in
theorem mirror_parameters
    (hps : List.Forall₂ (fun p p' => V p.variableId p'.variableId ∧ p.annotations = p'.annotations)
      m.parameters m'.parameters) :
    Mirror E (Scope.Renamed V C m.body m'.body) (m.parametersDoc s view)
      (m'.parametersDoc s view') (Like W) := by
  have hnumbered : List.Forall₂ (fun p p' => (V p.1.variableId p'.1.variableId ∧
      p.1.annotations = p'.1.annotations) ∧ p.2 = p'.2)
      m.parameters.zipIdx m'.parameters.zipIdx := forall₂_zipIdx hps 0
  unfold parametersDoc
  refine (Mirror.mapM hnumbered fun p p' hp => ?_).map fun _ _ hds => like_parens (like_list s hds)
  obtain ⟨⟨hv, hannotations⟩, hposition⟩ := hp
  refine (mirror_bind hbody hE hv).map fun v v' hv => ?_
  simp only [parameterDoc, h.variadic, hannotations, hposition, hps.length_eq, hv.name, hv.type]
  exact .refl _

omit hview hbody hE in
theorem isNone_eq : m.error.isNone = m'.error.isNone := by
  have herror := h.error
  generalize m.error = o, m'.error = o' at herror
  cases herror <;> rfl

/-- The chain of a method with a recorded failure leaves nothing on both sides or on
none. It may follow a comment. -/
theorem mirror_chain :
    Mirror E (Scope.Renamed V C m.body m'.body) (m.chainDoc s view) (m'.chainDoc s view')
      fun d d' => Doc.Alike W .loose d d' .loose := by
  unfold chainDoc
  refine .caught ((mirror_unfold hbody hE hview hbody.entry).map fun _ _ => behind_code_doc)
    fun cause cause' hcause => ?_
  rw [h.isNone_eq]
  refine .ite Iff.rfl (.throw_bind hcause) ?_
  exact (mirror_report (fun _ _ h => h.events _ _) _ _).map fun _ _ _ => .empty _

include hW

theorem mirror_body :
    Mirror E (Scope.Renamed V C m.body m'.body) (m.bodyDoc s view) (m'.bodyDoc s view')
      (Like W) := by
  have hclasses : Mirror E (Scope.Renamed V C m.body m'.body)
      (m.localClasses.mapM fun c => Walking.outside (view c).declaration)
      (m'.localClasses.mapM fun c => Walking.outside (view' c).declaration)
      (List.Forall₂ fun d d' => Doc.Alike W .fresh d d' .loose) :=
    .mapM h.localClasses fun cls cls' hcls =>
      mirror_outside (fun _ _ h => h.events _ _) (hview cls cls' hcls).declaration
  have hbraced {ds ds' : List Doc} {comment comment' d d' : Doc}
      (hds : List.Forall₂ (fun d d' => Doc.Alike W .fresh d d' .loose) ds ds')
      (hcomment : Doc.Alike W .loose comment comment' .loose)
      (hd : Doc.Alike W .loose d d' .loose) :
      Like W (text " " ++ s.braced (Doc.concat (ds.map (Doc.newline ++ ·)) ++ comment ++ d))
        (text " " ++ s.braced (Doc.concat (ds'.map (Doc.newline ++ ·)) ++ comment' ++ d')) := by
    have hlines : Doc.Alike W .loose (Doc.concat (ds.map (Doc.newline ++ ·)))
        (Doc.concat (ds'.map (Doc.newline ++ ·))) .loose := by
      refine .concat ?_
      rw [List.forall₂_map_left_iff, List.forall₂_map_right_iff]
      exact hds.imp fun _ _ hd => (Doc.Alike.newline _).append hd
    exact (Doc.Alike.refl _).append
      (like_braced s (((hlines.append hcomment).append hd).sub (.loose _) le_rfl))
  have hchain := mirror_chain (s := s) hview h hbody hE
  have herror := h.error
  unfold bodyDoc hasCode
  rw [h.modifiers]
  refine .ite Iff.rfl (.pure (.refl _)) (hclasses.bind fun ds ds' hds => ?_)
  generalize m.error = o, m'.error = o' at herror
  cases herror with
  | none => exact hchain.map fun _ _ hd => hbraced hds (.empty _) hd
  | @some error error' herror =>
    refine (mirror_report (fun _ _ h => h.events _ _) _ _).bind fun _ _ _ => ?_
    have hword (error : UnitError) : text ("// " ++ error.spell) =
        .word (Recorded.method m.name error).comment :=
      if_neg (by simp [← String.toList_inj])
    refine hchain.map fun _ _ hd => hbraced hds ((Doc.Alike.newline _).append ?_) hd
    rw [hword, hword]
    exact .comment_line (hW.method herror)

end MethodDecl.Matches

/-- The methods are printed alike, and either may be dropped for a comment on a line
of its own. -/
theorem MethodDecl.Matches.mirror_doc {m : MethodDecl κ} {m' : MethodDecl κ'}
    (hW : Comments E F G W) (h : m.Matches E K F m') :
    Printing.Mirror E (m.doc s view) (m'.doc s view')
      fun d d' => Doc.Alike W .fresh d d' .loose := by
  obtain ⟨V, C, hbody, hE, hps⟩ := h.body
  have hparameters : Mirror E (Scope.Renamed V C m.body m'.body) (m.parametersDoc s view)
      (m'.parametersDoc s view') (Like W) := mirror_parameters h hbody hE hps
  have hdeclaration : Printing.Mirror E (m.declarationDoc s view) (m'.declarationDoc s view')
      fun d d' => Doc.Alike W .fresh d d' .loose := by
    refine mirror_alone (fun _ _ => .fresh _ _) (hparameters.bind fun _ _ hps => ?_)
    refine (mirror_body hview hW h hbody hE).map fun _ _ hd => ?_
    rw [h.head_eq s, h.tail_eq s]
    exact ((((Doc.Alike.refl _).append hps).append (.refl _)).append hd).sub (.fresh _) (.loose _)
  unfold doc
  refine .caught hdeclaration fun cause cause' hcause => ?_
  have herror := h.error
  rw [← h.name]
  generalize m.error = o, m'.error = o' at herror
  cases herror with
  | none => exact .throw_bind hcause
  | some herror =>
    refine (Printing.mirror_report _ _).map fun _ _ _ => ?_
    rw [Style.failure_eq_word, Style.failure_eq_word]
    exact .comment_line (hW.dropped herror hcause)

namespace ClassDecl.Matches

variable {c : ClassDecl κ} {c' : ClassDecl κ'} (h : c.Matches E K F G c')

include h

omit hview in
theorem enumConstants_eq : c.enumConstantsDoc = c'.enumConstantsDoc := by
  simp only [enumConstantsDoc, h.enumConstants, forall₂_isEmpty h.fields,
    forall₂_isEmpty h.methods, forall₂_isEmpty h.innerClasses]

omit hview in
theorem like_assembled {fields fields' methods methods' classes classes' : List Doc}
    (hf : List.Forall₂ (Like W) fields fields')
    (hm : List.Forall₂ (fun d d' => Doc.Alike W .fresh d d' .loose) methods methods')
    (hc : List.Forall₂ (fun d d' => Doc.Alike W .fresh d d' .loose) classes classes') :
    Like W (c.assembled s fields methods classes) (c'.assembled s fields' methods' classes') := by
  have hline {d d' : Doc} (h : Like W d d') :
      Doc.Alike W .fresh d d' .loose := h.sub (.fresh _) (.loose _)
  have hconstants : List.Forall₂ (fun d d' => Doc.Alike W .fresh d d' .loose)
      (if c.enumConstants.isEmpty then [] else [c.enumConstantsDoc])
      (if c'.enumConstants.isEmpty then [] else [c'.enumConstantsDoc]) := by
    rw [h.enumConstants, h.enumConstants_eq]
    split
    · exact .nil
    · exact .cons (hline (.refl _)) .nil
  have hfields : List.Forall₂ (fun d d' => Doc.Alike W .fresh d d' .loose)
      (if fields.isEmpty then [] else [Doc.separated Doc.newline fields])
      (if fields'.isEmpty then [] else [Doc.separated Doc.newline fields']) := by
    rw [forall₂_isEmpty hf]
    split
    · exact .nil
    · exact .cons (hline (.separated le_rfl (.refl _) hf)) .nil
  have hsections := List.rel_append (List.rel_append (List.rel_append hconstants hfields) hm) hc
  change List.Forall₂ _ (c.sections fields methods classes)
    (c'.sections fields' methods' classes') at hsections
  unfold assembled
  generalize c.sections fields methods classes = sections,
    c'.sections fields' methods' classes' = sections' at hsections
  cases hsections with
  | nil => exact .refl _
  | cons hd hds =>
    refine like_braced (q := .loose) s ((Doc.Alike.newline _).append ?_)
    exact .separated (.loose _) ((Doc.Alike.newline _).append (.newline _)) (.cons hd hds)

include hW

theorem mirror_members :
    Printing.Mirror E (c.membersDoc s view) (c'.membersDoc s view') (Like W) := by
  rw [membersDoc_eq, membersDoc_eq]
  refine (Mirror.mapM h.fields fun _ _ hf => hf.mirror_doc hview).bind fun _ _ hfields => ?_
  refine (Mirror.mapM h.methods fun _ _ hm => hm.mirror_doc hview hW).bind fun _ _ hmethods => ?_
  refine (Mirror.mapM h.innerClasses fun _ _ hcls => (hview _ _ hcls).declaration).map
    fun _ _ hclasses => ?_
  exact h.like_assembled hfields hmethods hclasses

theorem mirror_doc :
    Printing.Mirror E (c.doc s view) (c'.doc s view')
      fun d d' => Doc.Alike W .fresh d d' .loose := by
  have hdeclaration : Printing.Mirror E (c.declarationDoc s view) (c'.declarationDoc s view')
      (Like W) := by
    unfold declarationDoc
    rw [h.header_eq s]
    exact (mirror_members hview hW h).map fun _ _ hd => (Doc.Alike.refl _).append hd
  have herror := h.error
  unfold doc
  rw [← h.name]
  generalize c.error = o, c'.error = o' at herror
  cases herror with
  | none => exact hdeclaration.mono fun _ _ hd => hd.sub (.fresh _) (.loose _)
  | some herror =>
    have hcomment := hW.cls herror
    refine (Printing.mirror_report _ _).bind fun _ _ _ => ?_
    rw [Style.failure_eq_word, Style.failure_eq_word]
    refine .caught (hdeclaration.map fun _ _ hd => ?_) fun cause cause' _ => ?_
    · exact ((Doc.Alike.comment_line hcomment).append (.newline _)).append
        (hd.sub (.fresh _) (.loose _))
    · exact (Printing.mirror_report _ _).map fun _ _ _ => .comment_line hcomment

theorem alike_toText : ClassText.Alike E W (c.toText s view) (c'.toText s view') where
  interface := congrArg List.head? h.interfaces
  superclass := h.superclass
  declaration := mirror_doc hview hW h
  members := mirror_members hview hW h

end ClassDecl.Matches

end Unparse
