import Unparse.Proofs.Failure.Traversal

/-! # Runs of declarations

What a declaration comes to is determined by what each of its parts comes to
alone: the parameters, the local classes and the chain of a method, and the
members of a class.
-/

namespace Unparse

open Layout (Doc)
open Layout.Doc (text)

variable {κ : Type} (s : Style) (view : κ → ClassText)

namespace MethodDecl

variable (m : MethodDecl κ)

def signature : Printing Doc := Walking.alone (m.parametersDoc s view)

def chain : Printing Code := Walking.alone do
  let _ ← m.parametersDoc s view
  (s.context view m.body).unfold m.body.entry

def comment : Doc :=
  match m.error with
  | some error => Doc.newline ++ text ("// " ++ error.spell)
  | none => Doc.empty

/-- What is left of a chain. If a failure was recorded, it is all or nothing. -/
def kept (chain : Except PrintError Code) : Except PrintError Doc :=
  match chain with
  | .ok code => .ok (code.doc s false)
  | .error e => if m.error.isNone then .error e else .ok Doc.empty

def bracedBody (classes : List Doc) (chain : Doc) : Doc :=
  text " " ++ s.braced (Doc.concat (classes.map (Doc.newline ++ ·)) ++ m.comment ++ chain)

def assembledBody (classes : Except PrintError (List Doc)) (chain : Except PrintError Code) :
    Except PrintError Doc :=
  if m.hasCode then do
    let classes ← classes
    (m.kept s chain).map (m.bracedBody s classes)
  else return s.terminator

def assembled (parameters : Except PrintError Doc) (classes : Except PrintError (List Doc))
    (chain : Except PrintError Code) : Except PrintError Doc := do
  let parameters ← parameters
  (m.assembledBody s classes chain).map (s.methodHead m ++ parameters ++ s.methodTail m ++ ·)

variable {s view m}

theorem steady_parametersDoc (m : MethodDecl κ) : Logs (m.parametersDoc s view) fun _ _ => True := by
  have hdocs : Logs (m.parameters.zipIdx.mapM fun p => do
      let v ← (s.context view m.body).bind p.1.variableId
      return m.parameterDoc s p.1.annotations (p.2 + 1 == m.parameters.length) v)
      fun _ _ => True :=
    .mapM fun p _ => (logs_bind _ _).map fun _ _ _ => trivial
  exact hdocs.map fun _ _ _ => trivial

variable {sc sc' : Scope} {classes : Except PrintError (List Doc)} {chain : Except PrintError Code}
  {l₁ l₂ : List Event}

theorem runs_chainDoc (hc : Runs sc ((s.context view m.body).unfold m.body.entry) chain sc' l₁) :
    ∃ log, Runs sc (m.chainDoc s view) (m.kept s chain) sc' log ∧ l₁ ⊆ log := by
  cases chain with
  | ok code => exact ⟨l₁, hc.map.caught, List.Subset.refl _⟩
  | error e =>
    have hhandle : ∃ l₂, Runs sc' (do
        if m.error.isNone then throw e
        Walking.report (.methodDropped m.name e)
        return Doc.empty) (m.kept s (.error e)) sc' l₂ := by
      cases herror : m.error with
      | none =>
        simp only [kept, herror, Option.isNone_none, if_true]
        exact ⟨_, (runs_throw sc' e).bind_error⟩
      | some error =>
        simp only [kept, herror, Option.isNone_some, Bool.false_eq_true, if_false]
        exact ⟨_, (runs_report sc' _).map⟩
    obtain ⟨l₂, hhandle⟩ := hhandle
    exact ⟨l₁ ++ l₂, hc.map.caught_error hhandle, List.subset_append_left _ _⟩

theorem runs_bodyDoc
    (hl : Runs sc (m.localClasses.mapM fun c => Walking.outside (view c).declaration) classes sc l₁)
    (hc : Runs sc ((s.context view m.body).unfold m.body.entry) chain sc' l₂) :
    ∃ s' log, Runs sc (m.bodyDoc s view) (m.assembledBody s classes chain) s' log ∧
      (m.hasCode = true → ∀ ds, classes = .ok ds →
        l₁ ⊆ log ∧ l₂ ⊆ log ∧ ∀ error ∈ m.error, .methodFailed m.name error ∈ log) := by
  unfold bodyDoc assembledBody
  cases hcode : m.hasCode with
  | false => exact ⟨_, _, runs_pure sc s.terminator, nofun⟩
  | true =>
    simp only [Bool.not_true, Bool.false_eq_true, if_false, if_true]
    cases classes with
    | error e => exact ⟨_, _, hl.bind_error, nofun⟩
    | ok ds =>
      obtain ⟨l₃, hchain, hsub⟩ := runs_chainDoc hc
      have hrest : Runs sc (do return m.bracedBody s ds (← m.chainDoc s view))
          ((m.kept s chain).map (m.bracedBody s ds)) sc' l₃ := hchain.map
      cases herror : m.error with
      | none =>
        simp only [bracedBody, comment, herror] at hrest ⊢
        refine ⟨sc', l₁ ++ l₃, hl.bind hrest, fun _ _ _ => ⟨List.subset_append_left _ _, ?_, nofun⟩⟩
        exact fun x hx => List.mem_append_right _ (hsub hx)
      | some error =>
        simp only [bracedBody, comment, herror] at hrest ⊢
        refine ⟨sc', l₁ ++ ([.methodFailed m.name error] ++ l₃),
          hl.bind ((runs_report sc _).bind hrest), fun _ _ _ => ⟨List.subset_append_left _ _, ?_, ?_⟩⟩
        · intro x hx
          simp [hsub hx]
        · rintro _ ⟨⟩
          simp

variable {r : Recorded} {D M : κ → Prop}

theorem runs_locals
    (hd : ∀ cls, Logs (view cls).declaration fun d log => Told r (D cls) d.leaves log)
    (classes : List κ) (sc : Scope) :
    ∃ log, Runs sc (classes.mapM fun c => Walking.outside (view c).declaration)
        (classes.mapM fun c => (view c).declaration.outcome) sc log ∧
      ∀ ds, classes.mapM (fun c => (view c).declaration.outcome) = .ok ds →
        Told r (Hits D classes) (ds.flatMap Doc.leaves) log := by
  induction classes with
  | nil =>
    refine ⟨[], runs_pure sc [], ?_⟩
    rintro _ ⟨⟩
    exact .of_not hits_nil
  | cons cls classes ih =>
    obtain ⟨l₁, hcls, htold⟩ := (hd cls).exists_run (x := [])
    obtain ⟨l₂, hrest, htolds⟩ := ih
    have houtside := runs_outside hcls sc
    simp only [List.mapM_cons]
    cases hdoc : (view cls).declaration.outcome with
    | error e =>
      rw [hdoc] at houtside
      exact ⟨l₁, houtside.bind_error, nofun⟩
    | ok d =>
      rw [hdoc] at houtside
      refine ⟨l₁ ++ l₂, houtside.bind hrest.map, ?_⟩
      intro ds hds
      cases hdocs : classes.mapM (fun c => (view c).declaration.outcome) with
      | error e =>
        rw [hdocs] at hds
        cases hds
      | ok docs =>
        rw [hdocs] at hds
        obtain rfl : d :: docs = ds := Except.ok.inj hds
        exact ((htold d hdoc).append (htolds docs hdocs)).mono hits_cons.mp (List.Subset.refl _)

variable (s view) in
/-- A method with code is to tell of its own recorded failure, and of those in
its local classes and in the classes that its chain creates, if there is one. -/
def Owes (r : Recorded) (D M : κ → Prop) (m : MethodDecl κ) : Prop :=
  m.hasCode = true ∧
    ((∃ error ∈ m.error, r = .method m.name error) ∨ Hits D m.localClasses ∨
      (∃ code, (m.chain s view).outcome = .ok code) ∧
        (s.context view m.body).Creates M m.body.entry)

theorem Code.doc_false (code : Code) : Code.doc s false code = codeDoc s code := by
  cases code <;> rfl

theorem word_mem_comment {error : UnitError} (herror : m.error = some error) :
    Doc.word ("// " ++ error.spell) ∈ m.comment.leaves := by
  have hne : "// " ++ error.spell ≠ "" := by
    intro h
    have hlength := congrArg String.length h
    simp at hlength
  simp [comment, herror, hne]

theorem mem_bracedBody {ds : List Doc} {kept leaf : Doc}
    (h : leaf ∈ ds.flatMap Doc.leaves ++ (m.comment.leaves ++ kept.leaves)) :
    leaf ∈ (m.bracedBody s ds kept).leaves := by
  have hbody : leaf ∈
      (Doc.concat (ds.map (Doc.newline ++ ·)) ++ m.comment ++ kept).leaves := by
    simp only [List.mem_append] at h
    simp only [Doc.leaves_append, Doc.leaves_concat, List.mem_append, List.flatMap_map]
    rcases h with h | h | h
    · obtain ⟨d, hd, hleaf⟩ := List.mem_flatMap.mp h
      exact .inl (.inl (List.mem_flatMap.mpr ⟨d, hd, List.mem_append_right _ hleaf⟩))
    · exact .inl (.inr h)
    · exact .inr h
  rw [bracedBody, Doc.leaves_append]
  exact List.mem_append_right _ (mem_braced s hbody)

theorem exists_of_assembledBody {body : Doc} (hcode : m.hasCode = true)
    (h : m.assembledBody s classes chain = .ok body) :
    ∃ ds kept, classes = .ok ds ∧ m.kept s chain = .ok kept ∧ body = m.bracedBody s ds kept := by
  rw [assembledBody, if_pos hcode] at h
  obtain ⟨ds, hds, h⟩ := bind_eq_ok_iff.mp h
  obtain ⟨kept, hkept, rfl⟩ := map_eq_ok_iff.mp h
  exact ⟨ds, kept, hds, hkept, rfl⟩

theorem exists_of_assembled {parameters : Except PrintError Doc} {d : Doc} (hcode : m.hasCode = true)
    (h : m.assembled s parameters classes chain = .ok d) : ∃ ps ds kept, parameters = .ok ps ∧
      classes = .ok ds ∧ m.kept s chain = .ok kept ∧
        d = s.methodHead m ++ ps ++ s.methodTail m ++ m.bracedBody s ds kept := by
  obtain ⟨ps, hps, h⟩ := bind_eq_ok_iff.mp h
  obtain ⟨body, hbody, rfl⟩ := map_eq_ok_iff.mp h
  obtain ⟨ds, kept, hds, hkept, rfl⟩ := exists_of_assembledBody hcode hbody
  exact ⟨ps, ds, kept, hps, hds, hkept, rfl⟩

/-- A declaration comes to what its parts come to, and tells of what they owe. -/
theorem runs_declarationDoc
    (hm : ∀ cls, Logs (view cls).members fun d log => Told r (M cls) d.leaves log)
    (hd : ∀ cls, Logs (view cls).declaration fun d log => Told r (D cls) d.leaves log)
    (m : MethodDecl κ) (x : List Event) :
    ∃ log, Runs x (m.declarationDoc s view)
        (m.assembled s (m.signature s view).outcome
          (m.localClasses.mapM fun c => (view c).declaration.outcome) (m.chain s view).outcome)
        x log ∧
      ∀ d, (m.declarationDoc s view).outcome = .ok d → Told r (m.Owes s view r D M) d.leaves log := by
  have hparameters : Logs (m.parametersDoc s view) fun _ _ => True := steady_parametersDoc m
  obtain ⟨parameters, s₁, l₁, hp, -⟩ := hparameters {}
  have hsignature : (m.signature s view).outcome = parameters := (runs_alone hp []).outcome_eq
  rw [hsignature]
  cases parameters with
  | error e =>
    have hrun : Runs x (m.declarationDoc s view) (.error e) x l₁ := runs_alone hp.bind_error x
    refine ⟨l₁, hrun, fun d hd => ?_⟩
    rw [hrun.outcome_eq] at hd
    cases hd
  | ok parameters =>
    obtain ⟨chain, s₂, l₃, hc, hchain⟩ :=
      logs_unfoldWithin (c := s.context view m.body) s hm m.body.constructions.size m.body.entry s₁
    have houtcome : (m.chain s view).outcome = chain := (runs_alone (hp.bind hc) []).outcome_eq
    obtain ⟨l₂, hl, hlocals⟩ := runs_locals hd m.localClasses s₁
    obtain ⟨s', log, hbody, hlog⟩ := runs_bodyDoc hl hc
    have hrun : Runs x (m.declarationDoc s view)
        (m.assembled s (.ok parameters)
          (m.localClasses.mapM fun c => (view c).declaration.outcome) chain) x (l₁ ++ log) :=
      runs_alone (hp.bind hbody.map) x
    rw [houtcome]
    refine ⟨_, hrun, fun d hdoc => ?_⟩
    rintro ⟨hcode, howes⟩
    rw [hrun.outcome_eq] at hdoc
    obtain ⟨_, ds, kept, ⟨⟩, hds, hkept, rfl⟩ := exists_of_assembled hcode hdoc
    obtain ⟨hsub₂, hsub₃, hown⟩ := hlog hcode ds hds
    have hbraced {leaf : Doc}
        (h : leaf ∈ ds.flatMap Doc.leaves ++ (m.comment.leaves ++ kept.leaves)) :
        leaf ∈ (s.methodHead m ++ parameters ++ s.methodTail m ++ m.bracedBody s ds kept).leaves := by
      rw [Doc.leaves_append]
      exact List.mem_append_right _ (mem_bracedBody h)
    rcases howes with ⟨error, herror, rfl⟩ | hlocal | ⟨⟨code, hcodes⟩, hcreates⟩
    · have hword := word_mem_comment herror
      refine ⟨hbraced ?_, List.mem_append_right _ (hown error herror)⟩
      exact List.mem_append_right _ (List.mem_append_left _ hword)
    · obtain ⟨hword, hevent⟩ := hlocals ds hds hlocal
      exact ⟨hbraced (List.mem_append_left _ hword), List.mem_append_right _ (hsub₂ hevent)⟩
    · rw [houtcome] at hcodes
      obtain ⟨hword, hevent⟩ := hchain code hcodes hcreates
      rw [hcodes] at hkept
      obtain rfl := Except.ok.inj hkept
      refine ⟨hbraced ?_, List.mem_append_right _ (hsub₃ hevent)⟩
      rw [Code.doc_false]
      simp [hword]

/-- A method of which no part fails, or a comment in its place if a failure was
recorded. -/
def recovered (m : MethodDecl κ) (declaration : Except PrintError Doc) : Except PrintError Doc :=
  match declaration with
  | .ok d => .ok d
  | .error e =>
    if m.error.isNone then .error e else .ok (Style.failure "method" m.name e.message)

theorem runs_doc {x : List Event} {declaration : Except PrintError Doc}
    (h : Runs x (m.declarationDoc s view) declaration x l₁) :
    ∃ log, Runs x (m.doc s view) (m.recovered declaration) x log ∧ l₁ ⊆ log := by
  cases declaration with
  | ok d => exact ⟨l₁, h.caught, List.Subset.refl _⟩
  | error e =>
    have hhandle : ∃ l₂, Runs x (do
        if m.error.isNone then throw e
        Printing.report (.methodDropped m.name e)
        return Style.failure "method" m.name e.message) (m.recovered (.error e)) x l₂ := by
      cases herror : m.error with
      | none =>
        simp only [recovered, herror, Option.isNone_none, if_true]
        exact ⟨_, (runs_throw x e).bind_error⟩
      | some error =>
        simp only [recovered, herror, Option.isNone_some, Bool.false_eq_true, if_false]
        exact ⟨_, (runs_printing_report x _).map⟩
    obtain ⟨l₂, hhandle⟩ := hhandle
    exact ⟨l₁ ++ l₂, h.caught_error hhandle, List.subset_append_left _ _⟩

theorem logs_doc
    (hm : ∀ cls, Logs (view cls).members fun d log => Told r (M cls) d.leaves log)
    (hd : ∀ cls, Logs (view cls).declaration fun d log => Told r (D cls) d.leaves log)
    (m : MethodDecl κ) :
    Logs (m.doc s view) fun d log =>
      Told r ((∃ d, (m.declarationDoc s view).outcome = .ok d) ∧ m.Owes s view r D M) d.leaves log := by
  intro x
  obtain ⟨l₁, hrun, htold⟩ := runs_declarationDoc (s := s) hm hd m x
  rw [← hrun.outcome_eq] at hrun
  obtain ⟨log, hdoc, hsub⟩ := runs_doc hrun
  refine ⟨_, x, log, hdoc, fun d hd => ?_⟩
  rintro ⟨⟨declaration, hdeclaration⟩, howes⟩
  rw [hdeclaration] at hd
  obtain rfl : declaration = d := Except.ok.inj hd
  obtain ⟨hword, hevent⟩ := htold declaration hdeclaration howes
  exact ⟨hword, hsub hevent⟩

theorem outcome_doc
    (hm : ∀ cls, Logs (view cls).members fun d log => Told r (M cls) d.leaves log)
    (hd : ∀ cls, Logs (view cls).declaration fun d log => Told r (D cls) d.leaves log)
    (m : MethodDecl κ) :
    (m.doc s view).outcome = m.recovered (m.assembled s (m.signature s view).outcome
      (m.localClasses.mapM fun c => (view c).declaration.outcome) (m.chain s view).outcome) := by
  obtain ⟨_, hrun, -⟩ := runs_declarationDoc (s := s) hm hd m []
  obtain ⟨_, hdoc, -⟩ := runs_doc hrun
  exact hdoc.outcome_eq

/-- A declaration that is printed is put together from what its parts come to. -/
theorem exists_of_declarationDoc
    (hm : ∀ cls, Logs (view cls).members fun d log => Told r (M cls) d.leaves log)
    (hd : ∀ cls, Logs (view cls).declaration fun d log => Told r (D cls) d.leaves log)
    (hcode : m.hasCode = true) {d : Doc} (h : (m.declarationDoc s view).outcome = .ok d) :
    ∃ ps ds kept, (m.signature s view).outcome = .ok ps ∧
      (m.localClasses.mapM fun c => (view c).declaration.outcome) = .ok ds ∧
      m.kept s (m.chain s view).outcome = .ok kept ∧
      d = s.methodHead m ++ ps ++ s.methodTail m ++ m.bracedBody s ds kept := by
  obtain ⟨_, hrun, -⟩ := runs_declarationDoc (s := s) hm hd m []
  rw [hrun.outcome_eq] at h
  exact exists_of_assembled hcode h

theorem outcome_doc_of_declarationDoc
    (hm : ∀ cls, Logs (view cls).members fun d log => Told r (M cls) d.leaves log)
    (hd : ∀ cls, Logs (view cls).declaration fun d log => Told r (D cls) d.leaves log)
    {d : Doc} (h : (m.declarationDoc s view).outcome = .ok d) :
    (m.doc s view).outcome = .ok d := by
  obtain ⟨_, hrun, -⟩ := runs_declarationDoc (s := s) hm hd m []
  rw [m.outcome_doc hm hd, ← hrun.outcome_eq, h]
  rfl

end MethodDecl

namespace FieldDecl

variable {s view} {r : Recorded} {M : κ → Prop}

variable (view) in
/-- A field is to tell of the classes that its initializer creates. -/
def Owes (M : κ → Prop) (f : FieldDecl κ) : Prop :=
  ∃ e ∈ f.initializer, Hits M (e.created fun cls => (view cls).interface.isSome)

theorem logs_initializerDoc
    (hm : ∀ cls, Logs (view cls).members fun d log => Told r (M cls) d.leaves log)
    (f : FieldDecl κ) :
    Logs (f.initializerDoc s view) fun d log => Told r (f.Owes view M) d.leaves log := by
  unfold initializerDoc Owes
  cases hinitializer : f.initializer with
  | none => exact .pure (.of_not (by simp))
  | some e =>
    have hcode := (logs_resolve (c := s.context view f.body) s hm e).alone
    refine hcode.map fun code log h => h.mono ?_ fun leaf hleaf => ?_
    · rintro ⟨_, ⟨⟩, hhits⟩
      exact hhits
    · simp [mem_continued s hleaf]

theorem logs_doc
    (hm : ∀ cls, Logs (view cls).members fun d log => Told r (M cls) d.leaves log)
    (f : FieldDecl κ) : Logs (f.doc s view) fun d log => Told r (f.Owes view M) d.leaves log := by
  refine (logs_initializerDoc hm f).map fun d log h => h.mono id fun leaf hleaf => ?_
  simp [hleaf]

theorem outcome_doc
    (hm : ∀ cls, Logs (view cls).members fun d log => Told r (M cls) d.leaves log)
    (f : FieldDecl κ) :
    (f.doc s view).outcome =
      (f.initializerDoc s view).outcome.map (s.fieldHead f ++ · ++ s.terminator) :=
  outcome_map (logs_initializerDoc hm f) _

end FieldDecl

end Unparse
