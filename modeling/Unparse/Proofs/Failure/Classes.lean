import Unparse.Proofs.Failure.Declarations

/-! # Runs of classes

What a class comes to is determined by what each of its members comes to alone,
and it tells of what its members owe. By induction on the depth, this holds of
the classes inside it.
-/

namespace Unparse

open Layout (Doc)

variable {κ : Type} (s : Style) (view : κ → ClassText)

namespace ClassDecl

variable (c : ClassDecl κ)

def sections (fields methods classes : List Doc) : List Doc :=
  (if c.enumConstants.isEmpty then [] else [c.enumConstantsDoc]) ++
    (if fields.isEmpty then [] else [Doc.separated Doc.newline fields]) ++ methods ++ classes

def assembled (fields methods classes : List Doc) : Doc :=
  match c.sections fields methods classes with
  | [] => s.braced Doc.empty
  | sections => s.braced (Doc.newline ++ Doc.separated (Doc.newline ++ Doc.newline) sections)

/-- A class put together from what its members come to. If a failure was
recorded for it, there is always a comment, and the members are all or nothing. -/
def recovered (members : Except PrintError Doc) : Except PrintError Doc :=
  match c.error with
  | none => members.map (s.classHeader c ++ ·)
  | some error =>
    let comment := Style.failure "class" c.name error.spell
    match members with
    | .ok members => .ok (comment ++ Doc.newline ++ (s.classHeader c ++ members))
    | .error _ => .ok comment

/-- A class is to tell of what its members owe. What a dropped method owes is
lost with it. -/
def OwesInside (r : Recorded) (D M : κ → Prop) : Prop :=
  Hits (fun f => f.Owes view M) c.fields ∨
    Hits (fun m => (∃ d, (m.declarationDoc s view).outcome = .ok d) ∧ m.Owes s view r D M)
      c.methods ∨
    Hits D c.innerClasses

/-- A declared class is to tell of its own recorded failure, and of what its
members owe if they are printed. -/
def Owes (r : Recorded) (D M : κ → Prop) : Prop :=
  (∃ error ∈ c.error, r = .cls c.name error) ∨
    (∃ d, (c.membersDoc s view).outcome = .ok d) ∧ c.OwesInside s view r D M

variable {s view c}

theorem membersDoc_eq : c.membersDoc s view = do
    let fields ← c.fields.mapM (FieldDecl.doc s view)
    let methods ← c.methods.mapM (MethodDecl.doc s view)
    let classes ← c.innerClasses.mapM fun cls => (view cls).declaration
    return c.assembled s fields methods classes := by
  unfold membersDoc assembled
  refine bind_congr fun fields => bind_congr fun methods => bind_congr fun classes => ?_
  change (match c.sections fields methods classes with
    | [] => pure (s.braced Doc.empty)
    | sections => _) = _
  cases c.sections fields methods classes <;> rfl

theorem mem_sections {fields methods classes : List Doc} {leaf : Doc}
    (h : leaf ∈ fields.flatMap Doc.leaves ++
      (methods.flatMap Doc.leaves ++ classes.flatMap Doc.leaves)) :
    leaf ∈ (c.sections fields methods classes).flatMap Doc.leaves := by
  simp only [sections, List.flatMap_append, List.mem_append] at h ⊢
  rcases h with h | h | h
  · refine .inl (.inl (.inr ?_))
    cases fields with
    | nil => cases h
    | cons d ds => simpa using mem_separated h Doc.newline
  · exact .inl (.inr h)
  · exact .inr h

theorem mem_assembled {fields methods classes : List Doc} {leaf : Doc}
    (h : leaf ∈ fields.flatMap Doc.leaves ++
      (methods.flatMap Doc.leaves ++ classes.flatMap Doc.leaves)) :
    leaf ∈ (c.assembled s fields methods classes).leaves := by
  have hsections := mem_sections (c := c) h
  unfold assembled
  split
  · next hnil =>
    rw [hnil] at hsections
    cases hsections
  · refine mem_braced s ?_
    rw [Doc.leaves_append]
    exact List.mem_append_right _ (mem_separated hsections _)

variable {r : Recorded} {D M : κ → Prop}

theorem logs_membersDoc
    (hm : ∀ cls, Logs (view cls).members fun d log => Told r (M cls) d.leaves log)
    (hd : ∀ cls, Logs (view cls).declaration fun d log => Told r (D cls) d.leaves log)
    (c : ClassDecl κ) :
    Logs (c.membersDoc s view) fun d log => Told r (c.OwesInside s view r D M) d.leaves log := by
  rw [membersDoc_eq]
  have hfields : Logs (c.fields.mapM (FieldDecl.doc s view)) fun ds log =>
      Told r (Hits (fun f => f.Owes view M) c.fields) (ds.flatMap Doc.leaves) log :=
    logs_mapM fun f _ => f.logs_doc hm
  have hmethods : Logs (c.methods.mapM (MethodDecl.doc s view)) fun ds log =>
      Told r (Hits (fun m => (∃ d, (m.declarationDoc s view).outcome = .ok d) ∧
        m.Owes s view r D M) c.methods) (ds.flatMap Doc.leaves) log :=
    logs_mapM fun m _ => m.logs_doc hm hd
  have hclasses : Logs (c.innerClasses.mapM fun cls => (view cls).declaration) fun ds log =>
      Told r (Hits D c.innerClasses) (ds.flatMap Doc.leaves) log :=
    logs_mapM fun cls _ => hd cls
  refine hfields.bind fun fields l₁ hf => hmethods.bind fun methods l₂ hm => ?_
  refine hclasses.map fun classes l₃ hc => ?_
  exact (hf.append (hm.append hc)).mono id fun leaf hleaf => mem_assembled hleaf

theorem runs_doc {x l₁ : List Event} {members : Except PrintError Doc}
    (h : Runs x (c.membersDoc s view) members x l₁) :
    ∃ log, Runs x (c.doc s view) (c.recovered s members) x log ∧ l₁ ⊆ log ∧
      ∀ error ∈ c.error, .classFailed c.name error ∈ log := by
  have hdeclaration : Runs x (c.declarationDoc s view) (members.map (s.classHeader c ++ ·)) x l₁ :=
    h.map
  unfold doc recovered
  cases herror : c.error with
  | none => exact ⟨l₁, hdeclaration, List.Subset.refl _, nofun⟩
  | some error =>
    have hreport := runs_printing_report x (.classFailed c.name error)
    cases members with
    | ok members =>
      refine ⟨_, hreport.bind hdeclaration.map.caught, List.subset_append_right _ _, ?_⟩
      rintro _ ⟨⟩
      simp
    | error cause =>
      have hcaught := hdeclaration.bind_error
        (f := fun d => pure (Style.failure "class" c.name error.spell ++ Doc.newline ++ d))
      have hhandle : Runs x (do
          Printing.report (.classDropped c.name cause)
          return Style.failure "class" c.name error.spell)
          (.ok (Style.failure "class" c.name error.spell)) x [.classDropped c.name cause] :=
        (runs_printing_report x _).map
      refine ⟨_, hreport.bind (hcaught.caught_error hhandle), ?_, ?_⟩
      · intro event hevent
        simp [hevent]
      · rintro _ ⟨⟩
        simp

theorem word_mem_failure (error : UnitError) :
    Doc.word (Recorded.cls c.name error).comment ∈
      (Style.failure "class" c.name error.spell).leaves := by
  simp only [Style.failure_eq, Recorded.comment, Doc.leaves_text, Recorded.failureText_ne,
    if_false, List.mem_singleton]

/-- A class comes to what its members come to, and tells of what it owes. -/
theorem logs_doc
    (hm : ∀ cls, Logs (view cls).members fun d log => Told r (M cls) d.leaves log)
    (hd : ∀ cls, Logs (view cls).declaration fun d log => Told r (D cls) d.leaves log)
    (c : ClassDecl κ) :
    Logs (c.doc s view) fun d log => Told r (c.Owes s view r D M) d.leaves log := by
  intro x
  obtain ⟨l₁, hmembers, htold⟩ := (logs_membersDoc hm hd c).exists_run (x := x)
  obtain ⟨log, hrun, hsub, hown⟩ := runs_doc hmembers
  refine ⟨_, x, log, hrun, fun d hdoc => ?_⟩
  rintro (⟨error, herror, rfl⟩ | ⟨⟨members, hok⟩, howes⟩)
  · refine ⟨?_, hown error herror⟩
    have hword := word_mem_failure (c := c) error
    simp only [recovered, Option.mem_def.mp herror] at hdoc
    cases hout : (c.membersDoc s view).outcome with
    | ok members =>
      rw [hout] at hdoc
      obtain rfl := Except.ok.inj hdoc
      simp [hword]
    | error e =>
      rw [hout] at hdoc
      obtain rfl := Except.ok.inj hdoc
      exact hword
  · obtain ⟨hword, hevent⟩ := htold members hok howes
    refine ⟨?_, hsub hevent⟩
    rw [hok] at hdoc
    unfold recovered at hdoc
    cases herror : c.error with
    | none =>
      simp only [herror] at hdoc
      obtain rfl := Except.ok.inj hdoc
      simp [hword]
    | some error =>
      simp only [herror] at hdoc
      obtain rfl := Except.ok.inj hdoc
      simp [hword]

theorem outcome_doc
    (hm : ∀ cls, Logs (view cls).members fun d log => Told r (M cls) d.leaves log)
    (hd : ∀ cls, Logs (view cls).declaration fun d log => Told r (D cls) d.leaves log)
    (c : ClassDecl κ) :
    (c.doc s view).outcome = c.recovered s (c.membersDoc s view).outcome := by
  obtain ⟨_, hmembers, -⟩ := (logs_membersDoc (s := s) hm hd c).exists_run (x := [])
  obtain ⟨_, hrun, -⟩ := runs_doc hmembers
  exact hrun.outcome_eq

end ClassDecl

/-- What a class is to tell of where it is declared, and where only its members
are printed. -/
structure Ledger where
  declared : Prop
  inside : Prop

namespace ClassTree

/-- Whether a class of any depth is to tell of a recorded failure. -/
def ledger (s : Style) (r : Recorded) : {depth : Nat} → ClassTree depth → Ledger
  | _ + 1, c =>
    { declared := ClassDecl.Owes s (toText s) c r (fun cls => (ledger s r cls).declared)
        fun cls => (ledger s r cls).inside
      inside := ClassDecl.OwesInside s (toText s) c r (fun cls => (ledger s r cls).declared)
        fun cls => (ledger s r cls).inside }

/-- Classes of any depth tell of what they owe. -/
theorem logs_toText (s : Style) (r : Recorded) {depth : Nat} (c : ClassTree depth) :
    Logs (c.toText s).declaration
        (fun d log => Told r (c.ledger s r).declared d.leaves log) ∧
      Logs (c.toText s).members fun d log => Told r (c.ledger s r).inside d.leaves log := by
  induction depth with
  | zero => exact c.elim
  | succ depth ih =>
    have hd (cls : ClassTree depth) := (ih cls).1
    have hm (cls : ClassTree depth) := (ih cls).2
    exact ⟨ClassDecl.logs_doc hm hd c, ClassDecl.logs_membersDoc hm hd c⟩

end ClassTree

end Unparse
