import Unparse.Proofs.Failure.Classes

/-! # Isolation of failures

A class fails only if no failure was recorded for it and one of its own members
fails, and a member is printed as it is alone, whatever becomes of the others.
Anonymous classes are the exception: only their members are printed, so a failure
that was recorded for one keeps nothing from the code around it.
-/

namespace Unparse

open Layout (Doc)

variable {α β κ : Type}

/-- Nothing is printed. -/
def Printing.Fails (p : Printing α) : Prop := ∃ e, p.outcome = .error e

/-- The class comes to what its members come to alone, and fails only if it has to. -/
structure Isolated (s : Style) (view : κ → ClassText) (c : ClassDecl κ) : Prop where
  /-- A class without a recorded failure fails with a field, with a method
  without a recorded failure, or with an inner class. -/
  fails_iff : (c.doc s view).Fails ↔ c.error = none ∧
    ((∃ f ∈ c.fields, (f.initializerDoc s view).Fails) ∨
      (∃ m ∈ c.methods, m.error = none ∧ (m.doc s view).Fails) ∨
      ∃ cls ∈ c.innerClasses, (view cls).declaration.Fails)
  method_printed : ∀ m ∈ c.methods, m.error ≠ none → ∃ d, (m.doc s view).outcome = .ok d
  /-- If its signature and local classes are printed, so are the comment and the
  whole chain or nothing of it. -/
  method_degraded : ∀ m ∈ c.methods, m.error ≠ none → m.hasCode = true →
    ∀ parameters, (m.signature s view).outcome = .ok parameters →
      ∀ classes, m.localClasses.mapM (fun cls => (view cls).declaration.outcome) = .ok classes →
        (m.doc s view).outcome = .ok (s.methodHead m ++ parameters ++ s.methodTail m ++
          m.bracedBody s classes
            (match (m.chain s view).outcome with
            | .ok code => code.doc s false
            | .error _ => Doc.empty))
  members_outcome : (c.membersDoc s view).outcome = do
    let fields ← c.fields.mapM fun f => (f.doc s view).outcome
    let methods ← c.methods.mapM fun m => (m.doc s view).outcome
    let classes ← c.innerClasses.mapM fun cls => (view cls).declaration.outcome
    return c.assembled s fields methods classes
  outcome : (c.doc s view).outcome = c.recovered s (c.membersDoc s view).outcome
  /-- As the members of an anonymous class they fail whatever was recorded for it. -/
  members_fail_iff : (c.membersDoc s view).Fails ↔
    (∃ f ∈ c.fields, (f.initializerDoc s view).Fails) ∨
      (∃ m ∈ c.methods, m.error = none ∧ (m.doc s view).Fails) ∨
      ∃ cls ∈ c.innerClasses, (view cls).declaration.Fails
  alone : ∀ events, ((c.doc s view).run.run events).1 = (c.doc s view).outcome ∧
    ((c.membersDoc s view).run.run events).1 = (c.membersDoc s view).outcome

section Members

variable {s : Style} {view : κ → ClassText} {r : Recorded} {D M : κ → Prop}
  (hm : ∀ cls, Logs (view cls).members fun d log => Told r (M cls) d.leaves log)
  (hd : ∀ cls, Logs (view cls).declaration fun d log => Told r (D cls) d.leaves log)

include hm

theorem FieldDecl.fails_iff (f : FieldDecl κ) :
    (f.doc s view).Fails ↔ (f.initializerDoc s view).Fails := by
  unfold Printing.Fails
  rw [f.outcome_doc hm]
  cases (f.initializerDoc s view).outcome with
  | error e => exact Iff.rfl
  | ok d => exact ⟨nofun, nofun⟩

include hd

theorem MethodDecl.exists_outcome {m : MethodDecl κ} (herror : m.error ≠ none) :
    ∃ d, (m.doc s view).outcome = .ok d := by
  rw [m.outcome_doc hm hd]
  obtain ⟨error, herror⟩ := Option.ne_none_iff_exists'.mp herror
  unfold recovered
  split
  · exact ⟨_, rfl⟩
  · simp [herror]

theorem MethodDecl.outcome_of_error {m : MethodDecl κ} (herror : m.error ≠ none)
    (hcode : m.hasCode = true) {parameters : Doc}
    (hparameters : (m.signature s view).outcome = .ok parameters) {classes : List Doc}
    (hclasses : m.localClasses.mapM (fun cls => (view cls).declaration.outcome) = .ok classes) :
    (m.doc s view).outcome = .ok (s.methodHead m ++ parameters ++ s.methodTail m ++
      m.bracedBody s classes
        (match (m.chain s view).outcome with
        | .ok code => code.doc s false
        | .error _ => Doc.empty)) := by
  obtain ⟨error, herror⟩ := Option.ne_none_iff_exists'.mp herror
  have hkept : m.kept s (m.chain s view).outcome = .ok
      (match (m.chain s view).outcome with
      | .ok code => code.doc s false
      | .error _ => Doc.empty) := by
    cases (m.chain s view).outcome <;> simp [kept, herror]
  rw [m.outcome_doc hm hd, hparameters, hclasses, assembled, assembledBody, if_pos hcode]
  change m.recovered (((m.kept s _).map _).map _) = _
  rw [hkept]
  rfl

theorem ClassDecl.outcome_membersDoc (c : ClassDecl κ) :
    (c.membersDoc s view).outcome = do
      let fields ← c.fields.mapM fun f => (f.doc s view).outcome
      let methods ← c.methods.mapM fun m => (m.doc s view).outcome
      let classes ← c.innerClasses.mapM fun cls => (view cls).declaration.outcome
      return c.assembled s fields methods classes := by
  have hfield (f : FieldDecl κ) : Logs (f.doc s view) fun _ _ => True :=
    (f.logs_doc hm).mono fun _ _ _ => trivial
  have hmethod (m : MethodDecl κ) : Logs (m.doc s view) fun _ _ => True :=
    (m.logs_doc hm hd).mono fun _ _ _ => trivial
  have hclass (cls : κ) : Logs (view cls).declaration fun _ _ => True :=
    (hd cls).mono fun _ _ _ => trivial
  have hfields : Logs (c.fields.mapM (FieldDecl.doc s view)) fun _ _ => True :=
    .mapM fun f _ => hfield f
  have hmethods : Logs (c.methods.mapM (MethodDecl.doc s view)) fun _ _ => True :=
    .mapM fun m _ => hmethod m
  have hclasses : Logs (c.innerClasses.mapM fun cls => (view cls).declaration) fun _ _ => True :=
    .mapM fun cls _ => hclass cls
  rw [membersDoc_eq, outcome_bind (Q := fun _ _ => True) hfields fun fields =>
      hmethods.bind fun methods _ _ => hclasses.map fun _ _ _ => trivial,
    outcome_mapM fun f _ => hfield f]
  refine bind_congr fun fields => ?_
  rw [outcome_bind (Q := fun _ _ => True) hmethods fun methods =>
      hclasses.map fun _ _ _ => trivial,
    outcome_mapM fun m _ => hmethod m]
  refine bind_congr fun methods => ?_
  rw [outcome_map hclasses, outcome_mapM fun cls _ => hclass cls]
  cases c.innerClasses.mapM fun cls => (view cls).declaration.outcome <;> rfl

/-- The members are put together from the documents of all of them. -/
theorem ClassDecl.exists_of_membersDoc (c : ClassDecl κ) {d : Doc}
    (h : (c.membersDoc s view).outcome = .ok d) : ∃ fields methods classes,
      (c.fields.mapM fun f => (f.doc s view).outcome) = .ok fields ∧
      (c.methods.mapM fun m => (m.doc s view).outcome) = .ok methods ∧
      (c.innerClasses.mapM fun cls => (view cls).declaration.outcome) = .ok classes ∧
      d = c.assembled s fields methods classes := by
  rw [c.outcome_membersDoc hm hd] at h
  obtain ⟨fields, hfields, h⟩ := bind_eq_ok_iff.mp h
  obtain ⟨methods, hmethods, h⟩ := bind_eq_ok_iff.mp h
  obtain ⟨classes, hclasses, h⟩ := bind_eq_ok_iff.mp h
  exact ⟨fields, methods, classes, hfields, hmethods, hclasses, (Except.ok.inj h).symm⟩

theorem ClassDecl.membersDoc_fails_iff (c : ClassDecl κ) :
    (c.membersDoc s view).Fails ↔
      (∃ f ∈ c.fields, (f.initializerDoc s view).Fails) ∨
        (∃ m ∈ c.methods, m.error = none ∧ (m.doc s view).Fails) ∨
        ∃ cls ∈ c.innerClasses, (view cls).declaration.Fails := by
  have hfields : (∃ e, (c.fields.mapM fun f => (f.doc s view).outcome) = .error e) ↔
      ∃ f ∈ c.fields, (f.initializerDoc s view).Fails := by
    rw [mapM_error_iff]
    exact exists_congr fun f => and_congr_right fun _ => f.fails_iff hm
  have hmethods : (∃ e, (c.methods.mapM fun m => (m.doc s view).outcome) = .error e) ↔
      ∃ m ∈ c.methods, m.error = none ∧ (m.doc s view).Fails := by
    rw [mapM_error_iff]
    refine exists_congr fun m => and_congr_right fun _ => ⟨fun hfails => ⟨?_, hfails⟩, And.right⟩
    by_contra herror
    obtain ⟨d, hd⟩ := m.exists_outcome hm hd herror
    obtain ⟨e, he⟩ := hfails
    rw [hd] at he
    cases he
  have hclasses : (∃ e, (c.innerClasses.mapM fun cls => (view cls).declaration.outcome) =
      .error e) ↔ ∃ cls ∈ c.innerClasses, (view cls).declaration.Fails := mapM_error_iff
  rw [Printing.Fails, c.outcome_membersDoc hm hd, ← hfields, ← hmethods, ← hclasses]
  refine error_bind_iff fun fields => error_bind_iff fun methods => ?_
  cases c.innerClasses.mapM fun cls => (view cls).declaration.outcome with
  | error e => exact ⟨fun _ => ⟨e, rfl⟩, fun _ => ⟨e, rfl⟩⟩
  | ok classes => exact ⟨nofun, nofun⟩

theorem ClassDecl.doc_fails_iff (c : ClassDecl κ) :
    (c.doc s view).Fails ↔ c.error = none ∧ (c.membersDoc s view).Fails := by
  unfold Printing.Fails
  rw [c.outcome_doc hm hd]
  cases herror : c.error <;> cases (c.membersDoc s view).outcome <;>
    simp [recovered, herror, Except.map]

/-- Failures are isolated wherever the classes inside tell of what they owe. -/
theorem ClassDecl.isolated (c : ClassDecl κ) : Isolated s view c where
  fails_iff := by rw [c.doc_fails_iff hm hd, c.membersDoc_fails_iff hm hd]
  method_printed m _ herror := m.exists_outcome hm hd herror
  method_degraded m _ herror hcode _ hparameters _ hclasses :=
    m.outcome_of_error hm hd herror hcode hparameters hclasses
  members_outcome := c.outcome_membersDoc hm hd
  outcome := c.outcome_doc hm hd
  members_fail_iff := c.membersDoc_fails_iff hm hd
  alone events := by
    obtain ⟨_, hdoc, -⟩ := (logs_doc (s := s) hm hd c).exists_run (x := events)
    obtain ⟨_, hmembers, -⟩ := (logs_membersDoc (s := s) hm hd c).exists_run (x := events)
    exact ⟨hdoc.result_eq events, hmembers.result_eq events⟩

end Members

/-- Failures in classes of any depth are isolated. -/
theorem failures_isolated (s : Style) {depth : Nat} (c : ClassDecl (ClassTree depth)) :
    Isolated s (ClassTree.toText s) c :=
  c.isolated (r := .cls c.name ⟨"", ""⟩) (fun cls => (cls.logs_toText s _).2)
    fun cls => (cls.logs_toText s _).1

namespace Isolated

def broken : ClassDecl (ClassTree 0) :=
  { error := some ⟨"L", "msg"⟩
    methods := [{ name := "m", returnType := some "void", body := { entry := some ⟨1, 1⟩ } }] }

/-- A class with a field that creates an anonymous one. -/
def holder (cls : ClassDecl (ClassTree 0)) : ClassDecl (ClassTree 1) :=
  { name := "Outer"
    fields := [{ type := "Object", name := "o", initializer := some (.anonymous cls []) }] }

end Isolated

open Isolated (broken holder) in
/-- An anonymous class fails what is around it in spite of a recorded failure. -/
theorem exists_spreading :
    broken.error ≠ none ∧ ¬ (broken.doc ⟨.java, 4⟩ (ClassTree.toText ⟨.java, 4⟩)).Fails ∧
      ((holder broken).doc ⟨.java, 4⟩ (ClassTree.toText ⟨.java, 4⟩)).Fails ∧
      ¬ ((holder { broken with methods := [] }).doc ⟨.java, 4⟩
        (ClassTree.toText ⟨.java, 4⟩)).Fails := by
  have hbroken : ∃ d,
      (broken.doc ⟨.java, 4⟩ (ClassTree.toText ⟨.java, 4⟩)).outcome = .ok d := ⟨_, rfl⟩
  have hholder : ∃ e, ((holder broken).doc ⟨.java, 4⟩
      (ClassTree.toText ⟨.java, 4⟩)).outcome = .error e := ⟨_, rfl⟩
  have hempty : ∃ d, ((holder { broken with methods := [] }).doc ⟨.java, 4⟩
      (ClassTree.toText ⟨.java, 4⟩)).outcome = .ok d := ⟨_, rfl⟩
  obtain ⟨d, hbroken⟩ := hbroken
  obtain ⟨d', hempty⟩ := hempty
  refine ⟨nofun, ?_, hholder, ?_⟩
  · rintro ⟨e, he⟩
    cases hbroken.symm.trans he
  · rintro ⟨e, he⟩
    cases hempty.symm.trans he

end Unparse
