import Unparse.Proofs.Portable.Code

/-! # Portable classes

Java and Kotlin accept the same portable classes. A method or class fails with its parts,
whatever the target, and a chain fails if its demands are not granted. So the languages
agree on a class if they agree on the classes inside it, which is an induction on the
depth.
-/

namespace Unparse

open Layout (Doc)
open Walking

variable {κ : Type}

/-- Whether the body of a method is portable, and the classes in it are among the classes
`A`. -/
structure MethodDecl.Portable (A : κ → Prop) (m : MethodDecl κ) : Prop where
  body : m.body.Portable A
  localClasses : ∀ cls ∈ m.localClasses, A cls

structure ClassDecl.Portable (A : κ → Prop) (c : ClassDecl κ) : Prop where
  fields : ∀ f ∈ c.fields, ∀ e ∈ f.initializer, e.Portable A
  methods : ∀ m ∈ c.methods, m.Portable A
  innerClasses : ∀ cls ∈ c.innerClasses, A cls

/-- Whether the code of a class and of all classes inside it is portable. -/
def ClassTree.Portable : {depth : Nat} → ClassTree depth → Prop
  | _ + 1, c => ClassDecl.Portable ClassTree.Portable c

/-- What is printed of a class does not depend on what was reported before. -/
structure SteadyView (view : κ → ClassText) : Prop where
  members : ∀ cls, Logs (view cls).members fun _ _ => True
  declaration : ∀ cls, Logs (view cls).declaration fun _ _ => True

/-- From outside, the classes `A` fail alike, and all classes look alike. -/
structure ViewsAgree (A : κ → Prop) (view view' : κ → ClassText) : Prop where
  drops : ∀ cls, (view' cls).interface.isSome = (view cls).interface.isSome
  members : ∀ cls, A cls → ((view' cls).members.Fails ↔ (view cls).members.Fails)
  declaration : ∀ cls, A cls → ((view' cls).declaration.Fails ↔ (view cls).declaration.Fails)

section Steady

variable {s : Style} {view : κ → ClassText}

theorem Logs.told_false {p : Printing Doc} (hp : Logs p fun _ _ => True) :
    Logs p fun d log => Told (.cls "" ⟨"", ""⟩) False d.leaves log :=
  hp.mono fun _ _ _ => .of_not not_false

theorem Printing.fails_map_iff {α β : Type} {p : Printing α} {g : α → β} :
    Printing.Fails (do return g (← p)) ↔ p.Fails := by
  have houtcome : Printing.outcome (do return g (← p)) = p.outcome.map g := by
    unfold Printing.outcome
    simp only [ExceptT.run_bind, StateT.run_bind]
    rcases p.run.run [] with ⟨_ | _, _⟩ <;> rfl
  rw [Fails, houtcome, map_error_iff]
  rfl

namespace MethodDecl

variable {m : MethodDecl κ}

theorem recovered_fails_iff {declaration : Except PrintError Doc} :
    (∃ e, m.recovered declaration = .error e) ↔
      m.error = none ∧ ∃ e, declaration = .error e := by
  cases herror : m.error <;> cases declaration <;> simp [recovered, herror]

theorem assembled_fails_iff (herror : m.error = none) {parameters : Except PrintError Doc}
    {classes : Except PrintError (List Doc)} {chain : Except PrintError Code} :
    (∃ e, m.assembled s parameters classes chain = .error e) ↔
      (∃ e, parameters = .error e) ∨
        m.hasCode = true ∧ ((∃ e, classes = .error e) ∨ ∃ e, chain = .error e) := by
  have hkept : (∃ e, m.kept s chain = .error e) ↔ ∃ e, chain = .error e := by
    cases chain <;> simp [kept, herror]
  refine error_bind_iff fun d => ?_
  rw [map_error_iff, assembledBody]
  cases m.hasCode with
  | false => simp [pure, Except.pure]
  | true =>
    rw [if_pos rfl, ← hkept]
    refine (error_bind_iff fun ds => map_error_iff).trans ?_
    simp

/-- A method without a recorded failure fails with its signature or, if it has code, with
a local class or its chain. -/
theorem doc_fails_iff (hview : SteadyView view) (m : MethodDecl κ) :
    (m.doc s view).Fails ↔ m.error = none ∧
      ((m.signature s view).Fails ∨ m.hasCode = true ∧
        ((∃ cls ∈ m.localClasses, (view cls).declaration.Fails) ∨ (m.chain s view).Fails)) := by
  have houtcome := m.outcome_doc (s := s) (fun cls => (hview.members cls).told_false)
    fun cls => (hview.declaration cls).told_false
  have hlocals : (∃ e, (m.localClasses.mapM fun cls => (view cls).declaration.outcome) =
      .error e) ↔ ∃ cls ∈ m.localClasses, (view cls).declaration.Fails := mapM_error_iff
  rw [Printing.Fails, houtcome, recovered_fails_iff]
  refine and_congr_right fun herror => ?_
  rw [assembled_fails_iff herror, hlocals]
  rfl

end MethodDecl

end Steady

section Agreement

variable {A : κ → Prop} {s s' : Style} {view view' : κ → ClassText}

theorem ViewsAgree.drops_eq (h : ViewsAgree A view view') (b : Body κ) :
    (s'.context view' b).drops = (s.context view b).drops := funext h.drops

theorem ViewsAgree.granted_iff (h : ViewsAgree A view view') {b : Body κ} {sc : Scope}
    {ds : Multiset (Demand κ)} :
    Granted (s'.context view' b) A sc ds ↔ Granted (s.context view b) A sc ds :=
  granted_congr rfl h.members

namespace MethodDecl

def parameterDemands (m : MethodDecl κ) : Multiset (Demand κ) :=
  (m.parameters.zipIdx.map fun p => {.bind p.1.variableId}).sum

def traversal (s : Style) (view : κ → ClassText) (m : MethodDecl κ) : Walking Code := do
  let _ ← m.parametersDoc s view
  (s.context view m.body).unfold m.body.entry

theorem asks_parametersDoc (m : MethodDecl κ) :
    Asks (s.context view m.body) A (m.parametersDoc s view) m.parameterDemands := by
  have hall : Asks (s.context view m.body) A (m.parameters.zipIdx.mapM fun p => do
      let v ← (s.context view m.body).bind p.1.variableId
      return m.parameterDoc s p.1.annotations (p.2 + 1 == m.parameters.length) v)
      m.parameterDemands := .mapM fun p _ => (asks_bind p.1.variableId).map
  exact hall.map

theorem asks_traversal (hview : SteadyView view) {m : MethodDecl κ} (hm : m.body.Portable A) :
    Asks (s.context view m.body) A (m.traversal s view)
      (m.parameterDemands + (s.context view m.body).demands m.body.entry) :=
  (asks_parametersDoc m).bind fun _ => asks_unfold hview.members hm m.body.entry

end MethodDecl

section Both

variable (hview : SteadyView view) (hview' : SteadyView view') (h : ViewsAgree A view view')
include h

theorem ViewsAgree.demands_eq (s s' : Style) (b : Body κ) (head : Option ConstructionId) :
    (s'.context view' b).demands head = (s.context view b).demands head := by
  have hbody : (s'.context view' b).body = (s.context view b).body := rfl
  exact Context.demandsWithin_congr hbody (h.drops_eq b) _ head

theorem MethodDecl.signature_fails_iff (m : MethodDecl κ) :
    (m.signature s' view').Fails ↔ (m.signature s view).Fails := by
  have hsignature : (m.signature s view).Fails ↔
      ¬ Granted (s.context view m.body) A {} m.parameterDemands :=
    m.asks_parametersDoc.alone_fails_iff
  have hsignature' : (m.signature s' view').Fails ↔
      ¬ Granted (s'.context view' m.body) A {} m.parameterDemands :=
    m.asks_parametersDoc.alone_fails_iff
  exact hsignature'.trans ((not_congr h.granted_iff).trans hsignature.symm)

include hview hview'

theorem FieldDecl.initializer_fails_iff {f : FieldDecl κ}
    (hf : ∀ e ∈ f.initializer, e.Portable A) :
    (f.initializerDoc s' view').Fails ↔ (f.initializerDoc s view).Fails := by
  unfold initializerDoc
  cases hinitializer : f.initializer with
  | none => exact ⟨nofun, nofun⟩
  | some e =>
    have hcode := (asks_expr (c := s.context view f.body) hview.members
      (hf e hinitializer)).alone_fails_iff
    have hcode' := (asks_expr (c := s'.context view' f.body) hview'.members
      (hf e hinitializer)).alone_fails_iff
    rw [h.drops_eq f.body] at hcode'
    exact Printing.fails_map_iff.trans (hcode'.trans ((not_congr h.granted_iff).trans
      (hcode.symm.trans Printing.fails_map_iff.symm)))

theorem MethodDecl.chain_fails_iff {m : MethodDecl κ} (hm : m.body.Portable A) :
    (m.chain s' view').Fails ↔ (m.chain s view).Fails := by
  have hchain := (asks_traversal (s := s) hview hm).alone_fails_iff
  have hchain' := (asks_traversal (s := s') hview' hm).alone_fails_iff
  rw [h.demands_eq s s'] at hchain'
  exact hchain'.trans ((not_congr h.granted_iff).trans hchain.symm)

theorem MethodDecl.scopes_alike {m : MethodDecl κ} (hm : m.body.Portable A)
    {events events' : List Event} {code code' : Code} {t t' : Scope}
    (hrun : (m.traversal s view).run.run { events } = (.ok code, t))
    (hrun' : (m.traversal s' view').run.run { events := events' } = (.ok code', t'))
    (id : Key) : t.declared.contains id = t'.declared.contains id ∧
      t.visited.contains id = t'.visited.contains id := by
  have hgrows := (asks_traversal hview hm _ (Scope.consistent_fresh m.body events)).result hrun
  have hgrows' := (asks_traversal hview' hm _ (Scope.consistent_fresh m.body events')).result hrun'
  rw [h.demands_eq s s'] at hgrows'
  exact hgrows.2.alike hgrows'.2 rfl rfl id

theorem MethodDecl.fails_alike {m : MethodDecl κ} (hm : m.Portable A) :
    (m.doc s' view').Fails ↔ (m.doc s view).Fails := by
  have hlocals : (∃ cls ∈ m.localClasses, (view' cls).declaration.Fails) ↔
      ∃ cls ∈ m.localClasses, (view cls).declaration.Fails :=
    exists_congr fun cls => and_congr_right fun hcls =>
      h.declaration cls (hm.localClasses cls hcls)
  rw [doc_fails_iff hview', doc_fails_iff hview, m.signature_fails_iff h,
    m.chain_fails_iff hview hview' h hm.body, hlocals]

theorem ClassDecl.members_fail_alike {c : ClassDecl κ} (hc : c.Portable A) :
    (c.membersDoc s' view').Fails ↔ (c.membersDoc s view).Fails := by
  have hfields : (∃ f ∈ c.fields, (f.initializerDoc s' view').Fails) ↔
      ∃ f ∈ c.fields, (f.initializerDoc s view).Fails :=
    exists_congr fun f => and_congr_right fun hf =>
      f.initializer_fails_iff hview hview' h (hc.fields f hf)
  have hmethods : (∃ m ∈ c.methods, m.error = none ∧ (m.doc s' view').Fails) ↔
      ∃ m ∈ c.methods, m.error = none ∧ (m.doc s view).Fails :=
    exists_congr fun m => and_congr_right fun hm => and_congr_right fun _ =>
      m.fails_alike hview hview' h (hc.methods m hm)
  have hclasses : (∃ cls ∈ c.innerClasses, (view' cls).declaration.Fails) ↔
      ∃ cls ∈ c.innerClasses, (view cls).declaration.Fails :=
    exists_congr fun cls => and_congr_right fun hcls =>
      h.declaration cls (hc.innerClasses cls hcls)
  rw [c.membersDoc_fails_iff (fun cls => (hview'.members cls).told_false)
      fun cls => (hview'.declaration cls).told_false,
    c.membersDoc_fails_iff (fun cls => (hview.members cls).told_false)
      fun cls => (hview.declaration cls).told_false, hfields, hmethods, hclasses]

theorem ClassDecl.fails_alike {c : ClassDecl κ} (hc : c.Portable A) :
    (c.doc s' view').Fails ↔ (c.doc s view).Fails := by
  rw [c.doc_fails_iff (fun cls => (hview'.members cls).told_false)
      fun cls => (hview'.declaration cls).told_false,
    c.doc_fails_iff (fun cls => (hview.members cls).told_false)
      fun cls => (hview.declaration cls).told_false, c.members_fail_alike hview hview' h hc]

end Both

end Agreement

namespace ClassTree

theorem steadyView (s : Style) {depth : Nat} :
    SteadyView (toText s : ClassTree depth → ClassText) where
  members cls := (cls.logs_toText s (.cls "" ⟨"", ""⟩)).2.mono fun _ _ _ => trivial
  declaration cls := (cls.logs_toText s (.cls "" ⟨"", ""⟩)).1.mono fun _ _ _ => trivial

theorem interface_toText (s : Style) {depth : Nat} (c : ClassTree (depth + 1)) :
    (c.toText s).interface = (ClassDecl.interfaces c).head? := rfl

/-- The languages agree on portable classes of any depth. -/
theorem viewsAgree (s s' : Style) {depth : Nat} :
    ViewsAgree Portable (toText s : ClassTree depth → ClassText) (toText s') := by
  induction depth with
  | zero => exact ⟨fun c => c.elim, fun c => c.elim, fun c => c.elim⟩
  | succ depth ih =>
    refine ⟨fun c => ?_, fun c hc => ?_, fun c hc => ?_⟩
    · rw [interface_toText, interface_toText]
    · exact ClassDecl.members_fail_alike (steadyView s) (steadyView s') ih hc
    · exact ClassDecl.fails_alike (steadyView s) (steadyView s') ih hc

theorem isPrinted_iff (s : Style) {depth : Nat} (c : ClassTree depth) (events : List Event) :
    (∃ d, ((c.toText s).declaration.run.run events).1 = .ok d) ↔
      ¬ (c.toText s).declaration.Fails := by
  obtain ⟨_, hrun, -⟩ := ((steadyView s).declaration c).exists_run (x := events)
  rw [hrun.result_eq events, Printing.Fails]
  cases (c.toText s).declaration.outcome <;> simp

end ClassTree

/-- In all styles, and so in both languages, the same portable classes are printed. Where
the chain of a method is printed in two of them, the same variables are declared in its
scope, and the same constructions visited. -/
theorem accepted_alike (s s' : Style) {depth : Nat} (c : ClassDecl (ClassTree depth))
    (hc : c.Portable ClassTree.Portable) :
    (∀ events events',
      (∃ d, ((c.doc s (ClassTree.toText s)).run.run events).1 = .ok d) ↔
        ∃ d, ((c.doc s' (ClassTree.toText s')).run.run events').1 = .ok d) ∧
    ∀ m ∈ c.methods, ∀ events events' code code' t t',
      (m.traversal s (ClassTree.toText s)).run.run { events } = (.ok code, t) →
      (m.traversal s' (ClassTree.toText s')).run.run { events := events' } = (.ok code', t') →
        ∀ id, t.declared.contains id = t'.declared.contains id ∧
          t.visited.contains id = t'.visited.contains id := by
  constructor
  · intro events events'
    let tree : ClassTree (depth + 1) := c
    have hagree := (ClassTree.viewsAgree s s').declaration tree hc
    have hprinted := tree.isPrinted_iff s events
    have hprinted' := tree.isPrinted_iff s' events'
    exact hprinted.trans ((not_congr hagree.symm).trans hprinted'.symm)
  · intro m hm events events' code code' t t' hrun hrun'
    exact m.scopes_alike (ClassTree.steadyView s) (ClassTree.steadyView s')
      (ClassTree.viewsAgree s s') (hc.methods m hm).body hrun hrun'

namespace ClassDecl

def counting : Construction (ClassTree 0) where
  form := .countedLoop (some (.assign (.var ⟨2, 1⟩) (.const (.int 0))))
    (.binary .ge (.var ⟨2, 1⟩) (.var ⟨1, 1⟩))
    (some (.eval (.stepAfter .increment (.var ⟨2, 1⟩)))) ⟨2, 1⟩

def summing : MethodDecl (ClassTree 0) where
  name := "sum"
  returnType := some "void"
  parameters := [{ variableId := ⟨1, 1⟩ }]
  body :=
    { vars := ⟨[⟨1, some ⟨"n", "int", .parameter⟩⟩, ⟨1, some ⟨"i", "int", .localVar⟩⟩,
        ⟨1, some ⟨"total", "int", .localVar⟩⟩], []⟩
      constructions := ⟨[⟨1, some counting⟩,
        ⟨1, some { form := .block [.eval (.compound .add (.var ⟨3, 1⟩) (.var ⟨2, 1⟩))] }⟩], []⟩
      entry := some ⟨1, 1⟩ }

def adder : ClassDecl (ClassTree 0) := { name := "Adder", methods := [summing] }

theorem portable_adder : adder.Portable ClassTree.Portable := by
  have hbody : summing.body.Portable ClassTree.Portable := by
    intro id construction hget
    obtain ⟨-, -, hslot⟩ := Arena.get?_eq_some_iff.mp hget
    have hmem := List.mem_of_getElem? hslot
    simp only [summing, List.mem_cons, List.not_mem_nil, or_false, Slot.mk.injEq,
      Option.some.injEq] at hmem
    rcases hmem with ⟨-, rfl⟩ | ⟨-, rfl⟩
    · refine ⟨?_, by simp [counting]⟩
      simp [counting, Form.Each, Stmt.Portable, Expr.Portable]
    · refine ⟨?_, by simp⟩
      simp [Form.Each, Stmt.Portable, Expr.Portable, BinaryOp.isBitwise]
  have hsumming : summing.Portable ClassTree.Portable := ⟨hbody, by simp [summing]⟩
  exact ⟨by simp [adder], by simpa [adder] using hsumming, by simp [adder]⟩

end ClassDecl

open ClassDecl (adder summing portable_adder) in
theorem accepted_alike_adder : adder.Portable ClassTree.Portable ∧
    (∃ d, ((adder.doc ⟨.kotlin, 4⟩ (ClassTree.toText ⟨.kotlin, 4⟩)).run.run []).1 = .ok d) ∧
    ∃ code code' t t',
      (summing.traversal ⟨.java, 4⟩ (ClassTree.toText ⟨.java, 4⟩)).run.run {} = (.ok code, t) ∧
      (summing.traversal ⟨.kotlin, 4⟩ (ClassTree.toText ⟨.kotlin, 4⟩)).run.run {} =
        (.ok code', t') ∧
      ∀ id, t.declared.contains id = t'.declared.contains id ∧
        t.visited.contains id = t'.visited.contains id := by
  have hjava : ∃ d, ((adder.doc ⟨.java, 4⟩ (ClassTree.toText ⟨.java, 4⟩)).run.run []).1 = .ok d :=
    ⟨_, rfl⟩
  have hrun : ∃ code t, (summing.traversal ⟨.java, 4⟩
      (ClassTree.toText ⟨.java, 4⟩)).run.run {} = (.ok code, t) := ⟨_, _, rfl⟩
  have hrun' : ∃ code t, (summing.traversal ⟨.kotlin, 4⟩
      (ClassTree.toText ⟨.kotlin, 4⟩)).run.run {} = (.ok code, t) := ⟨_, _, rfl⟩
  obtain ⟨haccepted, hscopes⟩ := accepted_alike ⟨.java, 4⟩ ⟨.kotlin, 4⟩ adder portable_adder
  obtain ⟨code, t, hrun⟩ := hrun
  obtain ⟨code', t', hrun'⟩ := hrun'
  exact ⟨portable_adder, (haccepted [] []).mp hjava, code, code', t, t', hrun, hrun',
    hscopes summing List.mem_cons_self [] [] code code' t t' hrun hrun'⟩

end Unparse
