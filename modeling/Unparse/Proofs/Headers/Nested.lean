import Unparse.Proofs.Headers.Breaks
import Unparse.Proofs.Headers.Created
import Unparse.Proofs.Failure.Isolation

/-! # Headers of nested classes

Classes are printed as inner classes, as local classes of methods, and inside the
members of anonymous classes. The document of each stands in that of the class
around it, so its header is laid out as that of any other class.
-/

namespace Unparse

open Layout (Doc)
open Layout.Doc (Outward Sideways newline text)

variable {κ α β : Type}

theorem Layout.Doc.Sideways.exists_assembled {P : Doc → Prop} (hP : Sideways P) (s : Style)
    (c : ClassDecl κ) {fields methods classes : List Doc}
    (h : (∃ d ∈ fields, P d) ∨ (∃ d ∈ methods, P d) ∨ ∃ d ∈ classes, P d) :
    ∃ body, c.assembled s fields methods classes = s.braced body ∧ P body := by
  have hsections : ∃ d ∈ c.sections fields methods classes, P d := by
    unfold ClassDecl.sections
    rcases h with ⟨d, hd, h⟩ | ⟨d, hd, h⟩ | ⟨d, hd, h⟩
    · have hfields : fields.isEmpty = false := by simpa using List.ne_nil_of_mem hd
      exact ⟨Doc.separated newline fields, by simp [hfields], hP.separated _ ⟨d, hd, h⟩⟩
    · exact ⟨d, by simp [hd], h⟩
    · exact ⟨d, by simp [hd], h⟩
  unfold ClassDecl.assembled
  split
  · next hnil => simp [hnil] at hsections
  · exact ⟨_, rfl, hP.right _ (hP.separated _ hsections)⟩

theorem Layout.Doc.Outward.assembled {P : Doc → Prop} (hP : Outward P) (s : Style)
    (c : ClassDecl κ) {fields methods classes : List Doc}
    (h : (∃ d ∈ fields, P d) ∨ (∃ d ∈ methods, P d) ∨ ∃ d ∈ classes, P d) :
    P (c.assembled s fields methods classes) := by
  obtain ⟨body, heq, h⟩ := hP.exists_assembled s c h
  exact heq ▸ hP.braced s h

section Printed

variable (s : Style) (view : κ → ClassText)

/-- With a method that is printed are printed its local classes and, unless the
chain is dropped, the members of the classes that are created in it. -/
def MethodDecl.Prints (D M : κ → Prop) (m : MethodDecl κ) : Prop :=
  (∃ d, (m.declarationDoc s view).outcome = .ok d) ∧ m.hasCode = true ∧
    (Hits D m.localClasses ∨ (∃ code, (m.chain s view).outcome = .ok code) ∧
      (s.context view m.body).Creates M m.body.entry)

/-- With the members of a class are printed its inner classes and what is printed
with its fields and methods. -/
def ClassDecl.Prints (D M : κ → Prop) (c : ClassDecl κ) : Prop :=
  Hits (FieldDecl.Owes view M) c.fields ∨ Hits (MethodDecl.Prints s view D M) c.methods ∨
    Hits D c.innerClasses

variable {s view} {P : Doc → Prop} (hP : Outward P) {r : Recorded} {D M L L' : κ → Prop}
  (hD : ∀ cls, (view cls).declaration.Ensures fun d => D cls → P d)
  (hM : ∀ cls, (view cls).members.Ensures fun d => M cls → P d)
  (hm : ∀ cls, Logs (view cls).members fun d log => Told r (L cls) d.leaves log)
  (hd : ∀ cls, Logs (view cls).declaration fun d log => Told r (L' cls) d.leaves log)
include hP hM hm

theorem FieldDecl.ensures_owed (f : FieldDecl κ) :
    (f.doc s view).Ensures fun d => f.Owes view M → P d := by
  have hmembers (cls : κ) : Ensures (Walking.outside (view cls).members) fun d => M cls → P d :=
    .outside (hM cls) (hm cls)
  have hinitializer : (f.initializerDoc s view).Ensures fun d => f.Owes view M → P d := by
    unfold initializerDoc Owes
    cases f.initializer with
    | none =>
      rintro _ ⟨⟩ ⟨e, he, -⟩
      cases he
    | some e =>
      refine (ensures_created_resolve (c := s.context view f.body) s hP hmembers e).alone.map
        (logs_resolve s hm e).alone fun code h => ?_
      rintro ⟨_, ⟨⟩, hits⟩
      exact hP.grouped (hP.right _ (hP.continued s (h hits)))
  exact hinitializer.map (logs_initializerDoc hm f) fun d h howes => hP.left _ (hP.right _ (h howes))

include hD hd

theorem MethodDecl.ensures_printed (m : MethodDecl κ) :
    (m.doc s view).Ensures fun d => m.Prints s view D M → P d := by
  have hmembers (cls : κ) : Ensures (Walking.outside (view cls).members) fun d => M cls → P d :=
    .outside (hM cls) (hm cls)
  have hchain : (m.chain s view).Ensures fun code =>
      (s.context view m.body).Creates M m.body.entry → P (codeDoc s code) :=
    Ensures.alone ((Ensures.trivial _).bind fun _ _ =>
      (ensures_created_unfoldWithin (c := s.context view m.body) s hP hmembers _ _).mono
        fun _ h hcreates => hP.code s (h hcreates))
  rintro d hdoc ⟨⟨declaration, hdeclaration⟩, hcode, hprints⟩
  rw [outcome_doc_of_declarationDoc hm hd hdeclaration] at hdoc
  obtain rfl : declaration = d := Except.ok.inj hdoc
  obtain ⟨ps, ds, kept, -, hds, hkept, rfl⟩ := exists_of_declarationDoc hm hd hcode hdeclaration
  refine hP.right _ (hP.right _ (hP.braced s ?_))
  rcases hprints with hlocal | ⟨⟨code, hok⟩, hcreates⟩
  · obtain ⟨d, hmem, h⟩ := exists_of_mapM hD hds hlocal
    exact hP.left _ (hP.left _ (hP.concat ⟨_, List.mem_map_of_mem hmem, hP.right _ h⟩))
  · rw [hok] at hkept
    obtain rfl := Except.ok.inj hkept
    rw [Code.doc_false]
    exact hP.right _ (hchain code hok hcreates)

theorem ClassDecl.ensures_printed (c : ClassDecl κ) :
    (c.membersDoc s view).Ensures fun d => c.Prints s view D M → P d := by
  intro d hdoc hprints
  obtain ⟨fields, methods, classes, hfields, hmethods, hclasses, rfl⟩ :=
    c.exists_of_membersDoc hm hd hdoc
  refine hP.assembled s c ?_
  rcases hprints with hfield | hmethod | hclass
  · exact .inl (exists_of_mapM (fun f => f.ensures_owed hP hM hm) hfields hfield)
  · exact .inr (.inl (exists_of_mapM (fun m => m.ensures_printed hP hD hM hm hd) hmethods hmethod))
  · exact .inr (.inr (exists_of_mapM hD hclasses hclass))

end Printed

def AnyClass : Type := Σ depth, ClassDecl (ClassTree depth)

namespace ClassTree

/-- A class is printed with another one, which is declared or of which only the members
are printed: it is that class itself, where it is declared, or it is printed with its
members. -/
def Prints (s : Style) (x : AnyClass) : {depth : Nat} → (declared : Bool) → ClassTree depth → Prop
  | depth + 1, declared, c =>
    (∃ d, (ClassDecl.membersDoc s (toText s) c).outcome = .ok d) ∧
      ((declared = true ∧ x = ⟨depth, c⟩) ∨
        ClassDecl.Prints s (toText s) (Prints s x true) (Prints s x false) c)

variable {s : Style} {x : AnyClass} {P : Doc → Prop}

theorem exists_recovered {κ : Type} (s : Style) (c : ClassDecl κ) (members : Doc) :
    ∃ front, c.recovered s (.ok members) = .ok (front ++ (s.classHeader c ++ members)) := by
  unfold ClassDecl.recovered
  split
  · exact ⟨Doc.empty, by rw [Doc.empty_append]; rfl⟩
  · exact ⟨_, rfl⟩

/-- What passes outward passes from a class to every class that it is printed with. -/
theorem ensures_prints (hP : Outward P)
    (hx : ∀ members, (x.2.membersDoc s (toText s)).outcome = .ok members →
      P (s.classHeader x.2 ++ members)) {depth : Nat} (c : ClassTree depth) :
    ((c.toText s).declaration.Ensures fun d => c.Prints s x true → P d) ∧
      (c.toText s).members.Ensures fun d => c.Prints s x false → P d := by
  induction depth with
  | zero => exact c.elim
  | succ depth ih =>
    have hm (cls : ClassTree depth) := (cls.logs_toText s (.cls "" ⟨"", ""⟩)).2
    have hd (cls : ClassTree depth) := (cls.logs_toText s (.cls "" ⟨"", ""⟩)).1
    have hmembers := ClassDecl.ensures_printed (s := s) hP (fun cls => (ih cls).1)
      (fun cls => (ih cls).2) hm hd c
    constructor
    · rintro d hdoc ⟨⟨members, hok⟩, hprints⟩
      have hrecovered := ClassDecl.outcome_doc (s := s) hm hd c
      rw [hok] at hrecovered
      obtain ⟨front, hfront⟩ := exists_recovered s c members
      obtain rfl := Except.ok.inj (hdoc.symm.trans (hrecovered.trans hfront))
      refine hP.right _ ?_
      rcases hprints with ⟨-, rfl⟩ | hprints
      · exact hx members hok
      · exact hP.right _ (hmembers members hok hprints)
    · rintro d hdoc ⟨-, ⟨⟨⟩, -⟩ | hprints⟩
      exact hmembers d hdoc hprints

end ClassTree

theorem exists_braced_of_membersDoc {s : Style} {depth : Nat} {c : ClassDecl (ClassTree depth)}
    {members : Doc} (h : (c.membersDoc s (ClassTree.toText s)).outcome = .ok members) :
    ∃ body, StartsLine body ∧ members = s.braced body := by
  have hm (cls : ClassTree depth) := (cls.logs_toText s (.cls "" ⟨"", ""⟩)).2
  have hd (cls : ClassTree depth) := (cls.logs_toText s (.cls "" ⟨"", ""⟩)).1
  obtain ⟨fields, methods, classes, -, -, -, rfl⟩ := c.exists_of_membersDoc hm hd h
  unfold ClassDecl.assembled
  split
  · exact ⟨Doc.empty, .inl rfl, rfl⟩
  · exact ⟨_, .inr ⟨_, rfl⟩, rfl⟩

/-- The header of a class that is printed is laid out as it should wherever the class stands
in a document, as it does in the simple one of every class it is printed with. -/
theorem headers_laid {s : Style} (hsize : 2 * s.indentSize < 0x8000000000000000) {depth : Nat}
    {cls : ClassDecl (ClassTree depth)} {members : Doc}
    (hmembers : (cls.membersDoc s (ClassTree.toText s)).outcome = .ok members) :
    (∀ d i above below, (s.classHeader cls ++ members).StandsBetween i above below 0 d →
      HeaderLaidBetween s cls i above below d) ∧
    ∀ (depth' : Nat) (c : ClassTree depth') (d : Doc), (c.toText s).declaration.outcome = .ok d →
      c.Prints s ⟨depth, cls⟩ true → d.Simple ∧ ∃ i above below,
        (s.classHeader cls ++ members).StandsBetween i above below 0 d ∧
          HeaderLaidBetween s cls i above below d := by
  have hlaid (d : Doc) (i : Nat) (above below : List Doc)
      (h : (s.classHeader cls ++ members).StandsBetween i above below 0 d) :
      HeaderLaidBetween s cls i above below d := by
    obtain ⟨body, hbody, rfl⟩ := exists_braced_of_membersDoc hmembers
    exact headerLaid_of_standsBetween hsize hbody h
  have hne : s.classHeader cls ++ members ≠ .empty := by
    obtain ⟨body, -, rfl⟩ := exists_braced_of_membersDoc hmembers
    simp [Style.braced, text]
  have hself (other : Doc) (hother : (cls.membersDoc s (ClassTree.toText s)).outcome = .ok other)
      (i : Nat) : ∃ j, (s.classHeader cls ++ members).Stands j i (s.classHeader cls ++ other) := by
    obtain rfl : members = other := Except.ok.inj (hmembers.symm.trans hother)
    exact ⟨i, .here⟩
  constructor
  · exact hlaid
  · intro depth' c d hdoc hprints
    obtain ⟨i, above, below, hstands⟩ := (ClassTree.ensures_prints (x := ⟨depth, cls⟩)
      (Doc.outward_stands hne) hself c).1 d hdoc hprints 0
    exact ⟨((c.ensures_toText s).1 d hdoc).simple, i, above, below, hstands,
      hlaid d i above below hstands⟩

namespace Headers

def derived : ClassDecl (ClassTree 0) := { name := "C", superclass := some "A", interfaces := ["B"] }

def around : ClassTree 2 :=
  ({ name := "Outer"
     methods := [{ name := "m", returnType := some "void", localClasses := [derived] }] } :
    ClassDecl (ClassTree 1))

def unnamed : ClassDecl (ClassTree 0) := { name := "C", interfaces := ["A", ""] }

theorem prints_around : around.Prints ⟨.java, 4⟩ ⟨0, derived⟩ true := by
  refine ⟨⟨_, rfl⟩, .inr (.inr (.inl ⟨_, List.mem_cons_self, ⟨_, rfl⟩, rfl, .inl ?_⟩))⟩
  exact ⟨derived, List.mem_cons_self, ⟨_, rfl⟩, .inl ⟨rfl, rfl⟩⟩

end Headers

theorem headers_laid_local : ∃ members d i above below,
    (Headers.derived.membersDoc ⟨.java, 4⟩ (ClassTree.toText ⟨.java, 4⟩)).outcome = .ok members ∧
      (Headers.around.toText ⟨.java, 4⟩).declaration.outcome = .ok d ∧
      2 * 4 < 0x8000000000000000 ∧ Headers.around.Prints ⟨.java, 4⟩ ⟨0, Headers.derived⟩ true ∧
      (Style.classHeader ⟨.java, 4⟩ Headers.derived ++ members).StandsBetween i above below 0 d ∧
      d.Simple ∧ HeaderLaidBetween ⟨.java, 4⟩ Headers.derived i above below d := by
  have hmembers : ∃ members, (Headers.derived.membersDoc ⟨.java, 4⟩
      (ClassTree.toText ⟨.java, 4⟩)).outcome = .ok members := ⟨_, rfl⟩
  have hdoc : ∃ d, (Headers.around.toText ⟨.java, 4⟩).declaration.outcome = .ok d := ⟨_, rfl⟩
  obtain ⟨members, hmembers⟩ := hmembers
  obtain ⟨d, hdoc⟩ := hdoc
  obtain ⟨hsimple, i, above, below, hstands, hlaid⟩ :=
    (headers_laid (s := ⟨.java, 4⟩) (by decide) hmembers).2 _ _ d hdoc Headers.prints_around
  exact ⟨members, d, i, above, below, hmembers, hdoc, by decide, Headers.prints_around, hstands,
    hsimple, hlaid⟩

/-- A header that does not fit has two entries to be indented twice, but the line of
the one without a name is not indented. -/
theorem exists_unindented_entry : ∃ d,
    (Headers.unnamed.doc ⟨.java, 4⟩ (ClassTree.toText ⟨.java, 4⟩)).outcome = .ok d ∧
      20 < columns (Style.headerLine ⟨.java, 4⟩ Headers.unnamed) ∧
      (Style.headerEntries ⟨.java, 4⟩ Headers.unnamed).map HeaderEntry.level = [2, 2] ∧
      d.layout 20 = [.text "class C", .newline 8, .text "implements A", .text ",", .newline 0,
        .text " ", .text "\x7b", .newline 0, .text "\x7d"] := by
  exact ⟨_, rfl, by decide, by decide, by decide +kernel⟩

end Unparse
