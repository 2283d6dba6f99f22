import Unparse.Print.Render
import Unparse.Proofs.Failure.Classes
import Unparse.Proofs.Layout.Words

/-! # Recorded failures in finished texts

A class that is printed tells of its own recorded failure, of those of the
methods with code that are printed, and of those in the inner, local and anonymous
classes that are printed with it. A method without code tells nothing, and what was
recorded for an anonymous class or for a dropped method is lost.
-/

namespace Unparse

open Layout (Doc Piece)

namespace Recorded

def error : Recorded → UnitError
  | cls _ error | method _ error => error

theorem exists_comment_eq (r : Recorded) : ∃ head, r.comment = head ++ r.error.spell := by
  cases r <;> exact ⟨_, rfl⟩

/-- The comment is written in every layout, and the text keeps it if there is
nothing to tidy in it. -/
def IsPrinted (r : Recorded) (d : Doc) : Prop :=
  ∀ width, Piece.text r.comment ∈ d.layout width ∧
    ('\n' ∉ r.comment.toList →
      (∀ c ∈ r.comment.toList.getLast?, Text.isBlank c = false) →
        r.comment.toList <:+: (d.render width).toList)

/-- The failure is logged as a warning. -/
def IsLogged (r : Recorded) (events : List Event) : Prop :=
  r.event ∈ events ∧ r.event.level = .warn

theorem isPrinted_of_mem {r : Recorded} {d : Doc} (h : Doc.word r.comment ∈ d.leaves) :
    r.IsPrinted d := by
  intro width
  refine ⟨Doc.text_mem_layout h width, fun hbreak hlast => ?_⟩
  cases hchar : r.comment.toList.getLast? with
  | none =>
    rw [List.getLast?_eq_none_iff.mp hchar]
    exact List.nil_infix
  | some c => exact Doc.infix_render h hbreak hchar (hlast c hchar) width

theorem isLogged_of_mem {r : Recorded} {events : List Event} (h : r.event ∈ events) :
    r.IsLogged events :=
  ⟨h, by cases r <;> rfl⟩

end Recorded

/-- A class of any depth that is printed tells of every recorded failure that it
owes, by a comment that ends with it and by a warning. -/
theorem owed_told (s : Style) {depth : Nat} (c : ClassTree depth) {r : Recorded} {d : Doc}
    {events events' : List Event}
    (hrun : (c.toText s).declaration.run.run events = (.ok d, events'))
    (howed : (c.ledger s r).declared) :
    (∃ head, r.comment = head ++ r.error.spell) ∧ r.IsPrinted d ∧ r.IsLogged events' := by
  obtain ⟨result, _, log, hlogs, htold⟩ := (c.logs_toText s r).1 []
  obtain ⟨rfl, rfl⟩ := Prod.mk.inj (hrun.symm.trans (hlogs events))
  obtain ⟨hword, hevent⟩ := htold d rfl howed
  exact ⟨r.exists_comment_eq, r.isPrinted_of_mem hword,
    r.isLogged_of_mem (List.mem_append_right _ hevent)⟩

namespace Ledger

def failed : MethodDecl (ClassTree 0) :=
  { name := "run", returnType := some "void", error := some ⟨"L", "x"⟩ }

def runner : ClassTree 1 := ({ methods := [failed] } : ClassDecl (ClassTree 0))

def creating : MethodDecl (ClassTree 1) :=
  { name := "m"
    returnType := some "void"
    body := {
      constructions := ⟨[⟨1, some { form := .block [.eval (.anonymous runner [])] }⟩], []⟩
      entry := some ⟨1, 1⟩ } }

def creator : ClassTree 2 :=
  ({ name := "Outer", methods := [creating] } : ClassDecl (ClassTree 1))

def declarer : ClassTree 1 :=
  ({ name := "Outer", methods := [{ failed with modifiers := [.abstract] }] } :
    ClassDecl (ClassTree 0))

theorem declared_creator :
    (creator.ledger ⟨.java, 4⟩ (.method "run" ⟨"L", "x"⟩)).declared := by
  have hfailed : failed.Owes ⟨.java, 4⟩ (ClassTree.toText ⟨.java, 4⟩) (.method "run" ⟨"L", "x"⟩)
      (fun cls => (cls.ledger ⟨.java, 4⟩ (.method "run" ⟨"L", "x"⟩)).declared)
      fun cls => (cls.ledger ⟨.java, 4⟩ (.method "run" ⟨"L", "x"⟩)).inside :=
    ⟨rfl, .inl ⟨_, rfl, rfl⟩⟩
  have hrunner : (runner.ledger ⟨.java, 4⟩ (.method "run" ⟨"L", "x"⟩)).inside :=
    .inr (.inl ⟨failed, List.mem_cons_self, ⟨_, rfl⟩, hfailed⟩)
  have hcreating : creating.Owes ⟨.java, 4⟩ (ClassTree.toText ⟨.java, 4⟩)
      (.method "run" ⟨"L", "x"⟩)
      (fun cls => (cls.ledger ⟨.java, 4⟩ (.method "run" ⟨"L", "x"⟩)).declared)
      fun cls => (cls.ledger ⟨.java, 4⟩ (.method "run" ⟨"L", "x"⟩)).inside :=
    ⟨rfl, .inr (.inr ⟨⟨_, rfl⟩, ⟨1, 1⟩, _, .head rfl, rfl, _, List.mem_cons_self, hrunner⟩)⟩
  exact .inr ⟨⟨_, rfl⟩, .inr (.inl ⟨creating, List.mem_cons_self, ⟨_, rfl⟩, hcreating⟩)⟩

end Ledger

theorem owed_told_created :
    ∃ d events, (Ledger.creator.toText ⟨.java, 4⟩).declaration.run.run [] = (.ok d, events) ∧
      (∃ head, (Recorded.method "run" ⟨"L", "x"⟩).comment =
        head ++ (Recorded.method "run" ⟨"L", "x"⟩).error.spell) ∧
      (Recorded.method "run" ⟨"L", "x"⟩).IsPrinted d ∧
      (Recorded.method "run" ⟨"L", "x"⟩).IsLogged events := by
  have hrun : ∃ d events,
      (Ledger.creator.toText ⟨.java, 4⟩).declaration.run.run [] = (.ok d, events) :=
    ⟨_, _, rfl⟩
  obtain ⟨d, events, hrun⟩ := hrun
  exact ⟨d, events, hrun, owed_told ⟨.java, 4⟩ Ledger.creator hrun Ledger.declared_creator⟩

/-- What was recorded for a method without code is neither printed nor logged. -/
theorem exists_untold :
    ∃ d, (Ledger.declarer.toText ⟨.java, 4⟩).declaration.run.run [] = (.ok d, []) ∧
      ¬ (Recorded.method "run" ⟨"L", "x"⟩).IsPrinted d ∧
      ¬ (Recorded.method "run" ⟨"L", "x"⟩).IsLogged [] := by
  refine ⟨_, rfl, ?_, nofun⟩
  intro hprinted
  have hpiece := (hprinted 100).1
  revert hpiece
  decide +kernel

end Unparse
