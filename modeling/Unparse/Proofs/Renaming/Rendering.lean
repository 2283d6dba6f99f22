import Unparse.Print.Render
import Unparse.Proofs.Renaming.Declarations

/-! # Renderings of renamed programs

What is rendered depends on a program and not on how its arenas were filled: programs
that are the same up to keys have the same text, or fail with errors that
correspond. Only the comments on dropped methods spell keys.
-/

namespace Unparse

open Layout (Doc TextsAlike)

variable {E : PrintError → PrintError → Prop} {N : String → Prop}

/-- The classes, and with them all classes inside, differ only in the keys of their
bodies. Errors that correspond under the correspondence of some body are related by
`E`, and failures are recorded for methods of the names in `N` only. -/
def ClassTree.Renamed (E : PrintError → PrintError → Prop) (N : String → Prop) :
    {depth depth' : Nat} → ClassTree depth → ClassTree depth' → Prop
  | _ + 1, _ + 1, c, c' => ClassDecl.Renamed E N (ClassTree.Renamed E N) c c'

/-- In every language and layout both are rendered to the same text but for the
comments on dropped methods, or both fail with related errors. -/
def SameRendering (E : PrintError → PrintError → Prop) (N : String → Prop)
    (p p' : Style → Printing Doc) : Prop :=
  ∀ (target : Target) (config : Config) (events events' : List Event),
    Twin E
      (fun text text' => TextsAlike (DroppedComment E N) text text' ∧
        ((∀ name, ¬ N name) → text = text'))
      ((p (config.style target)).render config events).1
      ((p' (config.style target)).render config events').1

theorem Printing.Mirror.render {R : Doc → Doc → Prop} {T : String → String → Prop}
    {p p' : Printing Doc} (h : Printing.Mirror E p p' R) (config : Config)
    (hR : ∀ d d', R d d' → T (d.render config.width) (d'.render config.width))
    (events events' : List Event) :
    Twin E T (p.render config events).1 (p'.render config events').1 := by
  have hrun := (h events events' trivial).1
  unfold Printing.render
  rcases hp : p.run.run events with ⟨result, t⟩
  rcases hp' : p'.run.run events' with ⟨result', t'⟩
  rw [hp, hp'] at hrun
  cases hrun with
  | error he => exact .error he
  | ok hd => exact .ok (hR _ _ hd)

theorem Printing.Mirror.sameRendering {q : Layout.Position} {p p' : Style → Printing Doc}
    (h : ∀ s, Printing.Mirror E (p s) (p' s)
      fun d d' => Doc.Alike (DroppedComment E N) .fresh d d' q) : SameRendering E N p p' := by
  intro target config events events'
  refine (h (config.style target)).render config (fun d d' hd => ?_) events events'
  refine ⟨hd.render _, fun hnone => (hd.render _).eq ?_⟩
  rintro _ _ ⟨hn, -⟩
  exact hnone _ hn

/-- By induction on the depth, classes that are the same up to keys look alike. -/
theorem ClassTree.Renamed.alike_toText (s : Style) {depth depth' : Nat} {c : ClassTree depth}
    {c' : ClassTree depth'} (h : c.Renamed E N c') :
    ClassText.Alike E (DroppedComment E N) (c.toText s) (c'.toText s) := by
  induction depth generalizing depth' with
  | zero => exact nomatch c
  | succ depth ih =>
    cases depth' with
    | zero => exact nomatch c'
    | succ depth' =>
      exact ClassDecl.Matches.alike_toText (fun _ _ h => ih h) comments_renamed
        (ClassDecl.Renamed.matched h)

/-- Classes, methods and fields that are the same up to the keys of their bodies are
rendered alike. -/
theorem renamed_rendered (E : PrintError → PrintError → Prop) (N : String → Prop)
    {depth depth' : Nat} :
    (∀ (c : ClassTree depth) (c' : ClassTree depth'), c.Renamed E N c' →
      SameRendering E N (fun s => c.doc s) fun s => c'.doc s) ∧
    (∀ (m : MethodDecl (ClassTree depth)) (m' : MethodDecl (ClassTree depth')),
      m.Renamed E N (ClassTree.Renamed E N) m' →
      SameRendering E N (fun s => m.doc s (ClassTree.toText s))
        fun s => m'.doc s (ClassTree.toText s)) ∧
    ∀ (f : FieldDecl (ClassTree depth)) (f' : FieldDecl (ClassTree depth')),
      f.Renamed E (ClassTree.Renamed E N) f' →
      SameRendering E N (fun s => f.doc s (ClassTree.toText s))
        fun s => f'.doc s (ClassTree.toText s) := by
  refine ⟨fun c c' h => ?_, fun m m' h => ?_, fun f f' h => ?_⟩
  · refine Printing.Mirror.sameRendering (q := .loose) fun s => ?_
    exact (Printing.mirror_report _ _).bind fun _ _ _ => (h.alike_toText s).declaration
  · exact Printing.Mirror.sameRendering fun s =>
      h.matched.mirror_doc (fun _ _ h => h.alike_toText s) comments_renamed
  · refine Printing.Mirror.sameRendering (q := .inside) fun s => ?_
    refine (h.mirror_doc fun _ _ h => h.alike_toText (N := N) s).mono fun _ _ hd => ?_
    exact hd.sub (.fresh _) le_rfl

namespace Refilled

def storing (parameter result : VariableId) (vars : List (Slot Variable))
    (unused : List (Slot (Construction (ClassTree 0)))) : MethodDecl (ClassTree 0) :=
  { name := "m"
    returnType := some "void"
    parameters := [⟨parameter, []⟩]
    body := {
      vars := ⟨vars, []⟩
      constructions :=
        ⟨unused ++ [⟨1, some { form := .block [.assign (.var result) (.var parameter)] }⟩], []⟩
      entry := some ⟨unused.length + 1, 1⟩ } }

def fresh : MethodDecl (ClassTree 0) :=
  storing ⟨1, 1⟩ ⟨2, 1⟩ [⟨1, some ⟨"n", "int", .parameter⟩⟩, ⟨1, some ⟨"x", "int", .localVar⟩⟩] []

/-- The first slot of the variables is in use again, the second one is not in use, and
the first block is out of reach. -/
def refilled : MethodDecl (ClassTree 0) :=
  storing ⟨3, 1⟩ ⟨1, 3⟩
    [⟨3, some ⟨"x", "int", .localVar⟩⟩, ⟨1, some ⟨"y", "int", .localVar⟩⟩,
      ⟨1, some ⟨"n", "int", .parameter⟩⟩]
    [⟨1, some { form := .block [] }⟩]

def Variables (i i' : VariableId) : Prop :=
  i = ⟨1, 1⟩ ∧ i' = ⟨3, 1⟩ ∨ i = ⟨2, 1⟩ ∧ i' = ⟨1, 3⟩

def Constructions (k k' : ConstructionId) : Prop := k = ⟨1, 1⟩ ∧ k' = ⟨2, 1⟩

theorem renamed_body (K : ClassTree 0 → ClassTree 0 → Prop) :
    fresh.body.Renamed Variables K Constructions refilled.body where
  lookup_eq h := by rcases h with ⟨rfl, rfl⟩ | ⟨rfl, rfl⟩ <;> rfl
  variable_iff hi hj _ _ := by
    rcases hi with ⟨rfl, rfl⟩ | ⟨rfl, rfl⟩ <;> rcases hj with ⟨rfl, rfl⟩ | ⟨rfl, rfl⟩ <;> decide
  peek_rel h := by
    obtain ⟨rfl, rfl⟩ := h
    have hresult : Expr.Renamed Variables K (.var ⟨2, 1⟩) (.var ⟨1, 3⟩) :=
      ⟨.var ⟨(_, _), .inr ⟨rfl, rfl⟩⟩, rfl, rfl⟩
    have hparameter : Expr.Renamed Variables K (.var ⟨1, 1⟩) (.var ⟨3, 1⟩) :=
      ⟨.var ⟨(_, _), .inl ⟨rfl, rfl⟩⟩, rfl, rfl⟩
    exact .some ⟨.block (.cons (.assign hresult hparameter) .nil), rfl, .none⟩
  construction_iff hk hl _ _ := by
    obtain ⟨rfl, rfl⟩ := hk
    obtain ⟨rfl, rfl⟩ := hl
    decide
  entry := .some ⟨rfl, rfl⟩

def holder (m : MethodDecl (ClassTree 0)) : ClassTree 1 :=
  ({ name := "A", methods := [m] } : ClassDecl (ClassTree 0))

theorem renamed_holder :
    (holder fresh).Renamed (PrintError.Renamed Variables Constructions) (fun _ => False)
      (holder refilled) := by
  have hmethod : MethodDecl.Renamed (PrintError.Renamed Variables Constructions) (fun _ => False)
      (ClassTree.Renamed (PrintError.Renamed Variables Constructions) fun _ => False)
      fresh refilled := by
    refine ⟨rfl, rfl, rfl, rfl, rfl, rfl, rfl, rfl, fun h => absurd rfl h, .nil, ?_⟩
    exact ⟨Variables, Constructions, renamed_body _, fun _ _ => id,
      .cons ⟨.inl ⟨rfl, rfl⟩, rfl⟩ .nil⟩
  exact ⟨rfl, rfl, rfl, rfl, rfl, rfl, rfl, rfl, rfl, rfl, rfl, rfl, .nil, .cons hmethod .nil, .nil⟩

def dangling (parameter : VariableId) : MethodDecl (ClassTree 0) :=
  { name := "m"
    returnType := some "void"
    parameters := [⟨parameter, []⟩]
    error := some ⟨"L", "x"⟩ }

end Refilled

open Refilled

theorem renamed_rendered_refilled :
    (holder fresh).Renamed (PrintError.Renamed Variables Constructions) (fun _ => False)
      (holder refilled) ∧
    ∃ text, (((holder fresh).doc ⟨.java, 4⟩).render {} []).1 = .ok text ∧
      (((holder refilled).doc ⟨.java, 4⟩).render {} []).1 = .ok text := by
  have hsame := (renamed_rendered _ _).1 _ _ renamed_holder .java {} [] []
  have hprinted : ∃ text, (((holder fresh).doc ⟨.java, 4⟩).render {} []).1 = .ok text := ⟨_, rfl⟩
  obtain ⟨text, htext⟩ := hprinted
  refine ⟨renamed_holder, text, htext, ?_⟩
  change Twin _ _ (((holder fresh).doc ⟨.java, 4⟩).render {} []).1
    (((holder refilled).doc ⟨.java, 4⟩).render {} []).1 at hsame
  rw [htext] at hsame
  generalize (((holder refilled).doc ⟨.java, 4⟩).render {} []).1 = result at hsame ⊢
  cases hsame with
  | ok h => rw [h.2 fun _ => id]

/-- The text spells a key of the method it was rendered from. -/
theorem exists_spelled :
    (∃ V C, (dangling ⟨6, 1⟩).Renamed (PrintError.Renamed V C) (· = "m")
      (ClassTree.Renamed (PrintError.Renamed V C) (· = "m")) (dangling ⟨8, 1⟩)) ∧
    (((dangling ⟨6, 1⟩).doc ⟨.java, 4⟩ (ClassTree.toText ⟨.java, 4⟩)).render {} []).1 ≠
      (((dangling ⟨8, 1⟩).doc ⟨.java, 4⟩ (ClassTree.toText ⟨.java, 4⟩)).render {} []).1 := by
  refine ⟨⟨fun i i' => i = ⟨6, 1⟩ ∧ i' = ⟨8, 1⟩, fun _ _ => False, ?_⟩, ?_⟩
  · refine ⟨rfl, rfl, rfl, rfl, rfl, rfl, rfl, rfl, fun _ => rfl, .nil, ?_⟩
    refine ⟨_, _, ⟨?_, ?_, nofun, nofun, .none⟩, fun _ _ => id, .cons ⟨⟨rfl, rfl⟩, rfl⟩ .nil⟩
    · rintro _ _ ⟨rfl, rfl⟩
      rfl
    · rintro _ _ _ _ _ _ ⟨rfl, rfl⟩ ⟨rfl, rfl⟩ _ _
      decide
  · decide +kernel

end Unparse
