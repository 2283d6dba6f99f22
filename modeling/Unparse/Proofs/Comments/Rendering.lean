import Unparse.Proofs.Comments.Lines
import Unparse.Proofs.Layout.Laid
import Unparse.Proofs.Renaming.Rendering

/-! # Recorded failures in comments

A recorded failure is told in a comment that is one line. What was recorded may have
line ends of its own, and what is behind them need not stay in the comment. It does
exactly if no program has other lines of code for it.
-/

namespace Unparse

open Layout (BothCovered Doc)
open Text (IsCovered codeLines endsLine tidied)

/-- What was recorded stays inside the comment that tells of it. -/
def UnitError.StaysInComment (error : UnitError) : Prop := IsCovered ("// " ++ error.spell).toList

/-- The failures may differ if both are among `P`. -/
def UnitError.Reworded (P : UnitError → Prop) (error error' : UnitError) : Prop :=
  error = error' ∨ P error ∧ P error'

abbrev MethodDecl.Reworded {κ κ' : Type} (P : UnitError → Prop) (K : κ → κ' → Prop) :
    MethodDecl κ → MethodDecl κ' → Prop :=
  MethodDecl.Matches Eq K fun _ => UnitError.Reworded P

/-- Failures of the classes and of the methods inside may differ if they are among `P`. A
class that another failure was recorded for has a name that is one line. -/
def ClassTree.Reworded (P : UnitError → Prop) :
    {depth depth' : Nat} → ClassTree depth → ClassTree depth' → Prop
  | _ + 1, _ + 1, c, c' => ClassDecl.Matches Eq (ClassTree.Reworded P)
      (fun _ => UnitError.Reworded P)
      (fun name => UnitError.Reworded fun error => P error ∧ ∀ c ∈ name.toList, endsLine c = false)
      c c'

/-- In every language and layout both are rendered to texts with the same lines of code,
or both fail with the same error. -/
def SameCode (p p' : Style → Printing Doc) : Prop :=
  ∀ (target : Target) (config : Config) (events events' : List Event),
    Twin Eq (fun text text' => codeLines text.toList = codeLines text'.toList)
      ((p (config.style target)).render config events).1
      ((p' (config.style target)).render config events').1

variable {error : UnitError}

theorem UnitError.StaysInComment.cls (h : error.StaysInComment) {name : String}
    (hname : ∀ c ∈ name.toList, endsLine c = false) :
    IsCovered (Recorded.cls name error).comment.toList := by
  have hword {w : List Char} (h : (w.all fun c => !endsLine c) = true) :
      ∀ c ∈ w, endsLine c = false := by simpa using h
  obtain ⟨front, hcomment, hends, hmarked⟩ :
      ∃ front, (Recorded.cls name error).comment.toList = front ++ error.spell.toList ∧
        (∀ c ∈ front, endsLine c = false) ∧ ['/', '/'] <+: front := by
    refine ⟨("// Error occurred while decompiling " ++ "class" ++ " " ++ name ++ ": ").toList,
      String.toList_append, fun c hc => ?_, by simp⟩
    simp only [String.toList_append, List.mem_append] at hc
    rcases hc with (((hc | hc) | hc) | hc) | hc
    case inl.inr => exact hname c hc
    all_goals exact hword (by decide +kernel) c hc
  have hnil : codeLines front = [] := by
    obtain ⟨rest, rfl⟩ := hmarked
    rw [Text.codeLines_line hends]
    rfl
  have hbreak : '\n' ∉ front := fun hmem => absurd (hends _ hmem) (by decide)
  have hgoes := Text.codeLines_tidied_append_congr hnil (by decide : codeLines "// ".toList = [])
    hbreak (by decide) (error.spell.toList ++ ['x'])
  rw [← List.append_assoc, ← List.append_assoc, ← hcomment, ← String.toList_append] at hgoes
  exact ⟨hcomment ▸ hmarked.trans (List.prefix_append _ _), hgoes.trans h.covered⟩

theorem comments_reworded {P : UnitError → Prop} (hP : ∀ error, P error → error.StaysInComment) :
    Comments Eq (fun _ => UnitError.Reworded P)
      (fun name => UnitError.Reworded fun error =>
        P error ∧ ∀ c ∈ name.toList, endsLine c = false) BothCovered where
  method h := h.imp (fun h => by rw [h]) fun h => ⟨hP _ h.1, hP _ h.2⟩
  dropped _ hcause := .inl (by rw [hcause])
  cls h := h.imp (fun h => by rw [h])
    fun h => ⟨(hP _ h.1.1).cls h.1.2, (hP _ h.2.1).cls h.2.2⟩

/-- By induction on the depth, classes look alike if other failures were recorded that
stay inside their comments. -/
theorem ClassTree.Reworded.alike_toText {P : UnitError → Prop}
    (hP : ∀ error, P error → error.StaysInComment) (s : Style) {depth depth' : Nat}
    {c : ClassTree depth} {c' : ClassTree depth'} (h : c.Reworded P c') :
    ClassText.Alike Eq BothCovered (c.toText s) (c'.toText s) := by
  induction depth generalizing depth' with
  | zero => exact nomatch c
  | succ depth ih =>
    cases depth' with
    | zero => exact nomatch c'
    | succ depth' =>
      exact ClassDecl.Matches.alike_toText (fun _ _ h => ih h) (comments_reworded hP) h

theorem Printing.Mirror.sameCode {q : Layout.Position} {p p' : Style → Printing Doc}
    (h : ∀ s, Printing.Mirror Eq (p s) (p' s) fun d d' => Doc.Alike BothCovered .fresh d d' q) :
    SameCode p p' := by
  intro target config events events'
  have hcode (d d' : Doc) (hd : Doc.Alike BothCovered .fresh d d' q) :=
    hd.codeLines_eq config.width
  exact Printing.Mirror.render (T := fun text text' => codeLines text.toList = codeLines text'.toList)
    (h (config.style target)) config hcode events events'

/-- A method with a recorded failure and a label behind the comment that tells of it. -/
def telling (error : UnitError) : MethodDecl (ClassTree 0) :=
  { name := "m"
    returnType := some "void"
    error := some error
    body := {
      constructions := ⟨[⟨1, some { form := .block [], place := { label := some "x" } }⟩], []⟩
      entry := some ⟨1, 1⟩ } }

theorem telling_reworded {P : UnitError → Prop} {error error' : UnitError} (h : P error)
    (h' : P error') :
    (telling error).Reworded P (ClassTree.Reworded P : ClassTree 0 → ClassTree 0 → Prop)
      (telling error') := by
  have hbody : (telling error).body.Renamed (fun _ _ => False) (ClassTree.Reworded P)
      (fun k k' => k = ⟨1, 1⟩ ∧ k' = ⟨1, 1⟩) (telling error').body :=
    { lookup_eq := nofun
      variable_iff := nofun
      peek_rel := by
        rintro _ _ ⟨rfl, rfl⟩
        exact .some ⟨.block .nil, rfl, .none⟩
      construction_iff := fun ⟨hk, hk'⟩ ⟨hl, hl'⟩ _ _ => by simp only [hk, hk', hl, hl']
      entry := .some ⟨rfl, rfl⟩ }
  refine ⟨rfl, rfl, rfl, rfl, rfl, rfl, rfl, .some (.inr ⟨h, h'⟩), .nil, _, _, hbody, ?_, .nil⟩
  intro e e' he
  cases he with
  | unknownVariable h => exact h.elim
  | unknownConstruction h | revisitedConstruction h => rw [h.1, h.2]
  | _ => rfl

/-- The label goes on with the last line of the comment. -/
theorem telling_rendered (error : UnitError) : ∃ m n text,
    (((telling error).doc (Config.style {} .java)
      (ClassTree.toText (Config.style {} .java))).render {} []).1 = .ok text ∧
    text.toList = tidied ("void m() \x7b".toList ++ '\n' :: (List.replicate m ' ' ++
      (("// " ++ error.spell).toList ++ ['x', ':', ' ']) ++ '\n' ::
        (List.replicate n ' ' ++ ['\x7d']))) := by
  have hword : Doc.text ("// " ++ error.spell) = .word ("// " ++ error.spell) :=
    if_neg (by simp [← String.toList_inj])
  have hhead : (Config.style {} .java).methodHead (telling error) = .word "void " ++ .word "m" := by
    cbv
  have hrun : (((telling error).doc (Config.style {} .java)
      (ClassTree.toText (Config.style {} .java))).run.run []).1 = .ok
        (((Doc.word "void " ++ .word "m") ++ (Doc.word "(" ++ .word ")")) ++ (Doc.text " " ++
          (Config.style {} .java).braced
            (.newline ++ .word ("// " ++ error.spell) ++ .word "x: "))) := by
    simp only [MethodDecl.doc, MethodDecl.declarationDoc, hhead]
    simp only [MethodDecl.bodyDoc, telling, hword]
    rfl
  obtain ⟨cs, hcs, hrender⟩ := Doc.exists_lays_render (((Doc.word "void " ++ .word "m") ++
    (Doc.word "(" ++ .word ")")) ++ (Doc.text " " ++ (Config.style {} .java).braced
      (.newline ++ .word ("// " ++ error.spell) ++ .word "x: "))) 100
  obtain ⟨m, n, rfl⟩ : ∃ m n, cs = "void m() \x7b".toList ++ '\n' :: (List.replicate m ' ' ++
      (("// " ++ error.spell).toList ++ ['x', ':', ' ']) ++ '\n' ::
        (List.replicate n ' ' ++ ['\x7d'])) := by
    simpa [Doc.lays_append, Style.braced, Doc.lays_indented, Doc.lays_text, Doc.Lays] using hcs
  exact ⟨m, n, _, congrArg (Except.map (Doc.render 100)) hrun, hrender⟩

theorem length_codeLines_telling {error : UnitError} {text : String}
    (h : (((telling error).doc (Config.style {} .java)
      (ClassTree.toText (Config.style {} .java))).render {} []).1 = .ok text) :
    (codeLines text.toList).length = 2 ↔ error.StaysInComment := by
  obtain ⟨m, n, text', htext, htidied⟩ := telling_rendered error
  obtain rfl : text = text' := Except.ok.inj (h.symm.trans htext)
  have hfirst : codeLines (tidied ("void m() \x7b".toList ++ ['\n'])) =
      ["void m() \x7b".toList] := by
    decide +kernel
  have hlast : (codeLines (tidied (List.replicate n ' ' ++ ['\x7d']))).length = 1 := by
    have htext : tidied (List.replicate n ' ' ++ ['\x7d']) = List.replicate n ' ' ++ ['\x7d'] := by
      simpa [tidied] using Text.kept_of_line (s := ['\x7d']) (by decide) rfl (by decide) n []
    have hcode : Text.isComment (List.replicate n ' ' ++ ['\x7d']) = false := by
      rw [Text.isComment, List.dropWhile_append_of_pos (by simp +contextual [List.mem_replicate])]
      rfl
    rw [htext, Text.codeLines_line (by simp +contextual [List.mem_replicate, or_imp, endsLine]),
      hcode]
    rfl
  have hcomment : codeLines (tidied (List.replicate m ' ' ++
      (("// " ++ error.spell).toList ++ ['x', ':', ' ']) ++ ['\n'])) = [] ↔
      error.StaysInComment := by
    have hindented : codeLines (tidied (List.replicate m ' ' ++
        (("// " ++ error.spell).toList ++ ['x', ':', ' ']) ++ ['\n'])) =
          codeLines (tidied (("// " ++ error.spell).toList ++ ['x', ':', ' ', '\n'])) := by
      simpa using Text.codeLines_tidied_indented m
        (' ' :: error.spell.toList ++ ['x', ':', ' ', '\n'])
    rw [hindented]
    refine ⟨fun h => ⟨by simp, Text.codeLines_tidied_of_append_letter h⟩, fun h => ?_⟩
    rw [Text.codeLines_tidied_append h.covered]
    decide +kernel
  rw [htidied, Text.codeLines_tidied_break _ (by simp),
    Text.codeLines_tidied_break (List.replicate m ' ' ++ _) (by simp), hfirst, List.length_append,
    List.length_append, hlast, ← hcomment, ← List.length_eq_zero_iff, List.length_singleton]
  omega

def UnitError.Exchangeable (error e : UnitError) : Prop := e = error ∨ e.StaysInComment

/-- What is recorded stays inside its comment if and only if programs that tell of it
have the lines of code of those that tell of another failure that stays, in every
language and layout. -/
theorem staysInComment_iff (error : UnitError) :
    error.StaysInComment ↔ ∀ depth depth' : Nat,
      (∀ (c : ClassTree depth) (c' : ClassTree depth'), c.Reworded error.Exchangeable c' →
        SameCode (fun s => c.doc s) fun s => c'.doc s) ∧
      (∀ (m : MethodDecl (ClassTree depth)) (m' : MethodDecl (ClassTree depth')),
        m.Reworded error.Exchangeable (ClassTree.Reworded error.Exchangeable) m' →
        SameCode (fun s => m.doc s (ClassTree.toText s))
          fun s => m'.doc s (ClassTree.toText s)) ∧
      ∀ (f : FieldDecl (ClassTree depth)) (f' : FieldDecl (ClassTree depth')),
        f.Renamed Eq (ClassTree.Reworded error.Exchangeable) f' →
        SameCode (fun s => f.doc s (ClassTree.toText s))
          fun s => f'.doc s (ClassTree.toText s) := by
  constructor
  · intro herror depth depth'
    have hstays (e : UnitError) (he : error.Exchangeable e) : e.StaysInComment := by
      rcases he with rfl | h
      · exact herror
      · exact h
    refine ⟨fun c c' h => ?_, fun m m' h => ?_, fun f f' h => ?_⟩
    · refine Printing.Mirror.sameCode (q := .loose) fun s => ?_
      exact (Printing.mirror_report _ _).bind fun _ _ _ => (h.alike_toText hstays s).declaration
    · exact Printing.Mirror.sameCode fun s =>
        h.mirror_doc (fun _ _ h => h.alike_toText hstays s) (comments_reworded hstays)
    · refine Printing.Mirror.sameCode (q := .inside) fun s => ?_
      refine (h.mirror_doc fun _ _ h => h.alike_toText hstays s).mono fun _ _ hd => ?_
      exact hd.sub (.fresh _) le_rfl
  · intro h
    have hempty : UnitError.StaysInComment ⟨"", ""⟩ := ⟨by decide, by decide⟩
    have hsame := (h 0 0).2.1 _ _ (telling_reworded (.inl rfl) (.inr hempty)) .java {} [] []
    obtain ⟨-, -, text, htext, -⟩ := telling_rendered error
    obtain ⟨-, -, text', htext', -⟩ := telling_rendered ⟨"", ""⟩
    rw [htext, htext'] at hsame
    cases hsame with
    | ok hcode =>
      rw [← length_codeLines_telling htext, hcode, length_codeLines_telling htext']
      exact hempty

def failed (error : UnitError) : ClassTree 1 :=
  ({ name := "A", error := some error } : ClassDecl (ClassTree 0))

/-- What is behind a line break in a message is a line of code. -/
theorem exists_escaping : ∃ error error' : UnitError, ∀ target : Target, ∃ text text',
    (((failed error).doc (Config.style {} target)).render {} []).1 = .ok text ∧
      (((failed error').doc (Config.style {} target)).render {} []).1 = .ok text' ∧
      codeLines text.toList = ['b'] :: codeLines text'.toList := by
  refine ⟨⟨"L", "a\nb"⟩, ⟨"L", "a"⟩, fun target => ?_⟩
  refine ⟨"// Error occurred while decompiling class A: L: a\nb\nclass A \x7b\n\x7d",
    "// Error occurred while decompiling class A: L: a\nclass A \x7b\n\x7d", ?_⟩
  cases target
  all_goals decide +kernel

end Unparse
