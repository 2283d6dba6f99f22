import Unparse.Proofs.Nesting.Reading

/-! # Documents that show their nesting

A document of code is indented by the levels of the braces and cases around it. It is
then read as its parts with the right indentation at the start of each line, wherever
it is placed. This is kept when documents are put one after another, on lines of their
own, or between braces.
-/

namespace Unparse

open Layout (Doc deepest shift)
open Layout.Doc (text)
open Unparse.Part (newline keyword label expression binding caseLabel item clause)

/-- A document that is indented by `i` is read as parts, from certain open braces to
others, if something is written of every statement. A line may start there, and has to
if `fresh`. -/
def NestsAt (s : Style) (j : Nat) (braces braces' : List Bool) (i : Nat) (fresh : Bool) (d : Doc)
    (ps : List Part) : Prop :=
  (∀ x, item x ∈ ps → s.itemDoc x ≠ .empty) → ∀ next line : Option Nat,
    (∀ n ∈ line, n = s.blanks j (levels braces)) → (fresh = true → line ≠ none) →
      ∃ line', (∀ n ∈ line', n = s.blanks j (levels braces')) ∧
        Reading s j ⟨braces, false⟩ line ps (d.due i next) ⟨braces', false⟩ line'

/-- A document is read as parts wherever it is indented by the levels around it, and
leaves no brace open. -/
def Nests (s : Style) (fresh : Bool) (d : Doc) (ps : List Part) : Prop :=
  ∀ j braces, NestsAt s j braces braces (s.blanks j (levels braces)) fresh d ps

/-- A part that says nothing about lines and braces. -/
@[simp] def Part.isInert : Part → Bool
  | keyword word => !(["switch ", "\x7b", " \x7b", "\x7d"] ++ armWords).contains word
  | label _ | expression _ | binding _ _ | clause _ => true
  | newline | caseLabel _ | item _ => false

theorem Part.step_of_isInert {p : Part} (h : p.isInert = true) (ns : Nesting) :
    p ≠ newline ∧ ns.step p = ns ∧ ns.levelsAt p = levels ns.braces ∧ p.startsLine = false := by
  cases p <;> simp_all [Nesting.step, Nesting.levelsAt, startsLine]

theorem Reading.inert {s : Style} {j : Nat} (ns : Nesting) (line : Option Nat) {ps : List Part}
    {ls : List (Doc × Nat)} (h : ∀ p ∈ ps, p.isInert = true)
    (hleaves : ls.map Prod.fst = leavesOf s ps)
    (hline : ∀ n ∈ line, n = s.blanks j (levels ns.braces)) :
    ∃ line', (∀ n ∈ line', n = s.blanks j (levels ns.braces)) ∧
      Reading s j ns line ps ls ns line' := by
  induction ps generalizing line ls with
  | nil =>
    obtain rfl : ls = [] := by simpa using hleaves
    exact ⟨line, hline, .nil ns line⟩
  | cons p ps ih =>
    obtain ⟨own, rest, rfl, hown, hrest⟩ := List.map_eq_append_iff.1 hleaves
    obtain ⟨hp, hstep, hlevels, hstarts⟩ := Part.step_of_isInert (h p List.mem_cons_self) ns
    obtain ⟨line', hline', hread⟩ :=
      ih none (fun q hq => h q (List.mem_cons_of_mem p hq)) hrest nofun
    refine ⟨line', hline', .part hp hown ?_ (by simp [hstarts]) (by rwa [hstep])⟩
    rwa [hlevels]

theorem Reading.single {s : Style} {j : Nat} {ns : Nesting} {line : Option Nat} {p : Part}
    (hp : p ≠ newline) (hline : ∀ n ∈ line, n = s.blanks j (ns.levelsAt p))
    (hstarts : p.startsLine = true → line ≠ none) (i : Nat) (next : Option Nat) :
    Reading s j ns line [p] ((p.doc s).due i next) (ns.step p) none := by
  rw [← List.append_nil ((p.doc s).due i next)]
  exact .part hp (Doc.map_fst_due ..) hline hstarts (.nil _ none)

section Documents

variable {s : Style} {j i : Nat} {braces braces' braces'' : List Bool} {fresh : Bool}
  {a b c d : Doc} {ps qs : List Part}

namespace NestsAt

theorem nil : NestsAt s j braces braces i false Doc.empty [] :=
  fun _ _ line hline _ => ⟨line, hline, .nil _ line⟩

theorem atStart (h : NestsAt s j braces braces' i fresh d ps) :
    NestsAt s j braces braces' i true d ps :=
  fun hitems next line hline hstart => h hitems next line hline fun _ => hstart rfl

theorem append (ha : NestsAt s j braces braces' i fresh a ps)
    (hb : NestsAt s j braces' braces'' i false b qs) :
    NestsAt s j braces braces'' i fresh (a ++ b) (ps ++ qs) := by
  intro hitems next line hline hfresh
  rw [Doc.due_append]
  obtain ⟨line₁, hline₁, hps⟩ := ha (fun x hx => hitems x (List.mem_append_left _ hx))
    (if b = .empty then next else some i) line hline hfresh
  obtain ⟨line₂, hline₂, hqs⟩ := hb (fun x hx => hitems x (List.mem_append_right _ hx))
    next line₁ hline₁ nofun
  exact ⟨line₂, hline₂, hps.append hqs⟩

theorem plain (h : ∀ p ∈ ps, p.isInert = true) (hleaves : leavesOf s ps = d.leaves) :
    NestsAt s j braces braces i false d ps := fun _ next line hline _ =>
  Reading.inert ⟨braces, false⟩ line h ((Doc.map_fst_due i next d).trans hleaves.symm) hline

theorem assoc : NestsAt s j braces braces' i fresh (a ++ b ++ c) ps ↔
    NestsAt s j braces braces' i fresh (a ++ (b ++ c)) ps := by
  have hdue (next : Option Nat) : (a ++ b ++ c).due i next = (a ++ (b ++ c)).due i next := by
    by_cases hb : b = .empty <;> by_cases hc : c = .empty <;> simp [Doc.due_append, hb, hc]
  simp only [NestsAt, hdue]

theorem indented (hsize : s.indentSize < 0x8000000000000000) {n : Nat}
    (h : NestsAt s j braces braces' (s.blanks j (n + 1)) fresh d ps) :
    NestsAt s j braces braces' (s.blanks j n) fresh (d.indented s.indent) ps := by
  intro hitems next
  rw [Doc.due_indented (s.blanks_le j n), s.shift_blanks hsize]
  exact h hitems next

theorem foldl {α : Type} {as : List α} {f : α → Doc} {g : α → List Part}
    (hd : NestsAt s j braces braces i fresh d ps)
    (h : ∀ a ∈ as, NestsAt s j braces braces i false (f a) (g a)) :
    NestsAt s j braces braces i fresh (as.foldl (fun d a => d ++ f a) d) (ps ++ as.flatMap g) := by
  induction as generalizing d ps with
  | nil => simpa using hd
  | cons a as ih =>
    rw [List.forall_mem_cons] at h
    simpa using ih (hd.append h.1) h.2

theorem concat {α : Type} {as : List α} {f : α → Doc} {g : α → List Part}
    (h : ∀ a ∈ as, NestsAt s j braces braces i false (f a) (g a)) :
    NestsAt s j braces braces i false (Doc.concat (as.map f)) (as.flatMap g) := by
  rw [Doc.concat, List.foldl_map]
  exact nil.foldl h

theorem line (h : NestsAt s j braces braces' i true d ps) (hi : i = s.blanks j (levels braces))
    (hd : d ≠ .empty) :
    NestsAt s j braces braces' i false (Doc.newline ++ d) (newline :: ps) := by
  intro hitems next line _ _
  obtain ⟨line', hline', hps⟩ := h (fun x hx => hitems x (List.mem_cons_of_mem _ hx)) next
    (some i) (by simp [hi]) (by simp)
  refine ⟨line', hline', ?_⟩
  rw [Doc.due_append, if_neg hd]
  exact .lineBreak _ hps

end NestsAt

/-- A body is one level deeper than its braces. -/
theorem due_block (hsize : s.indentSize < 0x8000000000000000) {opening : String}
    (hopening : opening ≠ "") (n : Nat) (next : Option Nat) :
    (text opening ++ d.indented s.indent ++ Doc.newline ++ text "\x7d").due (s.blanks j n) next =
      [(Doc.word opening, s.blanks j n)] ++ (d.due (s.blanks j (n + 1)) (some (s.blanks j n)) ++
        [(Doc.newline, s.blanks j n), (Doc.word "\x7d", next.getD (s.blanks j n))]) := by
  have hbrace : text "\x7d" ≠ .empty := by decide
  rw [Doc.due_append, if_neg hbrace, Doc.due_append_some, Doc.due_append_some,
    Doc.due_indented (s.blanks_le j _), s.shift_blanks hsize]
  simp [hopening]

theorem Reading.block (hsize : s.indentSize < 0x8000000000000000) {opening : String}
    (hopening : opening = "\x7b" ∨ opening = " \x7b") {holdsCases holdsCases' : Bool}
    (h : NestsAt s j (holdsCases :: braces) (holdsCases' :: braces) (s.blanks j (levels braces + 1))
      false d ps)
    (hitems : ∀ x, Part.item x ∈ ps → s.itemDoc x ≠ .empty) (next : Option Nat) {line : Option Nat}
    (hline : ∀ n ∈ line, n = s.blanks j (levels braces)) :
    Reading s j ⟨braces, holdsCases⟩ line (keyword opening :: ps ++ [newline, keyword "\x7d"])
      ((text opening ++ d.indented s.indent ++ Doc.newline ++ text "\x7d").due
        (s.blanks j (levels braces)) next) ⟨braces, false⟩ none := by
  obtain ⟨line', -, hps⟩ := h hitems (some (s.blanks j (levels braces))) none nofun nofun
  have hopen : opening ≠ "" := by rcases hopening with rfl | rfl <;> decide
  have hstep : Nesting.step ⟨braces, holdsCases⟩ (keyword opening) =
      ⟨holdsCases :: braces, false⟩ := by
    rcases hopening with rfl | rfl <;> rfl
  rw [due_block hsize hopen]
  refine .part nofun ?_ ?_ ?_ ?_
  · simp [Part.doc, hopen]
  · rcases hopening with rfl | rfl <;> exact hline
  · rcases hopening with rfl | rfl <;> nofun
  · rw [hstep]
    refine hps.append (.lineBreak _ (Reading.single (p := keyword "\x7d") nofun ?_
      (fun _ => Option.some_ne_none _) (s.blanks j (levels braces)) next))
    simp [Nesting.levelsAt]

namespace Nests

theorem nil : Nests s false Doc.empty [] := fun _ _ => .nil

theorem atStart (h : Nests s fresh d ps) : Nests s true d ps :=
  fun j braces => (h j braces).atStart

theorem append (ha : Nests s fresh a ps) (hb : Nests s false b qs) :
    Nests s fresh (a ++ b) (ps ++ qs) :=
  fun j braces => (ha j braces).append (hb j braces)

theorem plain (h : ∀ p ∈ ps, p.isInert = true) (hleaves : leavesOf s ps = d.leaves) :
    Nests s false d ps := fun _ _ => .plain h hleaves

theorem assoc : Nests s fresh (a ++ b ++ c) ps ↔ Nests s fresh (a ++ (b ++ c)) ps :=
  forall₂_congr fun _ _ => NestsAt.assoc

theorem line (h : Nests s true d ps) (hd : d ≠ .empty) :
    Nests s false (Doc.newline ++ d) (newline :: ps) := fun j braces => (h j braces).line rfl hd

theorem item (x : Item StmtCode) : Nests s true (s.itemDoc x) [item x] := by
  intro j braces _ next line hline hfresh
  exact ⟨none, nofun, Reading.single (p := .item x) nofun hline (fun _ => hfresh rfl) _ next⟩

theorem ownLine (x : Item StmtCode) :
    Nests s false (Doc.newline ++ s.itemDoc x) [newline, Part.item x] := by
  intro j braces hitems
  exact (item x).line (hitems x (by simp)) j braces hitems

theorem concat {α : Type} {as : List α} {f : α → Doc} {g : α → List Part}
    (h : ∀ a ∈ as, Nests s false (f a) (g a)) :
    Nests s false (Doc.concat (as.map f)) (as.flatMap g) :=
  fun j braces => .concat fun a ha => h a ha j braces

variable (hsize : s.indentSize < 0x8000000000000000)
include hsize

theorem braced (h : Nests s false d ps) : Nests s false (s.braced d) (bracedParts ps) := by
  intro j braces hitems next line hline _
  have hbody := h j (false :: braces)
  rw [levels_cons] at hbody
  exact ⟨none, nofun, Reading.block hsize (.inl rfl) hbody
    (fun x hx => hitems x (by simp [bracedParts, hx])) next hline⟩

/-- A structure whose branches stand between braces, one level deeper. -/
theorem structured {word : String} {holdsCases : Bool}
    (hword : ∀ braces, Nesting.step ⟨braces, false⟩ (keyword word) = ⟨braces, holdsCases⟩)
    (hlevels : ∀ braces, Nesting.levelsAt ⟨braces, false⟩ (keyword word) = levels braces)
    (hstarts : (keyword word).startsLine = false) (selector : ExprCode)
    (h : ∀ j braces, ∃ holdsCases', NestsAt s j (holdsCases :: braces) (holdsCases' :: braces)
      (s.blanks j (levels braces + 1)) false d ps) :
    Nests s false (text word ++ (selector.doc s).parens ++ text " \x7b" ++ d.indented s.indent ++
      Doc.newline ++ text "\x7d")
      ([keyword word, keyword "(", expression selector, keyword ")", keyword " \x7b"] ++ ps ++
        [newline, keyword "\x7d"]) := by
  intro j braces hitems next line hline _
  obtain ⟨holdsCases', hbody⟩ := h j braces
  set i := s.blanks j (levels braces)
  have hdue : (text word ++ (selector.doc s).parens ++ text " \x7b" ++ d.indented s.indent ++
      Doc.newline ++ text "\x7d").due i next = (text word).due i (some i) ++
        ((selector.doc s).parens.due i (some i) ++ (text " \x7b" ++ d.indented s.indent ++
          Doc.newline ++ text "\x7d").due i next) := by
    have hbrace : text "\x7d" ≠ .empty := by decide
    simp only [Doc.due_append (b := text "\x7d"), if_neg hbrace, Doc.due_append_some,
      List.append_assoc]
  have hleaves : leavesOf s [keyword "(", expression selector, keyword ")"] =
      (selector.doc s).parens.leaves := by simp [Part.doc]
  obtain ⟨line', hline', hselector⟩ := Reading.inert (s := s) (j := j) ⟨braces, holdsCases⟩ none
    (by simp [armWords]) ((Doc.map_fst_due i (some i) _).trans hleaves.symm) nofun
  refine ⟨none, nofun, ?_⟩
  rw [hdue]
  refine .part nofun (Doc.map_fst_due ..) ?_ (by simp [hstarts]) ?_
  · rwa [hlevels]
  · rw [hword]
    exact hselector.append (Reading.block hsize (.inr rfl) hbody
      (fun x hx => hitems x (by simp [hx])) next hline')

end Nests

end Documents

end Unparse
