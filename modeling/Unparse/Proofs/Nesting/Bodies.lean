import Unparse.Proofs.Headers.Nested
import Unparse.Proofs.Layout.Lines
import Unparse.Proofs.Nesting.Code

/-! # Indentation of bodies

Methods and classes stand inside one another, each one level deeper. So from the place
where one of them stands, the indentation of every body in it is known, and with it that
of all lines that start with a statement, a jump or a closing brace.

The members of an anonymous class stand where the expression does that creates it. On a
continuation line they are indented with it.
-/

namespace Unparse

open Layout (Doc deepest Visible)
open Layout.Doc (Sideways text)

inductive Braced where
  | method {depth : Nat} (m : MethodDecl (ClassTree depth))
  | cls {depth : Nat} (c : ClassDecl (ClassTree depth))

namespace Braced

def outcome (s : Style) : Braced → Except PrintError Doc
  | method m => (m.declarationDoc s (ClassTree.toText s)).outcome
  | cls c => (c.membersDoc s (ClassTree.toText s)).outcome

def hasBody : Braced → Bool
  | method m => m.hasCode
  | cls _ => true

/-- The code in the body of a method. -/
def Holds (s : Style) (code : Code) : Braced → Prop
  | method m => (m.chain s (ClassTree.toText s)).outcome = .ok code
  | cls _ => False

/-- A body stands some levels deeper than another one, by way of bodies that are printed:
methods and inner classes stand in a class, and local classes in a method. -/
inductive Within (s : Style) (x : Braced) : Nat → Braced → Prop where
  | self : Within s x 0 x
  | method {k depth : Nat} {c : ClassDecl (ClassTree depth)} {m : MethodDecl (ClassTree depth)}
      {d : Doc} (hm : m ∈ c.methods) (hd : (Braced.method m).outcome s = .ok d)
      (h : Within s x k (.method m)) : Within s x (k + 1) (.cls c)
  | inner {k depth : Nat} {c : ClassDecl (ClassTree (depth + 1))}
      {c' : ClassDecl (ClassTree depth)} {d : Doc} (hc : c' ∈ c.innerClasses)
      (hd : (Braced.cls c').outcome s = .ok d) (h : Within s x k (.cls c')) :
      Within s x (k + 1) (.cls c)
  | localClass {k depth : Nat} {m : MethodDecl (ClassTree (depth + 1))}
      {c : ClassDecl (ClassTree depth)} {d : Doc} (hcode : m.hasCode = true)
      (hc : c ∈ m.localClasses) (hd : (Braced.cls c).outcome s = .ok d)
      (h : Within s x k (.cls c)) : Within s x (k + 1) (.method m)

end Braced

/-- The texts of the statements in code start with a visible character. -/
def VisibleStatements (s : Style) (code : Code) : Prop :=
  ∀ stmt, Part.item (.statement stmt) ∈ codeParts s code → Visible (stmt.doc s).leaves

/-- The statements, jumps and closing braces of code in a body that is indented by `i`
start a line each, indented by the levels of the braces and cases around it. -/
def CodeIndentedIn (s : Style) (i : Nat) (d : Doc) (above : List Doc) (code : Code) : Prop :=
  ∀ before p after, codeParts s code = before ++ p :: after → p.startsLine = true →
    ∃ line, before = line ++ [Part.newline] ∧
      d.OnLine (above ++ leavesOf s line) (p.doc s).leaves
        (s.blanks i ((Nesting.read ⟨[false], false⟩ before).levelsAt p))

/-- A body is printed in a document. Its closing brace starts a line that is indented by
`i`, and the lines of its code are indented by their levels from there. -/
def Braced.IndentedIn (s : Style) (i : Nat) (d : Doc) (x : Braced) : Prop :=
  ∃ own above below, x.outcome s = .ok own ∧ d.leaves = above ++ own.leaves ++ below ∧
    (∃ inner, own.leaves = inner ++ [.newline, .word "\x7d"] ∧
      d.OnLine (above ++ inner) [.word "\x7d"] i) ∧
    ∀ code, x.Holds s code → VisibleStatements s code →
      ∃ front, own.leaves = front ++ leavesOf s (codeParts s code) ++ [.newline, .word "\x7d"] ∧
        CodeIndentedIn s i d (above ++ front) code

section Lines

variable {s : Style} {i : Nat} {code : Code} {d : Doc}

theorem visible_brace : Visible [Doc.word "\x7d"] := ⟨"\x7d", '\x7d', [], [], rfl, rfl, by decide⟩

theorem VisibleStatements.visible (h : VisibleStatements s code) {p : Part}
    (hp : p ∈ codeParts s code) (hstarts : p.startsLine = true) : Visible (p.doc s).leaves := by
  have hjump (keyword : String) (j : Jump) : ∃ cs,
      (s.jumpWord keyword j).toList = keyword.toList ++ cs := by
    rcases j with ⟨_ | name⟩ <;> simp [Style.jumpWord]
  cases p with
  | item x =>
    cases x with
    | statement stmt => exact h stmt hp
    | breaks j =>
      obtain ⟨cs, hword⟩ := hjump "break" j
      exact Layout.visible_text hword (by decide)
    | continues j =>
      obtain ⟨cs, hword⟩ := hjump "continue" j
      exact Layout.visible_text hword (by decide)
  | keyword word =>
    obtain rfl : word = "\x7d" := by simpa [Part.startsLine] using hstarts
    exact visible_brace
  | _ => cases hstarts

theorem codeIndentedIn (hsize : s.indentSize < 0x8000000000000000) (hd : d.Simple)
    {as bs : List (Doc × Nat)} {next : Option Nat}
    (h : d.due 0 none = as ++ (codeDoc s code).due (s.blanks i 1) next ++ bs)
    (hvisible : VisibleStatements s code) : CodeIndentedIn s i d (as.map Prod.fst) code := by
  intro before p after hsplit hstarts
  have hitems (x : Item StmtCode) (hx : Part.item x ∈ codeParts s code) : s.itemDoc x ≠ .empty := by
    intro hempty
    obtain ⟨w, c, cs, ls, hleaves, -⟩ := hvisible.visible hx rfl
    simp [Part.doc, hempty] at hleaves
  -- The code is read from the brace of its body on. In front of the part a line break has
  -- been read last, and it is due the indentation that the part has to have.
  obtain ⟨line', -, hread⟩ := nests_codeDoc hsize code i [false] hitems next none nofun nofun
  rw [hsplit] at hread
  have hp : p ≠ .newline := by
    rintro rfl
    cases hstarts
  obtain ⟨ls₁, own, ls₂, line₁, hdue, hbefore, hown, hline, hfresh⟩ := hread.exists_split hp
  obtain ⟨n, rfl⟩ := Option.ne_none_iff_exists'.1 (hfresh hstarts)
  obtain ⟨-, -, ⟨⟩⟩ | ⟨qs, ms, rfl, rfl, hms⟩ := hbefore.exists_newline rfl
  refine ⟨qs, rfl, ?_⟩
  rw [← hline n rfl]
  have hvisibleAt := hvisible.visible (p := p) (by simp [hsplit]) hstarts
  rw [← hown] at hvisibleAt ⊢
  rw [← hms, ← List.map_append]
  have hlines : d.due 0 none = (as ++ ms) ++ (Doc.newline, n) :: (own ++ (ls₂ ++ bs)) := by
    rw [show levels [false] = 1 from rfl] at hdue
    rw [h, hdue]
    simp
  exact hd.onLine hlines hvisibleAt

end Lines

section Places

variable {s : Style} (hsize : s.indentSize < 0x8000000000000000) {x u : Braced} {k i : Nat}

/-- A body ends with its braces, and with the code of a method if there is any. -/
theorem Braced.exists_body {own : Doc} (h : x.outcome s = .ok own) (hbody : x.hasBody = true) :
    ∃ body, (∀ code, x.Holds s code → ∃ lead, body = lead ++ codeDoc s code) ∧
      ∀ i next, ∃ ls, own.due i next = ls ++ (s.braced body).due i next := by
  cases x with
  | @method depth m =>
    have hm (cls : ClassTree depth) := (cls.logs_toText s (.cls "" ⟨"", ""⟩)).2
    have hd (cls : ClassTree depth) := (cls.logs_toText s (.cls "" ⟨"", ""⟩)).1
    obtain ⟨ps, ds, kept, -, -, hkept, rfl⟩ := MethodDecl.exists_of_declarationDoc hm hd hbody h
    refine ⟨Doc.concat (ds.map (Doc.newline ++ ·)) ++ m.comment ++ kept,
      fun code (hcode : (m.chain s (ClassTree.toText s)).outcome = .ok code) => ?_,
      fun i next => ?_⟩
    · rw [hcode] at hkept
      obtain rfl := Except.ok.inj hkept
      rw [MethodDecl.Code.doc_false]
      exact ⟨_, rfl⟩
    · rw [MethodDecl.bracedBody, Doc.due_append, Doc.due_append (a := text " "), ← List.append_assoc]
      exact ⟨_, rfl⟩
  | @cls depth c =>
    obtain ⟨body, -, rfl⟩ := exists_braced_of_membersDoc h
    exact ⟨body, fun _ hholds => False.elim hholds, fun i next => ⟨[], rfl⟩⟩

theorem Braced.ne_empty {own : Doc} (h : x.outcome s = .ok own) (hbody : x.hasBody = true) :
    own ≠ .empty := by
  rintro rfl
  obtain ⟨body, -, hdue⟩ := exists_body h hbody
  obtain ⟨ls, hls⟩ := hdue 0 none
  simpa [Doc.map_fst_due, Style.braced] using congrArg (List.map Prod.fst) hls

include hsize

theorem due_braced (hi : i ≤ deepest) (body : Doc) (next : Option Nat) :
    (s.braced body).due i next = (Doc.word "\x7b", i) :: (body.due (s.blanks i 1) (some i) ++
      [(Doc.newline, i), (Doc.word "\x7d", next.getD i)]) := by
  have hdue := due_block (d := body) (j := i) hsize (show "\x7b" ≠ "" by decide) 0 next
  rwa [s.blanks_zero hi] at hdue

/-- Where a body stands, its lines are indented from. -/
theorem Braced.indentedIn {d own : Doc} (hd : d.Simple) (hown : x.outcome s = .ok own)
    (hbody : x.hasBody = true) (h : own.Stands i 0 d) : x.IndentedIn s i d := by
  have hi := h.le_deepest (Nat.zero_le _)
  obtain ⟨as, bs, next, hdue⟩ := h.exists_due none
  obtain ⟨body, hcode, hbraces⟩ := exists_body hown hbody
  obtain ⟨ls, hls⟩ := hbraces i next
  rw [due_braced hsize hi] at hls
  have hleaves := Doc.map_fst_due i next own
  have hall := Doc.map_fst_due 0 none d
  rw [hdue, List.map_append, List.map_append, hleaves] at hall
  rw [hls] at hleaves hdue
  set inside := body.due (s.blanks i 1) (some i)
  refine ⟨own, as.map Prod.fst, bs.map Prod.fst, hown, hall.symm,
    ⟨(ls ++ (Doc.word "\x7b", i) :: inside).map Prod.fst, ?_, ?_⟩, fun code hholds hvisible => ?_⟩
  · rw [← hleaves]
    simp
  · have hline : d.due 0 none = (as ++ (ls ++ (Doc.word "\x7b", i) :: inside)) ++
        (Doc.newline, i) :: ([(Doc.word "\x7d", next.getD i)] ++ bs) := by
      rw [hdue]
      simp
    rw [← List.map_append]
    exact hd.onLine hline visible_brace
  · obtain ⟨lead, rfl⟩ := hcode code hholds
    obtain ⟨ms, hinside⟩ : ∃ ms, inside = ms ++ (codeDoc s code).due (s.blanks i 1) (some i) :=
      ⟨_, Doc.due_append (some i)⟩
    rw [hinside] at hleaves hdue
    refine ⟨(ls ++ (Doc.word "\x7b", i) :: ms).map Prod.fst, ?_, ?_⟩
    · rw [← hleaves, leavesOf_codeParts, ← Doc.map_fst_due (s.blanks i 1) (some i) (codeDoc s code)]
      simp
    · have hcodes : d.due 0 none = (as ++ (ls ++ (Doc.word "\x7b", i) :: ms)) ++
          (codeDoc s code).due (s.blanks i 1) (some i) ++
            ((Doc.newline, i) :: (Doc.word "\x7d", next.getD i) :: bs) := by
        rw [hdue]
        simp
      rw [← List.map_append]
      exact codeIndentedIn hsize hd hcodes hvisible

theorem stands_braced (hi : i ≤ deepest) {d body : Doc} {j : Nat} (hd : d ≠ .empty)
    (h : d.Stands j (s.blanks i 1) body) : d.Stands j i (s.braced body) := by
  have hside := Doc.sideways_stands hd j i
  rw [← s.shift_blanks hsize, s.blanks_zero hi] at h
  exact hside.left _ (hside.left _ (hside.right _ (Doc.stands_indented hd hi _ h)))

theorem stands_members (hi : i ≤ deepest) {depth : Nat} {c : ClassDecl (ClassTree depth)}
    {own e d : Doc} {j : Nat} (hown : (c.membersDoc s (ClassTree.toText s)).outcome = .ok own)
    (he : (∃ m ∈ c.methods, (m.doc s (ClassTree.toText s)).outcome = .ok e) ∨
      ∃ c' ∈ c.innerClasses, (c'.toText s).declaration.outcome = .ok e)
    (hd : d ≠ .empty) (h : d.Stands j (s.blanks i 1) e) : d.Stands j i own := by
  have hm (cls : ClassTree depth) := (cls.logs_toText s (.cls "" ⟨"", ""⟩)).2
  have hdecl (cls : ClassTree depth) := (cls.logs_toText s (.cls "" ⟨"", ""⟩)).1
  obtain ⟨fields, methods, classes, -, hmethods, hclasses, rfl⟩ :=
    c.exists_of_membersDoc hm hdecl hown
  have hsome : (∃ e ∈ fields, d.Stands j (s.blanks i 1) e) ∨
      (∃ e ∈ methods, d.Stands j (s.blanks i 1) e) ∨
        ∃ e ∈ classes, d.Stands j (s.blanks i 1) e := by
    rcases he with ⟨m, hmem, he⟩ | ⟨c', hmem, he⟩
    · exact .inr (.inl ⟨e, mem_of_mapM hmethods hmem he, h⟩)
    · exact .inr (.inr ⟨e, mem_of_mapM hclasses hmem he, h⟩)
  obtain ⟨body, heq, hinside⟩ := (Doc.sideways_stands hd j (s.blanks i 1)).exists_assembled s c hsome
  exact heq ▸ stands_braced hsize hi hd hinside

omit hsize in
theorem stands_declaration {depth : Nat} {c : ClassDecl (ClassTree depth)} {members d : Doc}
    {j : Nat} (hmembers : (c.membersDoc s (ClassTree.toText s)).outcome = .ok members)
    (hd : d ≠ .empty) (h : d.Stands j i members) :
    ∃ e, (c.doc s (ClassTree.toText s)).outcome = .ok e ∧ d.Stands j i e := by
  have hm (cls : ClassTree depth) := (cls.logs_toText s (.cls "" ⟨"", ""⟩)).2
  have hdecl (cls : ClassTree depth) := (cls.logs_toText s (.cls "" ⟨"", ""⟩)).1
  obtain ⟨front, hfront⟩ := ClassTree.exists_recovered s c members
  have hside := Doc.sideways_stands hd j i
  refine ⟨_, ?_, hside.right front (hside.right (s.classHeader c) h)⟩
  rw [c.outcome_doc hm hdecl, hmembers, hfront]

theorem stands_local (hi : i ≤ deepest) {depth : Nat} {m : MethodDecl (ClassTree depth)}
    {c : ClassTree depth} {own e d : Doc} {j : Nat} (hcode : m.hasCode = true)
    (hown : (m.declarationDoc s (ClassTree.toText s)).outcome = .ok own) (hc : c ∈ m.localClasses)
    (he : (c.toText s).declaration.outcome = .ok e) (hd : d ≠ .empty)
    (h : d.Stands j (s.blanks i 1) e) : d.Stands j i own := by
  have hm (cls : ClassTree depth) := (cls.logs_toText s (.cls "" ⟨"", ""⟩)).2
  have hdecl (cls : ClassTree depth) := (cls.logs_toText s (.cls "" ⟨"", ""⟩)).1
  obtain ⟨ps, ds, kept, -, hds, -, rfl⟩ := MethodDecl.exists_of_declarationDoc hm hdecl hcode hown
  have hside := Doc.sideways_stands hd j i
  have hinside := Doc.sideways_stands hd j (s.blanks i 1)
  refine hside.right _ (hside.right _ (stands_braced hsize hi hd ?_))
  exact hinside.left _ (hinside.left _
    (hinside.concat ⟨_, List.mem_map_of_mem (mem_of_mapM hds hc he), hinside.right _ h⟩))

/-- A body that is some levels deeper stands at the indentation of these levels. -/
theorem Braced.Within.stands (h : Within s x k u) (hbody : x.hasBody = true) {own : Doc}
    (hown : u.outcome s = .ok own) (hi : i ≤ deepest) :
    ∃ d, x.outcome s = .ok d ∧ d ≠ .empty ∧ d.Stands (s.blanks i k) i own := by
  have hlevel (i k : Nat) : s.blanks (s.blanks i 1) k = s.blanks i (k + 1) := by
    rw [s.blanks_blanks, Nat.add_comm]
  induction h generalizing own i with
  | self =>
    refine ⟨own, hown, Braced.ne_empty hown hbody, ?_⟩
    rw [s.blanks_zero hi]
    exact .here
  | @method k depth c m dm hm hdm h ih =>
    obtain ⟨d, hd, hne, hstands⟩ := ih hdm (s.blanks_le i 1)
    refine ⟨d, hd, hne, stands_members hsize hi hown (.inl ⟨m, hm, ?_⟩) hne (hlevel i k ▸ hstands)⟩
    exact MethodDecl.outcome_doc_of_declarationDoc
      (fun cls => (cls.logs_toText s (.cls "" ⟨"", ""⟩)).2)
      (fun cls => (cls.logs_toText s (.cls "" ⟨"", ""⟩)).1) hdm
  | inner hc hd h ih =>
    obtain ⟨d, hd', hne, hstands⟩ := ih hd (s.blanks_le i 1)
    obtain ⟨e, he, hstands⟩ := stands_declaration hd hne (hlevel i _ ▸ hstands)
    exact ⟨d, hd', hne, stands_members hsize hi hown (.inr ⟨_, hc, he⟩) hne hstands⟩
  | localClass hcode hc hd h ih =>
    obtain ⟨d, hd', hne, hstands⟩ := ih hd (s.blanks_le i 1)
    obtain ⟨e, he, hstands⟩ := stands_declaration hd hne (hlevel i _ ▸ hstands)
    exact ⟨d, hd', hne, stands_local hsize hi hcode hown hc he hne hstands⟩

end Places

/-- In the document of a method, the lines of all bodies in it are indented from where
it stands: those of its local classes, too, and of their methods. Likewise, those of an
anonymous class are indented from where its members stand. -/
theorem bodies_indented {s : Style} (hsize : s.indentSize < 0x8000000000000000) {depth : Nat}
    {m : MethodDecl (ClassTree depth)} {d : Doc}
    (hd : (m.declarationDoc s (ClassTree.toText s)).outcome = .ok d) :
    (∀ x k, Braced.Within s x k (.method m) → x.hasBody = true →
      x.IndentedIn s (s.blanks 0 k) d) ∧
    ∀ u own i, Braced.outcome s u = .ok own → own.Stands i 0 d →
      ∀ x k, Braced.Within s x k u → x.hasBody = true → x.IndentedIn s (s.blanks i k) d := by
  have hm (cls : ClassTree depth) := (cls.logs_toText s (.cls "" ⟨"", ""⟩)).2
  have hdecl (cls : ClassTree depth) := (cls.logs_toText s (.cls "" ⟨"", ""⟩)).1
  have hview : TameView (ClassTree.toText s : ClassTree depth → ClassText) :=
    ⟨fun cls => (cls.ensures_toText s).1, fun cls => (cls.ensures_toText s).2⟩
  have hsimple : d.Simple := (m.ensures_doc hview hm hdecl d
    (MethodDecl.outcome_doc_of_declarationDoc hm hdecl hd)).simple
  have hplaced (u : Braced) (own : Doc) (i : Nat) (hown : u.outcome s = .ok own)
      (hi : own.Stands i 0 d) (x : Braced) (k : Nat) (h : x.Within s k u)
      (hbody : x.hasBody = true) : x.IndentedIn s (s.blanks i k) d := by
    obtain ⟨e, he, -, hstands⟩ := h.stands hsize hbody hown (hi.le_deepest (Nat.zero_le _))
    exact Braced.indentedIn hsize hsimple he hbody (hstands.trans hi)
  exact ⟨hplaced (.method m) d 0 hd .here, hplaced⟩

namespace Nesting

open Layout.Doc (word newline line)

def empty : ClassDecl (ClassTree 0) := { name := "" }

def assigning : MethodDecl (ClassTree 1) :=
  { name := "m"
    returnType := some "void"
    body := {
      constructions := ⟨[⟨1, some { form := .block [.assign (.const (.name "x"))
        (.anonymous empty [])] }⟩], []⟩
      entry := some ⟨1, 1⟩ } }

/-- The anonymous class stands two levels deep, of which one is that of the
continuation line. -/
theorem stands_assigning : ∃ d members,
    (assigning.declarationDoc ⟨.java, 4⟩ (ClassTree.toText ⟨.java, 4⟩)).outcome = .ok d ∧
      (empty.membersDoc ⟨.java, 4⟩ (ClassTree.toText ⟨.java, 4⟩)).outcome = .ok members ∧
      members.Stands 8 0 d := by
  refine ⟨_, _, rfl, rfl, ?_⟩
  have hmembers : Style.braced ⟨.java, 4⟩ .empty =
      .seq (.seq (word "\x7b") newline) (word "\x7d") := by
    decide +kernel
  generalize hd : (Style.methodHead _ _ ++ _ ++ _ ++ _ : Doc) = d
  obtain rfl : .seq (.seq (.seq (word "void ") (word "m")) (.seq (word "(") (word ")")))
      (.seq (word " ") (.seq (.seq (.seq (word "\x7b") (.nest 4 (.seq newline (.seq
        (.group (.seq (.seq (word "x") (word " =")) (.nest 4 (.seq line (.seq (.seq
          (.seq (word "new ") (.seq (word "Object") (.seq (word "(") (word ")")))) (word " "))
            (.seq (.seq (word "\x7b") newline) (word "\x7d"))))))) (word ";")))))
              newline) (word "\x7d"))) = d := by
    rw [← hd]
    decide +kernel
  rw [hmembers]
  change Doc.Stands _ (Layout.shift (Layout.shift 0 4) 4) 0 _
  exact .right (.right (.left (.left (.right (.nest (.right (.left (.group (.right
    (.nest (.right (.right .here))))))))))))

end Nesting

theorem bodies_indented_assigning : ∃ d,
    (Nesting.assigning.declarationDoc ⟨.java, 4⟩ (ClassTree.toText ⟨.java, 4⟩)).outcome = .ok d ∧
      (4 : Nat) < 0x8000000000000000 ∧
      (Braced.method Nesting.assigning).IndentedIn ⟨.java, 4⟩ 0 d ∧
      (Braced.cls Nesting.empty).IndentedIn ⟨.java, 4⟩ 8 d := by
  obtain ⟨d, members, hd, hmembers, hstands⟩ := Nesting.stands_assigning
  have hindented := bodies_indented (s := ⟨.java, 4⟩) (by decide) hd
  exact ⟨d, hd, by decide, hindented.1 _ 0 .self rfl,
    hindented.2 (.cls Nesting.empty) members 8 hmembers hstands _ 0 .self rfl⟩

/-- The brace that is open around the anonymous class asks for four blanks in front of
its closing brace, but there are eight. -/
theorem exists_deeper_brace : ∃ d before after,
    (Nesting.assigning.declarationDoc ⟨.java, 4⟩ (ClassTree.toText ⟨.java, 4⟩)).outcome = .ok d ∧
      (d.render 100).toList =
        before ++ '\x7b' :: '\n' :: (List.replicate 8 ' ' ++ '\x7d' :: after) ∧
      before.count '\x7b' = 1 ∧ before.count '\x7d' = 0 := by
  refine ⟨_, "void m() \x7b\n    x =\n        new Object() ".toList, ";\n\x7d".toList, rfl, ?_⟩
  decide +kernel

end Unparse
