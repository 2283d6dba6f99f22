import Unparse.Print.Expr

/-! # Documents of code

Every construction of a chain starts with its own line break. The chain of an
`else if` goes on behind the `else` without one, and a block is no more than
its statements, each on its own line.
-/

namespace Unparse

open Layout (Doc)
open Layout.Doc (text)

namespace Style

def labelDoc (s : Style) (p : Place) : Doc :=
  match p.label with
  | some label => text (s.target.loopLabel label)
  | none => Doc.empty

def jumpDoc (s : Style) (keyword : String) : Option Jump → Doc
  | some ⟨some label⟩ =>
    Doc.newline ++ text (keyword ++ s.lexicon.jumpSeparator ++ label ++ s.lexicon.terminator)
  | some ⟨none⟩ => Doc.newline ++ text (keyword ++ s.lexicon.terminator)
  | none => Doc.empty

def jumpsDoc (s : Style) (p : Place) : Doc :=
  s.jumpDoc "break" p.breakTo ++ s.jumpDoc "continue" p.continueTo

def blockDoc (s : Style) (statements : List StmtCode) : Doc :=
  Doc.concat ((statements.filter fun stmt => !stmt.isSilent).map fun stmt =>
    Doc.newline ++ stmt.doc s)

/-- Whether counted loops are written as an initializer and a `while` loop.
Their label belongs to the `while`. -/
def writesAsWhile (s : Style) (form : FormCode) : Bool :=
  form.isCountedLoop && !s.lexicon.countedLoops

def optional (s : Style) (f : Doc → Doc) : Option StmtCode → Doc
  | some stmt => if stmt.isSilent then Doc.empty else f (stmt.doc s)
  | none => Doc.empty

def countedHeader (s : Style) (init : Option StmtCode) (condition : Doc)
    (update : Option StmtCode) : Doc :=
  let initDoc := match init with
    | some stmt => stmt.bodyDoc s
    | none => Doc.empty
  let updateDoc := match update with
    | some stmt => text " " ++ stmt.bodyDoc s
    | none => Doc.empty
  text "for (" ++ initDoc ++ text "; " ++ condition ++ text ";" ++ updateDoc ++ text ") "

def loopVariables (s : Style) (vs : List Occurrence) : Doc :=
  match vs.map fun v => text (s.target.declaration .forEach v.name v.type) with
  | [d] => d
  | ds => (Doc.separated (text ", ") ds).parens

def caseLabels (s : Style) (keys : List (Option Literal)) : Doc :=
  Doc.concat (keys.map fun
    | some key => Doc.newline ++ text ("case " ++ s.target.literal key ++ ":")
    | none => Doc.newline ++ text "default:")

/-- The line break in front of a construction. The statements of a block bring
their own. -/
def leadDoc (form : FormCode) : Doc :=
  if form.isBlock then Doc.empty else Doc.newline

end Style

mutual

def Element.doc (s : Style) : Element → Doc
  | .mk form place =>
    (if s.writesAsWhile form then Doc.empty else s.labelDoc place) ++
      formDoc s place form ++ s.jumpsDoc place

def formDoc (s : Style) (place : Place) : FormCode → Doc
  | .block statements => s.blockDoc statements
  | .conditional condition whenTrue whenFalse =>
    text "if " ++ (condition.doc s).parens ++ text " " ++ s.braced (codeDoc s whenTrue) ++
      elseDoc s whenFalse
  | .whileLoop condition body =>
    text "while " ++ (condition.doc s).parens ++ text " " ++ s.braced (codeDoc s body)
  | .doLoop condition body =>
    text "do " ++ s.braced (codeDoc s body) ++ text " while " ++ (condition.doc s).parens ++
      s.terminator
  | .countedLoop init condition update body =>
    if s.lexicon.countedLoops then
      s.countedHeader init (condition.doc s) update ++ s.braced (codeDoc s body)
    else
      s.optional (· ++ Doc.newline) init ++ s.labelDoc place ++ text "while " ++
        (condition.doc s).parens ++ text " " ++
        s.braced (codeDoc s body ++ s.optional (Doc.newline ++ ·) update)
  | .forEach vars container body =>
    text "for (" ++ s.loopVariables vars ++
      text (" " ++ s.lexicon.forEachKeyword ++ " ") ++ container.doc s ++ text ") " ++
      s.braced (codeDoc s body)
  | .guarded body handlers cleanup =>
    text "try " ++ s.braced (codeDoc s body) ++ handlersDoc s handlers ++ cleanupDoc s cleanup
  | .switch selector cases =>
    text "switch " ++ (selector.doc s).parens ++ text " \x7b" ++
      (casesDoc s cases).indented s.indent ++ Doc.newline ++ text "\x7d"
  | .select selector arms fallback =>
    text (s.lexicon.selectKeyword ++ " ") ++ (selector.doc s).parens ++ text " \x7b" ++
      (armsDoc s arms ++ Doc.newline ++ text (s.lexicon.fallbackArm ++ " -> ") ++
        fallbackDoc s fallback).indented s.indent ++
      Doc.newline ++ text "\x7d"

def codeDoc (s : Style) : List Element → Doc
  | [] => Doc.empty
  | e :: es => Style.leadDoc e.form ++ e.doc s ++ codeDoc s es

/-- An `else` branch. An empty block before a conditional is left out, and the
rest goes on behind the `else`. -/
def elseDoc (s : Style) : Option (List Element) → Doc
  | none => Doc.empty
  | some [] => text " else " ++ s.braced Doc.empty
  | some [e] => text " else " ++ s.braced (Style.leadDoc e.form ++ e.doc s)
  | some (e :: f :: es) =>
    if e.isEmptyBlock && f.form.isConditional then
      text " else " ++ (f.doc s ++ codeDoc s es)
    else
      text " else " ++ s.braced (Style.leadDoc e.form ++ e.doc s ++
        (Style.leadDoc f.form ++ f.doc s ++ codeDoc s es))

def handlersDoc (s : Style) : List (Occurrence × List Element) → Doc
  | [] => Doc.empty
  | (v, body) :: handlers =>
    text " catch " ++ (text (s.target.declaration .handler v.name v.type)).parens ++ text " " ++
      s.braced (codeDoc s body) ++ handlersDoc s handlers

def cleanupDoc (s : Style) : Option (List Element) → Doc
  | none => Doc.empty
  | some body => text " finally " ++ s.braced (codeDoc s body)

def fallbackDoc (s : Style) : Option (List Element) → Doc
  | none => text "\x7b\x7d"
  | some body => s.braced (codeDoc s body)

def casesDoc (s : Style) : List (List (Option Literal) × List Element) → Doc
  | [] => Doc.empty
  | (keys, body) :: cases =>
    s.caseLabels keys ++ (codeDoc s body).indented s.indent ++ casesDoc s cases

def armsDoc (s : Style) : List (ExprCode × List Element) → Doc
  | [] => Doc.empty
  | (guard, body) :: arms =>
    Doc.newline ++ text s.lexicon.armKeyword ++ guard.doc s ++ text " -> " ++
      s.braced (codeDoc s body) ++ armsDoc s arms

end

/-- The document of a chain. The first construction may stay on the line that
is open. -/
def Code.doc (s : Style) (sameLine : Bool) : Code → Doc
  | [] => Doc.empty
  | e :: es => (if sameLine then Doc.empty else Style.leadDoc e.form) ++ e.doc s ++ codeDoc s es

end Unparse
