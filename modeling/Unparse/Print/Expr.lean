import Unparse.Code.Basic
import Unparse.Print.Style

/-! # Documents of expressions and statements -/

namespace Unparse

open Layout (Doc)
open Layout.Doc (text)

namespace Style

/-- A binary operation. The left operand groups by itself; the right one does
if it repeats an associative operator. -/
def binary (s : Style) (op : BinaryOp) (left : Option Operation × Doc)
    (right : Option Operation × Doc) : Doc :=
  let operation := Operation.binary op
  let regroups := right.1 = some operation && s.target.isAssociative operation
  (s.operand left.1 operation true left.2 ++ text (" " ++ s.target.token operation) ++
    s.continued (s.operand right.1 operation regroups right.2)).grouped

def unary (s : Style) (op : Operation) (own : Option Operation) (operand : Doc) : Doc :=
  let d := s.owner own op operand
  if s.target.followsOperand op then d ++ text (s.target.token op)
  else text (s.target.token op) ++ d

def ternary (s : Style) (condition whenTrue whenFalse : Doc) : Doc :=
  let (head, question, colon) := s.lexicon.ternary
  (text head ++ condition.parens ++
    (Doc.line ++ text question ++ whenTrue ++ text colon ++ whenFalse).indented s.indent).grouped

def cast (s : Style) (type : String) (own : Option Operation) (operand : Doc) : Doc :=
  let d := s.owner own .cast operand
  match s.target.castAffix type with
  | .before head => text head ++ d
  | .after tail => d ++ text tail

def instanceOf (s : Style) (type : String) (inverted : Bool) (own : Option Operation)
    (operand : Doc) : Doc :=
  let test (token : String) :=
    s.operand own .instanceOf true operand ++ text (" " ++ token ++ " " ++ type)
  match inverted, s.lexicon.notInstanceOf with
  | false, _ => test s.lexicon.instanceOf
  | true, some token => test token
  | true, none => text (s.target.token (.unary .not)) ++ (test s.lexicon.instanceOf).parens

def compound (s : Style) (op : BinaryOp) (target amount : Option Operation × Doc) : Doc :=
  let operation := Operation.compound op
  (s.operand target.1 operation true target.2 ++ text (" " ++ s.target.token operation) ++
    s.continued (s.operand amount.1 operation false amount.2)).grouped

def anonymous (s : Style) (cls : AnonymousCode) (args : List Doc) : Doc :=
  let header := match cls.interface with
    | some interface => text (interface ++ s.lexicon.anonymousInterface)
    | none => text (cls.superclass.getD s.lexicon.baseClass) ++ s.arguments args
  text s.lexicon.anonymousKeyword ++ header ++ text " " ++ cls.members

/-- A variable, declared if this is its first use. -/
def occurrence (s : Style) (v : Occurrence) : Doc :=
  text (if v.declares then s.target.declaration .firstUse v.name v.type else v.name)

end Style

namespace Expr

mutual

def doc (s : Style) : ExprCode → Doc
  | const value => text (s.target.literal value)
  | binary op l r => s.binary op (l.operation?, l.doc s) (r.operation?, r.doc s)
  | unary op e => s.unary (.unary op) e.operation? (e.doc s)
  | ternary e l r =>
    s.ternary (e.doc s) (s.operand l.operation? .ternary false (l.doc s))
      (s.operand r.operation? .ternary false (r.doc s))
  | field owner name =>
    s.owner owner.operation? .member (owner.doc s) ++ text (s.target.token .member) ++ text name
  | staticField qualifier name =>
    text (if qualifier = "" then name else qualifier ++ s.target.token .member ++ name)
  | var v => s.occurrence v
  | call receiver checked function args =>
    s.owner receiver.operation? .member (receiver.doc s) ++
      text (if checked then s.lexicon.checkedMember else s.target.token .member) ++
      text function ++ s.arguments (docs s args)
  | apply function args => text function ++ s.arguments (docs s args)
  | create cls args => text (s.lexicon.newKeyword ++ cls) ++ s.arguments (docs s args)
  | createArray element dimensions none => s.createArray element (docs s dimensions) none
  | createArray element _ (some elements) =>
    s.createArray element [] (some (docs s elements))
  | length array =>
    s.owner array.operation? .length (array.doc s) ++ text (s.target.token .length)
  | index array position =>
    let owner := match array with
      | createArray _ _ _ => (array.doc s).parens
      | _ => s.owner array.operation? .index (array.doc s)
    owner ++ (position.doc s).brackets
  | cast type e => s.cast type e.operation? (e.doc s)
  | instanceOf e type inverted => s.instanceOf type inverted e.operation? (e.doc s)
  | stepBefore step target =>
    text (s.target.token (.stepBefore step)) ++
      s.owner target.operation? (.stepBefore step) (target.doc s)
  | stepAfter step target =>
    s.owner target.operation? (.stepAfter step) (target.doc s) ++
      text (s.target.token (.stepAfter step))
  | compound op target amount =>
    s.compound op (target.operation?, target.doc s) (amount.operation?, amount.doc s)
  | anonymous cls args => s.anonymous cls (docs s args)

def docs (s : Style) : List ExprCode → List Doc
  | [] => []
  | e :: es => e.doc s :: docs s es

end

theorem docs_eq_map (s : Style) (es : List ExprCode) : docs s es = es.map (doc s) := by
  induction es with
  | nil => simp [docs]
  | cons e es ih => simp [docs, ih]

def operandDoc (s : Style) (e : ExprCode) : Option Operation × Doc := (e.operation?, e.doc s)

end Expr

namespace StmtCode

/-- The document of a statement without its terminator. -/
def bodyDoc (s : Style) : StmtCode → Doc
  | plain (.eval e) => e.doc s
  | plain (.assign target value) =>
    (target.doc s ++ text (" " ++ s.target.token .assign) ++
      s.continued (s.operand value.operation? .assign true (value.doc s))).grouped
  | plain (.ret (some e) true) => text "return " ++ e.doc s
  | plain (.ret (some e) false) => e.doc s
  | plain (.ret none true) => text "return"
  | plain (.ret none false) => Doc.empty
  | plain (.throw e) => (text "throw" ++ s.continued (e.doc s)).grouped
  | restated op target again amount =>
    s.operand target.operation? (.compound op) true (target.doc s) ++
      text (" " ++ s.target.token .assign ++ " ") ++
      s.binary op (again.operandDoc s) (amount.operandDoc s)

def doc (s : Style) (stmt : StmtCode) : Doc := stmt.bodyDoc s ++ s.terminator

end StmtCode

end Unparse
