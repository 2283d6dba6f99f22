import Unparse.Layout.Doc
import Unparse.Program.Construction

/-! # Code

Code is what is written of a program: its variables are looked up and told
apart into declarations and uses, and the chains of its constructions are
unfolded into lists. Conditions are those under which a body runs, and the
members of anonymous classes are documents already.
-/

namespace Unparse

open Layout (Doc)

/-- A variable where it is written: with its type, or by its name alone. -/
structure Occurrence where
  id : VariableId
  name : String
  type : String
  declares : Bool
deriving DecidableEq, Repr

structure AnonymousCode where
  interface : Option String
  superclass : Option String
  members : Doc
deriving DecidableEq, Repr

abbrev ExprCode := Expr Occurrence AnonymousCode

inductive StmtCode where
  | plain (s : Stmt Occurrence AnonymousCode)
  /-- The assignment `target = target op amount`, which restates a compound
  one. The two copies of the target may differ in what they declare. -/
  | restated (op : BinaryOp) (target again amount : ExprCode)

def StmtCode.isSilent : StmtCode → Bool
  | plain s => s.isSilent
  | restated _ _ _ _ => false

/-- A construction with its branches unfolded. -/
inductive Element where
  | mk (form : Form Occurrence ExprCode StmtCode (List Element)) (place : Place)

abbrev FormCode := Form Occurrence ExprCode StmtCode (List Element)

abbrev Code := List Element

namespace Element

def form : Element → FormCode
  | mk form _ => form

def place : Element → Place
  | mk _ place => place

def isEmptyBlock (e : Element) : Bool := e.form.isEmptyBlock && e.place.isBare

end Element

end Unparse
