import Unparse.Code.Unfold
import Unparse.Print.Code
import Unparse.Print.Header

/-! # Documents of declarations

Fields, methods and classes. A failure that was recorded for a class or method
becomes a comment, and a further failure inside such a unit drops its body
instead of failing what is around it. Every other failure is passed on.
-/

namespace Unparse

open Layout (Doc)
open Layout.Doc (text)

variable {κ : Type}

def Style.context (s : Style) (view : κ → ClassText) (body : Body κ) : Context κ :=
  { target := s.target, body, view }

namespace FieldDecl

def initializerDoc (s : Style) (view : κ → ClassText) (f : FieldDecl κ) : Printing Doc := do
  match f.initializer with
  | none => return Doc.empty
  | some e =>
    let code ← Walking.alone (e.resolve (s.context view f.body))
    return (text " =" ++ s.continued (code.doc s)).grouped

def doc (s : Style) (view : κ → ClassText) (f : FieldDecl κ) : Printing Doc := do
  let initializer ← f.initializerDoc s view
  return s.fieldHead f ++ initializer ++ s.terminator

end FieldDecl

namespace MethodDecl

def parameterDoc (s : Style) (m : MethodDecl κ) (annotations : List Annotation) (last : Bool)
    (v : Occurrence) : Doc :=
  s.inlineAnnotations annotations ++
    text (if m.variadic && last then s.target.variadicParameter v.name v.type
      else s.target.declaration .parameter v.name v.type)

def parametersDoc (s : Style) (view : κ → ClassText) (m : MethodDecl κ) : Walking Doc := do
  let docs ← m.parameters.zipIdx.mapM fun (p, i) => do
    let v ← (s.context view m.body).bind p.variableId
    return m.parameterDoc s p.annotations (i + 1 == m.parameters.length) v
  return (s.list docs).parens

/-- The chain of a method. If a failure was recorded for the method, a further
one leaves nothing of the chain. -/
def chainDoc (s : Style) (view : κ → ClassText) (m : MethodDecl κ) : Walking Doc :=
  tryCatch
    (do
      let code ← (s.context view m.body).unfold m.body.entry
      return code.doc s false)
    fun cause => do
      if m.error.isNone then throw cause
      Walking.report (.methodDropped m.name cause)
      return Doc.empty

/-- The body: local classes, the comment on a recorded failure, and the chain.
A method without code has none. -/
def bodyDoc (s : Style) (view : κ → ClassText) (m : MethodDecl κ) : Walking Doc := do
  if !m.hasCode then return s.terminator
  let classes ← m.localClasses.mapM fun c => Walking.outside (view c).declaration
  let comment ← match m.error with
    | some error => do
      Walking.report (.methodFailed m.name error)
      pure (Doc.newline ++ text ("// " ++ error.spell))
    | none => pure Doc.empty
  let chain ← m.chainDoc s view
  return text " " ++ s.braced (Doc.concat (classes.map (Doc.newline ++ ·)) ++ comment ++ chain)

def declarationDoc (s : Style) (view : κ → ClassText) (m : MethodDecl κ) : Printing Doc :=
  Walking.alone do
    let parameters ← m.parametersDoc s view
    let body ← m.bodyDoc s view
    return s.methodHead m ++ parameters ++ s.methodTail m ++ body

/-- A method, or a comment in its place. -/
def doc (s : Style) (view : κ → ClassText) (m : MethodDecl κ) : Printing Doc :=
  tryCatch (m.declarationDoc s view) fun cause => do
    if m.error.isNone then throw cause
    Printing.report (.methodDropped m.name cause)
    return Style.failure "method" m.name cause.message

end MethodDecl

namespace ClassDecl

def enumConstantsDoc (c : ClassDecl κ) : Doc :=
  let hasMembers := !(c.fields.isEmpty && c.methods.isEmpty && c.innerClasses.isEmpty)
  text (", ".intercalate c.enumConstants ++ if hasMembers then ";" else "")

/-- The members between braces, separated by blank lines: enum constants,
fields, methods and inner classes. Fields have no blank lines among them. -/
def membersDoc (s : Style) (view : κ → ClassText) (c : ClassDecl κ) : Printing Doc := do
  let constants := if c.enumConstants.isEmpty then [] else [c.enumConstantsDoc]
  let fields ← c.fields.mapM (FieldDecl.doc s view)
  let methods ← c.methods.mapM (MethodDecl.doc s view)
  let classes ← c.innerClasses.mapM fun c => (view c).declaration
  let fields := if fields.isEmpty then [] else [Doc.separated Doc.newline fields]
  match constants ++ fields ++ methods ++ classes with
  | [] => return s.braced Doc.empty
  | sections =>
    return s.braced (Doc.newline ++ Doc.separated (Doc.newline ++ Doc.newline) sections)

def declarationDoc (s : Style) (view : κ → ClassText) (c : ClassDecl κ) : Printing Doc := do
  let members ← c.membersDoc s view
  return s.classHeader c ++ members

/-- A class, with a comment in front of it if a failure was recorded. -/
def doc (s : Style) (view : κ → ClassText) (c : ClassDecl κ) : Printing Doc := do
  match c.error with
  | none => c.declarationDoc s view
  | some error =>
    Printing.report (.classFailed c.name error)
    let comment := Style.failure "class" c.name error.spell
    tryCatch
      (do
        let declaration ← c.declarationDoc s view
        return comment ++ Doc.newline ++ declaration)
      fun cause => do
        Printing.report (.classDropped c.name cause)
        return comment

def toText (s : Style) (view : κ → ClassText) (c : ClassDecl κ) : ClassText where
  interface := c.interfaces.head?
  superclass := c.superclass
  declaration := c.doc s view
  members := c.membersDoc s view

end ClassDecl

def ClassTree.toText (s : Style) : {depth : Nat} → ClassTree depth → ClassText
  | _ + 1, c => ClassDecl.toText s (ClassTree.toText s) c

end Unparse
