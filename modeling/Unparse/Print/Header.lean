import Unparse.Print.Expr

/-! # Parts of declarations

Annotations, modifiers, type lists and the other parts of a declaration that
need no traversal.
-/

namespace Unparse

open Layout (Doc)
open Layout.Doc (text)

namespace Style

def annotationValue (s : Style) : AnnotationValue → String
  | .string t => s.target.literal (.string t)
  | .raw spelling => spelling

def annotationDoc (s : Style) (a : Annotation) : Doc :=
  let head := text (s.lexicon.annotationMark ++ a.name)
  match a.properties with
  | [] => head
  | properties =>
    head ++ (s.list (properties.map fun (key, value) =>
      text (key ++ " = " ++ s.annotationValue value))).parens

def annotations (s : Style) (as : List Annotation) : Doc :=
  Doc.concat (as.map fun a => s.annotationDoc a ++ Doc.newline)

def inlineAnnotations (s : Style) (as : List Annotation) : Doc :=
  Doc.concat (as.map fun a => s.annotationDoc a ++ text " ")

/-- Modifier keywords, each once and followed by a blank, in the order of their
ranks. Modifiers of one rank keep the order in which they come first. -/
def modifierWords (t : Target) (ms : List Modifier) : List String :=
  let ranked := ms.eraseDups.mergeSort fun m n => t.modifierRank m ≤ t.modifierRank n
  ranked.filterMap t.modifierKeyword?

def modifiers (s : Style) (ms : List Modifier) : Doc :=
  text (String.join ((modifierWords s.target ms).map (· ++ " ")))

def generics (names : List String) : Doc :=
  if names.isEmpty then Doc.empty else text ("<" ++ ", ".intercalate names ++ ">")

/-- A keyword and the types after it. The first type stays next to the keyword,
and every other one starts a continuation line where the group around them
breaks. -/
def typeList (s : Style) (keyword : String) : List String → Doc
  | [] => Doc.empty
  | first :: types =>
    types.foldl
      (fun d type => d ++ text "," ++ (Doc.line ++ text type).indented s.double)
      ((Doc.line ++ text (keyword ++ first)).indented s.double)

def throwsClause (s : Style) (types : List String) : Doc :=
  if types.isEmpty then Doc.empty
  else ((Doc.line ++ text ("throws " ++ ", ".intercalate types)).indented s.double).grouped

/-- The supertypes in a class header. A Java superclass has its own keyword and
indentation; in Kotlin all supertypes form one list, in which only a class calls
the constructor of its superclass. -/
def supertypes (s : Style) {κ : Type} (c : ClassDecl κ) : Doc :=
  let superclass := c.superclass.filter (· ≠ s.lexicon.baseClass)
  match s.target with
  | .java =>
    let extension := match superclass with
      | some name => s.continued (text ("extends " ++ name))
      | none => Doc.empty
    match c.kind with
    | .interface => (s.typeList "extends " c.interfaces).grouped
    | .annotationType => Doc.empty
    | .cls | .enum => (extension ++ s.typeList "implements " c.interfaces).grouped
  | .kotlin =>
    let called := match c.kind, superclass with
      | .cls, some name => [name ++ "()"]
      | _, _ => []
    let interfaces := if c.kind = .annotationType then [] else c.interfaces
    (s.typeList ": " (called ++ interfaces)).grouped

/-- The package and imports of a class that is not nested, each import once. -/
def packageAndImports (s : Style) {κ : Type} (c : ClassDecl κ) : Doc :=
  if c.nested then Doc.empty
  else
    let package := match c.package with
      | some name =>
        text ("package " ++ name ++ s.lexicon.terminator) ++ Doc.newline ++ Doc.newline
      | none => Doc.empty
    let imports := Doc.concat (c.imports.eraseDups.map fun name =>
      text ("import " ++ name ++ s.lexicon.terminator) ++ Doc.newline)
    package ++ if c.imports.isEmpty then Doc.empty else imports ++ Doc.newline

def classHeader (s : Style) {κ : Type} (c : ClassDecl κ) : Doc :=
  s.packageAndImports c ++ s.annotations c.annotations ++ s.modifiers c.modifiers ++
    text (s.target.classKeyword c.kind ++ " " ++ c.name) ++ generics c.generics ++
    s.supertypes c ++ text " "

/-- Everything of a method in front of its parameters. Kotlin declares the
classes a method throws by an annotation. -/
def methodHead (s : Style) {κ : Type} (m : MethodDecl κ) : Doc :=
  let parameters := if m.generics.isEmpty then Doc.empty else generics m.generics ++ text " "
  match s.target with
  | .java =>
    let result := match m.returnType with
      | some type => text (type ++ " ")
      | none => Doc.empty
    s.annotations m.annotations ++ s.modifiers m.modifiers ++ parameters ++ result ++ text m.name
  | .kotlin =>
    let throwing := if m.throws.isEmpty then Doc.empty
      else text ("@Throws(" ++ ", ".intercalate (m.throws.map (· ++ "::class")) ++ ")") ++
        Doc.newline
    let name := if m.isConstructor then text "constructor"
      else text "fun " ++ parameters ++ text m.name
    s.annotations m.annotations ++ throwing ++ s.modifiers m.modifiers ++ name

def methodTail (s : Style) {κ : Type} (m : MethodDecl κ) : Doc :=
  match s.target with
  | .java => s.throwsClause m.throws
  | .kotlin =>
    match m.returnType with
    | some type =>
      if type = "void" || type = "Unit" then Doc.empty else text (": " ++ TypeName.spell type)
    | none => Doc.empty

def fieldHead (s : Style) {κ : Type} (f : FieldDecl κ) : Doc :=
  let declared := match s.target with
    | .java => f.type ++ " " ++ f.name
    | .kotlin =>
      (if f.modifiers.contains .final then "val" else "var") ++ " " ++ f.name ++ ": " ++
        TypeName.spell f.type
  s.annotations f.annotations ++ s.modifiers f.modifiers ++ text declared

def failure (kind name reason : String) : Doc :=
  text ("// Error occurred while decompiling " ++ kind ++ " " ++ name ++ ": " ++ reason)

end Style

end Unparse
