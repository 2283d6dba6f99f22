import Unparse.Layout.Doc
import Unparse.Target.Binding
import Unparse.Target.Precedence

/-! # Styles

A style is a target language and an indentation. It knows the layouts that
every construct is made of: braces, argument lists and bracketed operands.
-/

namespace Unparse

open Layout (Doc)
open Layout.Doc (text)

/-- A target language and the number of blanks of one level. -/
structure Style where
  target : Target
  indentSize : Nat := 4
deriving DecidableEq, Repr

namespace Style

/-- Offsets are signed 64-bit words, so a size beyond their range wraps. -/
def offset (n : Int) : Int := n.bmod 0x10000000000000000

def indent (s : Style) : Int := offset s.indentSize

theorem indent_eq_size {s : Style} (hsize : s.indentSize < 0x8000000000000000) :
    s.indent = s.indentSize := by
  rw [indent, offset]
  exact Int.bmod_eq_of_le (by omega) (by omega)

def double (s : Style) : Int := offset (2 * s.indent)

def lexicon (s : Style) : Lexicon := s.target.lexicon

def terminator (s : Style) : Doc := text s.lexicon.terminator

/-- A body between braces, one level deeper. Every line of the body starts with
its own line break. -/
def braced (s : Style) (body : Doc) : Doc :=
  text "\x7b" ++ body.indented s.indent ++ Doc.newline ++ text "\x7d"

def list (s : Style) (ds : List Doc) : Doc :=
  ((Doc.separated (text "," ++ Doc.softline) ds).indented s.double).grouped

def continued (s : Style) (d : Doc) : Doc := (Doc.line ++ d).indented s.indent

def arguments (s : Style) (ds : List Doc) : Doc := (s.list (ds.map Doc.grouped)).parens

/-- The document of an operand, in brackets where its own operation, if it has
one, would be regrouped by the operation around it. -/
def operand (s : Style) (own : Option Operation) (around : Operation) (associative : Bool)
    (d : Doc) : Doc :=
  match own with
  | some op =>
    if needsBrackets (s.target.priority op) (s.target.priority around) associative then d.parens
    else d
  | none => d

def owner (s : Style) (own : Option Operation) (around : Operation) (d : Doc) : Doc :=
  s.operand own around (s.target.isAssociative around) d

/-- An array of the given dimensions in Kotlin: the last one is an array of
its own class, and every other one an array whose elements are made by a
function. -/
def sizedArray (element : String) : List Doc → Doc
  | [] => Doc.empty
  | [size] =>
    let head := match TypeName.primitive? element with
      | some p => p ++ "Array"
      | none => "arrayOfNulls<" ++ TypeName.spell element ++ ">"
    text head ++ size.parens
  | size :: sizes =>
    text "Array" ++ size.parens ++ text " \x7b " ++ sizedArray element sizes ++ text " \x7d"

/-- The creation of an array from its dimensions, or from its elements if they
are given. -/
def createArray (s : Style) (element : String) (dimensions : List Doc) :
    (elements : Option (List Doc)) → Doc
  | some elements =>
    match s.target with
    | .java => text ("new " ++ element) ++ text "[] " ++ (s.list elements).braces
    | .kotlin =>
      let head := match TypeName.primitive? element with
        | some p => p.toLower ++ "ArrayOf"
        | none => "arrayOf<" ++ TypeName.spell element ++ ">"
      text head ++ (s.list elements).parens
  | none =>
    match s.target with
    | .java => dimensions.foldl (fun d size => d ++ size.brackets) (text ("new " ++ element))
    | .kotlin => sizedArray element dimensions

end Style

end Unparse
