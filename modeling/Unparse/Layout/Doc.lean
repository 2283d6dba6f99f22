import Unparse.Text.Width

/-! # Documents

A document is text with places where its lines may break. A group is laid out
flat, on one line, whenever its content fits; only then do its breakable
places give up their line breaks. Nesting sets the indentation of the lines
that start inside it.

The combinators drop empty parts and needless groups, so an empty document
never stands inside another one.
-/

namespace Unparse.Layout

/-- Text with places where its lines may break. -/
inductive Doc where
  | empty
  | word (text : String)
  | seq (first second : Doc)
  | nest (offset : Int) (inner : Doc)
  | group (inner : Doc)
  /-- One document in a broken line and another one in a flat line. -/
  | choice (broken flat : Doc)
  | newline
deriving DecidableEq, Repr, Inhabited

namespace Doc

def text (s : String) : Doc := if s = "" then empty else word s

def append : Doc → Doc → Doc
  | empty, e => e
  | d, empty => d
  | d, e => seq d e

instance : Append Doc := ⟨append⟩

def indented (n : Int) : Doc → Doc
  | empty => empty
  | d => if n = 0 then d else nest n d

def grouped : Doc → Doc
  | empty => empty
  | group d => group d
  | d => group d

def line : Doc := choice newline (word " ")

/-- A line break that is taken only if what follows does not fit. -/
def softline : Doc := group line

def concat (ds : List Doc) : Doc := ds.foldl (· ++ ·) empty

def separated (separator : Doc) : List Doc → Doc
  | [] => empty
  | d :: ds => ds.foldl (fun acc e => acc ++ separator ++ e) d

def enclosed (opening closing : String) (d : Doc) : Doc := word opening ++ d ++ word closing

def parens (d : Doc) : Doc := d.enclosed "(" ")"

def brackets (d : Doc) : Doc := d.enclosed "[" "]"

def braces (d : Doc) : Doc := d.enclosed "\x7b" "\x7d"

@[simp] theorem empty_append (d : Doc) : empty ++ d = d := by cases d <;> rfl

@[simp] theorem append_empty (d : Doc) : d ++ empty = d := by cases d <;> rfl

end Doc

end Unparse.Layout
