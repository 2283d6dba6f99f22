import Unparse.Layout.Doc
import Unparse.Text.Blank

/-! # Layout

A document is placed on a page from left to right, in view of what comes after
it. A group is made flat if it fits together with everything up to the next
possible line break after it; what comes after it counts as broken for that
question. A line break is indented as the part that follows it.

The page is a list of pieces: texts, and line breaks with their indentation.
-/

namespace Unparse.Layout

/-- A part still to be placed, with the indentation of the lines it starts. -/
structure Pending where
  indent : Nat
  doc : Doc
deriving DecidableEq, Repr

def deepest : Nat := 0xFFFFFFFFFFFFFFFF

/-- An indentation moved by an offset, as far as there is room. -/
def shift (indent : Nat) (offset : Int) : Nat := min (indent + offset).toNat deepest

inductive Piece where
  | text (s : String)
  | newline (indent : Nat)
deriving DecidableEq, Repr

/-- What has been placed so far, the last piece first, and the column reached. -/
structure Page where
  column : Nat := 0
  pieces : List Piece := []
deriving DecidableEq, Repr

namespace Page

def write (p : Page) (s : String) : Page :=
  ⟨p.column + Text.displayWidth s, .text s :: p.pieces⟩

def breakLine (p : Page) (indent : Nat) : Page :=
  ⟨indent, .newline indent :: p.pieces⟩

end Page

/-- Whether a document fits between a column and the width up to its first
line break. Without a line break the answer is that of `next` for the column
reached. -/
def Doc.fits (width : Nat) (flat : Bool) : Doc → (next : Nat → Bool) → Nat → Bool
  | .empty, next, column => next column
  | .word s, next, column =>
    column + Text.displayWidth s ≤ width && next (column + Text.displayWidth s)
  | .seq a b, next, column => a.fits width flat (b.fits width flat next) column
  | .nest _ d, next, column => d.fits width flat next column
  | .group d, next, column => d.fits width flat next column
  | .choice b f, next, column =>
    if flat then f.fits width flat next column else b.fits width flat next column
  | .newline, _, _ => !flat

def restFits (width : Nat) : List Pending → Nat → Bool
  | [], _ => true
  | p :: rest, column => p.doc.fits width false (restFits width rest) column

/-- Place a document, flat or broken, in view of the parts that come after it. -/
def Doc.place (width : Nat) : Doc → (indent : Nat) → (flat : Bool) → List Pending → Page → Page
  | .empty, _, _, _, p => p
  | .word s, _, _, _, p => p.write s
  | .seq a b, i, flat, rest, p =>
    b.place width i flat rest (a.place width i flat (⟨i, b⟩ :: rest) p)
  | .nest n d, i, flat, rest, p => d.place width (shift i n) flat rest p
  | .group d, i, flat, rest, p =>
    d.place width i (flat || d.fits width true (restFits width rest) p.column) rest p
  | .choice b f, i, flat, rest, p =>
    if flat then f.place width i flat rest p else b.place width i flat rest p
  | .newline, i, _, rest, p => p.breakLine ((rest.head?.map Pending.indent).getD i)

def Piece.spell : Piece → String
  | .text s => s
  | .newline n => String.ofList ('\n' :: List.replicate n ' ')

def Doc.layout (width : Nat) (d : Doc) : List Piece :=
  (d.place width 0 false [] {}).pieces.reverse

/-- Lay out a document in lines of the given width and tidy them. -/
def Doc.render (width : Nat) (d : Doc) : String :=
  Text.tidy (String.join ((d.layout width).map Piece.spell))

end Unparse.Layout
