import Mathlib.Tactic.Common

/-! # Outlines of texts

What matters for the grouping of a printed text are its braces, and the `if`
and `else` among its heads. A reader goes over these marks from the right. An
`else` governs the braces after it, or without braces the one `if` statement
there; whatever stands after that belongs to the text around it.
-/

namespace Unparse.Branching

/-- The parts of a text. -/
inductive Mark where
  | line
  | label (s : List Char)
  | text (s : List Char)
  | condition (head : List Char)
  | otherwise
  | opening
  | closing
deriving DecidableEq, Repr

def Mark.spell : Mark → List Char
  | line => ['\n']
  | label s | text s | condition s => s
  | otherwise => " else ".toList
  | opening => ['\x7b']
  | closing => ['\x7d']

/-- A text as it is printed. The branch of an `else` may stand without braces. -/
inductive Outline where
  | done
  | line (rest : Outline)
  | label (s : List Char) (rest : Outline)
  | text (s : List Char) (rest : Outline)
  | group (body rest : Outline)
  | conditional (head : List Char) (body rest : Outline)
  | alternative (head : List Char) (body : Outline) (braced : Bool) (other rest : Outline)
deriving DecidableEq, Repr

/-- A text as it is read. An `else` whose `if` is still to come is open. -/
inductive Reading where
  | done
  | label (s : List Char) (rest : Reading)
  | text (s : List Char) (rest : Reading)
  | group (body rest : Reading)
  | conditional (head : List Char) (body rest : Reading)
  | alternative (head : List Char) (body other rest : Reading)
  | otherwise (body rest : Reading)
deriving DecidableEq, Repr

namespace Outline

def append : Outline → Outline → Outline
  | done, o => o
  | line rest, o => line (rest.append o)
  | label s rest, o => label s (rest.append o)
  | text s rest, o => text s (rest.append o)
  | group body rest, o => group body (rest.append o)
  | conditional head body rest, o => conditional head body (rest.append o)
  | alternative head body braced other rest, o =>
    alternative head body braced other (rest.append o)

instance : Append Outline := ⟨append⟩

def marks : Outline → List Mark
  | done => []
  | line rest => .line :: rest.marks
  | label s rest => .label s :: rest.marks
  | text s rest => .text s :: rest.marks
  | group body rest => .opening :: body.marks ++ .closing :: rest.marks
  | conditional head body rest =>
    .condition head :: .opening :: body.marks ++ .closing :: rest.marks
  | alternative head body true other rest =>
    .condition head :: .opening :: body.marks ++ .closing :: .otherwise :: .opening ::
      other.marks ++ .closing :: rest.marks
  | alternative head body false other rest =>
    .condition head :: .opening :: body.marks ++ .closing :: .otherwise ::
      (other.marks ++ rest.marks)

def spell (o : Outline) : List Char := o.marks.flatMap Mark.spell

/-- The reading that is meant: an `else` governs its whole branch. -/
def meaning : Outline → Reading
  | done => .done
  | line rest => rest.meaning
  | label s rest => .label s rest.meaning
  | text s rest => .text s rest.meaning
  | group body rest => .group body.meaning rest.meaning
  | conditional head body rest => .conditional head body.meaning rest.meaning
  | alternative head body _ other rest =>
    .alternative head body.meaning other.meaning rest.meaning

/-- The same text with braces around every branch. -/
def expand : Outline → Outline
  | done => done
  | line rest => line rest.expand
  | label s rest => label s rest.expand
  | text s rest => text s rest.expand
  | group body rest => group body.expand rest.expand
  | conditional head body rest => conditional head body.expand rest.expand
  | alternative head body _ other rest =>
    alternative head body.expand true other.expand rest.expand

end Outline

namespace Reading

def append : Reading → Reading → Reading
  | done, r => r
  | label s rest, r => label s (rest.append r)
  | text s rest, r => text s (rest.append r)
  | group body rest, r => group body (rest.append r)
  | conditional head body rest, r => conditional head body (rest.append r)
  | alternative head body other rest, r => alternative head body other (rest.append r)
  | otherwise body rest, r => otherwise body (rest.append r)

instance : Append Reading := ⟨append⟩

def statement? : Reading → Option (Reading × Reading)
  | conditional head body rest => some (conditional head body done, rest)
  | alternative head body other rest => some (alternative head body other done, rest)
  | label s (conditional head body rest) => some (label s (conditional head body done), rest)
  | label s (alternative head body other rest) =>
    some (label s (alternative head body other done), rest)
  | _ => none

end Reading

/-- Read one more mark in front of what was read. Every closing brace whose
opening one is still to come has a reading of its own. -/
def step : Mark → List Reading → Option (List Reading)
  | .line, rs => some rs
  | .label s, r :: rs => some (.label s r :: rs)
  | .text s, r :: rs => some (.text s r :: rs)
  | .closing, rs => some (.done :: rs)
  | .opening, body :: r :: rs => some (.group body r :: rs)
  | .condition head, .group body (.otherwise other r) :: rs =>
    some (.alternative head body other r :: rs)
  | .condition head, .group body r :: rs => some (.conditional head body r :: rs)
  | .otherwise, .group body r :: rs => some (.otherwise body r :: rs)
  | .otherwise, r :: rs => r.statement?.map fun (governed, rest) => .otherwise governed rest :: rs
  | _, _ => none

def readFrom : List Mark → List Reading → Option (List Reading)
  | [], rs => some rs
  | m :: ms, rs => (readFrom ms rs).bind (step m)

def read (ms : List Mark) : Option Reading :=
  match readFrom ms [.done] with
  | some [r] => some r
  | _ => none

end Unparse.Branching
