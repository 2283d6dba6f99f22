import Unparse.Layout.Render
import Unparse.Print.Class

/-! # Rendering

Programs are rendered in a target language with a line width and an
indentation. The result is the text or an error, with the events of the run.
-/

namespace Unparse

open Layout (Doc)

structure Config where
  width : Nat := 100
  indentSize : Nat := 4
deriving DecidableEq, Repr

def Config.style (config : Config) (target : Target) : Style :=
  { target, indentSize := config.indentSize }

/-- Lay out the document of a printing, after the events so far. -/
def Printing.render (p : Printing Doc) (config : Config) (events : List Event) :
    Except PrintError String × List Event :=
  let (result, events) := p.run.run events
  (result.map (Doc.render config.width), events)

def Walking.render (w : Walking Doc) (config : Config) (s : Scope) :
    Except PrintError String × Scope :=
  let (result, s) := w.run.run s
  (result.map (Doc.render config.width), s)

def ClassTree.doc (s : Style) {depth : Nat} (c : ClassTree depth) : Printing Doc := do
  Printing.report (.rendering c.name)
  (c.toText s).declaration

end Unparse
