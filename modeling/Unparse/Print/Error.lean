import Unparse.Program.Class

/-! # Errors and events

Why a program cannot be printed, and what is reported while it is. Both are
values; their wording is given here and nowhere else.
-/

namespace Unparse

def variableName (id : VariableId) : String := "VariableId(" ++ id.spell ++ ")"

def constructionName (id : ConstructionId) : String := "ConstructionId(" ++ id.spell ++ ")"

/-- The ways in which a program cannot be printed. -/
inductive PrintError where
  | unknownVariable (id : VariableId)
  | unknownConstruction (id : ConstructionId)
  | revisitedConstruction (id : ConstructionId)
  /-- A compound assignment that the language has no operator for, of a target
  that cannot be written twice or in a place that needs its value. -/
  | unexpandableCompound (op : BinaryOp)
  /-- A loop over this many variables where elements are not taken apart. -/
  | unsupportedDestructuring (count : Nat)
  | layout (reason : String)
deriving DecidableEq, Repr

def PrintError.message : PrintError → String
  | unknownVariable id => "variable " ++ variableName id ++ " does not belong to this method body"
  | unknownConstruction id =>
    "construction " ++ constructionName id ++ " does not belong to this method body"
  | revisitedConstruction id =>
    "construction " ++ constructionName id ++ " is reached more than once"
  | unexpandableCompound op =>
    "compound `" ++ op.symbol ++ "=` cannot be written as a plain assignment here"
  | unsupportedDestructuring count =>
    "for-each over " ++ toString count ++ " variables cannot be written in this language"
  | layout reason => "failed to render document: " ++ reason

inductive Level where
  | warn | debug | trace
deriving DecidableEq, Repr

namespace Level

def rank (l : Level) : Nat := l.ctorIdx

def spell : Level → String
  | warn => "WARN"
  | debug => "DEBUG"
  | trace => "TRACE"

end Level

/-- What is reported while a program is built and printed. -/
inductive Event where
  | relinked (id : ConstructionId)
  | rendering (cls : String)
  | entered (id : ConstructionId)
  | declared (name : String)
  | classFailed (cls : String) (error : UnitError)
  | classDropped (cls : String) (cause : PrintError)
  | methodFailed (method : String) (error : UnitError)
  | methodDropped (method : String) (cause : PrintError)
deriving DecidableEq, Repr

namespace Event

def level : Event → Level
  | rendering _ => .debug
  | entered _ | declared _ => .trace
  | _ => .warn

def message : Event → String
  | relinked id =>
    "relinking construction " ++ constructionName id ++ " that already has a successor"
  | rendering cls => "rendering class " ++ cls
  | entered id => "printing construction " ++ constructionName id
  | declared name => "declaring " ++ name ++ " at its first use"
  | classFailed cls error =>
    "class " ++ cls ++ " carries a decompilation error: " ++ error.spell
  | classDropped cls cause => "dropping the body of class " ++ cls ++ ": " ++ cause.message
  | methodFailed method error =>
    "method " ++ method ++ " carries a decompilation error: " ++ error.spell
  | methodDropped method cause =>
    "dropping the body of method " ++ method ++ ": " ++ cause.message

def logLine (e : Event) : String := e.level.spell ++ ": " ++ e.message

end Event

def logLines (least : Level) (events : List Event) : List String :=
  (events.filter fun e => e.level.rank ≤ least.rank).map Event.logLine

end Unparse
