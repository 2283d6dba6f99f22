import Unparse.Program.Class

/-! # Target languages

Source text is written in one of two languages. What they spell differently is
collected in a `Lexicon`; its defaults are the spellings of Java.
-/

namespace Unparse

inductive Target where
  | java | kotlin
deriving DecidableEq, Repr

/-- The fixed spellings of a target language. -/
structure Lexicon where
  baseClass : String
  annotationMark : String := "@"
  terminator : String := ";"
  instanceOf : String := "instanceof"
  notInstanceOf : Option String := none
  newKeyword : String := "new "
  forEachKeyword : String := ":"
  destructuring : Bool := false
  countedLoops : Bool := true
  checkedMember : String := "."
  jumpSeparator : String := " "
  labelMark : String := ": "
  /-- What stands before the condition of a conditional expression, before its
  first branch and between its branches. -/
  ternary : String × String × String := ("", "? ", " : ")
  selectKeyword : String := "switch"
  armKeyword : String := "case "
  fallbackArm : String := "default"
  anonymousKeyword : String := "new "
  /-- What stands after an interface in the header of an anonymous class. -/
  anonymousInterface : String := "()"
deriving DecidableEq, Repr

namespace Target

def lexicon : Target → Lexicon
  | java => { baseClass := "Object" }
  | kotlin =>
    { baseClass := "Any"
      terminator := ""
      instanceOf := "is"
      notInstanceOf := some "!is"
      newKeyword := ""
      forEachKeyword := "in"
      destructuring := true
      countedLoops := false
      checkedMember := "!!."
      jumpSeparator := "@"
      labelMark := "@ "
      ternary := ("if ", "", " else ")
      selectKeyword := "when"
      armKeyword := ""
      fallbackArm := "else"
      anonymousKeyword := "object : "
      anonymousInterface := "" }

def loopLabel (t : Target) (label : String) : String := label ++ t.lexicon.labelMark

/-- Spell a constant. Kotlin reads `$` in a string as the start of a template,
so there it is escaped. -/
def literal : Target → Literal → String
  | kotlin, .string s =>
    String.ofList ((Literal.string s).spell.toList.flatMap fun c =>
      if c = '$' then ['\\', '$'] else [c])
  | _, l => l.spell

def classKeyword : Target → ClassKind → String
  | _, .cls => "class"
  | _, .interface => "interface"
  | java, .enum => "enum"
  | java, .annotationType => "@interface"
  | kotlin, .enum => "enum class"
  | kotlin, .annotationType => "annotation class"

/-- The spelling of a modifier, if the language has one. Kotlin is public and
final without a word, and spells flags of the class file as annotations. -/
def modifierKeyword? : Target → Modifier → Option String
  | kotlin, .public | kotlin, .static | kotlin, .final => none
  | kotlin, .native => some "external"
  | kotlin, .transient => some "@Transient"
  | kotlin, .volatile => some "@Volatile"
  | kotlin, .synchronized => some "@Synchronized"
  | kotlin, .strictfp => some "@Strictfp"
  | _, .public => some "public"
  | _, .protected => some "protected"
  | _, .private => some "private"
  | _, .abstract => some "abstract"
  | _, .static => some "static"
  | _, .final => some "final"
  | _, .transient => some "transient"
  | _, .volatile => some "volatile"
  | _, .synchronized => some "synchronized"
  | _, .native => some "native"
  | _, .strictfp => some "strictfp"

/-- The place of a modifier among others. Annotations come first. -/
def modifierRank : Target → Modifier → Nat
  | java, m => m.rank
  | kotlin, .transient | kotlin, .volatile | kotlin, .synchronized | kotlin, .strictfp => 0
  | kotlin, m => m.rank + 1

end Target

end Unparse
