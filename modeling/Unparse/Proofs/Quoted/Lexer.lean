import Unparse.Target.Lexicon

/-! # Lexers of quoted text

How the target languages read characters and strings between quotes, one
character after another. Java translates Unicode escapes in the whole source
first, and only then looks for quotes and for the escapes between them. Kotlin
does everything in one pass, and in a string a bare `$` starts a template, which
is no constant. All of this is about Unicode scalars: an escape that stands for
half a surrogate pair is not read.
-/

namespace Unparse.Quoted

/-- What a lexer does with a character between quotes: it goes on, or it has
come to the closing quote. Either way some characters of the contents are
complete. -/
inductive Action (S : Type) where
  | more (next : S) (read : List Char)
  | close (read : List Char)

/-- Read up to the closing quote: the contents, and what follows the quote. -/
def readTo {S : Type} (step : S → Char → Option (Action S)) :
    S → List Char → Option (List Char × List Char)
  | _, [] => none
  | s, c :: cs =>
    match step s c with
    | none => none
    | some (.more next read) => (readTo step next cs).map fun (more, rest) => (read ++ more, rest)
    | some (.close read) => some (read, cs)

def hexValue? (c : Char) : Option Nat :=
  if c.isDigit then some (c.toNat - '0'.toNat)
  else if 'a' ≤ c ∧ c ≤ 'f' then some (c.toNat - 'a'.toNat + 10)
  else if 'A' ≤ c ∧ c ≤ 'F' then some (c.toNat - 'A'.toNat + 10)
  else none

def charOf? (code : Nat) : Option Char :=
  if code.isValidChar then some (Char.ofNat code) else none

/-! ## Java -/

namespace Java

/-- Where a translation of Unicode escapes stands. -/
inductive Translation where
  | plain
  | backslash
  | code (digits value : Nat)

/-- Translate the Unicode escapes. A backslash and what follows it stay
together, so the second of two backslashes starts no escape. -/
def translate : Translation → List Char → Option (List Char)
  | .plain, [] => some []
  | .backslash, [] => some ['\\']
  | .code _ _, [] => none
  | .plain, c :: cs =>
    if c = '\\' then translate .backslash cs else (c :: ·) <$> translate .plain cs
  | .backslash, c :: cs =>
    if c = 'u' then translate (.code 0 0) cs else ('\\' :: c :: ·) <$> translate .plain cs
  | .code digits value, c :: cs =>
    if c = 'u' ∧ digits = 0 then translate (.code 0 0) cs
    else do
      let value := 16 * value + (← hexValue? c)
      if digits < 3 then translate (.code (digits + 1) value) cs
      else return (← charOf? value) :: (← translate .plain cs)

/-- Where a lexer stands between quotes. -/
inductive State where
  | plain
  | escaped
  | octal (room value : Nat)

def letter? : Char → Option Char
  | 'b' => some '\x08'
  | 's' => some ' '
  | 't' => some '\t'
  | 'n' => some '\n'
  | 'f' => some '\x0c'
  | 'r' => some '\r'
  | '"' => some '"'
  | '\'' => some '\''
  | '\\' => some '\\'
  | _ => none

def octalValue? (c : Char) : Option Nat :=
  if '0' ≤ c ∧ c ≤ '7' then some (c.toNat - '0'.toNat) else none

def plain (mark : Char) (read : List Char) (c : Char) : Option (Action State) :=
  if c = mark then some (.close read)
  else if c = '\n' ∨ c = '\r' then none
  else if c = '\\' then some (.more .escaped read)
  else some (.more .plain (read ++ [c]))

/-- An octal escape has up to three digits, but only two if the first is above
three. -/
def step (mark : Char) : State → Char → Option (Action State)
  | .plain, c => plain mark [] c
  | .escaped, c =>
    match octalValue? c with
    | some d => some (.more (.octal (if d ≤ 3 then 2 else 1) d) [])
    | none => (letter? c).map fun c => .more .plain [c]
  | .octal room value, c =>
    match octalValue? c with
    | some d =>
      if room = 0 then plain mark [Char.ofNat value] c
      else some (.more (.octal (room - 1) (8 * value + d)) [])
    | none => plain mark [Char.ofNat value] c

end Java

/-! ## Kotlin -/

namespace Kotlin

inductive State where
  | plain
  | escaped
  | code (digits value : Nat)

def letter? : Char → Option Char
  | 't' => some '\t'
  | 'b' => some '\x08'
  | 'n' => some '\n'
  | 'r' => some '\r'
  | '\'' => some '\''
  | '"' => some '"'
  | '\\' => some '\\'
  | '$' => some '$'
  | _ => none

def step (mark : Char) : State → Char → Option (Action State)
  | .plain, c =>
    if c = mark then some (.close [])
    else if c = '\n' ∨ c = '\r' then none
    else if c = '$' ∧ mark = '"' then none
    else if c = '\\' then some (.more .escaped [])
    else some (.more .plain [c])
  | .escaped, c =>
    if c = 'u' then some (.more (.code 0 0) [])
    else (letter? c).map fun c => .more .plain [c]
  | .code digits value, c => do
    let value := 16 * value + (← hexValue? c)
    if digits < 3 then return .more (.code (digits + 1) value) []
    else return .more .plain [← charOf? value]

end Kotlin

/-! ## Constants -/

inductive Constant where
  | char (c : Char)
  | string (s : String)
deriving DecidableEq, Repr

namespace Constant

def literal : Constant → Literal
  | char c => .char c
  | string s => .string s

def mark : Constant → Char
  | char _ => '\''
  | string _ => '"'

def chars : Constant → List Char
  | char c => [c]
  | string s => s.toList

end Constant

/-- The characters that the lexer of a language looks for quotes in. -/
def source (t : Target) (cs : List Char) : Option (List Char) :=
  match t with
  | .java => Java.translate .plain cs
  | .kotlin => some cs

def contents (t : Target) (mark : Char) (cs : List Char) : Option (List Char × List Char) :=
  match t with
  | .java => readTo (Java.step mark) .plain cs
  | .kotlin => readTo (Kotlin.step mark) .plain cs

/-- Read a text that is a constant and nothing else. A constant between single
quotes holds one character. -/
def readConstant (t : Target) (text : String) : Option Constant := do
  match ← source t text.toList with
  | '"' :: cs =>
    match contents t '"' cs with
    | some (s, []) => some (.string (String.ofList s))
    | _ => none
  | '\'' :: cs =>
    match contents t '\'' cs with
    | some ([c], []) => some (.char c)
    | _ => none
  | _ => none

example : readConstant .java "\"\\\\\\u0041\\\\u0041\\1018\"" =
    some (.string "\\A\\u0041A8") := by decide

end Unparse.Quoted
