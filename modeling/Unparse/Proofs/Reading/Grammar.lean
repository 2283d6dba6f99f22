import Unparse.Target.Lexicon
import Unparse.Target.TypeName
import Unparse.Proofs.Reading.Token

/-! # Reading expressions

A reader of expressions for each target language. It goes through the tokens
once and keeps what is still open in frames. A token after an operand closes
the frames that bind tighter than it does, so the levels of the operators alone
decide how an expression groups. Binary operators are left associative,
conditional expressions and assignments right associative.

A tree is an expression whose names are unqualified fields and whose constants
are spelled already.
-/

namespace Unparse.Reading

/-- What a reader makes of an expression. -/
abbrev Tree := Expr Empty Empty

namespace Tree

def name (w : String) : Tree := .staticField "" w

def constant (s : String) : Tree := .const (.name s)

end Tree

/-- The binary operators of a language by level, the tightest first. -/
def binaryLevels : Target → List (Nat × List (String × BinaryOp))
  | .java =>
    [(3, [("*", .mul), ("/", .div), ("%", .rem)]),
      (4, [("+", .add), ("-", .sub)]),
      (5, [("<<", .shl), (">>", .shr), (">>>", .ushr)]),
      (6, [("<", .lt), ("<=", .le), (">", .gt), (">=", .ge)]),
      (7, [("==", .eq), ("!=", .ne)]),
      (8, [("&", .bitAnd)]),
      (9, [("^", .bitXor)]),
      (10, [("|", .bitOr)]),
      (11, [("&&", .and)]),
      (12, [("||", .or)])]
  | .kotlin =>
    [(4, [("*", .mul), ("/", .div), ("%", .rem)]),
      (5, [("+", .add), ("-", .sub)]),
      (7, [("shl", .shl), ("shr", .shr), ("ushr", .ushr), ("and", .bitAnd), ("or", .bitOr),
        ("xor", .bitXor)]),
      (10, [("<", .lt), ("<=", .le), (">", .gt), (">=", .ge)]),
      (11, [("==", .eq), ("!=", .ne)]),
      (12, [("&&", .and)]),
      (13, [("||", .or)])]

/-- The level of unary operators in front of their operand, and of casts there. -/
def unaryLevel : Nat := 2

def castLevel : Nat := 3

def testLevel : Target → Nat
  | .java => 6
  | .kotlin => 9

def conditionalLevel : Target → Nat
  | .java => 13
  | .kotlin => 14

def assignmentLevel : Target → Nat
  | .java => 14
  | .kotlin => 15

def closingLevel : Nat := 16

def binary? (t : Target) (spelling : String) : Option (Nat × BinaryOp) :=
  (binaryLevels t).findSome? fun (level, ops) => (ops.lookup spelling).map (level, ·)

def assignment? : Target → String → Option BinaryOp
  | _, "+=" => some .add
  | _, "-=" => some .sub
  | _, "*=" => some .mul
  | _, "/=" => some .div
  | _, "%=" => some .rem
  | .java, "<<=" => some .shl
  | .java, ">>=" => some .shr
  | .java, ">>>=" => some .ushr
  | .java, "&=" => some .bitAnd
  | .java, "|=" => some .bitOr
  | .java, "^=" => some .bitXor
  | _, _ => none

/-- What a token does after an operand. -/
inductive Role where
  | member (checked : Bool)
  | index
  | step (step : Step)
  | closeRound
  | closeSquare
  | closeCurly
  | comma
  | question
  | alternative
  | assign (op : BinaryOp)
  | test
  | invert
  | cast
  | binary (level : Nat) (op : BinaryOp)
  | unknown
deriving DecidableEq, Repr

def role (t : Target) (tok : Token) : Role :=
  match t, tok with
  | _, .symbol "." => .member false
  | .kotlin, .symbol "!!." => .member true
  | _, .symbol "[" => .index
  | _, .symbol "++" => .step .increment
  | _, .symbol "--" => .step .decrement
  | _, .symbol ")" => .closeRound
  | _, .symbol "]" => .closeSquare
  | _, .symbol "\x7d" => .closeCurly
  | _, .symbol "," => .comma
  | .java, .symbol "?" => .question
  | .java, .symbol ":" => .alternative
  | .kotlin, .word "else" => .alternative
  | .java, .word "instanceof" => .test
  | .kotlin, .word "is" => .test
  | .kotlin, .symbol "!" => .invert
  | .kotlin, .word "as" => .cast
  | _, _ =>
    match assignment? t tok.spelling, binary? t tok.spelling with
    | some op, _ => .assign op
    | none, some (level, op) => .binary level op
    | none, none => .unknown

/-- Frames below this level are closed by a token. -/
def Role.bound (t : Target) : Role → Nat
  | member _ | index | step _ | unknown => 0
  | closeRound | closeSquare | closeCurly | comma | alternative => closingLevel
  | question => conditionalLevel t
  | assign _ => assignmentLevel t
  | test | invert => testLevel t + 1
  | cast => castLevel + 1
  | binary level _ => level + 1

inductive Callee where
  | method (receiver : Tree) (checked : Bool) (name : String)
  | function (name : String)
  | constructor (cls : String)

def Callee.apply : Callee → List Tree → Tree
  | method receiver checked name, args => .call receiver checked name args
  | function name, args => .apply name args
  | constructor cls, args => .create cls args

/-- A part of an expression that is still open. -/
inductive Frame where
  | bracket
  | condition
  | index (array : Tree)
  | arguments (callee : Callee) (args : List Tree)
  | size (element : String) (sizes : List Tree)
  | elements (element : String) (es : List Tree)
  | first (condition : Tree)
  | unary (op : UnaryOp)
  | step (step : Step)
  | cast (type : String)
  | right (level : Nat) (op : BinaryOp) (left : Tree)
  | second (condition whenTrue : Tree)
  | amount (op : BinaryOp) (target : Tree)

namespace Frame

/-- The level of a frame that needs no token of its own to be closed. -/
def level? (t : Target) : Frame → Option Nat
  | unary _ | step _ | cast _ => some unaryLevel
  | right level _ _ => some level
  | second _ _ => some (conditionalLevel t)
  | amount _ _ => some (assignmentLevel t)
  | _ => none

def close : Frame → Tree → Tree
  | unary op, e => .unary op e
  | step s, e => .stepBefore s e
  | cast type, e => .cast type e
  | right _ op l, e => .binary op l e
  | second c l, e => .ternary c l e
  | amount op target, e => .compound op target e
  | _, e => e

end Frame

/-- Close the frames below a bound. -/
def reduce (t : Target) (bound : Nat) : Tree → List Frame → Tree × List Frame
  | e, f :: fs =>
    match f.level? t with
    | some level => if level < bound then reduce t bound (f.close e) fs else (e, f :: fs)
    | none => (e, f :: fs)
  | e, [] => (e, [])

/-- What is expected next. -/
inductive Mode where
  | operand
  | complete (e : Tree)
  | word (w : String)
  | member (e : Tree) (checked : Bool)
  | named (e : Tree) (checked : Bool) (name : String)
  | bracketed (w : String)
  | creation
  | created (cls : String)
  | sized (element : String) (sizes : List Tree)
  | condition
  | type (e : Tree) (inverted : Bool)
  | inverted (e : Tree)
  | casting (e : Tree)

structure State where
  mode : Mode
  frames : List Frame

/-- A name in brackets may turn out to be the type of a cast. -/
def unbracket (t : Target) (e : Tree) : Mode :=
  match t, e with
  | .java, .staticField "" w => .bracketed w
  | _, e => .complete e

/-- Read a token after an operand, in view of the frames that it leaves open. -/
def act (t : Target) : Role → Tree → List Frame → Option State
  | .member checked, e, fs => some ⟨.member e checked, fs⟩
  | .index, e, fs => some ⟨.operand, .index e :: fs⟩
  | .step s, e, fs => some ⟨.complete (.stepAfter s e), fs⟩
  | .closeRound, e, .bracket :: fs => some ⟨unbracket t e, fs⟩
  | .closeRound, e, .condition :: fs => some ⟨.operand, .first e :: fs⟩
  | .closeRound, e, .arguments f es :: fs => some ⟨.complete (f.apply (es ++ [e])), fs⟩
  | .closeSquare, e, .index array :: fs => some ⟨.complete (.index array e), fs⟩
  | .closeSquare, e, .size element es :: fs => some ⟨.sized element (es ++ [e]), fs⟩
  | .closeCurly, e, .elements element es :: fs =>
    some ⟨.complete (.createArray element [] (some (es ++ [e]))), fs⟩
  | .comma, e, .arguments f es :: fs => some ⟨.operand, .arguments f (es ++ [e]) :: fs⟩
  | .comma, e, .elements element es :: fs =>
    some ⟨.operand, .elements element (es ++ [e]) :: fs⟩
  | .question, e, fs => some ⟨.operand, .first e :: fs⟩
  | .alternative, e, .first c :: fs => some ⟨.operand, .second c e :: fs⟩
  | .assign op, e, fs => some ⟨.operand, .amount op e :: fs⟩
  | .test, e, fs => some ⟨.type e false, fs⟩
  | .invert, e, fs => some ⟨.inverted e, fs⟩
  | .cast, e, fs => some ⟨.casting e, fs⟩
  | .binary level op, e, fs => some ⟨.operand, .right level op e :: fs⟩
  | _, _, _ => none

def continue? (t : Target) (e : Tree) (fs : List Frame) (tok : Token) : Option State :=
  let (e, fs) := reduce t ((role t tok).bound t) e fs
  act t (role t tok) e fs

/-- Whether a token starts the operand of a cast. One in front of a signed
operand would be read as an addition or a subtraction. -/
def opensCast : Token → Bool
  | .constant _ | .symbol "(" | .symbol "!" | .symbol "~" => true
  | .word w => w != "instanceof"
  | _ => false

def begin? (t : Target) (fs : List Frame) : Token → Option State
  | .constant s => some ⟨.complete (.constant s), fs⟩
  | .word w =>
    match t, w with
    | .java, "new" => some ⟨.creation, fs⟩
    | .kotlin, "if" => some ⟨.condition, fs⟩
    | _, w => some ⟨.word w, fs⟩
  | .symbol s =>
    match t, s, fs with
    | _, "(", fs => some ⟨.operand, .bracket :: fs⟩
    | _, "-", fs => some ⟨.operand, .unary .negate :: fs⟩
    | _, "!", fs => some ⟨.operand, .unary .not :: fs⟩
    | .java, "~", fs => some ⟨.operand, .unary .bitNot :: fs⟩
    | _, "++", fs => some ⟨.operand, .step .increment :: fs⟩
    | _, "--", fs => some ⟨.operand, .step .decrement :: fs⟩
    | _, ")", .arguments f [] :: fs => some ⟨.complete (f.apply []), fs⟩
    | _, "\x7d", .elements element [] :: fs =>
      some ⟨.complete (.createArray element [] (some [])), fs⟩
    | _, _, _ => none

def step (t : Target) (s : State) (tok : Token) : Option State :=
  match s.mode with
  | .operand => begin? t s.frames tok
  | .complete e => continue? t e s.frames tok
  | .word w =>
    if tok = .symbol "(" then some ⟨.operand, .arguments (.function w) [] :: s.frames⟩
    else continue? t (.name w) s.frames tok
  | .member e checked =>
    match tok with
    | .word name => some ⟨.named e checked name, s.frames⟩
    | _ => none
  | .named e checked name =>
    if tok = .symbol "(" then
      some ⟨.operand, .arguments (.method e checked name) [] :: s.frames⟩
    else continue? t (.field e name) s.frames tok
  | .bracketed w =>
    if opensCast tok then begin? t (.cast w :: s.frames) tok
    else continue? t (.name w) s.frames tok
  | .creation =>
    match tok with
    | .word cls => some ⟨.created cls, s.frames⟩
    | _ => none
  | .created cls =>
    match tok with
    | .symbol "(" => some ⟨.operand, .arguments (.constructor cls) [] :: s.frames⟩
    | .symbol "[" =>
      if (TypeName.element? cls).isNone then some ⟨.operand, .size cls [] :: s.frames⟩ else none
    | .symbol "\x7b" =>
      (TypeName.element? cls).map fun element => ⟨.operand, .elements element [] :: s.frames⟩
    | _ => none
  | .sized element sizes =>
    if tok = .symbol "[" then some ⟨.operand, .size element sizes :: s.frames⟩
    else continue? t (.createArray element sizes none) s.frames tok
  | .condition => if tok = .symbol "(" then some ⟨.operand, .condition :: s.frames⟩ else none
  | .type e inverted =>
    match tok with
    | .word type => some ⟨.complete (.instanceOf e type inverted), s.frames⟩
    | _ => none
  | .inverted e => if tok = .word "is" then some ⟨.type e true, s.frames⟩ else none
  | .casting e =>
    match tok with
    | .word type => some ⟨.complete (.cast type e), s.frames⟩
    | _ => none

def Mode.whole? : Mode → Option Tree
  | complete e => some e
  | word w | bracketed w => some (.name w)
  | named e _ name => some (.field e name)
  | sized element sizes => some (.createArray element sizes none)
  | _ => none

/-- The whole expression, if nothing is left open. -/
def finish? (t : Target) (e : Tree) (fs : List Frame) : Option Tree :=
  let (e, fs) := reduce t closingLevel e fs
  if fs.isEmpty then some e else none

def run (t : Target) : State → List Token → Option Tree
  | s, [] => s.mode.whole?.bind (finish? t · s.frames)
  | s, tok :: ts => (step t s tok).bind (run t · ts)

/-- The expression that a text is read as. -/
def read (t : Target) (text : String) : Option Tree := run t ⟨.operand, []⟩ (tokensOf text)

end Unparse.Reading
