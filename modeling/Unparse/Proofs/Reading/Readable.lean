import Unparse.Print.Expr
import Unparse.Proofs.Reading.Literal

/-! # Readable expressions

An expression is readable if its names are words, a target may be assigned to, and
the language has a spelling of its own for every part. The tokens of an expression
are those that its document consists of.
-/

namespace Unparse.Reading

def keywords : Target → List String
  | .java => ["new", "instanceof"]
  | .kotlin => ["if", "else", "is", "as"]

def isName (t : Target) (s : String) : Bool := isWord s && !(keywords t).contains s

def castType : Target → String → String
  | .java, type => type
  | .kotlin, type => TypeName.spell type

def hasAssignment (t : Target) (op : BinaryOp) : Bool := (t.compoundToken? op).isSome

def isTarget {ν κ : Type} : Expr ν κ → Bool
  | .var _ | .const (.name _) | .field _ _ | .staticField _ _ | .index _ _ => true
  | _ => false

section Readable

variable {ν κ : Type} (t : Target) (bare : ν → Bool) (this : Expr ν κ → Bool)

mutual

/-- Whether an expression can be read back. Its variables are `bare` names, and
no call is made on the instance `this` that the method is called on. -/
def isReadable : Expr ν κ → Bool
  | .const (.name s) => isName t s
  | .const _ => true
  | .binary _ l r => isReadable l && isReadable r
  | .unary _ e => isReadable e
  | .ternary e l r => isReadable e && isReadable l && isReadable r
  | .field owner name => isReadable owner && isName t name
  | .staticField qualifier name => (qualifier == "" || isName t qualifier) && isName t name
  | .var v => bare v
  | .call receiver _ function args =>
    !this receiver && isReadable receiver && isName t function && areReadable args
  | .apply function args => isName t function && areReadable args
  | .create cls args => isName t cls && areReadable args
  | .createArray element dimensions none =>
    t == .java && isName t element && (TypeName.element? element).isNone &&
      !dimensions.isEmpty && areReadable dimensions
  | .createArray element dimensions (some elements) =>
    t == .java && isName t element && isName t (element ++ "[]") && dimensions.isEmpty &&
      areReadable elements
  | .length array => isReadable array
  | .index array position => isReadable array && isReadable position
  | .cast type e => isName t (castType t type) && isReadable e
  | .instanceOf e type _ => isName t type && isReadable e
  | .stepBefore _ target | .stepAfter _ target => isTarget target && isReadable target
  | .compound op target amount =>
    hasAssignment t op && isTarget target && isReadable target && isReadable amount
  | .anonymous _ _ => false

def areReadable : List (Expr ν κ) → Bool
  | [] => true
  | e :: es => isReadable e && areReadable es

end

@[simp] theorem areReadable_iff {es : List (Expr ν κ)} :
    areReadable t bare this es = true ↔ ∀ e ∈ es, isReadable t bare this e = true := by
  induction es with
  | nil => simp [areReadable]
  | cons e es ih => simp [areReadable, ih]

end Readable

def isBare (t : Target) (v : Occurrence) : Bool := !v.declares && isName t v.name

theorem isWord_of_isName {t : Target} {w : String} (h : isName t w = true) : isWord w = true := by
  simp only [isName, Bool.and_eq_true] at h
  exact h.1

def encloses (t : Target) (own : Option Operation) (around : Operation) (associative : Bool) :
    Bool :=
  own.any fun op => needsBrackets (t.priority op) (t.priority around) associative

/-- Whether the right operand of an operator repeats it and groups by itself. -/
def regroups (t : Target) (op : BinaryOp) (own : Option Operation) : Bool :=
  own = some (.binary op) && t.isAssociative (.binary op)

def isTight (t : Target) (own : Option Operation) : Bool :=
  own.all fun op => t.priority op ≤ 1

def enclosed (b : Bool) (ts : List Token) : List Token :=
  if b then .symbol "(" :: ts ++ [.symbol ")"] else ts

theorem enclosed_true (ts : List Token) :
    enclosed true ts = .symbol "(" :: (ts ++ [.symbol ")"]) := rfl

def commaTokens : List (List Token) → List Token
  | [] => []
  | ts :: tss => ts ++ tss.flatMap (.symbol "," :: ·)

def argumentTokens (tss : List (List Token)) : List Token :=
  .symbol "(" :: commaTokens tss ++ [.symbol ")"]

def operatorToken (s : String) : Token := if isWord s then .word s else .symbol s

mutual

def tokens (t : Target) : ExprCode → List Token
  | .const value => (Atom.ofLiteral t value).tokens
  | .binary op l r =>
    enclosed (encloses t l.operation? (.binary op) true) (tokens t l) ++
      operatorToken (t.binaryToken op) ::
        enclosed (encloses t r.operation? (.binary op) (regroups t op r.operation?)) (tokens t r)
  | .unary op e =>
    let ts := enclosed (encloses t e.operation? (.unary op) (t.isAssociative (.unary op)))
      (tokens t e)
    if t.followsOperand (.unary op) then ts ++ .symbol "." :: .word "inv" :: argumentTokens []
    else .symbol op.symbol :: ts
  | .ternary e l r =>
    let ls := enclosed (encloses t l.operation? .ternary false) (tokens t l)
    let rs := enclosed (encloses t r.operation? .ternary false) (tokens t r)
    match t with
    | .java =>
      enclosed true (tokens t e) ++ .symbol "?" :: ls ++ .symbol ":" :: rs
    | .kotlin => .word "if" :: enclosed true (tokens t e) ++ ls ++ .word "else" :: rs
  | .field owner name =>
    enclosed (encloses t owner.operation? .member true) (tokens t owner) ++
      [.symbol ".", .word name]
  | .staticField qualifier name =>
    if qualifier = "" then [.word name] else [.word qualifier, .symbol ".", .word name]
  | .var v => [.word v.name]
  | .call receiver checked function args =>
    enclosed (encloses t receiver.operation? .member true) (tokens t receiver) ++
      .symbol (if checked then t.lexicon.checkedMember else ".") :: .word function ::
        argumentTokens (allTokens t args)
  | .apply function args => .word function :: argumentTokens (allTokens t args)
  | .create cls args =>
    match t with
    | .java => .word "new" :: .word cls :: argumentTokens (allTokens t args)
    | .kotlin => .word cls :: argumentTokens (allTokens t args)
  | .createArray element dimensions none =>
    .word "new" :: .word element ::
      (allTokens t dimensions).flatMap fun ts => .symbol "[" :: ts ++ [.symbol "]"]
  | .createArray element _ (some elements) =>
    .word "new" :: .word (element ++ "[]") :: .symbol "\x7b" ::
      commaTokens (allTokens t elements) ++ [.symbol "\x7d"]
  | .length array =>
    enclosed (encloses t array.operation? .length true) (tokens t array) ++
      [.symbol ".", .word (match t with | .java => "length" | .kotlin => "size")]
  | .index array position =>
    let array := match array with
      | .createArray .. => enclosed true (tokens t array)
      | _ => enclosed (encloses t array.operation? .index true) (tokens t array)
    array ++ .symbol "[" :: tokens t position ++ [.symbol "]"]
  | .cast type e =>
    let ts := enclosed (encloses t e.operation? .cast (t.isAssociative .cast)) (tokens t e)
    match t with
    | .java => .symbol "(" :: .word type :: .symbol ")" :: ts
    | .kotlin => ts ++ [.word "as", .word (TypeName.spell type)]
  | .instanceOf e type inverted =>
    let ts := enclosed (encloses t e.operation? .instanceOf true) (tokens t e)
    match t, inverted with
    | .java, false => ts ++ [.word "instanceof", .word type]
    | .java, true => .symbol "!" :: enclosed true (ts ++ [.word "instanceof", .word type])
    | .kotlin, false => ts ++ [.word "is", .word type]
    | .kotlin, true => ts ++ [.symbol "!", .word "is", .word type]
  | .stepBefore step target =>
    .symbol step.symbol ::
      enclosed (encloses t target.operation? (.stepBefore step) false) (tokens t target)
  | .stepAfter step target =>
    enclosed (encloses t target.operation? (.stepAfter step) true) (tokens t target) ++
      [.symbol step.symbol]
  | .compound op target amount =>
    enclosed (encloses t target.operation? (.compound op) true) (tokens t target) ++
      .symbol ((t.compoundToken? op).getD "") ::
        enclosed (encloses t amount.operation? (.compound op) false) (tokens t amount)
  | .anonymous _ _ => []

def allTokens (t : Target) : List ExprCode → List (List Token)
  | [] => []
  | e :: es => tokens t e :: allTokens t es

end

theorem allTokens_eq_map (t : Target) (es : List ExprCode) :
    allTokens t es = es.map (tokens t) := by
  induction es with
  | nil => simp [allTokens]
  | cons e es ih => simp [allTokens, ih]

end Unparse.Reading
