import Unparse.Text.Emoji
import Unparse.Text.Ligature

/-! # Display width

The number of columns a text takes. Most characters take the columns they take
alone, but a sequence that is shown as one emoji takes two, a ligature takes
fewer than its letters, a variation selector decides about the character before
it, and a carriage return and a line feed are one line break.

All of these depend on what follows a character, so a text is read from its end.
A `Head` is what the characters in front still have to know of the part that has
been read.

A text of ASCII characters takes one column for each of them.
-/

namespace Unparse.Text

/-- The code of a flag, as far as it has been read from its end. -/
inductive FlagCode where
  | ended
  | letters (count : Nat)
  | digits (count : Nat)
deriving DecidableEq, Repr

namespace FlagCode

/-- Put a character of the code in front. A code ends in up to six letters or
up to three digits, and the digits may stand before up to four letters. -/
def push? (code : FlagCode) (c : Char) : Option FlagCode :=
  if isTagLetter c then
    match code with
    | ended => some (letters 1)
    | letters n => if n < 6 then some (letters (n + 1)) else none
    | digits _ => none
  else if isTagDigit c then
    match code with
    | ended => some (digits 1)
    | letters n => if n ≤ 4 then some (digits 1) else none
    | digits n => if n < 3 then some (digits (n + 1)) else none
  else none

def isWhole : FlagCode → Bool
  | ended => false
  | letters n => 3 ≤ n
  | digits n => n = 3

end FlagCode

/-- What a text begins with, as far as it changes the columns of the characters
in front of it. -/
inductive Start where
  | plain
  | lineFeed
  | skinTone
  | regionalIndicator
  | regionalIndicators
  | emoji
  | joiner
  | keycap
  | indicatorBeforeJoiner
  | evenBeforeJoiner
  | oddBeforeJoiner
  | flagCode (code : FlagCode)
  | kiratE
  | kiratAi
  | alef
  | ligature (l : Ligature) (joined : Bool)
deriving DecidableEq, Repr

namespace Start

/-- What a text begins with if it begins with a character that nothing after it
concerns. -/
def ofChar (c : Char) : Start :=
  match Ligature.ofChar? c with
  | some l => ligature l false
  | none =>
    if isAlef c then alef
    else if c.toNat = 0x16D67 then kiratE
    else if c.toNat = 0x16D68 then kiratAi
    else if isRegionalIndicator c then regionalIndicator
    else if isSkinTone c then skinTone
    else if isEmojiByDefault c then emoji
    else plain

def alone (c : Char) : Int × Start := (charWidth c, ofChar c)

def push (s : Start) (c : Char) : Int × Start :=
  match s with
  | plain | lineFeed | keycap => alone c
  | alef =>
    if isLam c then (0, plain)
    else if isTransparent c then (0, alef)
    else alone c
  | ligature l joined =>
    if isJoiner c then (0, ligature l true)
    else if isInvisibleMark c then (0, ligature l joined)
    else match l.push? joined c with
      | some (n, some l) => (n, ligature l false)
      | some (n, none) => (n, plain)
      | none => alone c
  | skinTone =>
    if isModifierBase c then (0, emoji)
    else if isJoiner c then (0, joiner)
    else alone c
  | regionalIndicator =>
    if isRegionalIndicator c then (1, regionalIndicators) else alone c
  | regionalIndicators =>
    if isRegionalIndicator c then (1, regionalIndicators)
    else if isJoiner c then (0, joiner)
    else alone c
  | emoji => if isJoiner c then (0, joiner) else alone c
  | joiner =>
    if c.toNat = 0x20E3 then (0, keycap)
    else if isRegionalIndicator c then (1, indicatorBeforeJoiner)
    else if isSkinTone c then (0, skinTone)
    else if c.toNat = 0xE007F then (0, flagCode .ended)
    else if isEmojiByDefault c then (0, emoji)
    else alone c
  | indicatorBeforeJoiner =>
    if isRegionalIndicator c then (-1, evenBeforeJoiner) else alone c
  | evenBeforeJoiner =>
    if isRegionalIndicator c then (3, oddBeforeJoiner)
    else if isJoiner c then (0, joiner)
    else alone c
  | oddBeforeJoiner =>
    if isRegionalIndicator c then (-1, evenBeforeJoiner)
    else if isJoiner c then (0, joiner)
    else alone c
  | flagCode code =>
    if c.toNat = 0x1F3F4 && code.isWhole then (0, emoji)
    else match code.push? c with
      | some code => (0, flagCode code)
      | none => alone c
  | kiratE =>
    match c.toNat with
    | 0x16D63 | 0x16D69 => (0, plain)
    | 0x16D67 => (0, kiratAi)
    | 0x16D68 => (1, kiratE)
    | _ => alone c
  | kiratAi => if c.toNat = 0x16D63 then (0, plain) else alone c

def isLasting : Start → Bool
  | alef | ligature _ _ => true
  | _ => false

def isJoined : Start → Bool
  | joiner | keycap => true
  | _ => false

end Start

/-- The start of a text, and the variation selectors in front of it: for an
emoji, for an emoji shown as text, and for a wide quotation mark. -/
structure Head where
  start : Start := .plain
  asEmoji : Bool := false
  asText : Bool := false
  asWide : Bool := false
deriving DecidableEq, Repr

namespace Head

def select? (h : Head) (c : Char) : Option Head :=
  let rest := if h.start.isLasting then h else {}
  match c.toNat with
  | 0xFE01 => some { rest with asWide := true }
  | 0xFE0E => some { rest with asText := true }
  | 0xFE0F =>
    some (if h.start.isJoined then { h with asEmoji := true } else { rest with asEmoji := true })
  | _ => none

def isQuotationMark (c : Char) : Bool :=
  c.toNat = 0x2018 || c.toNat = 0x2019 || c.toNat = 0x201C || c.toNat = 0x201D

def dropEmoji (h : Head) : Head :=
  if h.asEmoji then if h.start.isLasting then { h with asEmoji := false } else {} else h

def push (h : Head) (c : Char) : Int × Head :=
  if h.asEmoji && hasEmojiVariant c then
    (if h.start.isJoined then 0 else 2, { start := .emoji })
  else
    let h := h.dropEmoji
    if c.toNat ≤ 0xA0 then
      if c = '\n' then (1, { start := .lineFeed })
      else if c = '\r' && h.start = .lineFeed then (0, {})
      else (1, {})
    else match h.select? c with
      | some h => (0, h)
      | none =>
        if h.asWide && isQuotationMark c then (2, {})
        else if h.asText && hasNarrowVariant c then (1, {})
        else
          let (n, start) := h.start.push c
          (n, { start })

end Head

def Head.pushColumns (c : Char) (text : Int × Head) : Int × Head :=
  (text.1 + (text.2.push c).1, (text.2.push c).2)

def measure (s : List Char) : Int × Head := s.foldr Head.pushColumns (0, {})

@[simp] theorem measure_nil : measure [] = (0, {}) := rfl

@[simp] theorem measure_cons (c : Char) (s : List Char) :
    measure (c :: s) = Head.pushColumns c (measure s) := rfl

/-- The columns taken by a text. -/
def displayWidth (s : String) : Nat :=
  if s.toList.all (·.toNat < 128) then s.length else (measure s.toList).1.toNat

end Unparse.Text
