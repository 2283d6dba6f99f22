import Mathlib.Tactic.Common
import Unparse.Text.Blank

/-! # Tokens

A source text is read from left to right. Every character extends the token
that is being read or starts the next one, so tokens are as long as possible.
A type with type arguments or brackets for an array is one word if no blank
stands in front of them. No token goes over the end of a line but a quoted one.
-/

namespace Unparse.Reading

inductive Token where
  | word (spelling : String)
  | constant (spelling : String)
  | symbol (spelling : String)
deriving DecidableEq, Repr

def Token.spelling : Token → String
  | word s | constant s | symbol s => s

/-- The symbols of more than one character. Without its last character each of
them is a symbol as well. -/
def longSymbols : List String :=
  ["++", "--", "<<", ">>", ">>>", "<=", ">=", "==", "!=", "&&", "||", "!!", "!!.",
    "+=", "-=", "*=", "/=", "%=", "<<=", ">>=", ">>>=", "&=", "|=", "^="]

def isWordChar (c : Char) : Bool :=
  c.isAlphanum || c == '_' || c == '$' || (128 ≤ c.toNat && !Text.isBlank c)

/-- The token that is being read, its characters from last to first. -/
inductive Pending where
  | blank
  | word (s : List Char) (depth : Nat)
  | array (s : List Char)
  | number (s : List Char)
  | point (s : List Char)
  | quote (mark : Char) (escaped : Bool) (s : List Char)
  | quoted (s : List Char)
  | symbol (s : List Char)
deriving DecidableEq, Repr

namespace Pending

def ofChar (c : Char) : Pending :=
  if Text.isBlank c then blank
  else if c.isDigit then number [c]
  else if c = '"' || c = '\'' then quote c false [c]
  else if isWordChar c then word [c] 0
  else symbol [c]

def extend? : Pending → Char → Option Pending
  | blank, _ | quoted _, _ => none
  | word s 0, c =>
    if isWordChar c then some (word (c :: s) 0)
    else if c = '<' then some (word (c :: s) 1)
    else if c = '[' then some (array s)
    else none
  | word s (depth + 1), c =>
    if c = '\n' then none
    else
      some (word (c :: s) (if c = '<' then depth + 2 else if c = '>' then depth else depth + 1))
  | array s, c => if c = ']' then some (word (']' :: '[' :: s) 0) else none
  | number s, c =>
    if isWordChar c || (c = '-' && s.head? = some 'e') then some (number (c :: s))
    else if c = '.' then some (point s)
    else none
  | point s, c => if c.isDigit then some (number (c :: '.' :: s)) else none
  | quote mark true s, c => some (quote mark false (c :: s))
  | quote mark false s, c =>
    if c = '\\' then some (quote mark true (c :: s))
    else if c = mark then some (quoted (c :: s))
    else some (quote mark false (c :: s))
  | symbol s, c =>
    if String.ofList (c :: s).reverse ∈ longSymbols then some (symbol (c :: s)) else none

def tokens : Pending → List Token
  | blank => []
  | word s _ => [.word (String.ofList s.reverse)]
  | array s => [.word (String.ofList s.reverse), .symbol "["]
  | number s | quote _ _ s | quoted s => [.constant (String.ofList s.reverse)]
  | point s => [.constant (String.ofList s.reverse), .symbol "."]
  | symbol s => [.symbol (String.ofList s.reverse)]

def extendAll? : Pending → List Char → Option Pending
  | p, [] => some p
  | p, c :: cs => (p.extend? c).bind (extendAll? · cs)

end Pending

def lex : Pending → List Char → List Token
  | p, [] => p.tokens
  | p, c :: cs =>
    match p.extend? c with
    | some q => lex q cs
    | none => p.tokens ++ lex (Pending.ofChar c) cs

/-- The tokens of a text. -/
def tokensOf (text : String) : List Token := lex .blank text.toList

def scan? : List Char → Option Pending
  | [] => none
  | c :: cs => (Pending.ofChar c).extendAll? cs

def isWord (s : String) : Bool := scan? s.toList == some (.word s.toList.reverse 0)

example : tokensOf "a[i] += (int[]) -f(\"[x]\", 1e-7f) << 5.size" =
    [.word "a", .symbol "[", .word "i", .symbol "]", .symbol "+=", .symbol "(", .word "int[]",
      .symbol ")", .symbol "-", .word "f", .symbol "(", .constant "\"[x]\"", .symbol ",",
      .constant "1e-7f", .symbol ")", .symbol "<<", .constant "5", .symbol ".",
      .word "size"] := by decide

/-- A text that no token in front of it extends into, however that token ends. -/
def Apart : List Char → Prop
  | [] => True
  | c :: cs =>
    isWordChar c = false ∧ c ≠ '<' ∧ (c = '[' → cs.head? ≠ some ']') ∧
      (c = '.' → ∀ d ∈ cs.head?, d.isDigit = false)

theorem lex_of_extendAll? {p q : Pending} {cs : List Char} (h : p.extendAll? cs = some q)
    (rest : List Char) : lex p (cs ++ rest) = lex q rest := by
  induction cs generalizing p with
  | nil => cases h; rfl
  | cons c cs ih =>
    obtain ⟨r, hr, hq⟩ := Option.bind_eq_some_iff.mp h
    rw [List.cons_append, lex, hr]
    exact ih hq

theorem lex_of_scan? {q : Pending} {cs : List Char} (h : scan? cs = some q)
    (rest : List Char) : lex .blank (cs ++ rest) = lex q rest := by
  cases cs with
  | nil => cases h
  | cons c cs => exact lex_of_extendAll? h rest

theorem lex_eq_append {p : Pending} {cs : List Char}
    (h : ∀ c ∈ cs.head?, p.extend? c = none) : lex p cs = p.tokens ++ lex .blank cs := by
  cases cs with
  | nil => simp [lex, Pending.tokens]
  | cons c cs =>
    have hb : lex .blank (c :: cs) = lex (.ofChar c) cs := rfl
    rw [lex, h c rfl, hb]

theorem lex_symbol (s : List Char) {cs : List Char}
    (h : ∀ c ∈ cs.head?, String.ofList (s.reverse ++ [c]) ∉ longSymbols) :
    lex (.symbol s) cs = .symbol (String.ofList s.reverse) :: lex .blank cs :=
  lex_eq_append fun c hc => by simpa [Pending.extend?] using h c hc

theorem lex_short_symbol (c : Char) (h : ∀ s ∈ longSymbols, s.toList.head? ≠ some c)
    (cs : List Char) : lex (.symbol [c]) cs = .symbol (String.ofList [c]) :: lex .blank cs :=
  lex_symbol [c] fun _ _ hm => h _ hm (by simp)

theorem lex_bracket (cs : List Char) :
    lex (.symbol ['[']) cs = .symbol "[" :: lex .blank cs :=
  lex_short_symbol '[' (by decide) cs

theorem lex_point (cs : List Char) : lex (.symbol ['.']) cs = .symbol "." :: lex .blank cs :=
  lex_short_symbol '.' (by decide) cs

theorem lex_word {s : String} (h : isWord s) {rest : List Char} (hr : Apart rest) :
    lex .blank (s.toList ++ rest) = .word s :: lex .blank rest := by
  have hs : scan? s.toList = some (.word s.toList.reverse 0) := by simpa [isWord] using h
  rw [lex_of_scan? hs]
  match rest, hr with
  | [], _ => simp [lex, Pending.tokens]
  | c :: cs, ⟨hw, hl, ha, _⟩ =>
    by_cases hc : c = '['
    · subst hc
      have hlex : lex (.array s.toList.reverse) cs = .word s :: .symbol "[" :: lex .blank cs := by
        rw [lex_eq_append]
        · simp [Pending.tokens]
        · rintro d hd
          rw [Pending.extend?, if_neg]
          rintro rfl
          exact ha rfl hd
      rw [lex, Pending.extend?, if_neg (by simp [hw]), if_neg hl, if_pos rfl]
      exact hlex.trans (by rw [← lex_bracket]; rfl)
    · rw [lex_eq_append]
      · simp [Pending.tokens]
      · rintro d ⟨⟩
        simp [Pending.extend?, hw, hl, hc]

/-- A number ends before a text that stands apart, unless an exponent is missing. -/
theorem lex_number {s : List Char} (hs : s.head? ≠ some 'e') {rest : List Char}
    (hr : Apart rest) :
    lex (.number s) rest = .constant (String.ofList s.reverse) :: lex .blank rest := by
  match rest, hr with
  | [], _ => simp [lex, Pending.tokens]
  | c :: cs, ⟨hw, _, _, hd⟩ =>
    by_cases hc : c = '.'
    · subst hc
      have hlex : lex (.point s) cs =
          .constant (String.ofList s.reverse) :: .symbol "." :: lex .blank cs := by
        rw [lex_eq_append]
        · simp [Pending.tokens]
        · intro d hm
          simp [Pending.extend?, hd rfl d hm]
      rw [lex, Pending.extend?, if_neg (by simp [hw, hs]), if_pos rfl]
      exact hlex.trans (by rw [← lex_point]; rfl)
    · rw [lex_eq_append]
      · simp [Pending.tokens]
      · rintro d ⟨⟩
        simp [Pending.extend?, hw, hc, hs]

end Unparse.Reading
