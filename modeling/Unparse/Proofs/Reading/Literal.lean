import Unparse.Proofs.Reading.Chunk
import Unparse.Proofs.Reading.Grammar
import Unparse.Text.Escape

/-! # Reading constants

A constant is a word, a number with or without a sign, a constant of a class, or
a quoted text. The sign of a number is a token of its own, so a negative number
is read as a negation.
-/

namespace Unparse.Reading

def IsNumber (s : List Char) : Prop :=
  scan? s = some (.number s.reverse) ∧ s.getLast? ≠ some 'e'

theorem extendAll?_append (p : Pending) (a b : List Char) :
    p.extendAll? (a ++ b) = (p.extendAll? a).bind (·.extendAll? b) := by
  induction a generalizing p with
  | nil => rfl
  | cons c a ih => simp only [List.cons_append, Pending.extendAll?, ih, Option.bind_assoc]

theorem scan?_append {a : List Char} (ha : a ≠ []) (b : List Char) :
    scan? (a ++ b) = (scan? a).bind (·.extendAll? b) := by
  cases a with
  | nil => exact absurd rfl ha
  | cons c a => exact extendAll?_append (.ofChar c) a b

theorem extendAll?_number {cs : List Char} (h : ∀ c ∈ cs, isWordChar c = true) (s : List Char) :
    (Pending.number s).extendAll? cs = some (.number (cs.reverse ++ s)) := by
  induction cs generalizing s with
  | nil => rfl
  | cons c cs ih =>
    have hc : (Pending.number s).extend? c = some (.number (c :: s)) := by
      simp [Pending.extend?, h c List.mem_cons_self]
    rw [Pending.extendAll?, hc, Option.bind_some, ih fun d hd => h d (List.mem_cons_of_mem c hd)]
    simp

theorem getLast?_append_ne {a b : List Char} (hb : b ≠ []) (h : b.getLast? ≠ some 'e') :
    (a ++ b).getLast? ≠ some 'e' := by
  rwa [List.getLast?_append_of_ne_nil a hb]

theorem getLast?_digits {ds : List Char} (h : ∀ c ∈ ds, c.isDigit = true) :
    ds.getLast? ≠ some 'e' := by
  intro he
  have hd := h 'e' (List.mem_of_getLast? he)
  cases hd

namespace IsNumber

theorem of_digits (ds : List Char) (hn : ds ≠ []) (h : ∀ c ∈ ds, c.isDigit = true) :
    IsNumber ds := by
  refine ⟨?_, getLast?_digits h⟩
  cases ds with
  | nil => exact absurd rfl hn
  | cons d ds =>
    have hd : d.isDigit = true := h d List.mem_cons_self
    have hstart : Pending.ofChar d = .number [d] := by
      simp [Pending.ofChar, isBlank_of_isWordChar (isWordChar_of_isDigit hd), hd]
    rw [scan?, hstart, extendAll?_number fun c hc =>
      isWordChar_of_isDigit (h c (List.mem_cons_of_mem d hc))]
    simp

theorem ne_nil {s : List Char} (h : IsNumber s) : s ≠ [] := by
  rintro rfl
  cases h.1

theorem append {s cs : List Char} (h : IsNumber s)
    (hcs : (Pending.number s.reverse).extendAll? cs = some (.number (cs.reverse ++ s.reverse)))
    (hl : cs.getLast? ≠ some 'e') : IsNumber (s ++ cs) := by
  refine ⟨?_, ?_⟩
  · rw [scan?_append h.ne_nil, h.1, Option.bind_some, hcs, List.reverse_append]
  · rcases eq_or_ne cs [] with rfl | hne
    · simpa using h.2
    · exact getLast?_append_ne hne hl

theorem append_word {s cs : List Char} (h : IsNumber s) (hcs : ∀ c ∈ cs, isWordChar c = true)
    (hl : cs.getLast? ≠ some 'e') : IsNumber (s ++ cs) :=
  h.append (extendAll?_number hcs _) hl

theorem append_fraction {s : List Char} (ds : List Char) (h : IsNumber s) (hn : ds ≠ [])
    (hds : ∀ c ∈ ds, c.isDigit = true) : IsNumber (s ++ '.' :: ds) := by
  obtain ⟨d, ds, rfl⟩ := List.exists_cons_of_ne_nil hn
  have hd : d.isDigit = true := hds d List.mem_cons_self
  have hpoint : (Pending.number s.reverse).extendAll? ('.' :: d :: ds) =
      (Pending.number (d :: '.' :: s.reverse)).extendAll? ds := by
    simp [Pending.extendAll?, Pending.extend?, hd, show isWordChar '.' = false by decide]
  refine h.append ?_ ?_
  · rw [hpoint, extendAll?_number fun c hc =>
      isWordChar_of_isDigit (hds c (List.mem_cons_of_mem d hc))]
    simp
  · exact getLast?_append_ne (a := ['.']) hn (getLast?_digits hds)

theorem append_exponent {s ds : List Char} (h : IsNumber s) (negative : Bool) (hn : ds ≠ [])
    (hds : ∀ c ∈ ds, c.isDigit = true) :
    IsNumber (s ++ 'e' :: ((if negative then ['-'] else []) ++ ds)) := by
  have hword : ∀ c ∈ ds, isWordChar c = true := fun c hc => isWordChar_of_isDigit (hds c hc)
  refine h.append ?_ ?_
  · cases negative with
    | false =>
      have he : ∀ c ∈ 'e' :: ds, isWordChar c = true := by simpa using ⟨by decide, hword⟩
      simpa using extendAll?_number he s.reverse
    | true =>
      have hsign : (Pending.number s.reverse).extendAll? ('e' :: '-' :: ds) =
          (Pending.number ('-' :: 'e' :: s.reverse)).extendAll? ds := by
        simp [Pending.extendAll?, Pending.extend?, show isWordChar 'e' = true by decide]
      simp [hsign, extendAll?_number hword]
  · exact getLast?_append_ne (a := 'e' :: (if negative then ['-'] else [])) hn
      (getLast?_digits hds)

end IsNumber

theorem isDigit_of_mem_toDigits {n : Nat} {c : Char} (h : c ∈ Nat.toDigits 10 n) :
    c.isDigit = true :=
  Nat.isDigit_of_mem_toDigits (by decide) (by decide) h

theorem isNumber_repr (n : Nat) : IsNumber n.repr.toList := by
  rw [Nat.toList_repr]
  exact .of_digits _ Nat.toDigits_ne_nil fun _ => isDigit_of_mem_toDigits

theorem spell_int (v : Int) :
    (toString v).toList = (if v < 0 then ['-'] else []) ++ v.natAbs.repr.toList := by
  cases v with
  | ofNat n =>
    have hn : ¬ (Int.ofNat n < 0) := by simp
    rw [if_neg hn]
    rfl
  | negSucc n =>
    rw [if_pos (Int.negSucc_lt_zero n)]
    exact String.toList_append

theorem isDigit_append {a b : List Char} (ha : ∀ c ∈ a, c.isDigit = true)
    (hb : ∀ c ∈ b, c.isDigit = true) : ∀ c ∈ a ++ b, c.isDigit = true := by
  intro c hc
  exact (List.mem_append.mp hc).elim (ha c) (hb c)

theorem isDigit_zeros (k : Nat) : ∀ c ∈ List.replicate k '0', c.isDigit = true := by
  intro c hc
  rw [List.eq_of_mem_replicate hc]
  rfl

theorem isNumber_exponent {mantissa : List Char} (h : IsNumber mantissa) (k : Int) :
    IsNumber (String.ofList mantissa ++ "e" ++ toString k).toList := by
  have hk := h.append_exponent (decide (k < 0)) Nat.toDigits_ne_nil
    fun _ => isDigit_of_mem_toDigits (n := k.natAbs)
  rw [String.toList_append, String.toList_append, String.toList_ofList, spell_int,
    Nat.toList_repr]
  simpa using hk

theorem isNumber_spell (d : Decimal.Numeral) : IsNumber d.spell.toList := by
  have hn : Nat.toDigits 10 d.digits ≠ [] := Nat.toDigits_ne_nil
  have hd : ∀ c ∈ Nat.toDigits 10 d.digits, c.isDigit = true := fun _ => isDigit_of_mem_toDigits
  have hzero : IsNumber ['0'] := .of_digits _ (by simp) (isDigit_zeros 1)
  unfold Decimal.Numeral.spell
  dsimp only
  generalize Nat.toDigits 10 d.digits = ds at hn hd
  generalize d.exponent + (ds.length : Int) = point
  split
  · split
    · rw [String.toList_ofList]
      exact hzero.append_fraction _ (by simp [hn]) (isDigit_append (isDigit_zeros _) hd)
    · have hpoint : point.toNat ≠ 0 := by omega
      split
      · have hhead : IsNumber (ds.take point.toNat) :=
          .of_digits _ (by simp [hn, hpoint]) fun c hc => hd c (List.mem_of_mem_take hc)
        have htail : ds.drop point.toNat ≠ [] := by
          simp only [ne_eq, List.drop_eq_nil_iff]
          omega
        rw [String.toList_ofList]
        exact hhead.append_fraction _ htail fun c hc => hd c (List.mem_of_mem_drop hc)
      · have hhead : IsNumber (ds ++ List.replicate (point.toNat - ds.length) '0') :=
          .of_digits _ (by simp [hn]) (isDigit_append hd (isDigit_zeros _))
        rw [String.toList_ofList]
        exact hhead.append_fraction ['0'] (by simp) (isDigit_zeros 1)
  · split
    · next first second rest =>
      have hfirst : IsNumber [first] := .of_digits _ (by simp) (by simpa using hd first (by simp))
      have hrest : ∀ c ∈ second :: rest, c.isDigit = true := fun c hc =>
        hd c (List.mem_cons_of_mem first hc)
      exact isNumber_exponent (hfirst.append_fraction _ (by simp) hrest) (point - 1)
    · exact isNumber_exponent (.of_digits _ hn hd) (point - 1)

theorem spells_number {cs : List Char} (h : IsNumber cs) :
    Spells true cs [.constant (String.ofList cs)] := by
  obtain ⟨hline, hlast⟩ := clean_of_scan? h.1
  obtain ⟨c, hc, hk⟩ := kind_of_scan? h.1
  have hend : cs.reverse.head? ≠ some 'e' := by
    rw [List.head?_reverse]
    exact h.2
  exact
    { reads := fun rest hr => by
        rw [lex_of_scan? h.1, lex_number hend hr, List.reverse_reverse]
        rfl
      line := by simpa using hline
      first := ⟨c, hc, mayStart_of_kind hk (.inr rfl)⟩
      last := getLast?_of_head?_reverse h.ne_nil hlast }

/-- A part of a quoted text that leaves the quotes open. -/
def Passes (mark : Char) (cs : List Char) : Prop :=
  ∀ s, (Pending.quote mark false s).extendAll? cs = some (.quote mark false (cs.reverse ++ s))

theorem Passes.append {mark : Char} {a b : List Char} (ha : Passes mark a) (hb : Passes mark b) :
    Passes mark (a ++ b) := fun s => by
  rw [extendAll?_append, ha s, Option.bind_some, hb, List.reverse_append, List.append_assoc]

theorem Passes.flatMap {mark : Char} {f : Char → List Char} (h : ∀ c, Passes mark (f c))
    (cs : List Char) : Passes mark (cs.flatMap f) := by
  induction cs with
  | nil => intro s; rfl
  | cons c cs ih => exact (h c).append ih

theorem passes_plain {mark : Char} {cs : List Char} (h : ∀ c ∈ cs, c ≠ '\\' ∧ c ≠ mark) :
    Passes mark cs := by
  intro s
  induction cs generalizing s with
  | nil => rfl
  | cons c cs ih =>
    obtain ⟨hb, hm⟩ := h c List.mem_cons_self
    have hc : (Pending.quote mark false s).extend? c = some (.quote mark false (c :: s)) := by
      simp [Pending.extend?, hb, hm]
    rw [Pending.extendAll?, hc, Option.bind_some, ih fun d hd => h d (List.mem_cons_of_mem c hd)]
    simp

theorem passes_escape (mark c : Char) : Passes mark ['\\', c] := fun _ => rfl

theorem exists_digitChar_of_mem {n : Nat} {c : Char} (h : c ∈ Nat.toDigits 16 n) :
    ∃ d, c = Nat.digitChar d := by
  induction n using Nat.strongRecOn with
  | ind n ih =>
    rw [Nat.toDigits_eq_if (by decide)] at h
    split_ifs at h with hn
    · exact ⟨n, List.mem_singleton.mp h⟩
    · rcases List.mem_append.mp h with h | h
      · exact ih (n / 16) (Nat.div_lt_self (by omega) (by decide)) h
      · exact ⟨n % 16, List.mem_singleton.mp h⟩

theorem exists_digitChar_of_mem_hexDigits {n : Nat} {c : Char} (h : c ∈ Text.hexDigits n) :
    ∃ d, c = Nat.digitChar d := by
  rcases List.mem_append.mp h with h | h
  · exact ⟨0, List.eq_of_mem_replicate h⟩
  · exact exists_digitChar_of_mem h

theorem passes_escapeChar {mark : Char} (hm : mark = '"' ∨ mark = '\'') (c : Char) :
    Passes mark (Text.escapeChar mark c) := by
  have hhex (n : Nat) : ∀ d ∈ Text.hexDigits n, d ≠ '\\' ∧ d ≠ mark := by
    intro d hd
    obtain ⟨k, rfl⟩ := exists_digitChar_of_mem_hexDigits hd
    rcases hm with rfl | rfl <;> simp
  unfold Text.escapeChar
  split_ifs with hb hn hr ht hbs hq hc
  iterate 6 exact passes_escape mark _
  · exact (passes_escape mark 'u').append (passes_plain (hhex c.toNat))
  · exact passes_plain (by simpa using ⟨hb, hq⟩)

theorem newline_not_mem_escapeChar {mark : Char} (hm : mark = '"' ∨ mark = '\'') (c : Char) :
    '\n' ∉ Text.escapeChar mark c := by
  have hhex (n : Nat) : '\n' ∉ Text.hexDigits n := by
    intro h
    obtain ⟨k, hk⟩ := exists_digitChar_of_mem_hexDigits h
    simp at hk
  unfold Text.escapeChar
  split_ifs with hb hn hr ht hbs hq hc
  iterate 5 decide
  · rcases hm with rfl | rfl <;> simp [hq]
  · simp [hhex]
  · simpa using Ne.symm hn

def escapeDollar (c : Char) : List Char := if c = '$' then ['\\', '$'] else [c]

theorem literal_kotlin_string (s : String) :
    Target.kotlin.literal (.string s) =
      String.ofList ('"' :: (Text.escape '"' s.toList).flatMap escapeDollar ++ ['"']) := by
  have hquoted : (Literal.string s).spell.toList = '"' :: Text.escape '"' s.toList ++ ['"'] :=
    String.toList_ofList
  have hmark : escapeDollar '"' = ['"'] := rfl
  change String.ofList ((Literal.string s).spell.toList.flatMap escapeDollar) = _
  rw [hquoted, List.flatMap_append, List.flatMap_cons, List.flatMap_singleton, hmark]
  rfl

/-- One more escape leaves the quotes as open as they were, be the character
behind a backslash or not. -/
theorem extendAll?_escapeDollar {mark : Char} (hm : mark = '"' ∨ mark = '\'') (escaped : Bool)
    (c : Char) {s t u : List Char} {e : Bool}
    (h : (Pending.quote mark escaped s).extend? c = some (.quote mark e t)) :
    (Pending.quote mark escaped u).extendAll? (escapeDollar c) =
      some (.quote mark e ((escapeDollar c).reverse ++ u)) := by
  have hd : '$' ≠ mark := by rcases hm with rfl | rfl <;> decide
  unfold escapeDollar
  split_ifs with hc
  · subst hc
    cases escaped <;> simp_all [Pending.extendAll?, Pending.extend?]
  · cases escaped with
    | true => simp_all [Pending.extendAll?, Pending.extend?]
    | false =>
      simp only [Pending.extend?] at h
      split_ifs at h with hb hq <;> simp_all [Pending.extendAll?, Pending.extend?]

theorem Passes.escapeDollar {mark : Char} (hm : mark = '"' ∨ mark = '\'') {cs : List Char}
    (h : Passes mark cs) : Passes mark (cs.flatMap escapeDollar) := by
  -- The induction goes through the states in which the quotes are open.
  have hgen (cs : List Char) (escaped : Bool) (s t u : List Char)
      (h : (Pending.quote mark escaped s).extendAll? cs = some (.quote mark false t)) :
      (Pending.quote mark escaped u).extendAll? (cs.flatMap Reading.escapeDollar) =
        some (.quote mark false ((cs.flatMap Reading.escapeDollar).reverse ++ u)) := by
    induction cs generalizing escaped s u with
    | nil => cases h; rfl
    | cons c cs ih =>
      obtain ⟨q, hq, hrest⟩ := Option.bind_eq_some_iff.mp h
      have hopen : ∃ e v, q = .quote mark e v := by
        have hclosed (v : List Char) : q ≠ .quoted v := by
          rintro rfl
          cases cs <;> simp [Pending.extendAll?, Pending.extend?] at hrest
        cases escaped <;> simp only [Pending.extend?] at hq
        · split_ifs at hq <;> cases hq
          · exact ⟨_, _, rfl⟩
          · exact absurd rfl (hclosed _)
          · exact ⟨_, _, rfl⟩
        · cases hq
          exact ⟨_, _, rfl⟩
      obtain ⟨e, v, rfl⟩ := hopen
      rw [List.flatMap_cons, extendAll?_append, extendAll?_escapeDollar hm escaped c hq,
        Option.bind_some, ih e v _ hrest]
      simp
  exact fun s => hgen cs false s _ s (h s)

theorem spells_quoted {mark : Char} (hm : mark = '"' ∨ mark = '\'') {cs : List Char}
    (hp : Passes mark cs) (hl : '\n' ∉ cs) :
    Spells true (mark :: cs ++ [mark]) [.constant (String.ofList (mark :: cs ++ [mark]))] := by
  have hmark : mark ≠ '\\' ∧ mark ≠ '\n' := by rcases hm with rfl | rfl <;> decide
  have hstart : Pending.ofChar mark = .quote mark false [mark] := by
    rcases hm with rfl | rfl <;> rfl
  have hscan : scan? (mark :: cs ++ [mark]) =
      some (.quoted (mark :: cs ++ [mark]).reverse) := by
    rw [List.cons_append, scan?, hstart, extendAll?_append, hp, Option.bind_some]
    simp [Pending.extendAll?, Pending.extend?, hmark.1]
  exact
    { reads := fun rest _ => by
        rw [lex_of_scan? hscan, lex_eq_append fun _ _ => rfl, Pending.tokens, List.reverse_reverse]
      line := by simpa [Ne.symm hmark.2] using hl
      first := ⟨mark, rfl, by rcases hm with rfl | rfl <;> rfl⟩
      last := ⟨mark, List.getLast?_concat .., by rcases hm with rfl | rfl <;> rfl⟩ }

/-- What a constant consists of when it is written. -/
inductive Atom where
  | word (spelling : String)
  | number (negative : Bool) (digits : String)
  | member (owner name : String)
  | quoted (spelling : String)

namespace Atom

def spell : Atom → String
  | word s | quoted s => s
  | number negative s => (if negative then "-" else "") ++ s
  | member owner name => owner ++ "." ++ name

def tokens : Atom → List Token
  | word s => [.word s]
  | number false s | quoted s => [.constant s]
  | number true s => [.symbol "-", .constant s]
  | member owner name => [.word owner, .symbol ".", .word name]

def tree : Atom → Tree
  | word s => Tree.name s
  | number false s | quoted s => Tree.constant s
  | number true s => .unary .negate (Tree.constant s)
  | member owner name => .field (Tree.name owner) name

def isNegative : Atom → Bool
  | number negative _ => negative
  | _ => false

def ofFloating (f : Decimal.BinaryFormat) (cls suffix : String) : Decimal.BinaryValue → Atom
  | .nan => member cls "NaN"
  | .infinite false => member cls "POSITIVE_INFINITY"
  | .infinite true => member cls "NEGATIVE_INFINITY"
  | .finite negative m e => number negative (Decimal.spellFinite f false m e ++ suffix)

def ofLiteral (t : Target) : Literal → Atom
  | .null => word "null"
  | .bool b => word (if b then "true" else "false")
  | .int v => number (v < 0) v.natAbs.repr
  | .long v => number (v < 0) (v.natAbs.repr ++ "L")
  | .float bits =>
    ofFloating .single "Float" "f" (Decimal.BinaryFormat.single.decode bits.toNat)
  | .double bits =>
    ofFloating .double "Double" "" (Decimal.BinaryFormat.double.decode bits.toNat)
  | .char c => quoted (t.literal (.char c))
  | .string s => quoted (t.literal (.string s))
  | .name s => word s

def Spelled (a : Atom) : Prop := Spells (!a.isNegative) a.spell.toList a.tokens

theorem spelled_word {s : String} (h : isWord s = true) : (word s).Spelled := spells_word h

theorem spelled_number {s : String} (negative : Bool) (h : IsNumber s.toList) :
    (number negative s).Spelled := by
  have hs : Spells true s.toList [.constant s] := by
    simpa [String.ofList_toList] using spells_number h
  cases negative with
  | false => simpa [Spelled, spell, isNegative, tokens] using hs
  | true =>
    have hspell : (number true s).spell.toList = '-' :: s.toList := by simp [spell]
    rw [Spelled, hspell]
    exact hs.sign (.inl rfl)

theorem spelled_member {owner name : String} (ho : isWord owner = true)
    (hn : isWord name = true) : (member owner name).Spelled := by
  have h := (spells_word ho).member name hn
  simpa [Spelled, spell, isNegative, tokens] using h

theorem spell_ofFloating (f : Decimal.BinaryFormat) (cls suffix : String)
    (v : Decimal.BinaryValue) :
    (ofFloating f cls suffix v).spell = Literal.spellFloating f cls suffix v := by
  rcases v with _ | negative | ⟨negative, m, e⟩
  · simp [ofFloating, spell, Literal.spellFloating, String.append_assoc]
  · cases negative <;> simp [ofFloating, spell, Literal.spellFloating, String.append_assoc]
  · simp [ofFloating, spell, Literal.spellFloating, Decimal.spellFinite, String.append_assoc]

theorem spell_ofInt (v : Int) :
    (if v < 0 then "-" else "") ++ v.natAbs.repr = toString v := by
  apply String.toList_injective
  rw [spell_int, String.toList_append]
  split <;> rfl

theorem spell_ofLiteral (t : Target) (l : Literal) : (ofLiteral t l).spell = t.literal l := by
  cases l with
  | null | char _ | string _ | name _ => cases t <;> rfl
  | bool b => cases t <;> cases b <;> rfl
  | int v =>
    have h : t.literal (.int v) = toString v := by cases t <;> rfl
    simpa [ofLiteral, spell, h] using spell_ofInt v
  | long v =>
    have h : t.literal (.long v) = toString v ++ "L" := by cases t <;> rfl
    rw [h, ← spell_ofInt v]
    simp [ofLiteral, spell, String.append_assoc]
  | float bits => cases t <;> exact spell_ofFloating ..
  | double bits => cases t <;> exact spell_ofFloating ..

theorem isNegative_ofLiteral (t : Target) (l : Literal) :
    (ofLiteral t l).isNegative = l.isNegative := by
  have hfloating (f : Decimal.BinaryFormat) (cls suffix : String) (v : Decimal.BinaryValue) :
      (ofFloating f cls suffix v).isNegative = v.isNegative := by
    rcases v with _ | negative | _
    · rfl
    · cases negative <;> rfl
    · rfl
  cases l with
  | float _ | double _ => exact hfloating ..
  | _ => rfl

theorem spelled_ofFloating {f : Decimal.BinaryFormat} {cls suffix : String}
    (hc : isWord cls = true) (hs : ∀ c ∈ suffix.toList, isWordChar c = true)
    (hl : suffix.toList.getLast? ≠ some 'e') (v : Decimal.BinaryValue) :
    (ofFloating f cls suffix v).Spelled := by
  rcases v with _ | negative | ⟨negative, m, e⟩
  · exact spelled_member hc (by decide)
  · cases negative <;> exact spelled_member hc (by decide)
  · have hfinite : IsNumber (Decimal.spellFinite f false m e).toList := by
      rw [Decimal.spellFinite, if_neg Bool.false_ne_true, String.empty_append]
      split_ifs
      · exact (IsNumber.of_digits ['0'] (by simp) (isDigit_zeros 1)).append_fraction
          ['0'] (by simp) (isDigit_zeros 1)
      · exact isNumber_spell _
    refine spelled_number negative ?_
    rw [String.toList_append]
    exact hfinite.append_word hs hl

theorem spelled_quoted {mark : Char} (hm : mark = '"' ∨ mark = '\'') {cs : List Char}
    (hp : Passes mark cs) (hl : '\n' ∉ cs) :
    (quoted (String.ofList (mark :: cs ++ [mark]))).Spelled := by
  have h := spells_quoted hm hp hl
  rwa [Spelled, spell, String.toList_ofList]

theorem newline_not_mem_escape {mark : Char} (hm : mark = '"' ∨ mark = '\'') (s : List Char) :
    '\n' ∉ Text.escape mark s := by
  simpa [Text.escape] using fun c _ => newline_not_mem_escapeChar hm c

theorem passes_escape_text {mark : Char} (hm : mark = '"' ∨ mark = '\'') (s : List Char) :
    Passes mark (Text.escape mark s) :=
  .flatMap (passes_escapeChar hm) s

theorem spelled_string (t : Target) (s : String) :
    (quoted (t.literal (.string s))).Spelled := by
  have hm : '"' = '"' ∨ '"' = '\'' := .inl rfl
  have hl : '\n' ∉ Text.escape '"' s.toList := newline_not_mem_escape hm s.toList
  have hp : Passes '"' (Text.escape '"' s.toList) := passes_escape_text hm s.toList
  cases t with
  | java => exact spelled_quoted hm hp hl
  | kotlin =>
    have hl' : '\n' ∉ (Text.escape '"' s.toList).flatMap escapeDollar := by
      rw [List.mem_flatMap]
      rintro ⟨c, hc, hn⟩
      have hne : '\n' ≠ c := by
        rintro rfl
        exact hl hc
      unfold escapeDollar at hn
      split_ifs at hn <;> simp_all
    rw [literal_kotlin_string]
    exact spelled_quoted hm (hp.escapeDollar hm) hl'

/-- Every constant is read as its atom. A name has to be a word. -/
theorem spelled_ofLiteral (t : Target) {l : Literal} (h : ∀ s, l = .name s → isWord s = true) :
    (ofLiteral t l).Spelled := by
  cases l with
  | null => exact spelled_word (by decide)
  | bool b => cases b <;> exact spelled_word (by decide)
  | int v => exact spelled_number _ (isNumber_repr _)
  | long v =>
    refine spelled_number _ ?_
    rw [String.toList_append]
    exact (isNumber_repr _).append_word (List.all_eq_true.mp (by decide)) (by decide)
  | float bits =>
    exact spelled_ofFloating (by decide) (List.all_eq_true.mp (by decide)) (by decide) _
  | double bits =>
    exact spelled_ofFloating (by decide) (List.all_eq_true.mp (by decide)) (by decide) _
  | char c =>
    have hm : '\'' = '"' ∨ '\'' = '\'' := .inr rfl
    have hspell : t.literal (.char c) = Text.quoted '\'' [c] := by cases t <;> rfl
    rw [ofLiteral, hspell]
    exact spelled_quoted hm (passes_escape_text hm [c]) (newline_not_mem_escape hm [c])
  | string s => exact spelled_string t s
  | name s => exact spelled_word (h s rfl)

end Atom

end Unparse.Reading
