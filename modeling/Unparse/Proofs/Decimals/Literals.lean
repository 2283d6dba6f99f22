import Unparse.Proofs.Decimals.Patterns
import Unparse.Proofs.Quoted.Constants

/-! # Spelled literals

The spelling of a constant tells its kind: by quotes, by a word, or as a number by
its suffix, its point or its exponent. Within each kind it tells the value, and a
number is negative if and only if its spelling starts with a minus sign.
-/

namespace Unparse

namespace Decimal

/-- The number that a finite constant is spelled by, without its sign. -/
def magnitude (f : BinaryFormat) (m : Nat) (e : Int) : ℚ :=
  if m = 0 then 0 else (Interval.ofFinite f m e).shortest.value

variable {f : BinaryFormat} {n n' : Bool} {m m' : Nat} {e e' : Int}

def sign (negative : Bool) : List Char := if negative then ['-'] else []

theorem exists_written_magnitude (f : BinaryFormat) (m : Nat) (e : Int) :
    ∃ w : Written, w.Valid ∧ (spellFinite f false m e).toList = w.text ∧
      w.value = magnitude f m e := by
  rw [spellFinite, if_neg Bool.false_ne_true, String.empty_append, magnitude]
  split
  · refine ⟨⟨['0'], ['0'], none⟩, ⟨by simp, by simp, by simp, by simp⟩, rfl, ?_⟩
    simp [Written.value, Nat.ofDigitChars_cons]
  · exact (Interval.ofFinite f m e).shortest.exists_written_spell

theorem toList_spellFinite (f : BinaryFormat) (n : Bool) (m : Nat) (e : Int) :
    (spellFinite f n m e).toList = sign n ++ (spellFinite f false m e).toList := by
  cases n <;> simp [spellFinite, sign]

theorem magnitude_injective (h : f.Represents m e) (h' : f.Represents m' e')
    (heq : magnitude f m e = magnitude f m' e') : m = m' ∧ e = e' := by
  have hpos {m : Nat} (e : Int) (hm : m ≠ 0) :
      0 < (Interval.ofFinite f m e).shortest.value :=
    (Interval.holds_shortest (Nat.pos_of_ne_zero hm)).pos (Nat.pos_of_ne_zero hm)
  unfold magnitude at heq
  split_ifs at heq with hm hm' hm'
  · subst hm hm'
    exact ⟨rfl, (h.short (by positivity)).trans (h'.short (by positivity)).symm⟩
  · exact absurd heq (hpos e' hm').ne
  · exact absurd heq (hpos e hm).ne'
  · have hx' := Interval.holds_shortest (f := f) (e := e') (Nat.pos_of_ne_zero hm')
    rw [← heq] at hx'
    exact Interval.eq_of_holds h h' (Interval.holds_shortest (Nat.pos_of_ne_zero hm)) hx'

theorem sign_append_injective {a b : List Char} {c d : Char} (hc : c.isDigit = true)
    (hd : d.isDigit = true) (h : sign n ++ c :: a = sign n' ++ d :: b) :
    n = n' ∧ c :: a = d :: b := by
  have hminus {c : Char} (hc : c.isDigit = true) : c ≠ '-' := by
    rintro rfl
    cases hc
  cases n <;> cases n'
  · exact ⟨rfl, h⟩
  · exact absurd (List.cons.inj h).1 (hminus hc)
  · exact absurd (List.cons.inj h).1.symm (hminus hd)
  · exact ⟨rfl, (List.cons.inj h).2⟩

/-- A finite number is determined by its spelling. -/
theorem spellFinite_injective (h : f.Represents m e) (h' : f.Represents m' e')
    (heq : spellFinite f n m e = spellFinite f n' m' e') : n = n' ∧ m = m' ∧ e = e' := by
  obtain ⟨w, hw, htext, hvalue⟩ := exists_written_magnitude f m e
  obtain ⟨w', hw', htext', hvalue'⟩ := exists_written_magnitude f m' e'
  obtain ⟨c, cs, hc, hdigit⟩ := hw.exists_head
  obtain ⟨c', cs', hc', hdigit'⟩ := hw'.exists_head
  have hlist := congrArg String.toList heq
  rw [toList_spellFinite, toList_spellFinite f n', htext, htext', hc, hc'] at hlist
  obtain ⟨hn, htexts⟩ := sign_append_injective hdigit hdigit' hlist
  rw [← hc, ← hc'] at htexts
  have hwritten := Written.eq_of_text_eq hw hw' htexts
  refine ⟨hn, magnitude_injective h h' ?_⟩
  rw [← hvalue, ← hvalue', hwritten]

/-! ## The characters of a finite number -/

theorem exists_head_spellFinite (f : BinaryFormat) (n : Bool) (m : Nat) (e : Int) :
    ∃ c cs, c.isDigit = true ∧ (spellFinite f n m e).toList = sign n ++ c :: cs := by
  obtain ⟨w, hw, htext, -⟩ := exists_written_magnitude f m e
  obtain ⟨c, cs, hc, hdigit⟩ := hw.exists_head
  exact ⟨c, cs, hdigit, by rw [toList_spellFinite, htext, hc]⟩

theorem mem_spellFinite {c : Char} (h : c ∈ (spellFinite f n m e).toList) :
    c.isDigit = true ∨ c ∈ ['.', 'e', '-'] := by
  obtain ⟨w, hw, htext, -⟩ := exists_written_magnitude f m e
  rw [toList_spellFinite, htext, List.mem_append] at h
  rcases h with h | h
  · have hc : c = '-' := by cases n <;> simp_all [sign]
    exact .inr (by simp [hc])
  · exact hw.mem_text h

theorem point_or_mark_spellFinite (f : BinaryFormat) (n : Bool) (m : Nat) (e : Int) :
    '.' ∈ (spellFinite f n m e).toList ∨ 'e' ∈ (spellFinite f n m e).toList := by
  obtain ⟨w, hw, htext, -⟩ := exists_written_magnitude f m e
  rw [toList_spellFinite, htext]
  exact hw.point_or_mark.imp (List.mem_append_right _) (List.mem_append_right _)

end Decimal

namespace Literal

open Decimal (BinaryFormat BinaryValue Written sign)

inductive Kind where
  | null | bool | int | long | float | double | char | string | name
deriving DecidableEq, Repr

def kind : Literal → Kind
  | null => .null
  | bool _ => .bool
  | int _ => .int
  | long _ => .long
  | float _ => .float
  | double _ => .double
  | char _ => .char
  | string _ => .string
  | name _ => .name

/-- Constants of one kind and one value. Floating-point constants have the same
bits, or both are no number. -/
def Alike : Literal → Literal → Prop
  | float a, float b => a = b ∨
      BinaryFormat.single.decode a.toNat = .nan ∧ BinaryFormat.single.decode b.toNat = .nan
  | double a, double b => a = b ∨
      BinaryFormat.double.decode a.toNat = .nan ∧ BinaryFormat.double.decode b.toNat = .nan
  | l, l' => l = l'

/-! ## Kinds -/

def numberKind (cs : List Char) : Kind :=
  if 'L' ∈ cs then .long
  else if 'f' ∈ cs then .float
  else if '.' ∈ cs ∨ 'e' ∈ cs then .double
  else .int

/-- The kind of constant that a text spells. -/
def spelledKind : List Char → Kind
  | [] => .name
  | c :: cs =>
    if c = '-' ∨ c.isDigit = true then numberKind (c :: cs)
    else match c with
      | 'n' => .null
      | 't' | 'f' => .bool
      | 'F' => .float
      | 'D' => .double
      | '\'' => .char
      | '"' => .string
      | _ => .name

theorem spelledKind_of_sign {cs ds : List Char} {c : Char} {negative : Bool}
    (hc : c.isDigit = true) (hcs : cs = sign negative ++ c :: ds) (suffix : List Char) :
    spelledKind (cs ++ suffix) = numberKind (cs ++ suffix) := by
  subst hcs
  cases negative <;> simp [sign, spelledKind, hc]

section NumberKind

variable {cs alphabet : List Char}

theorem not_mem_of_alphabet (h : ∀ c ∈ cs, c.isDigit = true ∨ c ∈ alphabet) {c : Char}
    (hd : c.isDigit = false) (hc : c ∉ alphabet) : c ∉ cs := by
  intro hmem
  rcases h c hmem with hdigit | halphabet
  · rw [hd] at hdigit
    cases hdigit
  · exact hc halphabet

theorem numberKind_int (h : ∀ c ∈ cs, c.isDigit = true ∨ c ∈ ['-']) : numberKind cs = .int := by
  simp [numberKind, not_mem_of_alphabet h]

theorem numberKind_long (cs : List Char) : numberKind (cs ++ ['L']) = .long := by
  simp [numberKind]

theorem numberKind_float (h : ∀ c ∈ cs, c.isDigit = true ∨ c ∈ ['.', 'e', '-']) :
    numberKind (cs ++ ['f']) = .float := by
  simp [numberKind, not_mem_of_alphabet h]

theorem numberKind_double (h : ∀ c ∈ cs, c.isDigit = true ∨ c ∈ ['.', 'e', '-'])
    (hmarked : '.' ∈ cs ∨ 'e' ∈ cs) : numberKind cs = .double := by
  simp [numberKind, not_mem_of_alphabet h, hmarked]

end NumberKind

theorem exists_head_int (v : Int) :
    ∃ c cs, c.isDigit = true ∧ (toString v).toList = sign (v < 0) ++ c :: cs := by
  have hne : Nat.toDigits 10 v.natAbs ≠ [] := Nat.toDigits_ne_nil
  obtain ⟨c, cs, hc⟩ := List.exists_cons_of_ne_nil hne
  have hmem : c ∈ Nat.toDigits 10 v.natAbs := by
    rw [hc]
    exact List.mem_cons_self
  refine ⟨c, cs, Reading.isDigit_of_mem_toDigits hmem, ?_⟩
  rw [Reading.spell_int, Nat.toList_repr, hc]
  by_cases h : v < 0 <;> simp [sign, h]

theorem toList_quoted (mark : Char) (s : List Char) :
    (Text.quoted mark s).toList = mark :: (Text.escape mark s ++ [mark]) := String.toList_ofList

theorem kind_eq_spelledKind {l : Literal} (h : ∀ s, l ≠ .name s) :
    spelledKind l.spell.toList = l.kind := by
  cases l with
  | null => rfl
  | bool b => cases b <;> rfl
  | int v =>
    obtain ⟨c, cs, hc, hv⟩ := exists_head_int v
    rw [spell, ← List.append_nil (toString v).toList, spelledKind_of_sign hc hv, List.append_nil]
    exact numberKind_int fun x hx => (Written.mem_toString hx).imp_right fun hx => by simp [hx]
  | long v =>
    obtain ⟨c, cs, hc, hv⟩ := exists_head_int v
    rw [spell, String.toList_append, spelledKind_of_sign hc hv]
    exact numberKind_long _
  | float bits =>
    rw [spell]
    rcases BinaryFormat.single.decode bits.toNat with _ | negative | ⟨n, m, e⟩
    · rfl
    · cases negative <;> rfl
    · obtain ⟨c, cs, hc, hv⟩ := Decimal.exists_head_spellFinite .single n m e
      rw [spellFloating, String.toList_append, spelledKind_of_sign hc hv]
      exact numberKind_float fun x hx => Decimal.mem_spellFinite hx
  | double bits =>
    rw [spell]
    rcases BinaryFormat.double.decode bits.toNat with _ | negative | ⟨n, m, e⟩
    · rfl
    · cases negative <;> rfl
    · obtain ⟨c, cs, hc, hv⟩ := Decimal.exists_head_spellFinite .double n m e
      rw [spellFloating, String.toList_append, spelledKind_of_sign hc hv, String.toList_empty,
        List.append_nil]
      exact numberKind_double (fun x hx => Decimal.mem_spellFinite hx)
        (Decimal.point_or_mark_spellFinite ..)
  | char c =>
    rw [spell, toList_quoted]
    rfl
  | string s =>
    rw [spell, toList_quoted]
    rfl
  | name s => exact absurd rfl (h s)

/-! ## Signs -/

open Reading (Atom)

theorem isNegative_iff_head? {l : Literal} (h : ∀ s, l ≠ .name s) :
    l.isNegative = true ↔ l.spell.toList.head? = some '-' := by
  have hspell : (Atom.ofLiteral .java l).spell = l.spell := Atom.spell_ofLiteral .java l
  have hspelled : (Atom.ofLiteral .java l).Spelled :=
    Atom.spelled_ofLiteral .java fun s hs => absurd hs (h s)
  rw [← Atom.isNegative_ofLiteral .java l, ← hspell]
  generalize Atom.ofLiteral .java l = a at hspelled
  constructor
  · intro hn
    cases a with
    | number negative digits =>
      obtain rfl : negative = true := hn
      simp [Atom.spell]
    | _ => cases hn
  · intro hhead
    by_contra hn
    obtain ⟨c, hc, hstart⟩ := hspelled.first
    rw [hhead] at hc
    cases hc
    simp [Reading.mayStart, hn] at hstart

/-! ## Values -/

theorem mem_spellFloating_iff {f : BinaryFormat} {cls suffix : String}
    (hsuffix : 'N' ∉ suffix.toList) (v : BinaryValue) :
    'N' ∈ (spellFloating f cls suffix v).toList ↔ ∀ n m e, v ≠ .finite n m e := by
  rcases v with _ | negative | ⟨n, m, e⟩
  · simp [spellFloating]
  · cases negative <;> simp [spellFloating]
  · have hdigits : 'N' ∉ (Decimal.spellFinite f n m e).toList :=
      not_mem_of_alphabet (fun c hc => Decimal.mem_spellFinite hc) (by decide) (by decide)
    simp [spellFloating, hsuffix, hdigits]

/-- A floating-point constant of a class is determined by its spelling. -/
theorem spellFloating_injective {f : BinaryFormat} {cls suffix : String} {v v' : BinaryValue}
    (hsuffix : 'N' ∉ suffix.toList) (hv : ∀ n m e, v = .finite n m e → f.Represents m e)
    (hv' : ∀ n m e, v' = .finite n m e → f.Represents m e)
    (h : spellFloating f cls suffix v = spellFloating f cls suffix v') : v = v' := by
  have hfinite : (∀ n m e, v ≠ .finite n m e) ↔ ∀ n m e, v' ≠ .finite n m e := by
    rw [← mem_spellFloating_iff hsuffix, ← mem_spellFloating_iff hsuffix, h]
  cases v with
  | finite n m e =>
    cases v' with
    | finite n' m' e' =>
      have hspell := (String.append_left_inj suffix).mp h
      obtain ⟨rfl, rfl, rfl⟩ := Decimal.spellFinite_injective (hv n m e rfl) (hv' n' m' e' rfl) hspell
      rfl
    | _ => exact absurd rfl (hfinite.mpr nofun n m e)
  | nan =>
    cases v' with
    | finite n' m' e' => exact absurd rfl (hfinite.mp nofun n' m' e')
    | nan => rfl
    | infinite negative' => cases negative' <;> simp [spellFloating] at h
  | infinite negative =>
    cases v' with
    | finite n' m' e' => exact absurd rfl (hfinite.mp nofun n' m' e')
    | nan => cases negative <;> simp [spellFloating] at h
    | infinite negative' => cases negative <;> cases negative' <;> simp [spellFloating] at h ⊢

/-- Bit patterns that are spelled alike are the same, or both are no number. -/
theorem eq_or_nan_of_spellFloating {f : BinaryFormat} {cls suffix : String} {a b : Nat}
    (ha : a < 2 ^ f.width) (hb : b < 2 ^ f.width) (hsuffix : 'N' ∉ suffix.toList)
    (h : spellFloating f cls suffix (f.decode a) = spellFloating f cls suffix (f.decode b)) :
    a = b ∨ f.decode a = .nan ∧ f.decode b = .nan := by
  have hvalue : f.decode a = f.decode b :=
    spellFloating_injective hsuffix (fun _ _ _ => BinaryFormat.represents_of_decode)
      (fun _ _ _ => BinaryFormat.represents_of_decode) h
  by_cases hn : f.decode a = .nan
  · exact .inr ⟨hn, hvalue ▸ hn⟩
  · exact .inl (BinaryFormat.decode_injective ha hb hvalue hn)

theorem eq_of_spell_quoted (q q' : Quoted.Constant) (h : q.literal.spell = q'.literal.spell) :
    q = q' := by
  have hread : Quoted.readConstant .java q.literal.spell = some q :=
    Quoted.readConstant_literal .java q
  have hread' : Quoted.readConstant .java q'.literal.spell = some q' :=
    Quoted.readConstant_literal .java q'
  rw [h, hread'] at hread
  exact (Option.some.inj hread).symm

theorem alike_of_spell_eq {l l' : Literal} (hl : ∀ s, l ≠ .name s) (hl' : ∀ s, l' ≠ .name s)
    (h : l.spell = l'.spell) : l.Alike l' := by
  have hkind : l.kind = l'.kind := by
    rw [← kind_eq_spelledKind hl, ← kind_eq_spelledKind hl', h]
  cases l with
  | null => cases l' <;> first | rfl | cases hkind
  | bool b =>
    cases l' with
    | bool b' => cases b <;> cases b' <;> first | rfl | simp [spell] at h
    | _ => cases hkind
  | int v =>
    cases l' with
    | int v' =>
      have hv : v = v' := Int.repr_injective h
      rw [hv]
      rfl
    | _ => cases hkind
  | long v =>
    cases l' with
    | long v' =>
      have hv : v = v' := Int.repr_injective ((String.append_left_inj "L").mp h)
      rw [hv]
      rfl
    | _ => cases hkind
  | float a =>
    cases l' with
    | float b =>
      exact (eq_or_nan_of_spellFloating a.toNat_lt b.toNat_lt (by decide) h).imp_left
        UInt32.toNat_inj.mp
    | _ => cases hkind
  | double a =>
    cases l' with
    | double b =>
      exact (eq_or_nan_of_spellFloating a.toNat_lt b.toNat_lt (by decide) h).imp_left
        UInt64.toNat_inj.mp
    | _ => cases hkind
  | char c =>
    cases l' with
    | char c' =>
      have hc := eq_of_spell_quoted (.char c) (.char c') h
      cases hc
      rfl
    | _ => cases hkind
  | string s =>
    cases l' with
    | string s' =>
      have hs := eq_of_spell_quoted (.string s) (.string s') h
      cases hs
      rfl
    | _ => cases hkind
  | name s => exact absurd rfl (hl s)

theorem spell_eq_of_alike {l l' : Literal} (h : l.Alike l') : l.spell = l'.spell := by
  cases l with
  | float a =>
    cases l' with
    | float b =>
      rcases h with rfl | ⟨ha, hb⟩
      · rfl
      · rw [spell, spell, ha, hb]
    | _ => cases h
  | double a =>
    cases l' with
    | double b =>
      rcases h with rfl | ⟨ha, hb⟩
      · rfl
      · rw [spell, spell, ha, hb]
    | _ => cases h
  | _ => exact congrArg spell h

/-- The spelling of a constant determines its kind and its value, and its first
character tells whether it is negative. -/
theorem spelling_determines {l l' : Literal} (hl : ∀ s, l ≠ .name s) (hl' : ∀ s, l' ≠ .name s) :
    (l.spell = l'.spell ↔ l.Alike l') ∧ (l.spell = l'.spell → l.kind = l'.kind) ∧
      (l.isNegative = true ↔ l.spell.toList.head? = some '-') := by
  refine ⟨⟨alike_of_spell_eq hl hl', spell_eq_of_alike⟩, fun h => ?_, isNegative_iff_head? hl⟩
  rw [← kind_eq_spelledKind hl, ← kind_eq_spelledKind hl', h]

theorem spelling_determines_zeros :
    (double 0x8000000000000000).spell ≠ (double 0).spell ∧
      (double 0x8000000000000000).spell.toList.head? = some '-' := by
  obtain ⟨hvalue, -, hsign⟩ :=
    @spelling_determines (double 0x8000000000000000) (double 0) nofun nofun
  refine ⟨fun h => ?_, hsign.mp (by decide)⟩
  rcases hvalue.mp h with hbits | ⟨hnan, -⟩
  · exact absurd hbits (by decide)
  · exact absurd hnan (by decide)

end Literal

end Unparse
