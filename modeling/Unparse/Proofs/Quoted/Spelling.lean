import Unparse.Proofs.Quoted.Lexer
import Unparse.Proofs.Reading.Literal

/-! # Quoted text is read back

A character is spelled as itself, by a backslash and a letter, or by its code.
The lexer of either language reads each of these as the character, whatever
follows, so it reads a quoted text as the text that was quoted.
-/

namespace Unparse.Quoted

open Text (escapeChar escape isControl hexDigits)

def letters (mark : Char) : List (Char × Char) :=
  [('\\', '\\'), ('n', '\n'), ('r', '\r'), ('t', '\t'), ('b', '\x08'), (mark, mark)]

inductive Spells (mark c : Char) : List Char → Prop where
  | bare : c ≠ '\\' → c ≠ mark → isControl c = false → Spells mark c [c]
  | letter {d : Char} : (d, c) ∈ letters mark → Spells mark c ['\\', d]
  | code : isControl c = true → c ≠ '\n' → c ≠ '\r' →
      Spells mark c ('\\' :: 'u' :: hexDigits c.toNat)

theorem spells_escapeChar (mark c : Char) : Spells mark c (escapeChar mark c) := by
  unfold escapeChar
  split
  · next h => exact .letter (by simp [letters, h])
  split
  · next h => exact .letter (by simp [letters, h])
  split
  · next h => exact .letter (by simp [letters, h])
  split
  · next h => exact .letter (by simp [letters, h])
  split
  · next h => exact .letter (by simp [letters, h])
  split
  · next h => exact .letter (by simp [letters, h])
  · next hslash hn hr _ _ hmark =>
    split
    · next h => exact .code h hn hr
    · next h => exact .bare hslash hmark (by simpa using h)

/-! ## Codes -/

theorem toNat_lt_of_isControl {c : Char} (h : isControl c = true) : c.toNat < 0xA0 := by
  simp only [isControl, Bool.or_eq_true, Bool.and_eq_true, decide_eq_true_eq] at h
  omega

theorem hexDigits_of_isControl {c : Char} (h : isControl c = true) :
    ∃ high < 16, ∃ low < 16, 16 * high + low = c.toNat ∧
      hexDigits c.toNat =
        [Nat.digitChar 0, Nat.digitChar 0, Nat.digitChar high, Nat.digitChar low] := by
  have hall : ∀ n < 0xA0, hexDigits n =
      [Nat.digitChar 0, Nat.digitChar 0, Nat.digitChar (n / 16), Nat.digitChar (n % 16)] := by
    decide +kernel
  have hlt := toNat_lt_of_isControl h
  exact ⟨c.toNat / 16, by omega, c.toNat % 16, by omega, Nat.div_add_mod .., hall _ hlt⟩

theorem hexValue?_digitChar {d : Nat} (h : d < 16) : hexValue? d.digitChar = some d := by
  have hall : ∀ d < 16, hexValue? (Nat.digitChar d) = some d := by decide
  exact hall d h

theorem charOf?_toNat (c : Char) : charOf? c.toNat = some c := by
  rw [charOf?, if_pos (show c.toNat.isValidChar from c.valid), Char.ofNat_toNat]

theorem ne_of_isControl {c d : Char} (h : isControl c = true) (hd : isControl d = false) :
    c ≠ d := by
  rintro rfl
  rw [h] at hd
  cases hd

/-! ## Reading in front of more text -/

/-- A part of a quoted text stands for these characters, whatever follows it. -/
def Reads {S : Type} (step : S → Char → Option (Action S)) (start : S)
    (cs s : List Char) : Prop :=
  ∀ t, readTo step start (cs ++ t) = (readTo step start t).map fun (v, rest) => (s ++ v, rest)

section Reads

variable {S : Type} {step : S → Char → Option (Action S)} {start : S}

attribute [local simp] readTo

theorem Reads.nil : Reads step start [] [] := by
  intro t
  simp

theorem Reads.append {cs ds s t : List Char} (h : Reads step start cs s)
    (h' : Reads step start ds t) : Reads step start (cs ++ ds) (s ++ t) := by
  intro u
  rw [List.append_assoc, h, h', Option.map_map]
  congr; funext ⟨v, rest⟩
  simp

theorem Reads.flatMap {s : List Char} {f : Char → List Char}
    (h : ∀ c, Reads step start (f c) [c]) : Reads step start (s.flatMap f) s := by
  induction s with
  | nil => exact .nil
  | cons c s ih => exact (h c).append ih

theorem Reads.close {cs s : List Char} {mark : Char} (h : Reads step start cs s)
    (hmark : step start mark = some (.close [])) (rest : List Char) :
    readTo step start (cs ++ mark :: rest) = some (s, rest) := by
  rw [h]
  simp [hmark]

end Reads

/-! ## Java -/

namespace Java

attribute [local simp] translate step

/-- The first pass turns a part of the source into these characters. -/
def Translates (cs ds : List Char) : Prop :=
  ∀ t, translate .plain (cs ++ t) = (translate .plain t).map (ds ++ ·)

theorem Translates.nil : Translates [] [] := by
  intro t
  simp

theorem Translates.append {cs ds cs' ds' : List Char} (h : Translates cs ds)
    (h' : Translates cs' ds') : Translates (cs ++ cs') (ds ++ ds') := by
  intro t
  rw [List.append_assoc, h, h', Option.map_map]
  refine congrArg (Option.map · _) (funext fun u => ?_)
  exact (List.append_assoc ds ds' u).symm

theorem translates_bare {c : Char} (h : c ≠ '\\') : Translates [c] [c] := by
  intro t
  rw [List.singleton_append, translate, if_neg h]
  rfl

theorem translates_pair {c : Char} (h : c ≠ 'u') : Translates ['\\', c] ['\\', c] := by
  intro t
  simp only [List.cons_append, List.nil_append, translate, if_pos, if_neg h]
  rfl

theorem translate_digit {digits d : Nat} (hd : d < 16) (hdigits : digits < 3) (value : Nat)
    (t : List Char) :
    translate (.code digits value) (d.digitChar :: t) =
      translate (.code (digits + 1) (16 * value + d)) t := by
  have hu : ∀ d < 16, Nat.digitChar d ≠ 'u' := by decide
  simp [hu d hd, hexValue?_digitChar hd, hdigits]

theorem translates_code {c : Char} (h : isControl c = true) :
    Translates ('\\' :: 'u' :: hexDigits c.toNat) [c] := by
  obtain ⟨high, hhigh, low, hlow, hcode, hdigits⟩ := hexDigits_of_isControl h
  have hlast (t : List Char) : translate (.code 3 high) (low.digitChar :: t) =
      (translate .plain t).map (c :: ·) := by
    rw [translate, if_neg (by simp), hexValue?_digitChar hlow]
    simp only [Option.bind_eq_bind, Option.bind_some, hcode, Nat.lt_irrefl, if_false, charOf?_toNat]
    cases translate .plain t <;> rfl
  intro t
  calc translate .plain ('\\' :: 'u' :: hexDigits c.toNat ++ t)
    _ = translate (.code 0 0) (hexDigits c.toNat ++ t) := by simp
    _ = translate (.code 3 high) (low.digitChar :: t) := by
      simp only [hdigits, List.cons_append, List.nil_append]
      rw [translate_digit (by omega) (by omega), translate_digit (by omega) (by omega),
        translate_digit hhigh (by omega), Nat.mul_zero, Nat.add_zero, Nat.zero_add]
    _ = (translate .plain t).map (c :: ·) := hlast t

/-- A part of the source stands for these characters between quotes, after both
passes. -/
def Stands (mark : Char) (cs s : List Char) : Prop :=
  ∃ ds, Translates cs ds ∧ Reads (step mark) .plain ds s

theorem Stands.nil (mark : Char) : Stands mark [] [] := ⟨[], .nil, .nil⟩

theorem Stands.append {mark : Char} {cs cs' s s' : List Char} :
    Stands mark cs s → Stands mark cs' s' → Stands mark (cs ++ cs') (s ++ s')
  | ⟨_, ht, hr⟩, ⟨_, ht', hr'⟩ => ⟨_, ht.append ht', hr.append hr'⟩

theorem Stands.flatMap {mark : Char} {s : List Char} {f : Char → List Char}
    (h : ∀ c, Stands mark (f c) [c]) : Stands mark (s.flatMap f) s := by
  induction s with
  | nil => exact .nil mark
  | cons c s ih => exact (h c).append ih

theorem reads_bare {mark c : Char} (hslash : c ≠ '\\') (hmark : c ≠ mark) (hn : c ≠ '\n')
    (hr : c ≠ '\r') : Reads (step mark) .plain [c] [c] := by
  have hstep : step mark .plain c = some (.more .plain [c]) := by
    simp [plain, hslash, hmark, hn, hr]
  intro t
  rw [List.singleton_append, readTo, hstep]

theorem letters_spec {mark : Char} (hm : mark = '"' ∨ mark = '\'') :
    ∀ p ∈ letters mark, p.1 ≠ 'u' ∧ octalValue? p.1 = none ∧ letter? p.1 = some p.2 := by
  rcases hm with rfl | rfl <;> decide

theorem reads_letter {mark d c : Char} (hm : mark = '"' ∨ mark = '\'')
    (h : (d, c) ∈ letters mark) : Reads (step mark) .plain ['\\', d] [c] := by
  obtain ⟨-, hoctal, hletter⟩ := letters_spec hm _ h
  have hslash : step mark .plain '\\' = some (.more .escaped []) := by
    rcases hm with rfl | rfl <;> rfl
  have hstep : step mark .escaped d = some (.more .plain [c]) := by
    simp only [step, hoctal, hletter]
    rfl
  intro t
  simp only [List.cons_append, List.nil_append, readTo, hslash, hstep, Option.map_map]
  rfl

theorem stands_of_spells {mark c : Char} {cs : List Char} (hm : mark = '"' ∨ mark = '\'')
    (h : Spells mark c cs) : Stands mark cs [c] := by
  have hcontrol : isControl mark = false ∧ isControl '\\' = false := by
    rcases hm with rfl | rfl <;> decide
  cases h with
  | bare hslash hmark hc =>
    have hn : c ≠ '\n' := (ne_of_isControl (by decide) hc).symm
    have hr : c ≠ '\r' := (ne_of_isControl (by decide) hc).symm
    exact ⟨_, translates_bare hslash, reads_bare hslash hmark hn hr⟩
  | letter h => exact ⟨_, translates_pair (letters_spec hm _ h).1, reads_letter hm h⟩
  | code h hn hr =>
    have hslash : c ≠ '\\' := ne_of_isControl h hcontrol.2
    have hmark : c ≠ mark := ne_of_isControl h hcontrol.1
    exact ⟨_, translates_code h, reads_bare hslash hmark hn hr⟩

end Java

/-! ## Kotlin -/

namespace Kotlin

attribute [local simp] step

theorem reads_bare {mark c : Char} (hslash : c ≠ '\\') (hmark : c ≠ mark) (hn : c ≠ '\n')
    (hr : c ≠ '\r') (hdollar : ¬ (c = '$' ∧ mark = '"')) :
    Reads (step mark) .plain [c] [c] := by
  have hstep : step mark .plain c = some (.more .plain [c]) := by
    simp [hslash, hmark, hn, hr, hdollar]
  intro t
  rw [List.singleton_append, readTo, hstep]

theorem step_backslash {mark : Char} (hm : mark = '"' ∨ mark = '\'') :
    step mark .plain '\\' = some (.more .escaped []) := by
  rcases hm with rfl | rfl <;> rfl

theorem reads_escape {mark d c : Char} (hm : mark = '"' ∨ mark = '\'') (hu : d ≠ 'u')
    (hletter : letter? d = some c) : Reads (step mark) .plain ['\\', d] [c] := by
  have hstep : step mark .escaped d = some (.more .plain [c]) := by
    rw [step, if_neg hu, hletter]
    rfl
  intro t
  simp only [List.cons_append, List.nil_append, readTo, step_backslash hm, hstep, Option.map_map]
  rfl

theorem letters_spec {mark : Char} (hm : mark = '"' ∨ mark = '\'') :
    ∀ p ∈ letters mark, p.1 ≠ 'u' ∧ letter? p.1 = some p.2 := by
  rcases hm with rfl | rfl <;> decide

theorem reads_code {mark c : Char} (hm : mark = '"' ∨ mark = '\'') (h : isControl c = true) :
    Reads (step mark) .plain ('\\' :: 'u' :: hexDigits c.toNat) [c] := by
  obtain ⟨high, hhigh, low, hlow, hcode, hdigits⟩ := hexDigits_of_isControl h
  have hstart : step mark .escaped 'u' = some (.more (.code 0 0) []) := rfl
  have hdigit {digits value d : Nat} (hd : d < 16) (h : digits < 3) :
      step mark (.code digits value) d.digitChar =
        some (.more (.code (digits + 1) (16 * value + d)) []) := by
    simp [hexValue?_digitChar hd, h]
  have hlast : step mark (.code 3 high) low.digitChar = some (.more .plain [c]) := by
    simp [hexValue?_digitChar hlow, hcode, charOf?_toNat]
  intro t
  rw [hdigits]
  simp [-step, readTo, step_backslash hm, hstart, hdigit, hhigh, hlast, Function.comp_def]

theorem reads_of_spells {mark c : Char} {cs : List Char} (hm : mark = '"' ∨ mark = '\'')
    (h : Spells mark c cs) (hdollar : ¬ (c = '$' ∧ mark = '"')) :
    Reads (step mark) .plain cs [c] := by
  cases h with
  | bare hslash hmark hc =>
    have hn : c ≠ '\n' := (ne_of_isControl (by decide) hc).symm
    have hr : c ≠ '\r' := (ne_of_isControl (by decide) hc).symm
    exact reads_bare hslash hmark hn hr hdollar
  | letter h =>
    obtain ⟨hu, hletter⟩ := letters_spec hm _ h
    exact reads_escape hm hu hletter
  | code h => exact reads_code hm h

end Kotlin

end Unparse.Quoted
