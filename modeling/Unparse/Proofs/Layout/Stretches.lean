import Unparse.Proofs.Layout.Due

/-! # Stretches between line breaks

The line breaks of a document split it into stretches. If the document leaves
open only where lines may break, and writes something after each of its line
breaks, then a text of any width has a line break wherever the document has one,
and between two of them the same characters but for blanks.
-/

namespace Unparse.Text

variable {s t : List Char}

/-- The characters that are no blanks. -/
def ink (s : List Char) : List Char := s.filter fun c => !isBlank c

@[simp] theorem ink_nil : ink [] = [] := rfl

@[simp] theorem ink_append (s t : List Char) : ink (s ++ t) = ink s ++ ink t := List.filter_append ..

@[simp] theorem ink_break_cons (s : List Char) : ink ('\n' :: s) = ink s := rfl

@[simp] theorem ink_replicate (n : Nat) : ink (List.replicate n ' ') = [] := by
  have hblank : isBlank ' ' = true := by decide
  simp [ink, hblank]

theorem ink_trimEnd (s : List Char) : ink (trimEnd s) = ink s := by
  have hdrop (t : List Char) : ink (t.dropWhile isBlank) = ink t := by
    induction t with
    | nil => rfl
    | cons c t ih => cases h : isBlank c <;> simp_all [ink]
  rw [trimEnd, ink, List.filter_reverse]
  change (ink _).reverse = _
  rw [hdrop, ink, List.filter_reverse, List.reverse_reverse]
  rfl

theorem flatMap_ink_lines (s : List Char) : (lines s).flatMap ink = ink s := by
  induction s with
  | nil => rfl
  | cons c s ih =>
    have hcons (t : List Char) : ink (c :: t) = ink [c] ++ ink t := ink_append [c] t
    rw [lines_cons, hcons, ← ih]
    unfold consLine
    split
    · next hc => simp [hc]
    · cases lines s with
      | nil => simp
      | cons l ls => simp [hcons l]

theorem ink_intercalate (ls : List (List Char)) : ink (['\n'].intercalate ls) = ls.flatMap ink := by
  induction ls with
  | nil => rfl
  | cons l ls ih =>
    cases ls with
    | nil => simp
    | cons m ls =>
      rw [List.intercalate_cons_cons, ink_append, ink_append, ih]
      simp

theorem intercalate_append {sep : List Char} {ls ms : List (List Char)} (hl : ls ≠ [])
    (hm : ms ≠ []) :
    sep.intercalate (ls ++ ms) = sep.intercalate ls ++ sep ++ sep.intercalate ms := by
  induction ls with
  | nil => exact absurd rfl hl
  | cons l ls ih =>
    by_cases hnil : ls = []
    · simp [hnil, List.intercalate_cons_of_ne_nil hm]
    · rw [List.cons_append, List.intercalate_cons_of_ne_nil (by simp [hnil]), ih hnil,
        List.intercalate_cons_of_ne_nil hnil]
      simp

def tidied (s : List Char) : List Char := ['\n'].intercalate ((lines s).map trimEnd)

theorem toList_tidy (s : String) : (tidy s).toList = tidied s.toList := by
  rw [tidy, tidied, String.toList_intercalate, List.map_map]
  congr 1
  exact List.map_congr_left fun l _ => by simp

theorem ink_tidied (s : List Char) : ink (tidied s) = ink s := by
  rw [tidied, ink_intercalate, List.flatMap_map]
  simp only [ink_trimEnd]
  exact flatMap_ink_lines s

/-- A line break with anything after it stays. -/
theorem tidied_append_break (s : List Char) (ht : t ≠ []) :
    tidied (s ++ '\n' :: t) = tidied (s ++ ['\n']) ++ ['\n'] ++ tidied t := by
  have hlines {t : List Char} (ht : t ≠ []) : (lines t).map trimEnd ≠ [] := by
    obtain ⟨c, t, rfl⟩ := List.exists_cons_of_ne_nil ht
    simpa using consLine_ne_nil c (lines t)
  rw [tidied, lines_append_break, List.map_append]
  exact intercalate_append (hlines (by simp)) (hlines ht)

theorem modifyHead_nil_append (ls : List (List Char)) : ls.modifyHead ([] ++ ·) = ls := by
  cases ls <;> rfl

end Unparse.Text

namespace Unparse.Layout

open Text (ink tidied)

namespace Doc

def Inked (leaves : List Doc) : Prop := ∃ s, word s ∈ leaves ∧ ink s.toList ≠ []

/-- Something is written after every line break. -/
def Closed : List Doc → Prop
  | [] => True
  | leaf :: leaves => (leaf = newline → Inked leaves) ∧ Closed leaves

def leafInk : Doc → List Char
  | word s => ink s.toList
  | _ => []

/-- The parts of a document between its line breaks. -/
def stretches (d : Doc) : List (List Doc) := d.leaves.splitOn newline

def stretchInks (d : Doc) : List (List Char) := d.stretches.map fun leaves => leaves.flatMap leafInk

end Doc

open Doc (IsLeaf Inked Closed leafInk)

def Piece.chars (pieces : List Piece) : List Char := pieces.flatMap fun piece => piece.spell.toList

@[simp] theorem Piece.chars_nil : chars [] = [] := rfl

@[simp] theorem Piece.chars_cons (piece : Piece) (pieces : List Piece) :
    chars (piece :: pieces) = piece.spell.toList ++ chars pieces := rfl

theorem Piece.chars_ne_nil {pieces : List Piece} {leaves : List Doc}
    (h : List.Forall₂ Piece.Writes pieces leaves) (hink : Inked leaves) : chars pieces ≠ [] := by
  obtain ⟨s, hs, hne⟩ := hink
  induction h with
  | nil => cases hs
  | cons hpiece _ ih =>
    rcases List.mem_cons.mp hs with rfl | hs
    · cases hpiece
      intro hnil
      have hspell : s.toList = [] := (List.append_eq_nil_iff.mp hnil).1
      exact hne (by simp [hspell])
    · intro hnil
      exact ih hs (List.append_eq_nil_iff.mp hnil).2

/-- A text that is made of parts between line breaks, with a given ink in each part. -/
def BrokenInto (t : List Char) (inks : List (List Char)) : Prop :=
  ∃ parts : List (List Char), t = ['\n'].intercalate parts ∧ parts.map ink = inks

theorem BrokenInto.ink_eq {t : List Char} {inks : List (List Char)} (h : BrokenInto t inks) :
    ink t = inks.flatten := by
  obtain ⟨parts, rfl, rfl⟩ := h
  rw [Text.ink_intercalate, List.flatMap_def]

theorem BrokenInto.break {s t : List Char} {inks : List (List Char)} (h : BrokenInto t inks)
    (hinks : inks ≠ []) : BrokenInto (s ++ ['\n'] ++ t) (ink s :: inks) := by
  obtain ⟨parts, rfl, rfl⟩ := h
  refine ⟨s :: parts, ?_, rfl⟩
  rw [List.intercalate_cons_of_ne_nil fun hnil => hinks (by simp [hnil])]

/-- The text of leaves breaks where they do. What has been written of the first stretch stands
in front of it. -/
theorem brokenInto_tidied {pieces : List Piece} {leaves : List Doc}
    (h : List.Forall₂ Piece.Writes pieces leaves) (hclosed : Closed leaves) (written : List Char) :
    BrokenInto (tidied (written ++ Piece.chars pieces))
      (((leaves.splitOn .newline).map fun ls => ls.flatMap leafInk).modifyHead (ink written ++ ·)) := by
  induction h generalizing written with
  | nil =>
    refine ⟨[tidied written], by simp, ?_⟩
    simp [Text.ink_tidied]
  | @cons piece leaf pieces leaves hpiece hpieces ih =>
    obtain ⟨hbreak, hclosed⟩ := hclosed
    have hinside (hleaf : leaf ≠ .newline) (hink : ink piece.spell.toList = leafInk leaf) :
        BrokenInto (tidied (written ++ Piece.chars (piece :: pieces)))
          ((((leaf :: leaves).splitOn .newline).map fun ls => ls.flatMap leafInk).modifyHead
            (ink written ++ ·)) := by
      have hrest := ih hclosed (written ++ piece.spell.toList)
      rw [Piece.chars_cons, ← List.append_assoc]
      convert hrest using 1
      rw [List.splitOn_cons_eq_if_modifyHead, if_neg (by simpa using hleaf)]
      cases leaves.splitOn .newline with
      | nil => rfl
      | cons first rest => simp [hink]
    cases hpiece with
    | text s => exact hinside nofun rfl
    | blank => exact hinside nofun (by decide)
    | broken indent => exact hinside nofun (by simp [Piece.spell, leafInk, Doc.line])
    | newline indent =>
      have hne : List.replicate indent ' ' ++ Piece.chars pieces ≠ [] := fun hnil =>
        Piece.chars_ne_nil hpieces (hbreak rfl) (List.append_eq_nil_iff.mp hnil).2
      have hrest := ih hclosed (List.replicate indent ' ')
      rw [Text.ink_replicate, Text.modifyHead_nil_append] at hrest
      have hall := hrest.break (s := tidied (written ++ ['\n'])) (by simp)
      rw [Text.ink_tidied, Text.ink_append, Text.ink_break_cons, Text.ink_nil, List.append_nil,
        ← Text.tidied_append_break written hne] at hall
      simpa [Piece.spell, List.splitOn_cons_eq_if_modifyHead] using hall

/-- A simple document that writes something after each of its line breaks. -/
structure Doc.Tame (d : Doc) : Prop where
  simple : d.Simple
  closed : Closed d.leaves

/-- The text breaks where the document does, whatever the width. -/
theorem Doc.Tame.render {d : Doc} (h : d.Tame) (width : Nat) :
    BrokenInto (d.render width).toList d.stretchInks := by
  obtain ⟨pieces, hpieces, hwrites⟩ := h.simple.place width 0 false [] {}
  have hlayout : d.layout width = pieces := by
    rw [layout, hpieces]
    simp
  have hbroken := brokenInto_tidied hwrites h.closed []
  rw [Text.ink_nil, Text.modifyHead_nil_append, List.nil_append] at hbroken
  rw [Doc.render, Text.toList_tidy, String.toList_join, hlayout, List.flatMap_map]
  exact hbroken

end Unparse.Layout
