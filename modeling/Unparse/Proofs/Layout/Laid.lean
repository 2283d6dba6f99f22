import Unparse.Proofs.Layout.Stretches
import Unparse.Proofs.Layout.Words
import Unparse.Proofs.Reading.Line

/-! # Texts of a document

The texts that a document may be laid out as: every place where a line may break
is broken or flat, and a line may be indented in any way. Tidying leaves a text
as it is if no blank stands in front of its line breaks and at its end.
-/

namespace Unparse.Text

variable {s t : List Char}

theorem tidied_break_cons (ht : t ≠ []) : tidied ('\n' :: t) = '\n' :: tidied t :=
  tidied_append_break [] ht

/-- A text that tidying copies, whatever follows it. Blanks may stand in front of
it. -/
def Kept (s : List Char) : Prop :=
  ∀ n rest, tidied (List.replicate n ' ' ++ s ++ rest) =
    List.replicate n ' ' ++ s ++ tidied rest

theorem kept_of_line {c : Char} (hn : '\n' ∉ s) (hl : s.getLast? = some c)
    (hc : isBlank c = false) : Kept s := by
  intro n rest
  obtain ⟨init, rfl⟩ := List.getLast?_eq_some_iff.mp hl
  have hline : '\n' ∉ List.replicate n ' ' ++ (init ++ [c]) := by
    simp_all [List.mem_replicate]
  have htrim : trimEnd (List.replicate n ' ' ++ (init ++ [c]) ++ (lines rest).headD []) =
      List.replicate n ' ' ++ (init ++ [c]) ++ trimEnd ((lines rest).headD []) := by
    simpa using trimEnd_append hc (List.replicate n ' ' ++ init) ((lines rest).headD [])
  rw [tidied, lines_word_append (by simp) hline, List.map_cons, htrim, tidied]
  cases lines rest with
  | nil => simp [trimEnd]
  | cons l ls => cases ls <;> simp [List.intercalate_cons_cons]

namespace Kept

theorem append (hs : Kept s) (ht : Kept t) : Kept (s ++ t) := by
  intro n rest
  have ht' : tidied (t ++ rest) = t ++ tidied rest := ht 0 rest
  rw [← List.append_assoc, List.append_assoc _ t, hs, ht']
  simp only [List.append_assoc]

theorem append_break (hs : Kept s) (ht : Kept t) (hnil : t ≠ []) (n : Nat) :
    Kept (s ++ '\n' :: List.replicate n ' ' ++ t) := by
  intro m rest
  have ht' : tidied (List.replicate n ' ' ++ (t ++ rest)) =
      List.replicate n ' ' ++ (t ++ tidied rest) := by simpa using ht n rest
  have hs' := hs m ('\n' :: (List.replicate n ' ' ++ (t ++ rest)))
  rw [tidied_break_cons (by simp [hnil]), ht'] at hs'
  simpa using hs'

theorem tidied_eq (h : Kept s) : tidied s = s := by simpa [tidied] using h 0 []

end Kept

end Unparse.Text

namespace Unparse.Layout

open Text (tidied)

namespace Doc

/-- The texts that a document may be laid out as. -/
def Lays : Doc → List Char → Prop
  | empty, cs => cs = []
  | word s, cs => cs = s.toList
  | seq a b, cs => ∃ x y, a.Lays x ∧ b.Lays y ∧ cs = x ++ y
  | nest _ d, cs | group d, cs => d.Lays cs
  | choice b f, cs => b.Lays cs ∨ f.Lays cs
  | newline, cs => ∃ n, cs = '\n' :: List.replicate n ' '

variable {a b d : Doc} {cs : List Char}

attribute [local simp] Lays

theorem lays_text {s : String} : (text s).Lays cs ↔ cs = s.toList := by
  unfold text
  split
  · next h => simp [h]
  · rfl

theorem lays_append : (a ++ b).Lays cs ↔ ∃ x y, a.Lays x ∧ b.Lays y ∧ cs = x ++ y := by
  change (append a b).Lays cs ↔ _
  fun_cases append a b <;> simp

theorem lays_indented {n : Int} : (d.indented n).Lays cs ↔ d.Lays cs := by
  fun_cases indented n d <;> simp

theorem lays_grouped : d.grouped.Lays cs ↔ d.Lays cs := by
  fun_cases grouped d <;> simp

theorem lays_line : line.Lays cs ↔ (∃ n, cs = '\n' :: List.replicate n ' ') ∨ cs = [' '] := Iff.rfl

theorem lays_parens : d.parens.Lays cs ↔ ∃ x, d.Lays x ∧ cs = '(' :: x ++ [')'] := by
  simp only [parens, enclosed, lays_append, Lays]
  constructor
  · rintro ⟨_, _, ⟨_, x, rfl, hx, rfl⟩, rfl, rfl⟩
    exact ⟨x, hx, rfl⟩
  · rintro ⟨x, hx, rfl⟩
    exact ⟨_, _, ⟨_, x, rfl, hx, rfl⟩, rfl, rfl⟩

theorem lays_place (width i : Nat) (flat : Bool) (rest : List Pending) (d : Doc) (p : Page) :
    ∃ cs, d.Lays cs ∧ (d.place width i flat rest p).text = p.text ++ cs := by
  induction d generalizing i flat rest p with
  | empty => exact ⟨[], rfl, by simp [place]⟩
  | word s => exact ⟨_, rfl, by simp [place, Page.write, Page.text, Piece.spell]⟩
  | seq a b iha ihb =>
    obtain ⟨x, hx, hpx⟩ := iha i flat (⟨i, b⟩ :: rest) p
    obtain ⟨y, hy, hpy⟩ := ihb i flat rest (a.place width i flat (⟨i, b⟩ :: rest) p)
    exact ⟨x ++ y, ⟨x, y, hx, hy, rfl⟩, by rw [place, hpy, hpx, List.append_assoc]⟩
  | nest n d ih => exact ih (shift i n) flat rest p
  | group d ih => exact ih i _ rest p
  | choice b f ihb ihf =>
    rw [place]
    split
    · obtain ⟨cs, hcs, hp⟩ := ihf i flat rest p
      exact ⟨cs, .inr hcs, hp⟩
    · obtain ⟨cs, hcs, hp⟩ := ihb i flat rest p
      exact ⟨cs, .inl hcs, hp⟩
  | newline => exact ⟨_, ⟨_, rfl⟩, by simp [place, Page.breakLine, Page.text, Piece.spell]; rfl⟩

/-- The finished text is one of the texts of the document, tidied. -/
theorem exists_lays_render (d : Doc) (width : Nat) :
    ∃ cs, d.Lays cs ∧ (d.render width).toList = tidied cs := by
  obtain ⟨cs, hcs, hplace⟩ := lays_place width 0 false [] d {}
  have hjoin : (String.join ((d.layout width).map Piece.spell)).toList = cs := by
    rw [String.toList_join, List.flatMap_map]
    exact hplace
  exact ⟨cs, hcs, by rw [render, Text.toList_tidy, hjoin]⟩

end Doc

end Unparse.Layout
