import Unparse.Proofs.Layout.Indents
import Unparse.Proofs.Layout.Laid

/-! # Lines of a document

A line break of a document is written with the indentation that it is due, so the line
behind it starts with that many blanks in every layout. They are all blanks at the start
of the line in the finished text, if something visible follows.
-/

namespace Unparse.Layout

open Doc (word newline)

/-- The first of some leaves is a word that starts with a visible character. -/
def Visible (leaves : List Doc) : Prop :=
  ∃ w c cs ls, leaves = word w :: ls ∧ w.toList = c :: cs ∧ Text.isBlank c = false

/-- Whatever the width, a line starts with `n` blanks and with what certain leaves are
written as. In front of its line break stands what others are written as. -/
def Doc.OnLine (d : Doc) (above own : List Doc) (n : Nat) : Prop :=
  ∀ width, ∃ ps qs rs : List Piece, d.layout width = ps ++ .newline n :: (qs ++ rs) ∧
    List.Forall₂ Piece.Writes ps above ∧ List.Forall₂ Piece.Writes qs own ∧
    ∃ c rest, (Piece.chars qs).head? = some c ∧ Text.isBlank c = false ∧
      (d.render width).toList = Text.tidied (Piece.chars ps ++ ['\n']) ++
        '\n' :: (List.replicate n ' ' ++ c :: rest)

theorem Piece.chars_append (ps qs : List Piece) : chars (ps ++ qs) = chars ps ++ chars qs :=
  List.flatMap_append

/-- What stands in a document has a stretch of its leaves, each with the indentation that
it has there. -/
theorem Doc.Stands.exists_due {x d : Doc} {i j : Nat} (h : x.Stands j i d) (next : Option Nat) :
    ∃ as bs next', d.due i next = as ++ x.due j next' ++ bs := by
  obtain ⟨above, below, h⟩ := h
  induction h generalizing next with
  | here => exact ⟨[], [], next, by simp⟩
  | @left _ _ i a b _ ih =>
    obtain ⟨as, bs, next', heq⟩ := ih (some i)
    exact ⟨as, bs ++ b.due i next, next', by simp [heq]⟩
  | @right _ _ i a b _ ih =>
    obtain ⟨as, bs, next', heq⟩ := ih next
    exact ⟨a.due i (some i) ++ as, bs, next', by simp [heq]⟩
  | nest _ ih => exact ih next
  | group _ ih => exact ih next

theorem exists_forall₂_append {α β : Type} {R : α → β → Prop} {as : List α} {bs cs : List β}
    (h : List.Forall₂ R as (bs ++ cs)) :
    ∃ us vs, as = us ++ vs ∧ List.Forall₂ R us bs ∧ List.Forall₂ R vs cs :=
  ⟨_, _, (List.take_append_drop bs.length as).symm, List.forall₂_take_append as bs cs h,
    List.forall₂_drop_append as bs cs h⟩

theorem visible_text {w : String} {c : Char} {cs : List Char} (hw : w.toList = c :: cs)
    (hc : Text.isBlank c = false) : Visible (Doc.text w).leaves := by
  have hne : w ≠ "" := by
    rintro rfl
    cases hw
  exact ⟨w, c, cs, [], by simp [hne], hw, hc⟩

theorem Visible.exists_chars {leaves : List Doc} (h : Visible leaves) {pieces : List Piece}
    (hwrites : List.Forall₂ Piece.Writes pieces leaves) :
    ∃ c cs, Piece.chars pieces = c :: cs ∧ Text.isBlank c = false := by
  obtain ⟨w, c, cs, leaves, rfl, hw, hc⟩ := h
  obtain ⟨piece, rest, hpiece, -, rfl⟩ := List.forall₂_cons_right_iff.1 hwrites
  cases hpiece
  exact ⟨c, cs ++ Piece.chars rest, by simp [Piece.spell, hw], hc⟩

/-- A line break is written with its indentation, and with it the line starts. -/
theorem Doc.Simple.onLine {d : Doc} (hd : d.Simple) {as own bs : List (Doc × Nat)} {n : Nat}
    (h : d.due 0 none = as ++ (newline, n) :: (own ++ bs)) (hown : Visible (own.map Prod.fst)) :
    d.OnLine (as.map Prod.fst) (own.map Prod.fst) n := by
  intro width
  obtain ⟨pieces, hpieces, hwrites⟩ := hd.place_due width 0 false [] {}
  have hlayout : d.layout width = pieces := by
    rw [layout, hpieces]
    simp
  rw [show nextIndent [] = none from rfl, h] at hwrites
  obtain ⟨ps, _, rfl, hps, hlines⟩ := exists_forall₂_append hwrites
  obtain ⟨_, below, ⟨⟩, hbelow, rfl⟩ := List.forall₂_cons_right_iff.1 hlines
  obtain ⟨qs, rs, rfl, hqs, -⟩ := exists_forall₂_append hbelow
  obtain ⟨c, cs, hchars, hc⟩ := hown.exists_chars (Piece.forall₂_writes hqs)
  refine ⟨ps, qs, rs, hlayout, Piece.forall₂_writes hps, Piece.forall₂_writes hqs, c,
    Text.tidied (cs ++ Piece.chars rs), by simp [hchars], hc, ?_⟩
  have hline : '\n' ∉ [c] := by
    rintro hbreak
    rw [← List.mem_singleton.1 hbreak] at hc
    exact absurd hc (by decide)
  have hkept := Text.kept_of_line hline rfl hc n (cs ++ Piece.chars rs)
  have htext : (d.render width).toList = Text.tidied (Piece.chars ps ++
      '\n' :: (List.replicate n ' ' ++ [c] ++ (cs ++ Piece.chars rs))) := by
    rw [Doc.render, Text.toList_tidy, String.toList_join, hlayout, List.flatMap_map]
    congr 1
    change Piece.chars _ = _
    simp [Piece.chars_append, Piece.spell, hchars]
  rw [htext, Text.tidied_append_break _ (by simp), hkept]
  simp

end Unparse.Layout
