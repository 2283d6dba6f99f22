import Mathlib.Tactic.Common
import Unparse.Layout.Render

/-! # Leaves of documents

A document read from left to right is a sequence of words, line breaks and
places where a line may break. Nesting and groups say where lines break, and
not what is written. A word that is a leaf is written in every layout.
-/

namespace Unparse.Layout

namespace Doc

/-- The words, line breaks and choices of a document, in order. -/
@[simp] def leaves : Doc → List Doc
  | empty => []
  | word s => [word s]
  | seq a b => a.leaves ++ b.leaves
  | nest _ d | group d => d.leaves
  | choice b f => [choice b f]
  | newline => [newline]

@[simp] theorem leaves_text (s : String) : (text s).leaves = if s = "" then [] else [word s] := by
  unfold text
  split <;> rfl

@[simp] theorem leaves_append (a b : Doc) : (a ++ b).leaves = a.leaves ++ b.leaves := by
  change (append a b).leaves = _
  cases a <;> cases b <;> simp [append]

@[simp] theorem leaves_indented (n : Int) (d : Doc) : (d.indented n).leaves = d.leaves := by
  by_cases h : n = 0 <;> cases d <;> simp [indented, h]

@[simp] theorem leaves_grouped (d : Doc) : d.grouped.leaves = d.leaves := by
  cases d <;> simp [grouped]

@[simp] theorem leaves_enclosed (opening closing : String) (d : Doc) :
    (d.enclosed opening closing).leaves = word opening :: d.leaves ++ [word closing] := by
  simp [enclosed]

@[simp] theorem leaves_parens (d : Doc) :
    d.parens.leaves = word "(" :: d.leaves ++ [word ")"] := by
  simp [parens]

@[simp] theorem leaves_brackets (d : Doc) :
    d.brackets.leaves = word "[" :: d.leaves ++ [word "]"] := by
  simp [brackets]

@[simp] theorem leaves_braces (d : Doc) :
    d.braces.leaves = word "\x7b" :: d.leaves ++ [word "\x7d"] := by
  simp [braces]

theorem leaves_foldl_separated (sep d : Doc) (ds : List Doc) :
    (ds.foldl (fun acc e => acc ++ sep ++ e) d).leaves =
      d.leaves ++ ds.flatMap fun e => sep.leaves ++ e.leaves := by
  induction ds generalizing d with
  | nil => simp
  | cons e ds ih => simp [ih]

@[simp] theorem leaves_separated_nil (sep : Doc) : (separated sep []).leaves = [] := rfl

@[simp] theorem leaves_separated_cons (sep d : Doc) (ds : List Doc) :
    (separated sep (d :: ds)).leaves =
      d.leaves ++ ds.flatMap fun e => sep.leaves ++ e.leaves :=
  leaves_foldl_separated sep d ds

@[simp] theorem leaves_concat (ds : List Doc) : (concat ds).leaves = ds.flatMap leaves := by
  simpa [concat] using leaves_foldl_separated empty empty ds

/-- Placing a document adds to the page, and writes every word that is a leaf. -/
theorem exists_pieces_place (width i : Nat) (flat : Bool) (rest : List Pending) (d : Doc)
    (p : Page) :
    ∃ pieces, (d.place width i flat rest p).pieces = pieces ++ p.pieces ∧
      ∀ s, word s ∈ d.leaves → Piece.text s ∈ pieces := by
  induction d generalizing i flat rest p with
  | empty => exact ⟨[], rfl, by simp⟩
  | word s => exact ⟨[.text s], rfl, by simp⟩
  | seq a b iha ihb =>
    obtain ⟨as, ha, hwa⟩ := iha i flat (⟨i, b⟩ :: rest) p
    obtain ⟨bs, hb, hwb⟩ := ihb i flat rest (a.place width i flat (⟨i, b⟩ :: rest) p)
    refine ⟨bs ++ as, by rw [place, hb, ha, List.append_assoc], fun s hs => ?_⟩
    rcases List.mem_append.mp hs with hs | hs
    · exact List.mem_append_right _ (hwa s hs)
    · exact List.mem_append_left _ (hwb s hs)
  | nest n d ih => exact ih (shift i n) flat rest p
  | group d ih => exact ih i _ rest p
  | choice b f ihb ihf =>
    rw [place]
    split
    · obtain ⟨pieces, hpieces, -⟩ := ihf i flat rest p
      exact ⟨pieces, hpieces, by simp⟩
    · obtain ⟨pieces, hpieces, -⟩ := ihb i flat rest p
      exact ⟨pieces, hpieces, by simp⟩
  | newline => exact ⟨[.newline _], rfl, by simp⟩

theorem text_mem_layout {d : Doc} {s : String} (h : word s ∈ d.leaves) (width : Nat) :
    Piece.text s ∈ d.layout width := by
  obtain ⟨pieces, hpieces, hwords⟩ := exists_pieces_place width 0 false [] d {}
  rw [layout, hpieces]
  simpa using hwords s h

end Doc

end Unparse.Layout
