import Mathlib.Data.List.Forall2
import Mathlib.Tactic.Common
import Unparse.Proofs.Layout.Leaves

/-! # Leaves and their indentations

A line break is indented as the part that follows it, which may be a document
behind the one that the break belongs to. So each leaf of a document has an
indentation that a line break there gets, whatever the width of the page is.
A simple document is written leaf by leaf.
-/

namespace Unparse.Layout

namespace Doc

inductive IsLeaf : Doc → Prop where
  | word (s : String) : IsLeaf (word s)
  | line : IsLeaf line
  | newline : IsLeaf newline

/-- Nothing is open about a document but where its lines break. -/
def Simple (d : Doc) : Prop := ∀ leaf ∈ d.leaves, leaf.IsLeaf

theorem simple_seq {a b : Doc} : (seq a b).Simple ↔ a.Simple ∧ b.Simple := by
  simp [Simple, or_imp, forall_and]

/-- The leaves of a document, each with the indentation of a line break there,
from the indentation of the document and that of what follows it, if anything
does. -/
@[simp] def due (i : Nat) (next : Option Nat) : Doc → List (Doc × Nat)
  | empty => []
  | word s => [(word s, next.getD i)]
  | seq a b => a.due i (some i) ++ b.due i next
  | nest n d => d.due (shift i n) next
  | group d => d.due i next
  | choice b f => [(choice b f, next.getD i)]
  | newline => [(newline, next.getD i)]

end Doc

open Doc (word newline line)

/-- What a leaf may be written as. -/
inductive Piece.Writes : Piece → Doc → Prop where
  | text (s : String) : Writes (.text s) (.word s)
  | newline (indent : Nat) : Writes (.newline indent) .newline
  | blank : Writes (.text " ") .line
  | broken (indent : Nat) : Writes (.newline indent) .line

/-- What a leaf may be written as with the indentation that it is due. -/
inductive Piece.WritesAt : Piece → Doc × Nat → Prop where
  | text (s : String) (n : Nat) : WritesAt (.text s) (.word s, n)
  | newline (n : Nat) : WritesAt (.newline n) (.newline, n)
  | blank (n : Nat) : WritesAt (.text " ") (.line, n)
  | broken (n : Nat) : WritesAt (.newline n) (.line, n)

def nextIndent (rest : List Pending) : Option Nat := rest.head?.map Pending.indent

theorem shift_le (i : Nat) (n : Int) : shift i n ≤ deepest := Nat.min_le_right _ _

theorem shift_zero {i : Nat} (h : i ≤ deepest) : shift i 0 = i := by simp [shift, h]

theorem Piece.WritesAt.writes {piece : Piece} {leaf : Doc × Nat} (h : piece.WritesAt leaf) :
    piece.Writes leaf.1 := by
  cases h with
  | text s n => exact .text s
  | newline n => exact .newline n
  | blank n => exact .blank
  | broken n => exact .broken n

theorem Piece.forall₂_writes {pieces : List Piece} {ls : List (Doc × Nat)}
    (h : List.Forall₂ Piece.WritesAt pieces ls) :
    List.Forall₂ Piece.Writes pieces (ls.map Prod.fst) :=
  List.forall₂_map_right_iff.2 (h.imp fun _ _ => Piece.WritesAt.writes)

namespace Doc

variable {d : Doc}

theorem map_fst_due (i : Nat) (next : Option Nat) (d : Doc) :
    (d.due i next).map Prod.fst = d.leaves := by
  induction d generalizing i next with
  | seq a b iha ihb => simp [iha, ihb]
  | nest n d ih => exact ih _ _
  | group d ih => exact ih _ _
  | _ => rfl

/-- A simple document is written leaf by leaf, each line break with its indentation. -/
theorem Simple.place_due (h : d.Simple) (width i : Nat) (flat : Bool) (rest : List Pending)
    (p : Page) : ∃ pieces, (d.place width i flat rest p).pieces = pieces.reverse ++ p.pieces ∧
      List.Forall₂ Piece.WritesAt pieces (d.due i (nextIndent rest)) := by
  induction d generalizing i flat rest p with
  | empty => exact ⟨[], rfl, .nil⟩
  | word s => exact ⟨[.text s], rfl, .cons (.text s _) .nil⟩
  | seq a b iha ihb =>
    obtain ⟨ha, hb⟩ := simple_seq.1 h
    obtain ⟨as, has, hwa⟩ := iha ha i flat (⟨i, b⟩ :: rest) p
    obtain ⟨bs, hbs, hwb⟩ := ihb hb i flat rest (a.place width i flat (⟨i, b⟩ :: rest) p)
    refine ⟨as ++ bs, ?_, List.rel_append hwa hwb⟩
    rw [Doc.place, hbs, has, List.reverse_append, List.append_assoc]
  | nest n d ih => exact ih h (shift i n) flat rest p
  | group d ih => exact ih h i _ rest p
  | choice b f =>
    have hleaf : IsLeaf (.choice b f) := h _ (List.mem_singleton_self _)
    cases hleaf
    cases flat with
    | true => exact ⟨[.text " "], rfl, .cons (.blank _) .nil⟩
    | false => exact ⟨[.newline _], rfl, .cons (.broken _) .nil⟩
  | newline => exact ⟨[.newline _], rfl, .cons (.newline _) .nil⟩

theorem Simple.place (h : d.Simple) (width i : Nat) (flat : Bool) (rest : List Pending)
    (p : Page) : ∃ pieces, (d.place width i flat rest p).pieces = pieces.reverse ++ p.pieces ∧
      List.Forall₂ Piece.Writes pieces d.leaves := by
  obtain ⟨pieces, hpieces, hwrites⟩ := h.place_due width i flat rest p
  have hleaves := Piece.forall₂_writes hwrites
  rw [map_fst_due] at hleaves
  exact ⟨pieces, hpieces, hleaves⟩

end Doc

end Unparse.Layout
