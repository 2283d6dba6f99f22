import Mathlib.Tactic.Common
import Unparse.Proofs.Layout.Stretches
import Unparse.Proofs.Reading.Line

/-! # Documents inside others

Inside a document stand others, each at an indentation of its own. A document
that has a line break in every layout is never made flat, wherever it stands.
-/

namespace Unparse.Layout

namespace Doc

/-- A document stands at the indentation `j` in one that stands at `i`, behind the leaves
`above` and in front of the leaves `below`. -/
inductive StandsBetween (x : Doc) (j : Nat) :
    (above below : List Doc) → (i : Nat) → (d : Doc) → Prop where
  | here : StandsBetween x j [] [] j x
  | left {above below : List Doc} {i : Nat} {a b : Doc} (h : StandsBetween x j above below i a) :
      StandsBetween x j above (below ++ b.leaves) i (seq a b)
  | right {above below : List Doc} {i : Nat} {a b : Doc} (h : StandsBetween x j above below i b) :
      StandsBetween x j (a.leaves ++ above) below i (seq a b)
  | nest {above below : List Doc} {i : Nat} {n : Int} {d : Doc}
      (h : StandsBetween x j above below (shift i n) d) : StandsBetween x j above below i (nest n d)
  | group {above below : List Doc} {i : Nat} {d : Doc} (h : StandsBetween x j above below i d) :
      StandsBetween x j above below i (group d)

def Stands (x : Doc) (j i : Nat) (d : Doc) : Prop :=
  ∃ above below, x.StandsBetween j above below i d

/-- No part of a document may be made flat by itself. -/
@[simp] def Groupless : Doc → Prop
  | empty | word _ | choice _ _ | newline => True
  | seq a b => a.Groupless ∧ b.Groupless
  | nest _ d => d.Groupless
  | group _ => False

end Doc

def Piece.advance (column : Nat) : Piece → Nat
  | text s => column + Text.displayWidth s
  | newline n => n

def columnAfter (pieces : List Piece) : Nat := pieces.foldl Piece.advance 0

/-- The column of a page is that of its pieces. -/
def Page.Sound (p : Page) : Prop := p.column = columnAfter p.pieces.reverse

def follow (i : Nat) (d : Doc) (rest : List Pending) : List Pending :=
  if d = .empty then rest else ⟨i, d⟩ :: rest

theorem columnAfter_append (ps qs : List Piece) :
    columnAfter (ps ++ qs) = qs.foldl Piece.advance (columnAfter ps) := List.foldl_append

namespace Page.Sound

variable {p : Page}

theorem start : Page.Sound {} := rfl

theorem write (h : p.Sound) (s : String) : (p.write s).Sound := by
  simp only [Sound, Page.write, List.reverse_cons, columnAfter_append, List.foldl_cons,
    List.foldl_nil, Piece.advance]
  rw [h]

theorem breakLine (n : Nat) : (p.breakLine n).Sound := by
  simp [Sound, Page.breakLine, columnAfter_append, Piece.advance]

theorem place {d : Doc} (h : p.Sound) (width i : Nat) (flat : Bool) (rest : List Pending) :
    (d.place width i flat rest p).Sound := by
  induction d generalizing i flat rest p with
  | empty => exact h
  | word s => exact h.write s
  | seq a b iha ihb => exact ihb (iha h i flat _) i flat rest
  | nest n d ih => exact ih h (shift i n) flat rest
  | group d ih => exact ih h i _ rest
  | choice b f ihb ihf =>
    rw [Doc.place]
    split
    · exact ihf h i flat rest
    · exact ihb h i flat rest
  | newline => exact breakLine _

end Page.Sound

namespace Doc

variable {width i j : Nat} {flat : Bool} {rest : List Pending} {p : Page} {a b d x : Doc}

/-! ## Placing parts one after another -/

@[simp] theorem append_eq_empty_iff : a ++ b = empty ↔ a = empty ∧ b = empty := by
  change append a b = empty ↔ _
  fun_cases append a b <;> simp_all

theorem place_append : (a ++ b).place width i flat rest p =
    b.place width i flat rest (a.place width i flat (follow i b rest) p) := by
  change (append a b).place width i flat rest p = _
  fun_cases append a b with
  | case1 => rfl
  | case2 => rfl
  | case3 => rw [place, follow, if_neg (by assumption)]

theorem fits_append (next : Nat → Bool) (column : Nat) : (a ++ b).fits width flat next column =
    a.fits width flat (b.fits width flat next) column := by
  change (append a b).fits width flat next column = _
  fun_cases append a b <;> rfl

theorem fits_indented (n : Int) (next : Nat → Bool) (column : Nat) :
    (d.indented n).fits width flat next column = d.fits width flat next column := by
  fun_cases indented n d <;> rfl

theorem restFits_follow : restFits width (follow i d rest) =
    d.fits width false (restFits width rest) := by
  unfold follow
  split
  · next h => subst h; rfl
  · rfl

theorem place_text (s : String) : (text s).place width i flat rest p =
    if s = "" then p else p.write s := by
  unfold text
  split <;> rfl

theorem place_grouped : d.grouped.place width i flat rest p =
    d.place width i (flat || d.fits width true (restFits width rest) p.column) rest p := by
  fun_cases grouped d with
  | case1 => rfl
  | case2 d => simp [place, fits]
  | case3 => rfl

theorem fits_never (d : Doc) (column : Nat) :
    d.fits width true (fun _ => false) column = false := by
  induction d generalizing column with
  | empty => rfl
  | word s => simp [fits]
  | seq a b iha ihb => simp only [fits, funext ihb, iha]
  | nest _ d ih | group d ih => exact ih column
  | choice b f _ ihf => exact ihf column
  | newline => rfl

/-- What breaks its lines in every layout fits no flat line. -/
theorem not_fits_of_newline (h : newline ∈ d.leaves) (next : Nat → Bool) (column : Nat) :
    d.fits width true next column = false := by
  induction d generalizing next column with
  | empty => cases h
  | word s => simp at h
  | seq a b iha ihb =>
    rcases List.mem_append.1 h with h | h
    · exact iha h _ column
    · rw [fits, funext (ihb h next), fits_never]
  | nest _ d ih | group d ih => exact ih h next column
  | choice b f => simp at h
  | newline => rfl

/-! ## Widths of flat lines -/

@[simp] theorem flatWidth_text (s : String) : (text s).flatWidth = Text.displayWidth s := by
  unfold text
  split
  · next h => subst h; rfl
  · rfl

@[simp] theorem flatWidth_append : (a ++ b).flatWidth = a.flatWidth + b.flatWidth := by
  change (append a b).flatWidth = _
  fun_cases append a b <;> simp [flatWidth]

@[simp] theorem flatWidth_indented (n : Int) : (d.indented n).flatWidth = d.flatWidth := by
  fun_cases indented n d <;> rfl

/-- A line fits exactly if what comes after it does, provided that this is not
beyond the width. -/
theorem fits_line_iff (h : d.IsLine true) {next : Nat → Bool}
    (hnext : ∀ column, next column = true → column ≤ width) (column : Nat) :
    d.fits width true next column = true ↔ next (column + d.flatWidth) = true := by
  induction d generalizing next column with
  | empty => rfl
  | word s =>
    simp only [fits, flatWidth, Bool.and_eq_true, decide_eq_true_eq, and_iff_right_iff_imp]
    exact hnext _
  | seq a b iha ihb =>
    rw [fits, iha h.1 ?_, ihb h.2 hnext, flatWidth, Nat.add_assoc]
    intro column hb
    exact Nat.le_trans (Nat.le_add_right _ _) (hnext _ ((ihb h.2 hnext column).1 hb))
  | nest _ d ih | group d ih => exact ih h hnext column
  | choice b d _ ih => exact ih h.2.2 hnext column
  | newline => exact h.elim

/-! ## Documents inside others -/

namespace Stands

theorem here : x.Stands i i x := ⟨[], [], .here⟩

theorem left (h : x.Stands j i a) : x.Stands j i (seq a b) := by
  obtain ⟨above, below, h⟩ := h
  exact ⟨_, _, h.left⟩

theorem right (h : x.Stands j i b) : x.Stands j i (seq a b) := by
  obtain ⟨above, below, h⟩ := h
  exact ⟨_, _, h.right⟩

theorem nest {n : Int} (h : x.Stands j (shift i n) d) : x.Stands j i (nest n d) := by
  obtain ⟨above, below, h⟩ := h
  exact ⟨_, _, h.nest⟩

theorem group (h : x.Stands j i d) : x.Stands j i (group d) := by
  obtain ⟨above, below, h⟩ := h
  exact ⟨_, _, h.group⟩

theorem trans {k : Nat} (h : x.Stands j i d) (h' : d.Stands i k a) : x.Stands j k a := by
  obtain ⟨above, below, h'⟩ := h'
  induction h' with
  | here => exact h
  | left _ ih => exact .left ih
  | right _ ih => exact .right ih
  | nest _ ih => exact .nest ih
  | group _ ih => exact .group ih

end Stands

/-- Placing a document adds to the page. A simple document adds what its leaves are written
as. -/
theorem exists_place (width i : Nat) (flat : Bool) (rest : List Pending) (d : Doc) (p : Page) :
    ∃ pieces, (d.place width i flat rest p).pieces = pieces.reverse ++ p.pieces ∧
      (d.Simple → List.Forall₂ Piece.Writes pieces d.leaves) := by
  by_cases h : d.Simple
  · obtain ⟨pieces, hpieces, hwrites⟩ := h.place width i flat rest p
    exact ⟨pieces, hpieces, fun _ => hwrites⟩
  · obtain ⟨pieces, hpieces, -⟩ := exists_pieces_place width i flat rest d p
    exact ⟨pieces.reverse, by rw [hpieces, List.reverse_reverse], fun hsimple => absurd hsimple h⟩

theorem exists_suffix_place (width i : Nat) (flat : Bool) (rest : List Pending) (d : Doc)
    (p : Page) : p.pieces <:+ (d.place width i flat rest p).pieces := by
  obtain ⟨pieces, h, -⟩ := exists_pieces_place width i flat rest d p
  exact ⟨pieces, h.symm⟩

namespace StandsBetween

variable {above below : List Doc}

theorem leaves_eq (h : x.StandsBetween j above below i d) :
    d.leaves = above ++ x.leaves ++ below := by
  induction h with
  | here => simp
  | left _ ih => simp [ih]
  | right _ ih => simp [ih]
  | nest _ ih => exact ih
  | group _ ih => exact ih

theorem le_deepest (h : x.StandsBetween j above below i d) (hi : i ≤ deepest) : j ≤ deepest := by
  induction h with
  | here => exact hi
  | left _ ih => exact ih hi
  | right _ ih => exact ih hi
  | nest _ ih => exact ih (shift_le _ _)
  | group _ ih => exact ih hi

/-- A document that breaks its lines in every layout is placed as it is outside of all groups,
wherever it stands. -/
theorem place (h : x.StandsBetween j above below i d) (width : Nat) (hx : newline ∈ x.leaves)
    (rest : List Pending) (hp : p.Sound) : ∃ rest' p' before after, p'.Sound ∧
      p'.pieces = before.reverse ++ p.pieces ∧
      (d.place width i false rest p).pieces =
        after.reverse ++ (x.place width j false rest' p').pieces ∧
      (d.Simple → List.Forall₂ Piece.Writes before above ∧
        List.Forall₂ Piece.Writes after below) := by
  induction h generalizing rest p with
  | here => exact ⟨rest, p, [], [], hp, rfl, rfl, fun _ => ⟨.nil, .nil⟩⟩
  | @left above below i a b _ ih =>
    obtain ⟨rest', p', before, after, hp', hbefore, hafter, hwrites⟩ := ih (⟨i, b⟩ :: rest) hp
    obtain ⟨behind, hbehind, hb⟩ := exists_place width i false rest b
      (a.place width i false (⟨i, b⟩ :: rest) p)
    refine ⟨rest', p', before, after ++ behind, hp', hbefore, ?_, fun hsimple => ?_⟩
    · rw [Doc.place, hbehind, hafter, List.reverse_append, List.append_assoc]
    · obtain ⟨ha, hsimple⟩ := simple_seq.1 hsimple
      obtain ⟨habove, hbelow⟩ := hwrites ha
      exact ⟨habove, List.rel_append hbelow (hb hsimple)⟩
  | @right above below i a b _ ih =>
    obtain ⟨front, hfront, ha⟩ := exists_place width i false (⟨i, b⟩ :: rest) a p
    obtain ⟨rest', p', before, after, hp', hbefore, hafter, hwrites⟩ :=
      ih rest (hp.place (d := a) width i false (⟨i, b⟩ :: rest))
    refine ⟨rest', p', front ++ before, after, hp', ?_, hafter, fun hsimple => ?_⟩
    · rw [hbefore, hfront, List.reverse_append, List.append_assoc]
    · obtain ⟨hsimple, hb⟩ := simple_seq.1 hsimple
      obtain ⟨habove, hbelow⟩ := hwrites hb
      exact ⟨List.rel_append (ha hsimple) habove, hbelow⟩
  | nest _ ih => exact ih rest hp
  | group h ih =>
    rw [Doc.place, Bool.false_or, not_fits_of_newline (by simp [h.leaves_eq, hx])]
    exact ih rest hp

end StandsBetween

theorem Stands.le_deepest (h : x.Stands j i d) (hi : i ≤ deepest) : j ≤ deepest := by
  obtain ⟨above, below, h⟩ := h
  exact h.le_deepest hi

/-! ## Indentations in combined documents -/

theorem due_append (next : Option Nat) : (a ++ b).due i next =
    a.due i (if b = empty then next else some i) ++ b.due i next := by
  change (append a b).due i next = _
  fun_cases append a b with
  | case1 => rfl
  | case2 => simp
  | case3 => rw [due, if_neg (by assumption)]

@[simp] theorem due_append_some : (a ++ b).due i (some i) = a.due i (some i) ++ b.due i (some i) := by
  rw [due_append]
  split <;> rfl

@[simp] theorem due_text (s : String) (next : Option Nat) : (text s).due i next =
    if s = "" then [] else [(word s, next.getD i)] := by
  unfold text
  split <;> rfl

@[simp] theorem due_grouped (next : Option Nat) : d.grouped.due i next = d.due i next := by
  fun_cases grouped d <;> rfl

theorem due_indented (hi : i ≤ deepest) (n : Int) (next : Option Nat) :
    (d.indented n).due i next = d.due (shift i n) next := by
  fun_cases indented n d with
  | case1 => rfl
  | case2 _ _ hn => rw [hn, shift_zero hi]
  | case3 => rfl

end Doc

open Doc (word newline line)

/-- What a leaf is written as, where it belongs to no group or to one that is
flat. -/
def Piece.of (flat : Bool) : Doc × Nat → Piece
  | (.word s, _) => text s
  | (.choice _ _, n) => if flat then text " " else newline n
  | (_, n) => newline n

namespace Doc

variable {width i : Nat} {flat : Bool} {rest : List Pending} {p : Page} {d : Doc}

theorem Groupless.place (h : d.Groupless) (hd : d.Simple) : (d.place width i flat rest p).pieces =
    ((d.due i (nextIndent rest)).map (Piece.of flat)).reverse ++ p.pieces := by
  induction d generalizing i rest p with
  | empty => rfl
  | word s => rfl
  | seq a b iha ihb =>
    obtain ⟨ha, hb⟩ := simple_seq.1 hd
    rw [Doc.place, ihb h.2 hb, iha h.1 ha]
    simp [nextIndent]
  | nest n d ih => exact ih h hd
  | group d => exact h.elim
  | choice b f =>
    have hleaf : IsLeaf (.choice b f) := hd _ (List.mem_singleton_self _)
    cases hleaf
    cases flat <;> rfl
  | newline => rfl

end Doc

end Unparse.Layout
