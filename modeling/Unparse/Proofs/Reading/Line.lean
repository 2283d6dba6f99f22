import Mathlib.Algebra.GroupWithZero.Nat
import Mathlib.Tactic.Common
import Unparse.Layout.Render
import Unparse.Print.Expr

/-! # Documents on one line

A document whose line breaks can all be given up is laid out on one line if
the page is wide enough. Its text is then that of its flat alternatives. Every
construct of expressions is such a document if its parts are.
-/

namespace Unparse.Layout.Doc

/-- The text of a document that gives up its line breaks. -/
@[simp] def flat : Doc → List Char
  | empty => []
  | word s => s.toList
  | seq a b => a.flat ++ b.flat
  | nest _ d | group d | choice _ d => d.flat
  | newline => ['\n']

def flatWidth : Doc → Nat
  | empty => 0
  | word s => Text.displayWidth s
  | seq a b => a.flatWidth + b.flatWidth
  | nest _ d | group d | choice _ d => d.flatWidth
  | newline => 0

/-- Whether all line breaks can be given up, inside a group or outside of any. -/
@[simp] def IsLine : (grouped : Bool) → Doc → Prop
  | _, empty | _, word _ => True
  | g, seq a b => a.IsLine g ∧ b.IsLine g
  | g, nest _ d => d.IsLine g
  | _, group d => d.IsLine true
  | g, choice b d => g = true ∧ b = newline ∧ d.IsLine true
  | _, newline => False

@[simp] theorem flat_text (s : String) : (text s).flat = s.toList := by
  unfold text
  split
  · next h => simp [h]
  · rfl

@[simp] theorem flat_append (a b : Doc) : (a ++ b).flat = a.flat ++ b.flat := by
  change (append a b).flat = _
  fun_cases append a b <;> simp

@[simp] theorem flat_indented (n : Int) (d : Doc) : (d.indented n).flat = d.flat := by
  fun_cases indented n d <;> simp

@[simp] theorem flat_grouped (d : Doc) : d.grouped.flat = d.flat := by
  fun_cases grouped d <;> simp

@[simp] theorem flat_line : line.flat = [' '] := rfl

@[simp] theorem flat_softline : softline.flat = [' '] := rfl

@[simp] theorem flat_enclosed (opening closing : String) (d : Doc) :
    (d.enclosed opening closing).flat = opening.toList ++ d.flat ++ closing.toList := by
  simp [enclosed]

@[simp] theorem flat_parens (d : Doc) : d.parens.flat = '(' :: d.flat ++ [')'] := by
  simp [parens]

@[simp] theorem flat_brackets (d : Doc) : d.brackets.flat = '[' :: d.flat ++ [']'] := by
  simp [brackets]

@[simp] theorem flat_braces (d : Doc) : d.braces.flat = '\x7b' :: d.flat ++ ['\x7d'] := by
  simp [braces]

theorem flat_foldl_separated (sep d : Doc) (ds : List Doc) :
    (ds.foldl (fun acc e => acc ++ sep ++ e) d).flat =
      d.flat ++ ds.flatMap fun e => sep.flat ++ e.flat := by
  induction ds generalizing d with
  | nil => simp
  | cons e ds ih => simp [ih]

@[simp] theorem flat_separated_nil (sep : Doc) : (separated sep []).flat = [] := rfl

@[simp] theorem flat_separated_cons (sep d : Doc) (ds : List Doc) :
    (separated sep (d :: ds)).flat = d.flat ++ ds.flatMap fun e => sep.flat ++ e.flat :=
  flat_foldl_separated sep d ds

theorem IsLine.mono {g : Bool} {d : Doc} (h : d.IsLine g) : d.IsLine true := by
  induction d generalizing g with
  | empty | word _ => trivial
  | seq a b iha ihb => exact ⟨iha h.1, ihb h.2⟩
  | nest _ d ih => exact ih h
  | group d _ => exact h
  | choice b d _ _ => exact ⟨rfl, h.2⟩
  | newline => exact h.elim

@[simp] theorem isLine_text (g : Bool) (s : String) : (text s).IsLine g := by
  unfold text
  split <;> simp

@[simp] theorem isLine_append {g : Bool} {a b : Doc} :
    (a ++ b).IsLine g ↔ a.IsLine g ∧ b.IsLine g := by
  change (append a b).IsLine g ↔ _
  fun_cases append a b <;> simp

@[simp] theorem isLine_indented {g : Bool} {n : Int} {d : Doc} :
    (d.indented n).IsLine g ↔ d.IsLine g := by
  fun_cases indented n d <;> simp

@[simp] theorem isLine_grouped {g : Bool} {d : Doc} : d.grouped.IsLine g ↔ d.IsLine true := by
  fun_cases grouped d <;> simp

@[simp] theorem isLine_line : line.IsLine true := by simp [line]

@[simp] theorem isLine_softline (g : Bool) : softline.IsLine g := by simp [softline]

@[simp] theorem isLine_enclosed {g : Bool} {opening closing : String} {d : Doc} :
    (d.enclosed opening closing).IsLine g ↔ d.IsLine g := by
  simp [enclosed]

@[simp] theorem isLine_parens {g : Bool} {d : Doc} : d.parens.IsLine g ↔ d.IsLine g :=
  isLine_enclosed

@[simp] theorem isLine_brackets {g : Bool} {d : Doc} : d.brackets.IsLine g ↔ d.IsLine g :=
  isLine_enclosed

@[simp] theorem isLine_braces {g : Bool} {d : Doc} : d.braces.IsLine g ↔ d.IsLine g :=
  isLine_enclosed

@[simp] theorem isLine_separated {g : Bool} {sep : Doc} {ds : List Doc} (hs : sep.IsLine g)
    (hd : ∀ d ∈ ds, d.IsLine g) : (separated sep ds).IsLine g := by
  have hfold (ds : List Doc) (hd : ∀ d ∈ ds, d.IsLine g) (acc : Doc) (ha : acc.IsLine g) :
      (ds.foldl (fun acc e => acc ++ sep ++ e) acc).IsLine g := by
    induction ds generalizing acc with
    | nil => exact ha
    | cons e ds ih =>
      have he : (acc ++ sep ++ e).IsLine g := by simp [ha, hs, hd e]
      exact ih (fun d h => hd d (List.mem_cons_of_mem e h)) _ he
  cases ds with
  | nil => trivial
  | cons d ds =>
    exact hfold ds (fun e h => hd e (List.mem_cons_of_mem d h)) d (hd d List.mem_cons_self)

theorem fits_of_le {width : Nat} {next : Nat → Bool} {d : Doc} (flat : Bool)
    (h : d.IsLine true) {column : Nat} (hw : column + d.flatWidth ≤ width)
    (hn : next (column + d.flatWidth) = true) : d.fits width flat next column = true := by
  induction d generalizing next column with
  | empty => exact hn
  | word s =>
    simp only [flatWidth] at hw hn
    simp [fits, hw, hn]
  | seq a b iha ihb =>
    simp only [flatWidth] at hw hn
    have hb : b.fits width flat next (column + a.flatWidth) = true :=
      ihb h.2 (by omega) (by rwa [Nat.add_assoc])
    exact iha h.1 (by omega) hb
  | nest _ d ih | group d ih => exact ih h hw hn
  | choice b d _ ih =>
    obtain ⟨-, rfl, hd⟩ := h
    cases flat with
    | false => rfl
    | true => exact ih hd hw hn
  | newline => exact h.elim

end Unparse.Layout.Doc

namespace Unparse.Layout

open Doc

def restWidth (rest : List Pending) : Nat := (rest.map (·.doc.flatWidth)).sum

theorem restFits_of_le {width column : Nat} {rest : List Pending}
    (h : ∀ p ∈ rest, p.doc.IsLine true) (hw : column + restWidth rest ≤ width) :
    restFits width rest column = true := by
  induction rest generalizing column with
  | nil => rfl
  | cons p rest ih =>
    simp only [restWidth, List.map_cons, List.sum_cons] at hw
    have hrest : restFits width rest (column + p.doc.flatWidth) = true :=
      ih (fun q hq => h q (List.mem_cons_of_mem p hq)) (by rw [restWidth]; omega)
    exact fits_of_le false (h p List.mem_cons_self) (by omega) hrest

def Page.text (p : Page) : List Char := p.pieces.reverse.flatMap fun piece => piece.spell.toList

/-- A line is placed as its flat text. In a group that was made flat already
its own breaks may stand outside of any group. -/
theorem Doc.place_line {width i : Nat} {flat : Bool} {rest : List Pending} {d : Doc} {p : Page}
    (h : d.IsLine flat) (hrest : ∀ q ∈ rest, q.doc.IsLine true)
    (hw : p.column + d.flatWidth + restWidth rest ≤ width) :
    (d.place width i flat rest p).column = p.column + d.flatWidth ∧
      (d.place width i flat rest p).text = p.text ++ d.flat := by
  induction d generalizing i flat rest p with
  | empty => simp [place, flatWidth]
  | word s => simp [place, flatWidth, Page.write, Page.text, Piece.spell]
  | seq a b iha ihb =>
    simp only [flatWidth] at hw
    have hseq : ∀ q ∈ (⟨i, b⟩ :: rest : List Pending), q.doc.IsLine true := by
      simpa using ⟨h.2.mono, hrest⟩
    obtain ⟨hca, hta⟩ := iha (i := i) (p := p) h.1 hseq (by simp [restWidth] at hw ⊢; omega)
    obtain ⟨hcb, htb⟩ := ihb (i := i) (p := a.place width i flat (⟨i, b⟩ :: rest) p) h.2 hrest
      (by omega)
    simp [place, hcb, htb, hca, hta, flatWidth, Nat.add_assoc]
  | nest n d ih => exact ih h hrest hw
  | group d ih =>
    have hd : d.IsLine true := h
    have hfits : d.fits width true (restFits width rest) p.column = true :=
      fits_of_le true hd (by simp only [flatWidth] at hw; omega) (restFits_of_le hrest hw)
    rw [place, hfits, Bool.or_true]
    exact ih hd hrest hw
  | choice b d _ ih =>
    obtain ⟨rfl, rfl, hd⟩ := h
    exact ih hd hrest hw
  | newline => exact h.elim

end Unparse.Layout

namespace Unparse.Text

theorem lines_of_not_mem {s : List Char} (hs : s ≠ []) (h : '\n' ∉ s) : lines s = [s] := by
  induction s with
  | nil => exact absurd rfl hs
  | cons c s ih =>
    obtain ⟨hc, hns⟩ : '\n' ≠ c ∧ '\n' ∉ s := by simpa using h
    rcases eq_or_ne s [] with rfl | hne
    · simp [consLine, Ne.symm hc]
    · simp [ih hne hns, consLine, Ne.symm hc]

theorem tidy_of_not_mem {s : List Char} (hn : '\n' ∉ s) :
    tidy (String.ofList s) = String.ofList (trimEnd s) := by
  rcases eq_or_ne s [] with rfl | hs
  · rfl
  · simp [tidy, lines_of_not_mem hs hn]

theorem tidy_of_line {s : List Char} {c : Char} (hn : '\n' ∉ s) (hl : s.getLast? = some c)
    (hc : isBlank c = false) : tidy (String.ofList s) = String.ofList s := by
  obtain ⟨init, rfl⟩ : ∃ init, s = init ++ [c] :=
    List.getLast?_eq_some_iff.mp hl
  rw [tidy_of_not_mem hn]
  simp [trimEnd, hc]

end Unparse.Text

namespace Unparse.Layout

/-- A document on one line is laid out as its flat text if there is room. -/
theorem Doc.render_flat {width : Nat} {d : Doc} (h : d.IsLine false) (hw : d.flatWidth ≤ width) :
    d.render width = Text.tidy (String.ofList d.flat) := by
  have hplace : (d.place width 0 false [] {}).text = d.flat := by
    simpa [Page.text] using
      (Doc.place_line (p := {}) (i := 0) h (by simp) (by simpa [restWidth] using hw)).2
  have hjoin : String.join ((d.layout width).map Piece.spell) = String.ofList d.flat := by
    apply String.toList_injective
    rw [String.toList_join, List.flatMap_map, String.toList_ofList]
    exact hplace
  rw [render, hjoin]

theorem Doc.render_line {width : Nat} {d : Doc} {c : Char} (h : d.IsLine false)
    (hw : d.flatWidth ≤ width) (hn : '\n' ∉ d.flat) (hl : d.flat.getLast? = some c)
    (hc : Text.isBlank c = false) : d.render width = String.ofList d.flat := by
  rw [render_flat h hw, Text.tidy_of_line hn hl hc]

end Unparse.Layout

namespace Unparse

open Layout (Doc)

namespace Style

variable {s : Style} {g : Bool} {d : Doc} {ds : List Doc} {own : Option Operation}

@[simp] theorem isLine_operand {around : Operation} {associative : Bool} :
    (s.operand own around associative d).IsLine g ↔ d.IsLine g := by
  unfold operand
  split
  · split
    · exact Doc.isLine_parens
    · rfl
  · rfl

@[simp] theorem isLine_owner {around : Operation} :
    (s.owner own around d).IsLine g ↔ d.IsLine g := isLine_operand

@[simp] theorem isLine_continued : (s.continued d).IsLine true ↔ d.IsLine true := by
  simp [continued]

theorem isLine_list (h : ∀ d ∈ ds, d.IsLine true) : (s.list ds).IsLine g := by
  rw [list, Layout.Doc.isLine_grouped, Layout.Doc.isLine_indented]
  exact Layout.Doc.isLine_separated (by simp) h

theorem isLine_arguments (h : ∀ d ∈ ds, d.IsLine true) : (s.arguments ds).IsLine g := by
  rw [arguments, Layout.Doc.isLine_parens]
  exact isLine_list (by simpa using h)

@[simp] theorem isLine_binary {op : BinaryOp} {left right : Option Operation × Doc} :
    (s.binary op left right).IsLine g ↔ left.2.IsLine true ∧ right.2.IsLine true := by
  simp [binary]

@[simp] theorem isLine_compound {op : BinaryOp} {target amount : Option Operation × Doc} :
    (s.compound op target amount).IsLine g ↔ target.2.IsLine true ∧ amount.2.IsLine true := by
  simp [compound]

@[simp] theorem isLine_unary {op : Operation} : (s.unary op own d).IsLine g ↔ d.IsLine g := by
  unfold unary
  split <;> simp

@[simp] theorem isLine_cast {type : String} : (s.cast type own d).IsLine g ↔ d.IsLine g := by
  unfold cast
  split <;> simp

@[simp] theorem isLine_instanceOf {type : String} {inverted : Bool} :
    (s.instanceOf type inverted own d).IsLine g ↔ d.IsLine g := by
  unfold instanceOf
  split <;> simp

@[simp] theorem isLine_ternary {condition whenTrue whenFalse : Doc} :
    (s.ternary condition whenTrue whenFalse).IsLine g ↔
      condition.IsLine true ∧ whenTrue.IsLine true ∧ whenFalse.IsLine true := by
  simp [ternary]

theorem isLine_sizes (hd : d.IsLine g) (h : ∀ e ∈ ds, e.IsLine g) :
    (ds.foldl (fun d size => d ++ size.brackets) d).IsLine g := by
  induction ds generalizing d with
  | nil => exact hd
  | cons e ds ih =>
    have he : (d ++ e.brackets).IsLine g := by simp [hd, h e]
    exact ih he fun x hx => h x (List.mem_cons_of_mem e hx)

theorem isLine_sizedArray {element : String} (h : ∀ d ∈ ds, d.IsLine g) :
    (sizedArray element ds).IsLine g := by
  induction ds with
  | nil => trivial
  | cons d ds ih =>
    obtain ⟨hd, hds⟩ := List.forall_mem_cons.mp h
    cases ds with
    | nil => simp [sizedArray, hd]
    | cons e ds => simp [sizedArray, hd, ih hds]

theorem isLine_createArray {element : String} (h : ∀ d ∈ ds, d.IsLine g) :
    (s.createArray element ds none).IsLine g := by
  unfold createArray
  cases s.target with
  | java => exact isLine_sizes (by simp) h
  | kotlin => exact isLine_sizedArray h

theorem isLine_createArray_elements {element : String} {dimensions : List Doc}
    (h : ∀ d ∈ ds, d.IsLine true) : (s.createArray element dimensions (some ds)).IsLine g := by
  have hlist : (s.list ds).IsLine g := isLine_list h
  unfold createArray
  cases s.target <;> simp [hlist]

end Style

end Unparse
