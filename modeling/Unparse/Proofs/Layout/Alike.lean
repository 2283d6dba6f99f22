import Mathlib.Data.List.Forall2
import Mathlib.Order.Defs.PartialOrder
import Mathlib.Tactic.Common
import Unparse.Layout.Render

/-! # Documents with different comments

Two documents are alike if they differ only in comments, each alone on its line.
The width of a comment is then never asked for where a line may break, so the
documents are laid out alike, whatever the comments say.
-/

namespace Unparse.Layout

/-- What has been written on a line: nothing, the same in both documents, or
different comments. -/
inductive Position where
  | fresh | inside | loose

namespace Position

/-- The second position says less than the first one. -/
inductive Le : Position → Position → Prop where
  | refl (p : Position) : Le p p
  | fresh (p : Position) : Le fresh p
  | loose (p : Position) : Le p loose

instance : Preorder Position where
  le := Le
  le_refl := .refl
  le_trans p q r hpq hqr := by
    cases hpq with
    | refl => exact hqr
    | fresh => exact .fresh r
    | loose =>
      cases hqr
      all_goals exact .loose p

variable {p q : Position}

theorem ne_fresh_of_le (h : p ≤ q) (hp : p ≠ fresh) : q ≠ fresh := by
  rintro rfl
  cases h
  all_goals exact hp rfl

theorem ne_loose_of_le (h : p ≤ q) (hq : q ≠ loose) : p ≠ loose := by
  rintro rfl
  cases h
  all_goals exact hq rfl

end Position

open Position (ne_fresh_of_le ne_loose_of_le)

variable {W : String → String → Prop} {p q m : Position} {d d' a a' b b' : Doc}

/-- From one position of a line to another, the documents differ only in comments
that `W` relates. A word behind a comment belongs to its line. -/
inductive Doc.Alike (W : String → String → Prop) : Position → Doc → Doc → Position → Prop where
  | empty (p : Position) : Alike W p .empty .empty p
  | word (s : String) : Alike W .inside (.word s) (.word s) .inside
  | comment {s s' : String} (h : W s s') : Alike W .fresh (.word s) (.word s') .loose
  | behind (s : String) : Alike W .loose (.word s) (.word s) .loose
  | newline (p : Position) : Alike W p .newline .newline .fresh
  | seq {p m q : Position} {a a' b b' : Doc} (ha : Alike W p a a' m) (hb : Alike W m b b' q) :
    Alike W p (.seq a b) (.seq a' b') q
  | nest {p q : Position} {d d' : Doc} (n : Int) (h : Alike W p d d' q) :
    Alike W p (.nest n d) (.nest n d') q
  | group {q : Position} {d d' : Doc} (h : Alike W .inside d d' q) :
    Alike W .inside (.group d) (.group d') q
  | choice {q : Position} {b b' f f' : Doc} (hb : Alike W .inside b b' q)
      (hf : Alike W .inside f f' q) : Alike W .inside (.choice b f) (.choice b' f') q
  | sub {p p' q q' : Position} {d d' : Doc} (hp : p ≤ p') (h : Alike W p' d d' q')
      (hq : q' ≤ q) : Alike W p d d' q

inductive Piece.Alike (W : String → String → Prop) : Piece → Piece → Prop where
  | refl (piece : Piece) : Alike W piece piece
  | comment {s s' : String} (h : W s s') : Alike W (.text s) (.text s')

inductive Pending.Alike (W : String → String → Prop) :
    Position → List Pending → List Pending → Prop where
  | nil (p : Position) : Alike W p [] []
  | cons {p q : Position} {i : Nat} {d d' : Doc} {rest rest' : List Pending}
      (h : Doc.Alike W p d d' q) (hrest : Alike W q rest rest') :
    Alike W p (⟨i, d⟩ :: rest) (⟨i, d'⟩ :: rest')

/-- What has been written up to some position of a line differs only in comments that
`W` relates. The last piece is the first one of the list. -/
inductive Written (W : String → String → Prop) : Position → List Piece → List Piece → Prop where
  | nil : Written W .fresh [] []
  | word {ps ps' : List Piece} (s : String) (h : Written W .inside ps ps') :
    Written W .inside (.text s :: ps) (.text s :: ps')
  | comment {ps ps' : List Piece} {s s' : String} (h : Written W .fresh ps ps') (hs : W s s') :
    Written W .loose (.text s :: ps) (.text s' :: ps')
  | behind {ps ps' : List Piece} (s : String) (h : Written W .loose ps ps') :
    Written W .loose (.text s :: ps) (.text s :: ps')
  | newline {p : Position} {ps ps' : List Piece} (indent : Nat) (h : Written W p ps ps') :
    Written W .fresh (.newline indent :: ps) (.newline indent :: ps')
  | sub {p q : Position} {ps ps' : List Piece} (h : Written W p ps ps') (hle : p ≤ q) :
    Written W q ps ps'

theorem Written.forall₂ {ps ps' : List Piece} (h : Written W p ps ps') :
    List.Forall₂ (Piece.Alike W) ps ps' := by
  induction h with
  | nil => exact .nil
  | word s _ ih | behind s _ ih => exact .cons (.refl _) ih
  | comment _ hs ih => exact .cons (.comment hs) ih
  | newline _ _ ih => exact .cons (.refl _) ih
  | sub _ _ ih => exact ih

/-- The pages differ only in comments, and a line without one has reached the same
column. -/
structure Page.Alike (W : String → String → Prop) (p : Position) (page page' : Page) : Prop where
  pieces : Written W p page.pieces page'.pieces
  column : p ≠ .loose → page.column = page'.column

section Places

variable {rest rest' : List Pending} {page page' : Page}

/-- A document that fits up to its first line break is followed by no comment on
that line. -/
theorem Doc.Alike.fits_eq (h : Doc.Alike W p d d' q) (hp : p ≠ .fresh) (width : Nat) (flat : Bool)
    {next next' : Nat → Bool} (hnext : q ≠ .fresh → ∀ column, next column = next' column)
    (column : Nat) : d.fits width flat next column = d'.fits width flat next' column := by
  induction h generalizing next next' column with
  | empty => exact hnext hp column
  | word s | behind s => simp only [fits, hnext nofun]
  | comment => exact absurd rfl hp
  | newline => rfl
  | seq _ _ iha ihb => exact iha hp (fun hm column => ihb hm hnext column) column
  | nest _ _ ih => exact ih hp hnext column
  | group _ ih => exact ih hp hnext column
  | choice _ _ ihb ihf =>
    simp only [fits]
    split
    · exact ihf hp hnext column
    · exact ihb hp hnext column
  | sub hle _ hle' ih =>
    exact ih (ne_fresh_of_le hle hp) (fun hq => hnext (ne_fresh_of_le hle' hq)) column

theorem Pending.Alike.sub (hle : p ≤ q) (h : Pending.Alike W q rest rest') :
    Pending.Alike W p rest rest' := by
  cases h with
  | nil => exact .nil p
  | cons h hrest => exact .cons (.sub hle h le_rfl) hrest

theorem Pending.Alike.restFits_eq (h : Pending.Alike W p rest rest') (hp : p ≠ .fresh)
    (width column : Nat) : restFits width rest column = restFits width rest' column := by
  induction h generalizing column with
  | nil => rfl
  | cons h _ ih => exact h.fits_eq hp width false (fun hq column => ih hq column) column

theorem Pending.Alike.indent_eq (h : Pending.Alike W p rest rest') :
    rest.head?.map Pending.indent = rest'.head?.map Pending.indent := by
  cases h <;> rfl

/-- Documents that are alike are placed alike. -/
theorem Doc.Alike.place (h : Doc.Alike W p d d' q) (hpage : Page.Alike W p page page')
    (hrest : Pending.Alike W q rest rest') (width i : Nat) (flat : Bool) :
    Page.Alike W q (d.place width i flat rest page) (d'.place width i flat rest' page') := by
  induction h generalizing i flat rest rest' page page' with
  | empty => exact hpage
  | word s =>
    refine ⟨.word s hpage.pieces, fun _ => ?_⟩
    simp only [Doc.place, Page.write, hpage.column nofun]
  | comment h => exact ⟨.comment hpage.pieces h, fun hq => absurd rfl hq⟩
  | behind s => exact ⟨.behind s hpage.pieces, fun hq => absurd rfl hq⟩
  | newline =>
    simp only [Doc.place, hrest.indent_eq]
    exact ⟨.newline _ hpage.pieces, fun _ => rfl⟩
  | seq _ hb iha ihb => exact ihb (iha hpage (.cons hb hrest) i flat) hrest i flat
  | nest n _ ih => exact ih hpage hrest _ flat
  | group h ih =>
    have hfits := h.fits_eq nofun width true
      (fun hq column => hrest.restFits_eq hq width column) page.column
    rw [Doc.place, Doc.place, hfits, hpage.column nofun]
    exact ih hpage hrest i _
  | choice _ _ ihb ihf =>
    rw [Doc.place, Doc.place]
    split
    · exact ihf hpage hrest i flat
    · exact ihb hpage hrest i flat
  | sub hle _ hle' ih =>
    have hstart : Page.Alike W _ page page' :=
      ⟨hpage.pieces.sub hle, fun hp => hpage.column (ne_loose_of_le hle hp)⟩
    have hend := ih hstart (hrest.sub hle') i flat
    exact ⟨hend.pieces.sub hle', fun hq => hend.column (ne_loose_of_le hle' hq)⟩

theorem Doc.Alike.written (h : Doc.Alike W .fresh d d' q) (width : Nat) :
    Written W q (d.layout width).reverse (d'.layout width).reverse := by
  have hpage : Page.Alike W .fresh {} {} := ⟨.nil, fun _ => rfl⟩
  have hend := (h.place hpage (.nil q) width 0 false).pieces
  rwa [← List.reverse_reverse (Doc.place ..).pieces, ← List.reverse_reverse (d'.place ..).pieces]
    at hend

theorem Doc.Alike.layout (h : Doc.Alike W .fresh d d' q) (width : Nat) :
    List.Forall₂ (Piece.Alike W) (d.layout width) (d'.layout width) :=
  List.forall₂_reverse_iff.mp (h.written width).forall₂

def TextsAlike (W : String → String → Prop) (t t' : String) : Prop :=
  ∃ pieces pieces', List.Forall₂ (Piece.Alike W) pieces pieces' ∧
    t = Text.tidy (String.join (pieces.map Piece.spell)) ∧
    t' = Text.tidy (String.join (pieces'.map Piece.spell))

theorem Doc.Alike.render (h : Doc.Alike W .fresh d d' q) (width : Nat) :
    TextsAlike W (d.render width) (d'.render width) :=
  ⟨_, _, h.layout width, rfl, rfl⟩

theorem TextsAlike.eq {t t' : String} (h : TextsAlike W t t') (hW : ∀ w w', ¬ W w w') : t = t' := by
  obtain ⟨pieces, pieces', hpieces, rfl, rfl⟩ := h
  have heq : pieces = pieces' := by
    refine List.forall₂_eq_eq_eq ▸ hpieces.imp fun piece piece' h => ?_
    cases h with
    | refl => rfl
    | comment hw => exact (hW _ _ hw).elim
  rw [heq]

end Places

namespace Doc.Alike

theorem refl (d : Doc) : Alike W .inside d d .inside := by
  induction d with
  | empty => exact .empty _
  | word s => exact .word s
  | seq a b iha ihb => exact .seq iha ihb
  | nest n d ih => exact .nest n ih
  | group d ih => exact .group ih
  | choice b f ihb ihf => exact .choice ihb ihf
  | newline => exact .sub le_rfl (.newline _) (.fresh _)

theorem of_le (h : p ≤ q) : Alike W p .empty .empty q := .sub le_rfl (.empty p) h

theorem le_of_empty (h : Alike W p d d' q) (hd : d = .empty) : p ≤ q := by
  induction h with
  | empty => exact le_rfl
  | sub hle _ hle' ih => exact le_trans (le_trans hle (ih hd)) hle'
  | _ => cases hd

theorem eq_empty_iff (h : Alike W p d d' q) : d = .empty ↔ d' = .empty := by
  induction h <;> simp_all

theorem exists_group_iff (h : Alike W p d d' q) :
    (∃ e, d = .group e) ↔ ∃ e, d' = .group e := by
  induction h <;> simp_all

theorem append (ha : Alike W p a a' m) (hb : Alike W m b b' q) :
    Alike W p (a ++ b) (a' ++ b') q := by
  by_cases hnil : a = .empty
  · obtain rfl := hnil
    obtain rfl := ha.eq_empty_iff.mp rfl
    simpa using hb.sub (ha.le_of_empty rfl) le_rfl
  by_cases hnil' : b = .empty
  · obtain rfl := hnil'
    obtain rfl := hb.eq_empty_iff.mp rfl
    simpa using ha.sub le_rfl (hb.le_of_empty rfl)
  have hseq {a b : Doc} (ha : a ≠ .empty) (hb : b ≠ .empty) : a ++ b = .seq a b := by
    change Doc.append a b = _
    cases a <;> cases b <;> simp_all [Doc.append]
  rw [hseq hnil hnil', hseq (mt ha.eq_empty_iff.mpr hnil) (mt hb.eq_empty_iff.mpr hnil')]
  exact .seq ha hb

theorem indented (h : Alike W p d d' q) (n : Int) :
    Alike W p (d.indented n) (d'.indented n) q := by
  by_cases hnil : d = .empty
  · obtain rfl := hnil
    obtain rfl := h.eq_empty_iff.mp rfl
    exact h
  have hnest {d : Doc} (hd : d ≠ .empty) : d.indented n = if n = 0 then d else .nest n d := by
    cases d <;> simp_all [Doc.indented]
  rw [hnest hnil, hnest (mt h.eq_empty_iff.mpr hnil)]
  split
  · exact h
  · exact .nest n h

theorem grouped (h : Alike W .inside d d' q) : Alike W .inside d.grouped d'.grouped q := by
  by_cases hnil : d = .empty
  · obtain rfl := hnil
    obtain rfl := h.eq_empty_iff.mp rfl
    exact h
  by_cases hgroup : ∃ e, d = .group e
  · obtain ⟨e, rfl⟩ := hgroup
    obtain ⟨e', rfl⟩ := h.exists_group_iff.mp ⟨e, rfl⟩
    exact h
  have heq {d : Doc} (hd : d ≠ .empty) (hgroup : ¬ ∃ e, d = .group e) : d.grouped = .group d := by
    cases d <;> simp_all [Doc.grouped]
  rw [heq hnil hgroup, heq (mt h.eq_empty_iff.mpr hnil) (mt h.exists_group_iff.mpr hgroup)]
  exact .group h

theorem separated {sep : Doc} {ds ds' : List Doc} (hle : p ≤ q) (hsep : Alike W q sep sep p)
    (h : List.Forall₂ (fun d d' => Alike W p d d' q) ds ds') :
    Alike W p (Doc.separated sep ds) (Doc.separated sep ds') q := by
  cases h with
  | nil => exact of_le hle
  | @cons d d' ds ds' hd hds =>
    rw [Doc.separated, Doc.separated]
    induction hds generalizing d d' with
    | nil => exact hd
    | cons he _ ih => exact ih ((hd.append hsep).append he)

theorem concat {ds ds' : List Doc} (h : List.Forall₂ (fun d d' => Alike W p d d' p) ds ds') :
    Alike W p (Doc.concat ds) (Doc.concat ds') p := by
  have hconcat (ds : List Doc) : Doc.concat ds = Doc.separated .empty (.empty :: ds) := by
    simp [Doc.concat, Doc.separated]
  rw [hconcat, hconcat]
  exact separated le_rfl (.empty p) (.cons (.empty p) h)

theorem enclosed (h : Alike W .inside d d' .inside) (opening closing : String) :
    Alike W .inside (d.enclosed opening closing) (d'.enclosed opening closing) .inside :=
  ((refl _).append h).append (refl _)

theorem comment_line {s s' : String} (h : s = s' ∨ W s s') :
    Alike W .fresh (.word s) (.word s') .loose := by
  rcases h with rfl | h
  · exact (word s).sub (.fresh _) (.loose _)
  · exact .comment h

theorem text_behind (s : String) : Alike W .loose (Doc.text s) (Doc.text s) .loose := by
  unfold Doc.text
  split
  · exact .empty _
  · exact .behind s

end Doc.Alike

def Doc.breaks : Doc → Bool
  | .newline => true
  | .seq a _ => a.breaks
  | .nest _ d => d.breaks
  | _ => false

theorem Doc.breaks_append (h : a.breaks = true) (b : Doc) : (a ++ b).breaks = true := by
  change (Doc.append a b).breaks = true
  cases b with
  | empty => cases a <;> exact h
  | _ =>
    cases a with
    | empty => cases h
    | _ => exact h

theorem Doc.breaks_concat {ds : List Doc} (h : ∀ d ∈ ds, d.breaks = true) :
    Doc.concat ds = .empty ∨ (Doc.concat ds).breaks = true := by
  cases ds with
  | nil => exact .inl rfl
  | cons d ds =>
    have hfold (acc : Doc) (hacc : acc.breaks = true) :
        (ds.foldl (· ++ ·) acc).breaks = true := by
      clear h
      induction ds generalizing acc with
      | nil => exact hacc
      | cons e ds ih => exact ih (acc ++ e) (breaks_append hacc e)
    rw [Doc.concat, List.foldl_cons, empty_append]
    exact .inr (hfold d (h d List.mem_cons_self))

/-- A document that begins with a line break may stand anywhere. -/
theorem Doc.Alike.of_breaks (h : Doc.Alike W p d d' q) (hd : d.breaks = true) (p' : Position) :
    Doc.Alike W p' d d' q := by
  induction h generalizing p' with
  | newline => exact .newline p'
  | seq _ hb iha _ => exact .seq (iha hd p') hb
  | nest n _ ih => exact .nest n (ih hd p')
  | sub _ _ hle ih => exact (ih hd p').sub le_rfl hle
  | _ => cases hd

theorem Doc.Alike.behind_of_breaks (h : Doc.Alike W .inside d d' .inside)
    (hd : d = .empty ∨ d.breaks = true) : Doc.Alike W .loose d d' .loose := by
  rcases hd with rfl | hd
  · obtain rfl := h.eq_empty_iff.mp rfl
    exact .empty _
  · exact (h.of_breaks hd .loose).sub le_rfl (.loose _)

/-- In the middle of a line, the documents differ only in comments on lines of
their own. -/
abbrev Doc.Like (W : String → String → Prop) (d d' : Doc) : Prop := Doc.Alike W .inside d d' .inside

end Unparse.Layout
