import Unparse.Print.Class
import Unparse.Proofs.Layout.Indents
import Unparse.Proofs.Widths.Rendering

/-! # Line breaks in class headers

The supertypes in the header of a class form one group, with text of the header
in front of it and the opening brace behind it. If the header fits on one line up
to the brace, no line breaks. Otherwise a line breaks in front of every entry:
the Java superclass is indented once and every other entry twice. Only an entry
without a name leaves its line to what follows, so it is not indented.

This holds of every class wherever it is printed, since its members keep the
groups around it from being flat.
-/

namespace Unparse

open Layout
open Layout.Doc (text line newline)

variable {κ : Type}

/-- A supertype as it stands in a header: what separates it from the one in
front, the levels it is indented by where it starts a line, and its text. -/
structure HeaderEntry where
  separator : String
  level : Nat
  text : String
deriving DecidableEq, Repr

def wordPieces (words : List String) : List Piece := (words.filter (· ≠ "")).map .text

namespace HeaderEntry

def words (e : HeaderEntry) : List String := [e.separator, " ", e.text]

/-- How far the line of an entry is indented in a class that is indented by `i`. -/
def indent (size i : Nat) (e : HeaderEntry) : Nat :=
  if e.text = "" then i else min (i + e.level * size) deepest

/-- The pieces of an entry on a line of its own. -/
def broken (size i : Nat) (e : HeaderEntry) : List Piece :=
  wordPieces [e.separator] ++ .newline (e.indent size i) :: wordPieces [e.text]

end HeaderEntry

namespace Style

def typeEntries (keyword : String) : List String → List HeaderEntry
  | [] => []
  | first :: types => ⟨"", 2, keyword ++ first⟩ :: types.map fun type => ⟨",", 2, type⟩

def headerEntries (s : Style) (c : ClassDecl κ) : List HeaderEntry :=
  let superclass := c.superclass.filter (· ≠ s.lexicon.baseClass)
  match s.target, c.kind with
  | _, .annotationType => []
  | .java, .interface => typeEntries "extends " c.interfaces
  | .java, _ =>
    (superclass.map fun name => ⟨"", 1, "extends " ++ name⟩).toList ++
      typeEntries "implements " c.interfaces
  | .kotlin, .cls =>
    typeEntries ": " ((superclass.map fun name => name ++ "()").toList ++ c.interfaces)
  | .kotlin, _ => typeEntries ": " c.interfaces

def headerWords (s : Style) (c : ClassDecl κ) : List String :=
  [String.join ((modifierWords s.target c.modifiers).map (· ++ " ")),
    s.target.classKeyword c.kind ++ " " ++ c.name,
    if c.generics.isEmpty then "" else "<" ++ ", ".intercalate c.generics ++ ">"]

def headerLine (s : Style) (c : ClassDecl κ) : List String :=
  s.headerWords c ++ (s.headerEntries c).flatMap HeaderEntry.words ++ [" ", "\x7b"]

/-- The pieces of a header of a class that is indented by `i`, on one line or with
every supertype on a line of its own. -/
def headerPieces (s : Style) (c : ClassDecl κ) (fits : Bool) (i : Nat) : List Piece :=
  if fits then wordPieces (s.headerLine c)
  else wordPieces (s.headerWords c) ++ (s.headerEntries c).flatMap (·.broken s.indentSize i) ++
    wordPieces [" ", "\x7b"]

end Style

def columns (words : List String) : Nat := (words.map Text.displayWidth).sum

/-- What stands on the lines above the header of a class. -/
def Style.linesAbove (s : Style) (c : ClassDecl κ) : Doc :=
  s.packageAndImports c ++ s.annotations c.annotations

/-- A class that is indented by `i` is laid out on a page behind the pieces `before`: its
header is on one line if it fits, and otherwise has a line for each of its supertypes. The
line of its closing brace is indented as the class, and the pieces `after` follow it. -/
def HeaderLaid (s : Style) (c : ClassDecl κ) (width i : Nat) (before after page : List Piece) :
    Prop :=
  ∃ members, page = before ++
    s.headerPieces c (columnAfter before + columns (s.headerLine c) ≤ width) i ++ members ++
      .newline i :: .text "\x7d" :: after

/-- Whatever the width, a class is laid out in a document. If this is simple, then in front of
the header stands what the leaves `above` the class and the lines above its header are written
as, and behind the class what the leaves `below` are. -/
def HeaderLaidBetween (s : Style) (c : ClassDecl κ) (i : Nat) (above below : List Doc) (d : Doc) :
    Prop :=
  ∀ width, ∃ before after, HeaderLaid s c width i before after (d.layout width) ∧
    (d.Simple → List.Forall₂ Piece.Writes before (above ++ (s.linesAbove c).leaves) ∧
      List.Forall₂ Piece.Writes after below)

section Entries

variable {i : Nat}

@[simp] theorem wordPieces_append (ws ws' : List String) :
    wordPieces (ws ++ ws') = wordPieces ws ++ wordPieces ws' := by
  simp [wordPieces]

theorem wordPieces_cons (w : String) (ws : List String) :
    wordPieces (w :: ws) = wordPieces [w] ++ wordPieces ws := wordPieces_append [w] ws

theorem place_text_pieces (w : String) {width : Nat} {flat : Bool} {rest : List Pending}
    {p : Page} : ((text w).place width i flat rest p).pieces =
      (wordPieces [w]).reverse ++ p.pieces := by
  rw [Doc.place_text]
  by_cases h : w = "" <;> simp [wordPieces, h, Page.write]

theorem columnAfter_words (ps : List Piece) (ws : List String) :
    columnAfter (ps ++ wordPieces ws) = columnAfter ps + columns ws := by
  induction ws generalizing ps with
  | nil => simp [wordPieces, columns]
  | cons w ws ih =>
    rw [wordPieces_cons, ← List.append_assoc, ih]
    have hw : columnAfter (ps ++ wordPieces [w]) = columnAfter ps + Text.displayWidth w := by
      by_cases h : w = ""
      · subst h
        simp [wordPieces, Text.displayWidth]
      · simp [wordPieces, h, columnAfter_append, Piece.advance]
    simp only [hw, columns, List.map_cons, List.sum_cons]
    omega

/-- A document is made of the entries of a header, outside of any group. -/
structure Spells (size : Nat) (es : List HeaderEntry) (d : Doc) : Prop where
  groupless : d.Groupless
  simple : d.Simple
  line : d.IsLine true
  broken : ∀ i ≤ deepest,
    (d.due i (some i)).map (Piece.of false) = es.flatMap (·.broken size i)
  flat : ∀ i ≤ deepest,
    (d.due i (some i)).map (Piece.of true) = wordPieces (es.flatMap HeaderEntry.words)
  width : d.flatWidth = columns (es.flatMap HeaderEntry.words)

theorem map_due_text (flat : Bool) (w : String) (next : Option Nat) :
    ((text w).due i next).map (Piece.of flat) = wordPieces [w] := by
  by_cases h : w = "" <;> simp [wordPieces, h, Piece.of]

@[simp] theorem groupless_text (w : String) : (text w).Groupless := by
  unfold text
  split <;> trivial

@[simp] theorem groupless_append {a b : Doc} :
    (a ++ b).Groupless ↔ a.Groupless ∧ b.Groupless := by
  change (Doc.append a b).Groupless ↔ _
  fun_cases Doc.append a b <;> simp

@[simp] theorem groupless_indented {d : Doc} {n : Int} :
    (d.indented n).Groupless ↔ d.Groupless := by
  fun_cases Doc.indented n d <;> simp

namespace Spells

variable {size : Nat} {es es' : List HeaderEntry} {d d' : Doc}

theorem nil : Spells size [] Doc.empty where
  groupless := trivial
  simple := Doc.simple_empty
  line := trivial
  broken _ _ := rfl
  flat _ _ := rfl
  width := rfl

theorem append (h : Spells size es d) (h' : Spells size es' d') :
    Spells size (es ++ es') (d ++ d') where
  groupless := groupless_append.2 ⟨h.groupless, h'.groupless⟩
  simple := Doc.simple_append.2 ⟨h.simple, h'.simple⟩
  line := Doc.isLine_append.2 ⟨h.line, h'.line⟩
  broken i hi := by simp [h.broken i hi, h'.broken i hi]
  flat i hi := by simp [h.flat i hi, h'.flat i hi]
  width := by simp [h.width, h'.width, columns]

theorem map_due_entry (hi : i ≤ deepest) (flat : Bool) (n : Int) (w : String) :
    (((Doc.line ++ text w).indented n).due i (some i)).map (Piece.of flat) =
      (if flat then .text " " else .newline (if w = "" then i else shift i n)) ::
        wordPieces [w] := by
  have hdue : ((Doc.line ++ text w).indented n).due i (some i) =
      (Doc.line, if w = "" then i else shift i n) :: (text w).due (shift i n) (some i) := by
    rw [Doc.due_indented hi, Doc.due_append]
    by_cases hw : w = "" <;> simp [hw, text, Doc.line]
  rw [hdue, List.map_cons, map_due_text]
  rfl

theorem snoc (h : Spells size es d) (separator : String) {level : Nat} {n : Int}
    (hn : n = level * size) (w : String) :
    Spells size (es ++ [⟨separator, level, w⟩])
      (d ++ text separator ++ (Doc.line ++ text w).indented n) where
  groupless := by simp [h.groupless, Doc.line]
  simple := by simp [h.simple]
  line := by simp [h.line]
  broken i hi := by
    have hshift : shift i n = min (i + level * size) deepest := by
      rw [hn, shift]
      norm_cast
    rw [Doc.due_append_some, Doc.due_append_some, List.map_append, List.map_append,
      h.broken i hi, map_due_text, map_due_entry hi, hshift]
    simp [HeaderEntry.broken, HeaderEntry.indent]
  flat i hi := by
    have hwords : wordPieces [separator, " ", w] =
        wordPieces [separator] ++ .text " " :: wordPieces [w] := wordPieces_cons separator [" ", w]
    rw [Doc.due_append_some, Doc.due_append_some, List.map_append, List.map_append,
      h.flat i hi, map_due_text, map_due_entry hi, List.flatMap_append, wordPieces_append,
      List.append_assoc, List.flatMap_singleton, HeaderEntry.words, hwords]
    rfl
  width := by
    have hline : Doc.line.flatWidth = Text.displayWidth " " := rfl
    simp [h.width, columns, HeaderEntry.words, hline, Nat.add_assoc]

end Spells

section Styles

variable {s : Style} (hsize : 2 * s.indentSize < 0x8000000000000000)
include hsize

theorem double_eq : s.double = 2 * s.indentSize := by
  rw [Style.double, Style.indent_eq_size (by omega), Style.offset]
  exact Int.bmod_eq_of_le (by omega) (by omega)

theorem spells_typeList (keyword : String) (types : List String) :
    Spells s.indentSize (Style.typeEntries keyword types) (s.typeList keyword types) := by
  have hfold (types : List String) (es : List HeaderEntry) (d : Doc)
      (h : Spells s.indentSize es d) :
      Spells s.indentSize (es ++ types.map fun type => ⟨",", 2, type⟩)
        (types.foldl
          (fun d type => d ++ text "," ++ (Doc.line ++ text type).indented s.double) d) := by
    induction types generalizing es d with
    | nil => simpa using h
    | cons type types ih => simpa using ih _ _ (h.snoc "," (double_eq hsize) type)
  cases types with
  | nil => exact .nil
  | cons first types => exact hfold types _ _ (Spells.nil.snoc "" (double_eq hsize) (keyword ++ first))

theorem exists_spells_supertypes (c : ClassDecl κ) :
    ∃ d, Spells s.indentSize (s.headerEntries c) d ∧ s.supertypes c = d.grouped := by
  have htypes := spells_typeList hsize
  unfold Style.headerEntries Style.supertypes
  have hentry (name : String) : Spells s.indentSize [⟨"", 1, "extends " ++ name⟩]
      (s.continued (text ("extends " ++ name))) := by
    have hlevel : s.indent = (1 : Nat) * s.indentSize := by
      simp [Style.indent_eq_size (show s.indentSize < 0x8000000000000000 by omega)]
    have hspelled := Spells.nil.snoc "" hlevel ("extends " ++ name)
    rwa [show text "" = Doc.empty from rfl, Doc.append_empty, Doc.empty_append] at hspelled
  cases htarget : s.target with
  | java =>
    cases c.kind with
    | interface => exact ⟨_, htypes _ _, rfl⟩
    | annotationType => exact ⟨_, .nil, rfl⟩
    | cls | enum =>
      cases c.superclass.filter (· ≠ s.lexicon.baseClass) with
      | none => exact ⟨_, Spells.nil.append (htypes _ _), rfl⟩
      | some name => exact ⟨_, (hentry name).append (htypes _ _), rfl⟩
  | kotlin =>
    cases c.kind with
    | cls =>
      refine ⟨_, htypes _ _, ?_⟩
      cases c.superclass.filter (· ≠ s.lexicon.baseClass) <;> rfl
    | annotationType => exact ⟨_, .nil, rfl⟩
    | interface | enum => exact ⟨_, htypes _ _, rfl⟩

/-- The group of the supertypes is flat if the header fits up to the brace, and
broken otherwise. -/
theorem place_supertypes (c : ClassDecl κ) {width : Nat} (hi : i ≤ deepest) (rest : List Pending)
    (hrest : nextIndent rest = some i)
    (hfits : ∀ column, restFits width rest column = decide (column + columns [" ", "\x7b"] ≤ width))
    (p : Page) :
    ((s.supertypes c).place width i false rest p).pieces =
      (if p.column + columns ((s.headerEntries c).flatMap HeaderEntry.words ++ [" ", "\x7b"]) ≤ width
        then wordPieces ((s.headerEntries c).flatMap HeaderEntry.words)
        else (s.headerEntries c).flatMap (·.broken s.indentSize i)).reverse ++ p.pieces := by
  obtain ⟨d, hd, heq⟩ := exists_spells_supertypes hsize c
  have hflat : d.fits width true (restFits width rest) p.column =
      decide (p.column +
        columns ((s.headerEntries c).flatMap HeaderEntry.words ++ [" ", "\x7b"]) ≤ width) := by
    rw [Bool.eq_iff_iff, Doc.fits_line_iff hd.line ?_, hfits, hd.width]
    · simp [columns, Nat.add_assoc]
    · intro column h
      rw [hfits, decide_eq_true_eq] at h
      omega
  rw [heq, Doc.place_grouped, Bool.false_or, hflat, hd.groupless.place hd.simple, hrest]
  split
  · next h => rw [decide_eq_true h, hd.flat i hi]
  · next h => rw [decide_eq_false h, hd.broken i hi]

end Styles

/-- The body of a class starts a line if there is anything in it. -/
def StartsLine (body : Doc) : Prop := body = .empty ∨ ∃ d, body = newline ++ d

theorem fits_braced (s : Style) {body : Doc} (hbody : StartsLine body) {width : Nat}
    (next : Nat → Bool) (column : Nat) :
    (s.braced body).fits width false next column = decide (column + 1 ≤ width) := by
  have hrest (column : Nat) : body.fits width false
      (newline.fits width false ((text "\x7d").fits width false next)) column = true := by
    rcases hbody with rfl | ⟨d, rfl⟩
    · rfl
    · rw [Doc.fits_append]
      rfl
  have hbrace : Text.displayWidth "\x7b" = 1 := by decide
  rw [Style.braced, Doc.fits_append, Doc.fits_append, Doc.fits_append,
    funext (Doc.fits_indented _ _), funext hrest]
  simp [text, Doc.fits, hbrace]

theorem exists_place_braced (s : Style) (body : Doc) (width i : Nat) (flat : Bool)
    (rest : List Pending) (p : Page) :
    ∃ members, ((s.braced body).place width i flat rest p).pieces =
      .text "\x7d" :: .newline i :: members ++ .text "\x7b" :: p.pieces := by
  have hopening (rest : List Pending) : (text "\x7b").place width i flat rest p = p.write "\x7b" :=
    rfl
  have hclosing (p : Page) : (text "\x7d").place width i flat rest
      (newline.place width i flat (follow i (text "\x7d") rest) p) =
        (p.breakLine i).write "\x7d" := rfl
  rw [Style.braced, Doc.place_append, Doc.place_append, Doc.place_append, hopening, hclosing]
  obtain ⟨members, hmembers⟩ := Doc.exists_suffix_place width i flat
    (follow i newline (follow i (text "\x7d") rest)) (body.indented s.indent) (p.write "\x7b")
  exact ⟨members, congrArg (fun pieces => Piece.text "\x7d" :: .newline i :: pieces) hmembers.symm⟩

def classFront (s : Style) (c : ClassDecl κ) : Doc :=
  s.linesAbove c ++ s.modifiers c.modifiers ++
    text (s.target.classKeyword c.kind ++ " " ++ c.name) ++ Style.generics c.generics

theorem exists_place_front (s : Style) (c : ClassDecl κ) (width i : Nat) (flat : Bool)
    (rest : List Pending) (p : Page) :
    ∃ before, ((classFront s c).place width i flat rest p).pieces =
        (wordPieces (s.headerWords c)).reverse ++ before.reverse ++ p.pieces ∧
      List.Forall₂ Piece.Writes before (s.linesAbove c).leaves := by
  have hgenerics : Style.generics c.generics =
      text (if c.generics.isEmpty then "" else "<" ++ ", ".intercalate c.generics ++ ">") := by
    unfold Style.generics
    split <;> rfl
  have hwords : wordPieces (s.headerWords c) =
      wordPieces [String.join ((Style.modifierWords s.target c.modifiers).map (· ++ " "))] ++
        wordPieces [s.target.classKeyword c.kind ++ " " ++ c.name] ++
        wordPieces [if c.generics.isEmpty then "" else "<" ++ ", ".intercalate c.generics ++ ">"] := by
    rw [← wordPieces_append, ← wordPieces_append]
    rfl
  rw [classFront, hgenerics, Style.modifiers, Doc.place_append, Doc.place_append, Doc.place_append,
    place_text_pieces, place_text_pieces, place_text_pieces, hwords]
  have hsimple : (s.linesAbove c).Simple :=
    Doc.simple_append.2 ⟨simple_packageAndImports s c, simple_annotations s c.annotations⟩
  obtain ⟨before, hbefore, hwrites⟩ := hsimple.place width i flat _ p
  refine ⟨before, ?_, hwrites⟩
  rw [hbefore]
  simp only [List.reverse_append, List.append_assoc]

/-- The header of a class is laid out in view of the columns it takes up to the
brace. -/
theorem place_class (s : Style) (hsize : 2 * s.indentSize < 0x8000000000000000) (c : ClassDecl κ)
    {body : Doc} (hbody : StartsLine body) (width : Nat) (hi : i ≤ deepest) (rest : List Pending)
    {p : Page} (hp : p.Sound) :
    ∃ before members,
      ((s.classHeader c ++ s.braced body).place width i false rest p).pieces.reverse =
        p.pieces.reverse ++ before ++
          s.headerPieces c
            (columnAfter (p.pieces.reverse ++ before) + columns (s.headerLine c) ≤ width) i ++
          members ++ [.newline i, .text "\x7d"] ∧
      List.Forall₂ Piece.Writes before (s.linesAbove c).leaves := by
  have hclass : s.classHeader c ++ s.braced body =
      classFront s c ++ s.supertypes c ++ text " " ++ s.braced body := rfl
  have hbraced : s.braced body ≠ .empty := by simp [Style.braced, text]
  rw [hclass, Doc.place_append, Doc.place_append, Doc.place_append, follow, if_neg hbraced]
  obtain ⟨before, hfront, hwrites⟩ := exists_place_front s c width i false
    (follow i (s.supertypes c) (follow i (text " ") (⟨i, s.braced body⟩ :: rest))) p
  have hsound := hp.place (d := classFront s c) width i false
    (follow i (s.supertypes c) (follow i (text " ") (⟨i, s.braced body⟩ :: rest)))
  generalize (classFront s c).place width i false _ p = front at hfront hsound
  have hfits (column : Nat) : restFits width (follow i (text " ") (⟨i, s.braced body⟩ :: rest))
      column = decide (column + columns [" ", "\x7b"] ≤ width) := by
    have hcolumns : columns [" ", "\x7b"] = 2 := by decide
    have hspace : Text.displayWidth " " = 1 := by decide
    rw [Doc.restFits_follow, hcolumns, text, if_neg (by decide), Doc.fits, restFits,
      fits_braced s hbody, hspace, ← Bool.decide_and, decide_eq_decide]
    omega
  have hsupertypes := place_supertypes hsize c hi
    (follow i (text " ") (⟨i, s.braced body⟩ :: rest)) rfl hfits front
  generalize (s.supertypes c).place width i false _ front = header at hsupertypes
  obtain ⟨members, hmembers⟩ := exists_place_braced s body width i false rest
    ((text " ").place width i false (⟨i, s.braced body⟩ :: rest) header)
  refine ⟨before, members.reverse, ?_, hwrites⟩
  have hcolumn : front.column + columns ((s.headerEntries c).flatMap HeaderEntry.words ++
      [" ", "\x7b"]) = columnAfter (p.pieces.reverse ++ before) + columns (s.headerLine c) := by
    have hcolumns (ws ws' : List String) : columns (ws ++ ws') = columns ws + columns ws' := by
      simp [columns]
    rw [hsound, hfront, List.reverse_append, List.reverse_append, List.reverse_reverse,
      List.reverse_reverse, ← List.append_assoc, columnAfter_words, Style.headerLine]
    simp only [hcolumns]
    omega
  rw [hmembers, place_text_pieces, hsupertypes, hfront, hcolumn, Style.headerPieces]
  have hline : wordPieces (s.headerLine c) = wordPieces (s.headerWords c) ++
      wordPieces ((s.headerEntries c).flatMap HeaderEntry.words) ++ [.text " ", .text "\x7b"] := by
    rw [Style.headerLine, wordPieces_append, wordPieces_append]
    rfl
  simp only [decide_eq_true_eq]
  split
  · rw [hline]
    simp [wordPieces]
  · simp [wordPieces]

end Entries

/-- A class is laid out as it should wherever it stands in a document. -/
theorem headerLaid_of_standsBetween {s : Style} (hsize : 2 * s.indentSize < 0x8000000000000000)
    {c : ClassDecl κ} {body d : Doc} (hbody : StartsLine body) {i : Nat} {above below : List Doc}
    (h : (s.classHeader c ++ s.braced body).StandsBetween i above below 0 d) :
    HeaderLaidBetween s c i above below d := by
  intro width
  have hnewline : newline ∈ (s.classHeader c ++ s.braced body).leaves := by simp [Style.braced]
  obtain ⟨rest, p, front, after, hp, hfront, hafter, hwrites⟩ :=
    h.place width hnewline [] Page.Sound.start
  obtain ⟨lines, members, hclass, hlines⟩ :=
    place_class s hsize c hbody width (h.le_deepest (Nat.zero_le _)) rest hp
  have hfront : p.pieces.reverse = front := by simp [hfront]
  refine ⟨front ++ lines, after, ⟨members, ?_⟩, fun hsimple => ?_⟩
  · rw [Doc.layout, hafter, List.reverse_append, hclass, hfront]
    simp
  · obtain ⟨habove, hbelow⟩ := hwrites hsimple
    exact ⟨List.rel_append habove hlines, hbelow⟩

end Unparse
