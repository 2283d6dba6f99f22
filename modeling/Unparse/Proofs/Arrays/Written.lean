import Unparse.Print.Style
import Unparse.Proofs.Layout.Laid

/-! # Texts of array creations

The text of an array creation has a place for each dimension. Whatever is written
there, and however it is laid out, the text around it is the same.
-/

namespace Unparse.Arrays

open Layout (Doc)

variable {α : Type}

/-- A text with places for expressions. -/
abbrev Template (α : Type) := List (Char ⊕ α)

namespace Template

def lit (s : String) : Template α := s.toList.map .inl

def hole (a : α) : Template α := [.inr a]

/-- The texts with something written in each place. -/
inductive Fills (lays : α → List Char → Prop) : Template α → List Char → Prop where
  | nil : Fills lays [] []
  | char {t : Template α} {cs : List Char} (c : Char) (h : Fills lays t cs) :
    Fills lays (.inl c :: t) (c :: cs)
  | hole {t : Template α} {a : α} {as cs : List Char} (ha : lays a as) (h : Fills lays t cs) :
    Fills lays (.inr a :: t) (as ++ cs)

variable {lays : α → List Char → Prop} {t u : Template α} {cs : List Char}

theorem fills_append :
    Fills lays (t ++ u) cs ↔ ∃ x y, Fills lays t x ∧ Fills lays u y ∧ cs = x ++ y := by
  constructor
  · intro h
    induction t generalizing cs with
    | nil => exact ⟨[], cs, .nil, h, rfl⟩
    | cons part t ih =>
      cases h with
      | char c h =>
        obtain ⟨x, y, hx, hy, rfl⟩ := ih h
        exact ⟨c :: x, y, .char c hx, hy, rfl⟩
      | @hole _ _ as _ ha h =>
        obtain ⟨x, y, hx, hy, rfl⟩ := ih h
        exact ⟨as ++ x, y, .hole ha hx, hy, (List.append_assoc ..).symm⟩
  · rintro ⟨x, y, hx, hy, rfl⟩
    induction hx with
    | nil => exact hy
    | char c _ ih => exact .char c ih
    | hole ha _ ih =>
      rw [List.append_assoc]
      exact .hole ha ih

theorem fills_lit {s : String} : Fills lays (lit s) cs ↔ cs = s.toList := by
  unfold lit
  generalize s.toList = s
  induction s generalizing cs with
  | nil =>
    constructor
    · rintro ⟨⟩
      rfl
    · rintro rfl
      exact .nil
  | cons c s ih =>
    constructor
    · intro h
      cases h with
      | char _ h => rw [ih.mp h]
    · rintro rfl
      exact .char c (ih.mpr rfl)

theorem fills_hole {a : α} : Fills lays (hole a) cs ↔ lays a cs := by
  constructor
  · intro h
    cases h with
    | hole ha h =>
      cases h
      rwa [List.append_nil]
  · intro h
    rw [← List.append_nil cs]
    exact .hole h .nil

end Template

open Template

/-- However it is laid out, the document is the text, filled in with documents. -/
def LaidAs (doc : α → Doc) (d : Doc) (t : Template α) : Prop :=
  ∀ cs, d.Lays cs ↔ t.Fills (fun a => (doc a).Lays) cs

namespace LaidAs

variable {doc : α → Doc} {d e : Doc} {t u : Template α}

theorem append (hd : LaidAs doc d t) (he : LaidAs doc e u) : LaidAs doc (d ++ e) (t ++ u) := by
  intro cs
  simp only [Doc.lays_append, fills_append, hd _, he _]

theorem word (s : String) : LaidAs doc (.word s) (lit s) := fun _ => fills_lit.symm

theorem text (s : String) : LaidAs doc (Doc.text s) (lit s) := fun _ =>
  Doc.lays_text.trans fills_lit.symm

theorem hole (a : α) : LaidAs doc (doc a) (Template.hole a) := by
  intro cs
  exact Iff.symm fills_hole

theorem empty : LaidAs doc .empty [] := by
  intro cs
  constructor
  · rintro rfl
    exact .nil
  · rintro ⟨⟩
    rfl

end LaidAs

def bracketed (dimensions : List α) : Template α :=
  dimensions.flatMap fun d => lit "[" ++ hole d ++ lit "]"

def call (function : String) (argument : α) : Template α :=
  lit function ++ (lit "(" ++ hole argument ++ lit ")")

def nested (element : String) : List α → Template α
  | [] => []
  | [size] =>
    match TypeName.primitive? element with
    | some p => call (p ++ "Array") size
    | none => call ("arrayOfNulls<" ++ TypeName.spell element ++ ">") size
  | size :: sizes => call "Array" size ++ lit " \x7b " ++ nested element sizes ++ lit " \x7d"

def creation (target : Target) (element : String) (dimensions : List α) : Template α :=
  match target with
  | .java => lit ("new " ++ element) ++ bracketed dimensions
  | .kotlin => nested element dimensions

theorem laidAs_bracketed (doc : α → Doc) (dimensions : List α) {head : Doc} {t : Template α}
    (h : LaidAs doc head t) :
    LaidAs doc ((dimensions.map doc).foldl (fun d size => d ++ size.brackets) head)
      (t ++ bracketed dimensions) := by
  induction dimensions generalizing head t with
  | nil => simpa [bracketed] using h
  | cons d ds ih =>
    have hd := ih (h.append (((LaidAs.word "[").append (.hole d)).append (.word "]")))
    rwa [List.append_assoc] at hd

theorem laidAs_nested (element : String) (doc : α → Doc) (dimensions : List α) :
    LaidAs doc (Style.sizedArray element (dimensions.map doc)) (nested element dimensions) := by
  have hcall (f : String) (d : α) : LaidAs doc (Doc.text f ++ (doc d).parens) (call f d) :=
    (LaidAs.text f).append (((LaidAs.word "(").append (.hole d)).append (.word ")"))
  induction dimensions with
  | nil => exact .empty
  | cons d ds ih =>
    cases ds with
    | nil =>
      rw [List.map_singleton, Style.sizedArray, nested]
      cases TypeName.primitive? element with
      | none => exact hcall _ d
      | some p => exact hcall _ d
    | cons e ds =>
      exact (((hcall "Array" d).append (.text " \x7b ")).append ih).append (.text " \x7d")

/-- The text does not depend on what the dimensions are, or on the layout. -/
theorem laidAs_creation (s : Style) (element : String) (doc : α → Doc) (dimensions : List α) :
    LaidAs doc (s.createArray element (dimensions.map doc) none)
      (creation s.target element dimensions) := by
  unfold Style.createArray creation
  cases s.target with
  | java => exact laidAs_bracketed doc dimensions (.text _)
  | kotlin => exact laidAs_nested element doc dimensions

end Unparse.Arrays
