import Unparse.Proofs.Layout.Indents
import Unparse.Proofs.Listing.Parts

/-! # Nesting of code

The parts of code are read from left to right to see which braces are open at each of
them. A line is indented by one level for every brace that is open, and by another one
for each of these that is a `switch` with cases: whatever stands in it but the labels
belongs to a case. Line breaks are read together with the indentations that they are due.
-/

namespace Unparse

open Layout (Doc deepest shift)
open Unparse.Part (newline keyword label expression binding caseLabel item clause)

/-- The braces that are open somewhere in code. -/
structure Nesting where
  braces : List Bool := []
  switching : Bool := false
deriving DecidableEq

/-- A level for every brace, and one for the case in each `switch`. -/
def levels (braces : List Bool) : Nat := braces.length + braces.count true

def armWords : List String := ["case ", "default -> "]

namespace Nesting

/-- The braces that are open after a part. A `switch` over arms has no cases. -/
def step (ns : Nesting) : Part → Nesting
  | keyword word =>
    if word = "switch " then { ns with switching := true }
    else if word ∈ ["\x7b", " \x7b"] then ⟨ns.switching :: ns.braces, false⟩
    else if word = "\x7d" then { ns with braces := ns.braces.tail }
    else if word ∈ armWords then { ns with braces := false :: ns.braces.tail }
    else ns
  | _ => ns

/-- The levels of a line that starts with a part. A closing brace stands as the line
in which it was opened, and a label in front of its case. -/
def levelsAt (ns : Nesting) : Part → Nat
  | keyword word =>
    if word = "\x7d" then levels ns.braces.tail
    else if word ∈ armWords then levels (false :: ns.braces.tail)
    else levels ns.braces
  | caseLabel _ => levels ns.braces - 1
  | _ => levels ns.braces

def read (ns : Nesting) (ps : List Part) : Nesting := ps.foldl step ns

end Nesting

/-- The indentation of a line, `n` levels inside of what is indented by `j`. -/
def Style.blanks (s : Style) (j n : Nat) : Nat := min (j + n * s.indentSize) deepest

def Part.startsLine : Part → Bool
  | item _ => true
  | keyword word => word = "\x7d"
  | _ => false

/-- Parts are read along leaves and their indentations. Where a line starts, `line` is
its indentation, which is right for the part that follows. -/
inductive Reading (s : Style) (j : Nat) :
    Nesting → Option Nat → List Part → List (Doc × Nat) → Nesting → Option Nat → Prop where
  | nil (ns : Nesting) (line : Option Nat) : Reading s j ns line [] [] ns line
  | lineBreak {ns ns' : Nesting} {line line' : Option Nat} {ps : List Part} {ls : List (Doc × Nat)}
      (n : Nat) (h : Reading s j ns (some n) ps ls ns' line') :
      Reading s j ns line (newline :: ps) ((Doc.newline, n) :: ls) ns' line'
  | part {ns ns' : Nesting} {line line' : Option Nat} {p : Part} {ps : List Part}
      {own ls : List (Doc × Nat)} (hp : p ≠ newline) (hown : own.map Prod.fst = (p.doc s).leaves)
      (hline : ∀ n ∈ line, n = s.blanks j (ns.levelsAt p))
      (hstarts : p.startsLine = true → line ≠ none)
      (h : Reading s j (ns.step p) none ps ls ns' line') :
      Reading s j ns line (p :: ps) (own ++ ls) ns' line'

theorem levels_cons (b : Bool) (braces : List Bool) :
    levels (b :: braces) = levels braces + if b then 2 else 1 := by
  cases b <;> simp [levels] <;> omega

section Blanks

variable {s : Style}

theorem Style.blanks_le (s : Style) (j n : Nat) : s.blanks j n ≤ deepest := Nat.min_le_right _ _

theorem Style.blanks_zero {j : Nat} (hj : j ≤ deepest) : s.blanks j 0 = j := by
  simp [blanks, hj]

theorem Style.blanks_blanks (s : Style) (j m n : Nat) :
    s.blanks (s.blanks j m) n = s.blanks j (m + n) := by
  rw [blanks, blanks, blanks, Nat.add_mul]
  omega

theorem Style.shift_blanks (hsize : s.indentSize < 0x8000000000000000) (j n : Nat) :
    shift (s.blanks j n) s.indent = s.blanks j (n + 1) := by
  rw [indent_eq_size hsize, shift, blanks, blanks, Nat.add_one_mul]
  omega

end Blanks

namespace Reading

variable {s : Style} {j : Nat} {ns ns' ns'' : Nesting} {line line' line'' : Option Nat}
  {ps qs before after : List Part} {p : Part} {ls ms : List (Doc × Nat)}

theorem append (h : Reading s j ns line ps ls ns' line')
    (h' : Reading s j ns' line' qs ms ns'' line'') :
    Reading s j ns line (ps ++ qs) (ls ++ ms) ns'' line'' := by
  induction h with
  | nil => exact h'
  | lineBreak n _ ih => exact .lineBreak n (ih h')
  | part hp hown hline hstarts _ ih =>
    rw [List.append_assoc]
    exact .part hp hown hline hstarts (ih h')

/-- What has been read in front of a part, and the part itself. -/
theorem exists_split (h : Reading s j ns line (before ++ p :: after) ls ns' line')
    (hp : p ≠ newline) : ∃ ls₁ own ls₂ line₁, ls = ls₁ ++ own ++ ls₂ ∧
      Reading s j ns line before ls₁ (ns.read before) line₁ ∧
      own.map Prod.fst = (p.doc s).leaves ∧
      (∀ n ∈ line₁, n = s.blanks j ((ns.read before).levelsAt p)) ∧
      (p.startsLine = true → line₁ ≠ none) := by
  induction before generalizing ns line ls with
  | nil =>
    cases h with
    | lineBreak => exact absurd rfl hp
    | @part _ _ _ _ _ _ own ls _ hown hline hstarts _ =>
      exact ⟨[], own, ls, line, rfl, .nil ns line, hown, hline, hstarts⟩
  | cons q before ih =>
    cases h with
    | lineBreak n h =>
      obtain ⟨ls₁, own, ls₂, line₁, rfl, h₁, hrest⟩ := ih h
      exact ⟨_, own, ls₂, line₁, rfl, .lineBreak n h₁, hrest⟩
    | part hq hown hline hstarts h =>
      obtain ⟨ls₁, own, ls₂, line₁, rfl, h₁, hrest⟩ := ih h
      exact ⟨_, own, ls₂, line₁, by simp only [List.append_assoc],
        .part hq hown hline hstarts h₁, hrest⟩

/-- Where a line starts, a line break has been read last, if anything has. -/
theorem exists_newline {n : Nat} (h : Reading s j ns line ps ls ns' line')
    (hline' : line' = some n) :
    (ps = [] ∧ ls = [] ∧ line = some n) ∨ ∃ qs ms, ps = qs ++ [newline] ∧
      ls = ms ++ [(Doc.newline, n)] ∧ ms.map Prod.fst = leavesOf s qs := by
  induction h with
  | nil => exact .inl ⟨rfl, rfl, hline'⟩
  | lineBreak m _ ih =>
    rcases ih hline' with ⟨rfl, rfl, hm⟩ | ⟨qs, ms, rfl, rfl, hleaves⟩
    · obtain rfl : m = n := Option.some.inj hm
      exact .inr ⟨[], [], rfl, rfl, rfl⟩
    · exact .inr ⟨newline :: qs, _ :: ms, rfl, rfl, by simp [hleaves, Part.doc]⟩
  | @part _ _ _ _ p _ own _ _ hown _ _ _ ih =>
    rcases ih hline' with ⟨-, -, hnone⟩ | ⟨qs, ms, rfl, rfl, hleaves⟩
    · cases hnone
    · exact .inr ⟨p :: qs, own ++ ms, rfl, by simp, by simp [hleaves, hown]⟩

end Reading

end Unparse
