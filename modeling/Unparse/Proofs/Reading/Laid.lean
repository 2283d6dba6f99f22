import Unparse.Proofs.Layout.Laid
import Unparse.Proofs.Reading.Grouping

/-! # Operations of constants on several lines

Operations of constants are read back from a page of any width: a line breaks
behind an operator only, and nothing but blanks stands in front of what follows.
-/

namespace Unparse.Reading

open Layout (Doc)

/-- A text that is read as tokens of its own before what stands apart from them,
and that tidying copies. -/
structure Stands (cs : List Char) (ts : List Token) : Prop where
  ne_nil : cs ≠ []
  reads : ∀ rest, Apart rest → lex .blank (cs ++ rest) = ts ++ lex .blank rest
  kept : Text.Kept cs

theorem Spells.stands {tight : Bool} {cs : List Char} {ts : List Token}
    (h : Spells tight cs ts) : Stands cs ts := by
  obtain ⟨c, hlast, hblank⟩ := h.last
  exact ⟨h.ne_nil, h.reads, Text.kept_of_line h.line hlast hblank⟩

namespace Stands

variable {cs ds : List Char} {ts us : List Token}

theorem round (h : Stands cs ts) :
    Stands ('(' :: cs ++ [')']) (.symbol "(" :: ts ++ [.symbol ")"]) where
  ne_nil := by simp
  reads rest _ := by
    have hclose : Apart ([')'] ++ rest) := by simp [Apart]; decide
    have hcs : lex .blank (cs ++ ([')'] ++ rest)) = ts ++ .symbol ")" :: lex .blank rest := by
      rw [h.reads _ hclose, covers_close.reads]
      rfl
    have hopen := covers_open.reads (cs ++ ([')'] ++ rest))
    rw [hcs] at hopen
    simpa using hopen
  kept := by
    have hmark {c : Char} (hn : '\n' ∉ [c]) (hc : Text.isBlank c = false) : Text.Kept [c] :=
      Text.kept_of_line hn rfl hc
    exact ((hmark (c := '(') (by decide) (by decide)).append h.kept).append
      (hmark (c := ')') (by decide) (by decide))

theorem lex_blanks (n : Nat) (rest : List Char) :
    lex .blank (List.replicate n ' ' ++ rest) = lex .blank rest := by
  induction n with
  | zero => rfl
  | succ n ih => exact ih

theorem lex_operator_break (t : Target) (op : BinaryOp) (rest : List Char) :
    lex .blank ((" " ++ t.binaryToken op).toList ++ '\n' :: rest) =
      operatorToken (t.binaryToken op) :: lex .blank rest := by
  cases t <;> cases op <;> rfl

theorem kept_operator (t : Target) (op : BinaryOp) :
    Text.Kept (" " ++ t.binaryToken op).toList := by
  cases t <;> cases op <;> exact Text.kept_of_line (by decide) rfl (by decide)

theorem operation (t : Target) (op : BinaryOp) (hl : Stands cs ts) (hr : Stands ds us)
    {gap : List Char} (hgap : Doc.line.Lays gap) :
    Stands (cs ++ (" " ++ t.binaryToken op).toList ++ (gap ++ ds))
      (ts ++ operatorToken (t.binaryToken op) :: us) where
  ne_nil := by simp [hl.ne_nil]
  reads rest hrest := by
    have hoperator : lex .blank ((" " ++ t.binaryToken op).toList ++ (gap ++ (ds ++ rest))) =
        operatorToken (t.binaryToken op) :: (us ++ lex .blank rest) := by
      rw [← hr.reads rest hrest]
      rcases Doc.lays_line.mp hgap with ⟨n, rfl⟩ | rfl
      · rw [List.cons_append, lex_operator_break, lex_blanks]
      · simpa using (IsSpelled.operator t op).reads (ds ++ rest)
    have hapart : Apart ((" " ++ t.binaryToken op).toList ++ (gap ++ (ds ++ rest))) := by
      simpa using IsSpelled.apart_blank _
    have hleft := hl.reads _ hapart
    rw [hoperator] at hleft
    simpa using hleft
  kept := by
    have hleft := hl.kept.append (kept_operator t op)
    rcases Doc.lays_line.mp hgap with ⟨n, rfl⟩ | rfl
    · simpa using hleft.append_break hr.kept hr.ne_nil n
    · have hblank : Text.Kept (' ' :: ds) := by
        intro n rest
        simpa [List.replicate_succ'] using hr.kept (n + 1) rest
      exact hleft.append hblank

end Stands

/-- An expression whose texts are all read as its tokens. -/
def StandsLaid (s : Style) (e : ExprCode) : Prop :=
  ∀ cs, (e.doc s).Lays cs → Stands cs (tokens s.target e)

namespace StandsLaid

variable {s : Style} {e l r : ExprCode} {cs : List Char}

theorem const {value : Literal} (h : ∀ w, value = .name w → isWord w = true) :
    StandsLaid s (.const value) := by
  intro cs hcs
  have hspelled := IsSpelled.const (s := s) h
  rw [IsSpelled] at hspelled
  simp only [Expr.doc, Doc.lays_text] at hcs
  simp only [Expr.doc, Doc.flat_text] at hspelled
  rw [hcs]
  exact hspelled.stands

theorem operand (h : StandsLaid s e) (around : Operation) (associative : Bool)
    (hcs : (s.operand e.operation? around associative (e.doc s)).Lays cs) :
    Stands cs (enclosed (encloses s.target e.operation? around associative)
      (tokens s.target e)) := by
  rw [operand_eq] at hcs
  cases hb : encloses s.target e.operation? around associative with
  | false =>
    rw [hb] at hcs
    exact h cs hcs
  | true =>
    rw [hb] at hcs
    obtain ⟨x, hx, rfl⟩ := Doc.lays_parens.mp hcs
    exact (h x hx).round

theorem binary (op : BinaryOp) (hl : StandsLaid s l) (hr : StandsLaid s r) :
    StandsLaid s (.binary op l r) := by
  intro cs hcs
  simp only [Expr.doc, Style.binary, Style.continued, Doc.lays_grouped, Doc.lays_append,
    Doc.lays_indented, Doc.lays_text] at hcs
  obtain ⟨_, _, ⟨x, _, hx, rfl, rfl⟩, ⟨gap, y, hgap, hy, rfl⟩, rfl⟩ := hcs
  exact (hl.operand _ _ hx).operation s.target op (hr.operand _ _ hy) hgap

end StandsLaid

/-- A page of any width is read as the tree of the expression. -/
theorem read_render_of_standsLaid {s : Style} {e : ExprCode} (h : StandsLaid s e)
    (hreadable : isReadable s.target (isBare s.target) (fun _ => false) e = true) (width : Nat) :
    read s.target ((e.doc s).render width) = some (codeTree s.target e) := by
  obtain ⟨cs, hcs, hrender⟩ := Doc.exists_lays_render (e.doc s) width
  have hstands := h cs hcs
  have htokens : tokensOf ((e.doc s).render width) = tokens s.target e := by
    have hlex := hstands.reads [] trivial
    simpa [tokensOf, hrender, hstands.kept.tidied_eq, lex, Pending.tokens] using hlex
  exact read_of_tokens hreadable htokens

end Unparse.Reading
