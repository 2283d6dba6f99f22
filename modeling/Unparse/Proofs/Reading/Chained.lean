import Unparse.Proofs.Layout.Leaves
import Unparse.Proofs.Meaning.Compound
import Unparse.Proofs.Reading.Grouping

/-! # Operands in chains

A right operand that repeats an associative operator stands without brackets, so its
operands follow one another behind operators. They are combined from the left, whatever
they are read as. An operand of another operator of the same level would be read in
another place, so such chains are left out.
-/

namespace Unparse

open Layout (Doc)
open Layout.Doc (text)

/-- Whether a chain of an associative operator has a left operand of the same level with
another operator. It would stand without brackets. -/
def Expr.mixes {ν κ : Type} (t : Target) (op : BinaryOp) : Expr ν κ → Bool
  | .binary op' l r =>
    op' = op && op.isAssociative &&
      (l.operation?.any (fun o => o ≠ .binary op && t.priority o = t.priority (.binary op)) ||
        mixes t op l || mixes t op r)
  | _ => false

namespace Reading

variable {t : Target} {op : BinaryOp} {s : Style} {r : ExprCode}

/-- Tokens that are read as a whole next to an operator. -/
def IsWhole (t : Target) (op : BinaryOp) (ts : List Token) (x : Tree) : Prop :=
  ∀ K rest, (∀ n < t.priority (.binary op), Admits t n K) → Ends t (t.priority (.binary op)) rest →
    run t ⟨.operand, K⟩ (ts ++ rest) = run t ⟨.complete x, K⟩ rest

def chainTokens (t : Target) (op : BinaryOp) (tss : List (List Token)) : List Token :=
  tss.flatMap fun ts => operatorToken (t.binaryToken op) :: ts

theorem ends_chainTokens (tss : List (List Token)) :
    Ends t (t.priority (.binary op)) (chainTokens t op tss) := by
  cases tss with
  | nil => nofun
  | cons ts tss => exact ends_operatorToken t op _

theorem run_chainTokens {es : List ExprCode} {ts : ExprCode → List Token} {y : ExprCode → Tree}
    (h : ∀ e ∈ es, IsWhole t op (ts e) (y e)) (x : Tree) :
    run t ⟨.complete x, []⟩ (chainTokens t op (es.map ts)) =
      some ((es.map y).foldl (.binary op) x) := by
  induction es generalizing x with
  | nil => rfl
  | cons e es ih =>
    have hends : Ends t (t.priority (.binary op)) (chainTokens t op (es.map ts)) :=
      ends_chainTokens _
    have hwhole := h e List.mem_cons_self [.right (t.priority (.binary op)) op x]
      (chainTokens t op (es.map ts)) (fun n hn => admits_cons rfl hn) hends
    have htail := ih (fun x hx => h x (List.mem_cons_of_mem e hx)) (.binary op x (y e))
    rw [List.map_cons, chainTokens, List.flatMap_cons, List.cons_append,
      run_operatorToken (by nofun), ← chainTokens, hwhole,
      run_close rfl (level_lt_closing t (some (.binary op))) hends]
    exact htail

theorem run_links {e : ExprCode} {es : List ExprCode} {ts : ExprCode → List Token}
    {x : ExprCode → Tree} (h : ∀ a ∈ e :: es, IsWhole t op (ts a) (x a)) :
    run t ⟨.operand, []⟩ (ts e ++ chainTokens t op (es.map ts)) =
      some ((es.map x).foldl (.binary op) (x e)) := by
  have hfirst := h e List.mem_cons_self [] (chainTokens t op (es.map ts)) (by nofun)
    (ends_chainTokens _)
  rw [hfirst, run_chainTokens fun a ha => h a (List.mem_cons_of_mem e ha)]

/-- A left operand that does not mix operators of one level stands in brackets as a right
one does. -/
theorem encloses_left {own : Option Operation} (hassoc : op.isAssociative = true)
    (h : (own.any fun o =>
      o ≠ .binary op && t.priority o = t.priority (.binary op)) = false) :
    encloses t own (.binary op) true = encloses t own (.binary op) (regroups t op own) := by
  cases own with
  | none => rfl
  | some o =>
    by_cases ho : o = .binary op
    · simp [regroups, ho, Target.isAssociative, hassoc]
    · have hne : t.priority o ≠ t.priority (.binary op) := by simpa [ho] using h
      simp [encloses, needsBrackets, hne]

theorem regroups_eq_false (h : isBinary r = false) : regroups t op r.operation? = false := by
  cases r with
  | binary => cases h
  | _ => simp [regroups, Expr.operation?]

theorem operands_of_not_binary (h : isBinary r = false) : r.operands op = [r] := by
  cases r with
  | binary => cases h
  | _ => rfl

/-- What is written of a right operand is what is written of the operands in its chain,
each behind the operator. This holds of words and of tokens. -/
theorem written_links {X : Type} (enc : Bool → List X → List X) (o : List X)
    (F : ExprCode → List X) (henc : ∀ xs, enc false xs = xs)
    (hbinary : ∀ l r, F (.binary op l r) =
      enc (encloses t l.operation? (.binary op) true) (F l) ++
        (o ++ enc (encloses t r.operation? (.binary op) (regroups t op r.operation?)) (F r)))
    (h : r.mixes t op = false) :
    o ++ enc (encloses t r.operation? (.binary op) (regroups t op r.operation?)) (F r) =
      (r.links op).flatMap fun e =>
        o ++ enc (encloses t e.operation? (.binary op) false) (F e) := by
  by_cases hassoc : op.isAssociative = true
  · have hsingle {e : ExprCode} (he : isBinary e = false) :
        o ++ enc (encloses t e.operation? (.binary op) (regroups t op e.operation?)) (F e) =
          (e.operands op).flatMap fun e =>
            o ++ enc (encloses t e.operation? (.binary op) false) (F e) := by
      simp [regroups_eq_false he, operands_of_not_binary he]
    rw [Expr.links, if_pos hassoc]
    induction r using Expr.induct with
    | binary op' l r ihl ihr =>
      by_cases heq : op' = op
      · subst heq
        simp only [Expr.mixes, hassoc, decide_true, Bool.true_and, Bool.or_eq_false_iff] at h
        obtain ⟨⟨hleft, hl⟩, hr⟩ := h
        have hopen : encloses t (Expr.binary op' l r).operation? (.binary op')
            (regroups t op' (Expr.binary op' l r).operation?) = false := by
          simp [encloses, needsBrackets, regroups, Expr.operation?, Target.isAssociative, hassoc]
        rw [hopen, henc, hbinary, encloses_left hassoc hleft, Expr.operands, if_pos rfl,
          List.flatMap_append, ← ihl hl, ← ihr hr, List.append_assoc]
      · have hregroups : regroups t op (Expr.binary op' l r).operation? = false := by
          simp [regroups, Expr.operation?, heq]
        simp [Expr.operands, heq, hregroups]
    | _ => exact hsingle rfl
  · have hregroups : regroups t op r.operation? = false := by
      simp [regroups, Target.isAssociative, hassoc]
    simp [Expr.links, hassoc, hregroups]

def linkDoc (s : Style) (op : BinaryOp) (e : ExprCode) : Doc :=
  text (" " ++ s.target.binaryToken op) ++ Doc.line ++
    s.operand e.operation? (.binary op) false (e.doc s)

theorem leaves_operand (own : Option Operation) (around : Operation) (associative : Bool)
    (d : Doc) :
    (s.operand own around associative d).leaves =
      if encloses s.target own around associative then .word "(" :: d.leaves ++ [.word ")"]
      else d.leaves := by
  rw [operand_eq]
  split <;> simp

theorem leaves_binary (l : ExprCode) (h : r.mixes s.target op = false) :
    ((Expr.binary op l r).doc s).leaves =
      (s.operand l.operation? (.binary op) true (l.doc s)).leaves ++
        (r.links op).flatMap fun e => (linkDoc s op e).leaves := by
  have hbinary (l r : ExprCode) : ((Expr.binary op l r).doc s).leaves =
      (s.operand l.operation? (.binary op) true (l.doc s)).leaves ++
        ((text (" " ++ s.target.binaryToken op) ++ Doc.line).leaves ++
          (s.operand r.operation? (.binary op) (regroups s.target op r.operation?)
            (r.doc s)).leaves) := by
    simp [Expr.doc, Style.binary, Style.continued, Target.token, regroups]
  have hlinks := written_links (fun b ds => if b then .word "(" :: ds ++ [.word ")"] else ds)
    (text (" " ++ s.target.binaryToken op) ++ Doc.line).leaves (fun e => (e.doc s).leaves)
    (fun _ => rfl) (by simpa only [leaves_operand] using hbinary) h
  rw [hbinary]
  simp only [leaves_operand, linkDoc, Layout.Doc.leaves_append] at hlinks ⊢
  rw [hlinks]

def operandTokens (t : Target) (op : BinaryOp) (e : ExprCode) : List Token :=
  enclosed (encloses t e.operation? (.binary op) false) (tokens t e)

theorem tokens_binary (l : ExprCode) (h : r.mixes t op = false) :
    tokens t (.binary op l r) =
      enclosed (encloses t l.operation? (.binary op) true) (tokens t l) ++
        chainTokens t op ((r.links op).map (operandTokens t op)) := by
  have hlinks := written_links enclosed [operatorToken (t.binaryToken op)] (tokens t)
    (fun _ => rfl) (fun l r => by rw [tokens]; rfl) h
  rw [tokens, chainTokens, List.flatMap_map]
  exact congrArg _ hlinks

variable {e : ExprCode}

/-- Readable code whose text is read as its tree. -/
abbrev ReadsBack (t : Target) (e : ExprCode) : Prop :=
  isReadable t (isBare t) (fun _ => false) e = true

theorem isWhole_operandTokens (h : ReadsBack t e) :
    IsWhole t op (operandTokens t op e) (codeTree t e) := by
  intro K rest hK hrest
  have hpos := priority_binary_gt t op
  refine run_operand (isRead_of_isReadable h).1 (fun h => by omega) fun hb => ?_
  have hlt := (level_of_encloses hb).2 rfl
  exact ⟨hK _ hlt, follows_of_ends (Nat.le_of_lt hlt) hrest⟩

theorem readsBack_links (h : ReadsBack t r) : ∀ e ∈ r.links op, ReadsBack t e := by
  have hoperands : ∀ e ∈ r.operands op, ReadsBack t e := by
    induction r using Expr.induct with
    | binary op' l r ihl ihr =>
      have hparts := h
      simp only [ReadsBack, isReadable, Bool.and_eq_true] at hparts
      rw [Expr.operands]
      split
      · simpa [or_imp, forall_and] using ⟨ihl hparts.1, ihr hparts.2⟩
      · simpa using h
    | _ => simpa [Expr.operands] using h
  rw [Expr.links]
  split
  · exact hoperands
  · simpa using h

theorem encloses_of_isTarget (h : isTarget e = true) {around : Operation}
    (ha : 1 < t.priority around) (associative : Bool) :
    encloses t e.operation? around associative = false := by
  have hlevel := level_of_isTarget (t := t) h
  cases hop : e.operation? with
  | none => rfl
  | some o =>
    have ho : t.priority o < t.priority around := by
      simp only [hop, level, Option.map_some, Option.getD_some] at hlevel
      omega
    simp [encloses, needsBrackets, Nat.not_lt_of_lt ho, Nat.ne_of_lt ho]

theorem encloses_binary_of_isTarget (h : isTarget e = true) (associative : Bool) :
    encloses t e.operation? (.binary op) associative = false :=
  encloses_of_isTarget h (Nat.lt_trans (by decide) (priority_binary_gt t op)) associative

end Reading

end Unparse
