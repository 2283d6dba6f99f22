import Unparse.Proofs.Reading.Operators
import Unparse.Proofs.Reading.Spelling

/-! # Groups of expressions

The text of a readable expression is read as its tree, by induction on the
expression. In front of a cast the first token of the operand decides whether a
name in brackets is a type.
-/

namespace Unparse.Reading

variable {t : Target} {e l r : ExprCode} {K : List Frame} {rest : List Token}

theorem isName_constants (t : Target) :
    ∀ w ∈ ["null", "true", "false", "Float", "Double", "NaN", "POSITIVE_INFINITY",
      "NEGATIVE_INFINITY"], isName t w = true := by
  cases t <;> decide

def Atom.IsNamed (t : Target) : Atom → Prop
  | .word w => isName t w = true
  | .member owner _ => isName t owner = true
  | _ => True

theorem isNamed_ofFloating {f : Decimal.BinaryFormat} {cls suffix : String}
    (hc : isName t cls = true) (v : Decimal.BinaryValue) :
    (Atom.ofFloating f cls suffix v).IsNamed t := by
  rcases v with _ | negative | _
  · exact hc
  · cases negative <;> exact hc
  · trivial

theorem isNamed_ofLiteral {value : Literal} (h : ∀ w, value = .name w → isName t w = true) :
    (Atom.ofLiteral t value).IsNamed t := by
  cases value with
  | null => exact isName_constants t _ (by simp)
  | bool b => cases b <;> exact isName_constants t _ (by simp)
  | float bits => exact isNamed_ofFloating (isName_constants t _ (by simp)) _
  | double bits => exact isNamed_ofFloating (isName_constants t _ (by simp)) _
  | name w => exact h w rfl
  | _ => trivial

theorem isRead_const {value : Literal} (h : ∀ w, value = .name w → isName t w = true) :
    IsRead t (.const value) := by
  intro K rest _ hrest
  have hnamed := isNamed_ofLiteral h
  have hneg := Atom.isNegative_ofLiteral t value
  rw [codeTree, tree, treeBy, tokens]
  cases ha : Atom.ofLiteral t value with
  | word w =>
    have hw : isName t w = true := by rwa [ha] at hnamed
    exact (run_name hw).trans (run_word (not_round_of_follows hrest))
  | member owner name =>
    have ho : isName t owner = true := by rwa [ha] at hnamed
    refine (run_name ho).trans ?_
    rw [run_word (by simp)]
    exact run_point.trans (run_named (not_round_of_follows hrest))
  | quoted s => exact run_begin rfl
  | number negative s =>
    cases negative with
    | false => exact run_begin rfl
    | true =>
      have hlevel : level t (Expr.const value : ExprCode).operation? = 2 := by
        have hvalue : value.isNegative = true := by rw [← hneg, ha]; rfl
        simp only [Expr.operation?, hvalue, if_true]
        cases t <;> rfl
      have hends : Ends t 2 rest := hlevel ▸ ends_of_follows hrest (by omega)
      have hb : begin? t K (.symbol "-") = some ⟨.operand, .unary .negate :: K⟩ := by
        cases t <;> rfl
      refine (run_begin hb).trans ((run_begin rfl).trans ?_)
      exact run_close rfl (by decide) hends

/-- Whether the first token of an operand opens one of a cast. -/
def Opens (ts : List Token) : Prop := ∃ tok ∈ ts.head?, opensCast tok = true

theorem opens_append {ts us : List Token} (h : Opens ts) : Opens (ts ++ us) := by
  obtain ⟨tok, htok, ho⟩ := h
  exact ⟨tok, by simp [Option.mem_def.mp htok], ho⟩

theorem isTight_iff {own : Option Operation} : isTight t own = true ↔ level t own ≤ 1 := by
  cases own <;> simp [isTight, level]

theorem opens_enclosed {b : Bool} {own : Option Operation} {ts : List Token}
    (h : isTight t own = true → Opens ts) (hb : b = false → isTight t own = true) :
    Opens (enclosed b ts) := by
  cases b with
  | false => exact h (hb rfl)
  | true => exact ⟨_, rfl, rfl⟩

theorem opens_name {w : String} (h : isName .java w = true) : opensCast (.word w) = true := by
  have hne : w ≠ "instanceof" := by
    rintro rfl
    exact absurd h (by decide)
  simpa [opensCast] using hne

theorem opens_tokens (h : isReadable .java (isBare .java) (fun _ => false) e = true)
    (hl : isTight .java e.operation? = true) : Opens (tokens .java e) := by
  have howner {e : ExprCode} {around : Operation} (hp : Target.java.priority around = 1)
      (h : isTight .java e.operation? = true → Opens (tokens .java e)) :
      Opens (enclosed (encloses .java e.operation? around true) (tokens .java e)) :=
    opens_enclosed h fun hb => isTight_iff.mpr (hp ▸ (level_of_encloses hb).1)
  induction e using Expr.induct with
  | const value =>
    have hnamed := isNamed_ofLiteral (t := .java) (show ∀ w, value = .name w → _ by
      rintro w rfl
      exact h)
    have hneg := Atom.isNegative_ofLiteral .java value
    rw [tokens]
    cases ha : Atom.ofLiteral .java value with
    | word w => exact ⟨_, rfl, opens_name (by rwa [ha] at hnamed)⟩
    | member owner name => exact ⟨_, rfl, opens_name (by rwa [ha] at hnamed)⟩
    | quoted s => exact ⟨_, rfl, rfl⟩
    | number negative s =>
      cases negative with
      | false => exact ⟨_, rfl, rfl⟩
      | true =>
        have hvalue : value.isNegative = true := by rw [← hneg, ha]; rfl
        simp only [Expr.operation?, hvalue, if_true] at hl
        cases hl
  | binary op l r => cases op <;> cases hl
  | unary op e => cases op <;> cases hl
  | ternary e l r => cases hl
  | field owner name ih =>
    simp only [isReadable, Bool.and_eq_true] at h
    exact opens_append (howner rfl (ih h.1))
  | staticField qualifier name =>
    simp only [isReadable, Bool.and_eq_true, Bool.or_eq_true, beq_iff_eq] at h
    rw [tokens]
    split
    · exact ⟨_, rfl, opens_name h.2⟩
    · next hq => exact ⟨_, rfl, opens_name (h.1.resolve_left hq)⟩
  | var v =>
    simp only [isReadable, isBare, Bool.and_eq_true] at h
    exact ⟨_, rfl, opens_name h.2⟩
  | call receiver checked function args ih =>
    simp only [isReadable, Bool.and_eq_true] at h
    exact opens_append (howner rfl (ih h.1.1.2))
  | apply function args =>
    simp only [isReadable, Bool.and_eq_true] at h
    exact ⟨_, rfl, opens_name h.1⟩
  | create cls args => exact ⟨_, rfl, rfl⟩
  | createArray element dimensions initializer => cases initializer <;> exact ⟨_, rfl, rfl⟩
  | length array ih => exact opens_append (howner rfl (ih h))
  | index array position ih =>
    simp only [isReadable, Bool.and_eq_true] at h
    rw [tokens_index]
    refine opens_append ?_
    split
    · exact ⟨_, rfl, rfl⟩
    · exact howner rfl (ih h.1)
  | cast type e => cases hl
  | instanceOf e type inverted => cases hl
  | stepBefore step target => cases hl
  | stepAfter step target ih =>
    simp only [isReadable, Bool.and_eq_true] at h
    exact opens_append (howner rfl (ih h.2))
  | compound op target amount => cases hl
  | anonymous cls args => cases h

theorem isRead_cast {type : String} (ht : isName t (castType t type) = true) (he : IsRead t e)
    (hopens : t = .java → isTight .java e.operation? = true → Opens (tokens .java e)) :
    IsRead t (.cast type e) := by
  intro K rest hK hrest
  have hends : Ends t (t.priority .cast) rest :=
    ends_of_follows hrest (show 1 < t.priority .cast by cases t <;> decide)
  cases t with
  | java =>
    have hopen : begin? .java K (.symbol "(") = some ⟨.operand, .bracket :: K⟩ := rfl
    have hclose : act .java .closeRound (Tree.name type) (.bracket :: K) =
        some ⟨.bracketed type, K⟩ := rfl
    have hoperand : Opens (enclosed (encloses .java e.operation? .cast false) (tokens .java e)) :=
      opens_enclosed (hopens rfl) fun hb =>
        isTight_iff.mpr (Nat.le_of_lt_succ ((level_of_encloses hb).2 rfl))
    have hname : isName .java type = true := ht
    have hassoc : Target.java.isAssociative .cast = false := rfl
    rw [tokens, hassoc]
    simp only [List.cons_append]
    rw [run_begin hopen, run_name hname, run_word (by simp),
      run_closing (role_closeRound .java) rfl hclose, run_cast (opens_append hoperand)]
    exact run_behind he rfl rfl hends
  | kotlin =>
    have has : role .kotlin (.word "as") = .cast := rfl
    have hassoc : Target.kotlin.isAssociative .cast = true := rfl
    rw [tokens, hassoc, List.append_assoc, List.cons_append, List.cons_append, List.nil_append,
      run_operand he (fun _ => rfl) fun hb => by
        have hle := (level_of_encloses hb).1
        refine ⟨hK.mono hle, follows_of_ends hle ?_⟩
        rintro _ ⟨⟩
        rw [has]
        decide,
      run_act (by rw [has]; exact reduce_of_admits (n := 3) hK (by decide) _), has]
    rfl

theorem level_of_isTarget (h : isTarget e = true) : level t e.operation? ≤ 1 := by
  cases e with
  | var v => exact Nat.zero_le 1
  | const value =>
    cases value with
    | name w => exact Nat.zero_le 1
    | _ => cases h
  | field owner name => cases t <;> exact Nat.le_refl 1
  | staticField qualifier name => cases t <;> exact Nat.le_refl 1
  | index array position => cases t <;> exact Nat.le_refl 1
  | _ => cases h

/-- The tokens of a readable expression are read as its tree. -/
theorem isRead_of_isReadable (h : isReadable t (isBare t) (fun _ => false) e = true) :
    IsRead t e ∧ Continues t e := by
  induction e using Expr.induct with
  | const value =>
    refine ⟨isRead_const ?_, continues_of_not_binary rfl⟩
    rintro w rfl
    exact h
  | binary op l r ihl ihr =>
    simp only [isReadable, Bool.and_eq_true] at h
    obtain ⟨hl, hcl⟩ := ihl h.1
    obtain ⟨hr, hcr⟩ := ihr h.2
    exact ⟨isRead_binary hl hr hcr, continues_binary hl hcl hr hcr⟩
  | unary op e ih => exact ⟨isRead_unary (ih h).1, continues_of_not_binary rfl⟩
  | ternary e l r ihe ihl ihr =>
    simp only [isReadable, Bool.and_eq_true] at h
    exact ⟨isRead_ternary (ihe h.1.1).1 (ihl h.1.2).1 (ihr h.2).1, continues_of_not_binary rfl⟩
  | field owner name ih =>
    simp only [isReadable, Bool.and_eq_true] at h
    exact ⟨isRead_field (ih h.1).1, continues_of_not_binary rfl⟩
  | staticField qualifier name =>
    simp only [isReadable, Bool.and_eq_true, Bool.or_eq_true, beq_iff_eq] at h
    exact ⟨isRead_staticField h.1 h.2, continues_of_not_binary rfl⟩
  | var v =>
    simp only [isReadable, isBare, Bool.and_eq_true] at h
    exact ⟨isRead_name h.2 rfl rfl, continues_of_not_binary rfl⟩
  | call receiver checked function args ih iha =>
    simp only [isReadable, Bool.and_eq_true, areReadable_iff] at h
    exact ⟨isRead_call (ih h.1.1.2).1 fun a ha => (iha a ha (h.2 a ha)).1,
      continues_of_not_binary rfl⟩
  | apply function args iha =>
    simp only [isReadable, Bool.and_eq_true, areReadable_iff] at h
    exact ⟨isRead_apply h.1 fun a ha => (iha a ha (h.2 a ha)).1, continues_of_not_binary rfl⟩
  | create cls args iha =>
    simp only [isReadable, Bool.and_eq_true, areReadable_iff] at h
    exact ⟨isRead_create h.1 fun a ha => (iha a ha (h.2 a ha)).1, continues_of_not_binary rfl⟩
  | createArray element dimensions initializer ihd ihi =>
    refine ⟨?_, continues_of_not_binary rfl⟩
    cases initializer with
    | none =>
      simp only [isReadable, Bool.and_eq_true, areReadable_iff, beq_iff_eq] at h
      obtain ⟨⟨⟨⟨rfl, -⟩, helement⟩, hne⟩, hds⟩ := h
      exact isRead_createSized helement (by simpa using hne) fun d hd => (ihd d hd (hds d hd)).1
    | some elements =>
      simp only [isReadable, Bool.and_eq_true, areReadable_iff, beq_iff_eq] at h
      obtain ⟨⟨⟨⟨rfl, -⟩, -⟩, -⟩, hes⟩ := h
      exact isRead_createInitialized fun e he => (ihi elements rfl e he (hes e he)).1
  | length array ih => exact ⟨isRead_length (ih h).1, continues_of_not_binary rfl⟩
  | index array position iha ihp =>
    simp only [isReadable, Bool.and_eq_true] at h
    exact ⟨isRead_index (iha h.1).1 (ihp h.2).1, continues_of_not_binary rfl⟩
  | cast type e ih =>
    simp only [isReadable, Bool.and_eq_true] at h
    refine ⟨isRead_cast h.1 (ih h.2).1 ?_, continues_of_not_binary rfl⟩
    rintro rfl htight
    exact opens_tokens h.2 htight
  | instanceOf e type inverted ih =>
    simp only [isReadable, Bool.and_eq_true] at h
    exact ⟨isRead_instanceOf (ih h.2).1, continues_of_not_binary rfl⟩
  | stepBefore step target ih =>
    simp only [isReadable, Bool.and_eq_true] at h
    exact ⟨isRead_stepBefore (ih h.2).1, continues_of_not_binary rfl⟩
  | stepAfter step target ih =>
    simp only [isReadable, Bool.and_eq_true] at h
    exact ⟨isRead_stepAfter (ih h.2).1, continues_of_not_binary rfl⟩
  | compound op target amount iht iha =>
    simp only [isReadable, Bool.and_eq_true] at h
    exact ⟨isRead_compound h.1.1.1 (iht h.1.2).1 (level_of_isTarget h.1.1.2) (iha h.2).1,
      continues_of_not_binary rfl⟩
  | anonymous cls args => cases h

theorem read_of_tokens {text : String} (h : isReadable t (isBare t) (fun _ => false) e = true)
    (htokens : tokensOf text = tokens t e) : read t text = some (codeTree t e) := by
  have hrun := (isRead_of_isReadable h).1 [] [] (by simp [Admits]) (by simp [Follows])
  rw [List.append_nil] at hrun
  rw [read, htokens, hrun]
  rfl

theorem tokensOf_flat {s : Style}
    (h : isReadable s.target (isBare s.target) (fun _ => false) e = true) :
    tokensOf (String.ofList (e.doc s).flat) = tokens s.target e := by
  have hlex := (isSpelled_of_isReadable h).reads [] trivial
  simpa [tokensOf, lex, Pending.tokens] using hlex

/-- The text of a readable expression is read as its tree. -/
theorem read_flat {s : Style}
    (h : isReadable s.target (isBare s.target) (fun _ => false) e = true) :
    read s.target (String.ofList (e.doc s).flat) = some (codeTree s.target e) :=
  read_of_tokens h (tokensOf_flat h)

end Unparse.Reading
