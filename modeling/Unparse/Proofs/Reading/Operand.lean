import Unparse.Proofs.Reading.Trees

/-! # Runs over operands

An expression is read as its tree if the frames that are open admit it, so that
none of them is closed before its end, and what follows ends it. Then it is read
as an operand too, with the brackets that its position asks for.
-/

namespace Unparse.Reading

variable {t : Target} {e l r : ExprCode} {K : List Frame} {rest : List Token}

def isCreation {ν κ : Type} : Expr ν κ → Bool
  | .createArray _ _ _ => true
  | _ => false

variable {t : Target} {e l r : ExprCode} {K : List Frame} {rest : List Token}

/-- What follows is no part of an expression. -/
def Follows (t : Target) (e : ExprCode) (rest : List Token) : Prop :=
  ∀ tok ∈ rest.head?, tok ≠ .symbol "(" ∧ (isCreation e = true → tok ≠ .symbol "[") ∧
    (1 < level t e.operation? → level t e.operation? < (role t tok).bound t)

/-- An expression that is read as its tree wherever it may stand. -/
def IsRead (t : Target) (e : ExprCode) : Prop :=
  ∀ K rest, Admits t (level t e.operation?) K → Follows t e rest →
    run t ⟨.operand, K⟩ (tokens t e ++ rest) = run t ⟨.complete (codeTree t e), K⟩ rest

theorem role_bound_round : (role t (.symbol "(")).bound t = 0 := by cases t <;> rfl

theorem role_bound_square : (role t (.symbol "[")).bound t = 0 := by cases t <;> rfl

theorem follows_of_ends {n : Nat} (hn : level t e.operation? ≤ n) (h : Ends t n rest) :
    Follows t e rest := by
  intro tok htok
  have hbound := h tok htok
  refine ⟨?_, ?_, fun _ => Nat.lt_of_le_of_lt hn hbound⟩
  · rintro rfl
    rw [role_bound_round] at hbound
    omega
  · rintro - rfl
    rw [role_bound_square] at hbound
    omega

theorem ends_of_follows (h : Follows t e rest) (hl : 1 < level t e.operation?) :
    Ends t (level t e.operation?) rest := fun tok htok => (h tok htok).2.2 hl

theorem level_of_encloses {own : Option Operation} {around : Operation} {associative : Bool}
    (h : encloses t own around associative = false) :
    level t own ≤ t.priority around ∧ (associative = false → level t own < t.priority around) := by
  cases own with
  | none => exact ⟨Nat.zero_le _, fun _ => (priority_bounds t around).1⟩
  | some op =>
    simp only [encloses, Option.any_some, needsBrackets, Bool.or_eq_false_iff,
      decide_eq_false_iff_not, Bool.and_eq_false_iff, beq_eq_false_iff_ne, Bool.not_eq_false'] at h
    simp only [level, Option.map_some, Option.getD_some]
    refine ⟨by omega, fun ha => ?_⟩
    have hne : t.priority op ≠ t.priority around := h.2.resolve_right (by simp [ha])
    omega

theorem level_member : level t (some .member) = 1 := by cases t <;> rfl

/-- An operand that may stand in brackets is no name. -/
theorem isPlainName_codeTree (h : 1 < level t e.operation?) :
    isPlainName (codeTree t e) = false := by
  cases e with
  | const value =>
    have hneg : value.isNegative = true := by
      by_contra hn
      simp [Expr.operation?, hn, level] at h
    exact isPlainName_atom (by rwa [Atom.isNegative_ofLiteral])
  | binary op l r =>
    rw [codeTree, tree, treeBy, joined]
    split
    · exact isPlainName_join ..
    · rfl
  | unary op e => rw [codeTree, tree, treeBy]; split <;> rfl
  | instanceOf e type inverted => rw [codeTree, tree, treeBy]; split <;> rfl
  | staticField qualifier n =>
    rw [show (Expr.staticField qualifier n : ExprCode).operation? = some .member from rfl,
      level_member] at h
    exact absurd h (Nat.lt_irrefl 1)
  | var v => cases h
  | create cls args => cases h
  | anonymous cls args => cases h
  | createArray element dimensions initializer => cases h
  | _ => rfl

theorem join_of_level_ne {op : BinaryOp} {x : Tree}
    (h : level t e.operation? ≠ t.priority (.binary op)) :
    join t op x (codeTree t e) = .binary op x (codeTree t e) := by
  cases e with
  | binary op' l r =>
    obtain ⟨q, a, b, hq, hlevel⟩ := codeTree_binary t op' l r
    have hne : t.priority (.binary q) ≠ t.priority (.binary op) := by
      rw [hlevel]
      exact h
    rw [hq, join, if_neg hne]
  | _ => exact join_of_not_binary (isBinary_treeBy rfl)

theorem run_brackets (h : IsRead t e)
    (hn : isPlainName (codeTree t e) = false ∨ ∀ tok ∈ rest.head?, opensCast tok = false) :
    run t ⟨.operand, K⟩ (enclosed true (tokens t e) ++ rest) =
      run t ⟨.complete (codeTree t e), K⟩ rest := by
  have hopen : run t ⟨.operand, K⟩ (enclosed true (tokens t e) ++ rest) =
      run t ⟨.operand, .bracket :: K⟩ (tokens t e ++ .symbol ")" :: rest) := by
    cases t <;> simp [enclosed, run_cons] <;> rfl
  have hclose : (role t (.symbol ")")) = .closeRound := by cases t <;> rfl
  have hends : Ends t (level t e.operation?) (.symbol ")" :: rest) := by
    rintro _ ⟨⟩
    rw [hclose]
    exact level_lt_closing t _
  rw [hopen, h _ _ (admits_cons_of_none rfl) (follows_of_ends (Nat.le_refl _) hends),
    run_act (by rw [hclose]; rfl), hclose]
  change run t ⟨unbracket t (codeTree t e), K⟩ rest = _
  cases hp : isPlainName (codeTree t e) with
  | false => rw [unbracket_of_not_name hp]
  | true =>
    have hrest := hn.resolve_left (by simp [hp])
    unfold unbracket
    split
    · next w heq => rw [run_bracketed hrest, heq]; rfl
    · rfl

/-- An operand with the brackets that its position asks for. -/
theorem run_operand {around : Operation} {associative : Bool} (h : IsRead t e)
    (ha : t.priority around = 1 → associative = true)
    (hb : encloses t e.operation? around associative = false →
      Admits t (level t e.operation?) K ∧ Follows t e rest) :
    run t ⟨.operand, K⟩
        (enclosed (encloses t e.operation? around associative) (tokens t e) ++ rest) =
      run t ⟨.complete (codeTree t e), K⟩ rest := by
  cases hen : encloses t e.operation? around associative with
  | false =>
    obtain ⟨hadmits, hfollows⟩ := hb hen
    simpa [enclosed] using h K rest hadmits hfollows
  | true =>
    have hlevel : 1 < level t e.operation? := by
      cases hop : e.operation? with
      | none =>
        rw [hop] at hen
        cases hen
      | some op =>
        have hpos := (priority_bounds t around).1
        simp only [hop, encloses, Option.any_some, needsBrackets, Bool.or_eq_true,
          decide_eq_true_eq, Bool.and_eq_true, beq_iff_eq, Bool.not_eq_true'] at hen
        simp only [level, Option.map_some, Option.getD_some]
        by_cases hone : t.priority around = 1
        · have hassoc := ha hone
          rcases hen with hen | ⟨_, hen⟩
          · omega
          · rw [hassoc] at hen
            cases hen
        · omega
    exact run_brackets h (.inl (isPlainName_codeTree hlevel))

theorem run_behind {f : Frame} {around : Operation} (he : IsRead t e)
    (hf : f.level? t = some 2) (hp : t.priority around = 2) (hrest : Ends t 2 rest) :
    run t ⟨.operand, f :: K⟩
        (enclosed (encloses t e.operation? around false) (tokens t e) ++ rest) =
      run t ⟨.complete (f.close (codeTree t e)), K⟩ rest := by
  rw [run_operand he (fun h => by omega) fun hb => by
    have hlt := (level_of_encloses hb).2 rfl
    exact ⟨admits_cons hf (by omega), follows_of_ends (by omega) hrest⟩]
  exact run_close hf (by decide) hrest

theorem run_owner {around : Operation} (he : IsRead t e) (hp : t.priority around = 1)
    (hK : Admits t 1 K)
    (hrest : ∀ tok ∈ rest.head?, tok ≠ .symbol "(" ∧ (isCreation e = true → tok ≠ .symbol "[")) :
    run t ⟨.operand, K⟩
        (enclosed (encloses t e.operation? around true) (tokens t e) ++ rest) =
      run t ⟨.complete (codeTree t e), K⟩ rest :=
  run_operand he (fun _ => rfl) fun hb => by
    have hle : level t e.operation? ≤ 1 := hp ▸ (level_of_encloses hb).1
    exact ⟨hK.mono hle, fun tok htok => ⟨(hrest tok htok).1, (hrest tok htok).2, fun h => by omega⟩⟩

theorem run_role {x : Tree} {tok : Token} {ro : Role} {s : State} (hr : role t tok = ro)
    (hb : ro.bound t = 0) (ha : act t ro x K = some s) :
    run t ⟨.complete x, K⟩ (tok :: rest) = run t s rest := by
  rw [run_act (by rw [hr, hb]; exact reduce_zero x K), hr, ha]
  rfl

theorem run_closing {f : Frame} {x : Tree} {tok : Token} {ro : Role} {s : State}
    (hr : role t tok = ro) (hf : f.level? t = none) (ha : act t ro x (f :: K) = some s) :
    run t ⟨.complete x, f :: K⟩ (tok :: rest) = run t s rest := by
  have hreduce (bound : Nat) : reduce t bound x (f :: K) = (x, f :: K) := by
    rw [reduce, hf]
  rw [run_act (hreduce _), hr, ha]
  rfl

theorem role_comma (t : Target) : role t (.symbol ",") = .comma := by cases t <;> rfl

theorem role_closeRound (t : Target) : role t (.symbol ")") = .closeRound := by cases t <;> rfl

theorem role_closeSquare (t : Target) : role t (.symbol "]") = .closeSquare := by
  cases t <;> rfl

theorem role_closeCurly (t : Target) : role t (.symbol "\x7d") = .closeCurly := by
  cases t <;> rfl

theorem follows_closing {tok : Token} {ro : Role} (hr : role t tok = ro)
    (hb : ro.bound t = closingLevel) : Follows t e (tok :: rest) := by
  refine follows_of_ends (Nat.le_refl _) ?_
  rintro _ ⟨⟩
  rw [hr, hb]
  exact level_lt_closing t _

theorem not_round_of_follows (h : Follows t e rest) : rest.head? ≠ some (.symbol "(") := by
  intro hr
  exact (h _ hr).1 rfl

end Unparse.Reading
