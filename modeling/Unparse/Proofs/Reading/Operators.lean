import Unparse.Proofs.Reading.Members

/-! # Runs over operators

A binary operation is read in two ways: as a whole, or from the left end of the
operand in front of it on, where it stands without brackets behind an operator
that it repeats. All other operations are read as a whole.
-/

namespace Unparse.Reading

variable {t : Target} {e l r : ExprCode} {K : List Frame} {rest : List Token}

theorem role_operatorToken (t : Target) (op : BinaryOp) :
    role t (operatorToken (t.binaryToken op)) = .binary (t.priority (.binary op)) op := by
  unfold operatorToken
  split
  · exact role_operator t op (.inr rfl)
  · exact role_operator t op (.inl rfl)

theorem run_operatorToken {op : BinaryOp} {x : Tree}
    (hK : Admits t (t.priority (.binary op)) K) :
    run t ⟨.complete x, K⟩ (operatorToken (t.binaryToken op) :: rest) =
      run t ⟨.operand, .right (t.priority (.binary op)) op x :: K⟩ rest := by
  have hrole := role_operatorToken t op
  rw [run_act (by rw [hrole]; exact reduce_of_admits hK (Nat.le_refl _) x), hrole]
  rfl

theorem ends_operatorToken (t : Target) (op : BinaryOp) (rest : List Token) :
    Ends t (t.priority (.binary op)) (operatorToken (t.binaryToken op) :: rest) := by
  rintro _ ⟨⟩
  rw [role_operatorToken]
  exact Nat.lt_succ_self _

/-- Only binary operators have the level of an associative one. -/
theorem eq_binary_of_priority {op : BinaryOp} {o : Operation}
    (ha : t.isAssociative (.binary op) = true) (h : t.priority o = t.priority (.binary op)) :
    ∃ op', o = .binary op' := by
  cases o with
  | binary op' => exact ⟨op', rfl⟩
  | unary u =>
    cases t <;> cases op <;> cases u <;>
      first | exact absurd ha (by decide) | exact absurd h (by decide)
  | _ =>
    cases t <;> cases op <;>
      first | exact absurd ha (by decide) | exact absurd h (by simp [Target.priority])

/-- A binary operation that is read from the left end of the operand in front of
it on, when it stands behind an associative operator of its level. -/
def Continues (t : Target) (e : ExprCode) : Prop :=
  ∀ op x K rest, t.isAssociative (.binary op) = true →
    level t e.operation? = t.priority (.binary op) → Admits t (t.priority (.binary op)) K →
    Follows t e rest →
    run t ⟨.operand, .right (t.priority (.binary op)) op x :: K⟩ (tokens t e ++ rest) =
      run t ⟨.complete (join t op x (codeTree t e)), K⟩ rest

theorem priority_binary_gt (t : Target) (op : BinaryOp) : 2 < t.priority (.binary op) := by
  cases t <;> cases op <;> decide

theorem eq_of_regroups {op : BinaryOp} {own : Option Operation} (h : regroups t op own = true) :
    own = some (.binary op) ∧ t.isAssociative (.binary op) = true := by
  simpa [regroups] using h

/-- A right operand after its operator, be it in brackets, tighter or regrouped. -/
theorem run_right {op : BinaryOp} {x : Tree} (hr : IsRead t r) (hc : Continues t r)
    (hK : Admits t (t.priority (.binary op)) K) (hrest : Ends t (t.priority (.binary op)) rest) :
    run t ⟨.operand, .right (t.priority (.binary op)) op x :: K⟩
        (enclosed (encloses t r.operation? (.binary op) (regroups t op r.operation?))
          (tokens t r) ++ rest) =
      run t ⟨.complete (if regroups t op r.operation? then join t op x (codeTree t r)
        else .binary op x (codeTree t r)), K⟩ rest := by
  cases hg : regroups t op r.operation? with
  | true =>
    obtain ⟨hop, hassoc⟩ := eq_of_regroups hg
    have hlevel : level t r.operation? = t.priority (.binary op) := by rw [hop]; rfl
    have hopen : encloses t r.operation? (.binary op) true = false := by
      simp [hop, encloses, needsBrackets]
    rw [hopen]
    exact hc op x K rest hassoc hlevel hK (follows_of_ends (Nat.le_of_eq hlevel) hrest)
  | false =>
    have hpos := priority_binary_gt t op
    rw [run_operand hr (fun h => by omega) fun hb => by
      have hlt := (level_of_encloses hb).2 rfl
      exact ⟨admits_cons rfl hlt, follows_of_ends (Nat.le_of_lt hlt) hrest⟩]
    exact run_close rfl (level_lt_closing t (some (.binary op))) hrest

theorem ends_binary {op : BinaryOp} (h : Follows t (.binary op l r) rest) :
    Ends t (t.priority (.binary op)) rest :=
  ends_of_follows h (Nat.lt_trans (by decide) (priority_binary_gt t op))

theorem run_left {op : BinaryOp} (hl : IsRead t l) (hK : Admits t (t.priority (.binary op)) K) :
    run t ⟨.operand, K⟩
        (enclosed (encloses t l.operation? (.binary op) true) (tokens t l) ++
          operatorToken (t.binaryToken op) :: rest) =
      run t ⟨.operand, .right (t.priority (.binary op)) op (codeTree t l) :: K⟩ rest := by
  rw [run_operand hl (fun _ => rfl) fun hb => by
    have hle := (level_of_encloses hb).1
    exact ⟨hK.mono hle, follows_of_ends hle (ends_operatorToken t op rest)⟩]
  exact run_operatorToken hK

theorem isRead_binary {op : BinaryOp} (hl : IsRead t l) (hr : IsRead t r) (hc : Continues t r) :
    IsRead t (.binary op l r) := by
  intro K rest hK hrest
  rw [tokens, List.append_assoc, List.cons_append, run_left hl hK,
    run_right hr hc hK (ends_binary hrest)]
  rfl

theorem continues_binary {op' : BinaryOp} (hl : IsRead t l) (hcl : Continues t l)
    (hr : IsRead t r) (hcr : Continues t r) : Continues t (.binary op' l r) := by
  intro op x K rest hassoc hlevel hK hrest
  have hlevel : t.priority (.binary op') = t.priority (.binary op) := hlevel
  have hK' : Admits t (t.priority (.binary op')) K := by rwa [hlevel]
  have hends := ends_operatorToken t op'
  -- The left operand joins what stands in front, as a whole or from its left end on.
  have hleft (rest : List Token) :
      run t ⟨.operand, .right (t.priority (.binary op)) op x :: K⟩
          (enclosed (encloses t l.operation? (.binary op') true) (tokens t l) ++
            operatorToken (t.binaryToken op') :: rest) =
        run t ⟨.complete (join t op x (codeTree t l)), K⟩
          (operatorToken (t.binaryToken op') :: rest) := by
    by_cases heq : level t l.operation? = t.priority (.binary op')
    · have hopen : encloses t l.operation? (.binary op') true = false := by
        cases hop : l.operation? with
        | none => rfl
        | some o =>
          have ho : t.priority o = t.priority (.binary op') := by
            simpa [hop, level] using heq
          simp [encloses, needsBrackets, ho]
      rw [hopen]
      exact hcl op x K _ hassoc (heq.trans hlevel) hK
        (follows_of_ends (Nat.le_of_eq heq) (hends rest))
    · rw [run_operand hl (fun _ => rfl) fun hb => by
        have hle := (level_of_encloses hb).1
        exact ⟨admits_cons rfl (by omega), follows_of_ends hle (hends rest)⟩,
        run_close rfl (level_lt_closing t (some (.binary op)))
          (show Ends t (t.priority (.binary op)) _ by rw [← hlevel]; exact hends rest),
        join_of_level_ne (by rwa [← hlevel])]
      rfl
  rw [tokens, List.append_assoc, List.cons_append, hleft, run_operatorToken hK',
    run_right hr hcr hK' (ends_binary hrest)]
  have htree : codeTree t (.binary op' l r) =
      if regroups t op' r.operation? then join t op' (codeTree t l) (codeTree t r)
      else .binary op' (codeTree t l) (codeTree t r) := rfl
  rw [htree]
  split
  · rw [join_join hlevel]
  · rw [join, if_pos hlevel]

theorem continues_of_not_binary (h : isBinary e = false) : Continues t e := by
  intro op x K rest hassoc hlevel _ _
  cases ho : e.operation? with
  | none =>
    rw [ho] at hlevel
    exact absurd hlevel (Nat.ne_of_lt (priority_bounds t _).1)
  | some o =>
    rw [ho] at hlevel
    obtain ⟨op', rfl⟩ := eq_binary_of_priority hassoc hlevel
    cases e with
    | binary op l r => cases h
    | const value =>
      simp only [Expr.operation?] at ho
      split at ho <;> cases ho
    | _ => cases ho

theorem isRead_unary {op : UnaryOp} (he : IsRead t e) : IsRead t (.unary op e) := by
  intro K rest hK hrest
  have hprefix (h : t.priority (.unary op) = 2) (ha : t.isAssociative (.unary op) = false)
      (hf : t.followsOperand (.unary op) = false)
      (hb : begin? t K (.symbol op.symbol) = some ⟨.operand, .unary op :: K⟩) :
      run t ⟨.operand, K⟩ (tokens t (.unary op e) ++ rest) =
        run t ⟨.complete (codeTree t (.unary op e)), K⟩ rest := by
    have hlevel : level t (Expr.unary op e).operation? = 2 := h
    have hends : Ends t 2 rest := hlevel ▸ ends_of_follows hrest (by omega)
    have htree : codeTree t (.unary op e) = .unary op (codeTree t e) := by
      rw [codeTree, tree, treeBy, hf]
      rfl
    rw [htree, tokens, ha, hf, if_neg Bool.false_ne_true, List.cons_append, run_begin hb]
    exact run_behind he rfl h hends
  cases t with
  | java => cases op <;> exact hprefix rfl rfl rfl rfl
  | kotlin =>
    cases op with
    | bitNot =>
      have hK : Admits .kotlin 1 K := hK
      rw [tokens]
      simp only [Target.followsOperand, if_true, Target.isAssociative, List.append_assoc,
        List.cons_append]
      rw [run_owner he rfl hK (by simp), run_point]
      have hnone : ∀ a ∈ ([] : List ExprCode), IsRead .kotlin a := by simp
      exact run_arguments (f := .method (codeTree .kotlin e) false "inv") hnone
    | _ => exact hprefix rfl rfl rfl rfl

theorem isRead_stepBefore {step : Step} (he : IsRead t e) : IsRead t (.stepBefore step e) := by
  intro K rest hK hrest
  have h : t.priority (.stepBefore step) = 2 := by cases t <;> rfl
  have hlevel : level t (Expr.stepBefore step e).operation? = 2 := h
  have hends : Ends t 2 rest := hlevel ▸ ends_of_follows hrest (by omega)
  have hb : begin? t K (.symbol step.symbol) = some ⟨.operand, .step step :: K⟩ := by
    cases t <;> cases step <;> rfl
  rw [tokens, List.cons_append, run_begin hb]
  exact run_behind he rfl h hends

theorem isRead_stepAfter {step : Step} (he : IsRead t e) : IsRead t (.stepAfter step e) := by
  intro K rest hK hrest
  have h : t.priority (.stepAfter step) = 1 := by cases t <;> rfl
  have hK : Admits t 1 K := h ▸ hK
  have hrole : role t (.symbol step.symbol) = .step step := by cases t <;> cases step <;> rfl
  rw [tokens, List.append_assoc, run_owner he h hK (by cases step <;> simp [Step.symbol]),
    List.singleton_append, run_role hrole rfl rfl]
  rfl

theorem isRead_compound {op : BinaryOp} (ho : hasAssignment t op = true) (hl : IsRead t l)
    (hlevel : level t l.operation? ≤ 1) (hr : IsRead t r) : IsRead t (.compound op l r) := by
  intro K rest hK hrest
  have hpos : 13 < t.priority (.compound op) := by cases t <;> simp [Target.priority]
  have hrole : role t (.symbol ((t.compoundToken? op).getD "")) = .assign op := by
    cases t <;> cases op <;> first | rfl | cases ho
  have hbound : (Role.assign op).bound t = t.priority (.compound op) := by cases t <;> rfl
  have hends (rest : List Token) :
      Ends t 1 (.symbol ((t.compoundToken? op).getD "") :: rest) := by
    rintro _ ⟨⟩
    rw [hrole, hbound]
    omega
  have hcompound : Ends t (t.priority (.compound op)) rest :=
    ends_of_follows hrest (Nat.lt_trans (by decide) hpos)
  rw [tokens, List.append_assoc, List.cons_append,
    run_operand hl (fun _ => rfl) fun _ =>
      ⟨hK.mono (Nat.le_trans hlevel (Nat.le_of_lt (Nat.lt_trans (by decide) hpos))),
        follows_of_ends hlevel (hends _)⟩,
    run_act (by rw [hrole, hbound]; exact reduce_of_admits hK (Nat.le_succ _) _), hrole]
  change run t ⟨.operand, .amount op (codeTree t l) :: K⟩ _ = _
  have hframe : (Frame.amount op (codeTree t l)).level? t = some (t.priority (.compound op)) := by
    cases t <;> rfl
  rw [run_operand hr (fun h => by omega) fun hb => by
    have hlt := (level_of_encloses hb).2 rfl
    exact ⟨admits_cons hframe hlt, follows_of_ends (Nat.le_of_lt hlt) hcompound⟩]
  exact run_close hframe (priority_bounds t _).2 hcompound

theorem isRead_ternary (he : IsRead t e) (hl : IsRead t l) (hr : IsRead t r) :
    IsRead t (.ternary e l r) := by
  intro K rest hK hrest
  have hpos : 12 < t.priority .ternary := by cases t <;> decide
  have hlevel : conditionalLevel t = t.priority .ternary := by cases t <;> rfl
  have hends : Ends t (t.priority .ternary) rest :=
    ends_of_follows hrest (Nat.lt_trans (by decide) hpos)
  have hbranches {tok : Token} (hrole : role t tok = .alternative) :
      run t ⟨.operand, .first (codeTree t e) :: K⟩
          (enclosed (encloses t l.operation? .ternary false) (tokens t l) ++
            tok :: (enclosed (encloses t r.operation? .ternary false) (tokens t r) ++ rest)) =
        run t ⟨.complete (.ternary (codeTree t e) (codeTree t l) (codeTree t r)), K⟩ rest := by
    have hframe : (Frame.second (codeTree t e) (codeTree t l)).level? t =
        some (t.priority .ternary) := by
      rw [← hlevel]
      rfl
    rw [run_operand hl (fun h => by omega) fun _ =>
        ⟨admits_cons_of_none rfl, follows_closing hrole rfl⟩,
      run_closing hrole rfl rfl,
      run_operand hr (fun h => by omega) fun hb => by
        have hlt := (level_of_encloses hb).2 rfl
        exact ⟨admits_cons hframe hlt, follows_of_ends (Nat.le_of_lt hlt) hends⟩]
    exact run_close hframe (priority_bounds t _).2 hends
  cases t with
  | java =>
    have hquestion : role .java (.symbol "?") = .question := rfl
    rw [tokens]
    simp only [List.append_assoc, List.cons_append]
    rw [run_brackets he (.inr (by simp [opensCast])),
      run_act (by rw [hquestion]; exact reduce_of_admits (n := 13) hK (by decide) _), hquestion]
    exact hbranches rfl
  | kotlin =>
    have hopen (ts : List Token) :
        run .kotlin ⟨.operand, K⟩ (.word "if" :: (enclosed true (tokens .kotlin e) ++ ts)) =
          run .kotlin ⟨.operand, .condition :: K⟩ (tokens .kotlin e ++ .symbol ")" :: ts) := by
      simp only [enclosed, if_true, List.cons_append, List.append_assoc, List.nil_append]
      rfl
    rw [tokens]
    simp only [List.append_assoc, List.cons_append]
    rw [hopen, he _ _ (admits_cons_of_none rfl) (follows_closing (role_closeRound .kotlin) rfl),
      run_closing (role_closeRound .kotlin) rfl rfl]
    exact hbranches rfl

theorem run_test {x : Tree} {tok : Token} {type : String} (hrole : role t tok = .test)
    (hK : Admits t (t.priority .instanceOf) K) :
    run t ⟨.complete x, K⟩ (tok :: .word type :: rest) =
      run t ⟨.complete (.instanceOf x type false), K⟩ rest := by
  have hbound : Role.test.bound t = t.priority .instanceOf + 1 := by cases t <;> rfl
  rw [run_act (by rw [hrole, hbound]; exact reduce_of_admits hK (Nat.le_refl _) _), hrole]
  rfl

theorem isRead_instanceOf {type : String} {inverted : Bool} (he : IsRead t e) :
    IsRead t (.instanceOf e type inverted) := by
  intro K rest hK hrest
  have hpos : 5 < t.priority .instanceOf := by cases t <;> decide
  have hends : Ends t (t.priority .instanceOf) rest :=
    ends_of_follows hrest (Nat.lt_trans (by decide) hpos)
  have hoperand {tok : Token} {ts : List Token} {K : List Frame}
      (hb : (role t tok).bound t = t.priority .instanceOf + 1)
      (hK : Admits t (t.priority .instanceOf) K) :
      run t ⟨.operand, K⟩
          (enclosed (encloses t e.operation? .instanceOf true) (tokens t e) ++ tok :: ts) =
        run t ⟨.complete (codeTree t e), K⟩ (tok :: ts) :=
    run_operand he (fun _ => rfl) fun hen => by
      have hle := (level_of_encloses hen).1
      refine ⟨hK.mono hle, follows_of_ends hle ?_⟩
      rintro _ ⟨⟩
      rw [hb]
      exact Nat.lt_succ_self _
  cases t with
  | java =>
    have htest : role .java (.word "instanceof") = .test := rfl
    cases inverted with
    | false =>
      rw [tokens, List.append_assoc, List.cons_append, List.cons_append, List.nil_append,
        hoperand rfl hK, run_test htest hK]
      rfl
    | true =>
      have hbracket : Admits .java (Target.java.priority .instanceOf)
          (.bracket :: .unary .not :: K) := admits_cons_of_none rfl
      have hnot : begin? .java K (.symbol "!") = some ⟨.operand, .unary .not :: K⟩ := rfl
      have hopen : begin? .java (.unary .not :: K) (.symbol "(") =
          some ⟨.operand, .bracket :: .unary .not :: K⟩ := rfl
      have hclose {x : Tree} : act .java .closeRound (.instanceOf x type false)
          (.bracket :: .unary .not :: K) =
          some ⟨.complete (.instanceOf x type false), .unary .not :: K⟩ := rfl
      have hstrict : Ends .java 2 rest := fun tok htok => Nat.lt_trans (by decide) (hends tok htok)
      rw [tokens]
      simp only [enclosed_true, List.cons_append, List.append_assoc, List.nil_append]
      rw [run_begin hnot, run_begin hopen, hoperand rfl hbracket, run_test htest hbracket,
        run_closing (role_closeRound .java) rfl hclose,
        run_close rfl (by decide) hstrict]
      rfl
  | kotlin =>
    cases inverted with
    | false =>
      have htest : role .kotlin (.word "is") = .test := rfl
      rw [tokens, List.append_assoc, List.cons_append, List.cons_append, List.nil_append,
        hoperand rfl hK, run_test htest hK]
      rfl
    | true =>
      have hinvert : role .kotlin (.symbol "!") = .invert := rfl
      rw [tokens]
      simp only [List.append_assoc, List.cons_append, List.nil_append]
      rw [hoperand rfl hK,
        run_act (by rw [hinvert]; exact reduce_of_admits (n := 9) hK (by decide) _), hinvert]
      rfl

end Unparse.Reading
