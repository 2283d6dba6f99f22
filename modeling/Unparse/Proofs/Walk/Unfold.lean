import Unparse.Proofs.Walk.Walks

/-! # Unfolding as a traversal

Unfolding follows every link of the constructions that it enters, with the
visits that the code records. The number of constructions bounds the depth.
-/

namespace Unparse

variable {κ : Type} {c : Context κ} {R : ConstructionId → Prop} {n : Nat}

theorem Construction.links_of_isEmptyBlock {construction : Construction κ}
    (h : construction.isEmptyBlock = true) : construction.links = construction.next.toList := by
  rw [isEmptyBlock, Bool.and_eq_true] at h
  unfold links
  cases hform : construction.form with
  | block statements => rfl
  | _ =>
    rw [hform] at h
    cases h.1

/-- An `else if` starts with an empty block whose only link is its successor.
The search for one fails where a link leads to nothing. -/
theorem Context.elseIf?_spec (c : Context κ) (id : ConstructionId) :
    match c.elseIf? id with
    | .ok none => True
    | .ok (some next) => c.body.links id = [next]
    | .error e => ∃ target, e = .unknownConstruction target ∧
      c.body.constructions.contains target = false ∧ (target = id ∨ target ∈ c.body.links id) := by
  unfold elseIf? Body.peek
  cases hcarrier : c.body.constructions.get? id with
  | none => exact ⟨id, rfl, by simp [Arena.contains, hcarrier], .inl rfl⟩
  | some carrier =>
    have hlinks := Body.links_of_get? hcarrier
    rcases carrier with ⟨form, place, _ | next⟩
    · trivial
    · change match (if _ then _ else _ : Except PrintError (Option ConstructionId)) with
        | .ok none => True
        | .ok (some next) => _
        | .error e => _
      split_ifs with hempty
      · rw [Construction.links_of_isEmptyBlock hempty] at hlinks
        cases hfollower : c.body.constructions.get? next with
        | none => exact ⟨next, rfl, by simp [Arena.contains, hfollower], .inr (by simp [hlinks])⟩
        | some follower =>
          change match (Except.ok (if _ then some next else none) :
            Except PrintError (Option ConstructionId)) with
            | .ok none => True
            | .ok (some next) => _
            | .error e => _
          split_ifs with hconditional
          · exact hlinks
          · trivial
      · trivial

section Form

variable {walk : ConstructionId → Walking Code}

theorem walks_elseBranch (hR : ∀ id, R id → ∀ target ∈ c.body.links id, R target)
    (hwalk : ∀ id, R id → Walks c R n {id} (walk id) fun code vs => vs = codeVisits c.target code)
    {id : ConstructionId} (hid : R id) :
    Walks c R n {id} (c.elseBranch walk id) fun code vs => vs = codeVisits c.target code := by
  intro s hs hmissing
  have hspec := c.elseIf?_spec id
  rw [Context.elseBranch, Walking.meets_bind, Walking.meets_lift]
  cases helse : c.elseIf? id with
  | error e =>
    rw [helse] at hspec
    obtain ⟨target, rfl, hlive, htarget⟩ := hspec
    refine ⟨[], .refl s, .unknown ?_ hlive⟩
    rcases htarget with rfl | htarget
    · exact hid
    · exact hR id hid target htarget
  | ok follower =>
    cases follower with
    | none => exact hwalk id hid s hs hmissing
    | some next =>
      rw [helse] at hspec
      have hspec : c.body.links id = [next] := hspec
      have hnext : R next := hR id hid next (by simp [hspec])
      have hcarrier : Walks c R n {id} (do
          let carrier ← c.body.enter id
          return Element.mk (.block []) carrier.place :: (← walk next))
          fun code vs => vs = codeVisits c.target code := by
        refine Walks.enter hid fun carrier m hcarrier hm => ?_
        rw [← Body.links_of_get? hcarrier, hspec]
        refine ((hwalk next hnext).mono (by omega)).map fun code vs hvs => ?_
        simpa [codeVisits, Element.visits, formVisits] using hvs
      exact hcarrier s hs hmissing

theorem resolves_guard {A : κ → Prop} {skip : Expr VariableId κ}
    (h : ∀ cls ∈ skip.classes, A cls) :
    Resolves c A (c.guard skip) fun code vs => vs = code.visits :=
  resolves_expr (by rwa [Expr.classes_negate])

theorem resolves_loopVariables {A : κ → Prop} (ids : List VariableId) :
    Resolves c A (c.loopVariables ids) fun vars vs => vs = vars.map Visit.bind := by
  unfold Context.loopVariables
  split
  · have hall : Resolves c A (ids.mapM c.bind) fun vars vs =>
        vs = vars.flatMap fun v => [Visit.bind v] := .mapM fun id _ => resolves_bind id
    simpa only [List.map_eq_flatMap] using hall
  · exact fun s => ⟨[], rfl, .refl s, .destructuring ids.length⟩

theorem walks_unfoldForm (hR : ∀ id, R id → ∀ target ∈ c.body.links id, R target)
    (hwalk : ∀ id, R id → Walks c R n {id} (walk id) fun code vs => vs = codeVisits c.target code)
    {form : Form VariableId (Expr VariableId κ) (Stmt VariableId κ) ConstructionId}
    (hbranches : ∀ id ∈ form.branches, R id)
    (hclasses : ∀ cls ∈ form.classes, CreatedIn c R cls) :
    Walks c R n form.branches (c.unfoldForm walk form) fun code vs =>
      vs = formVisits c.target code := by
  have hstmts {statements : List (Stmt VariableId κ)}
      (h : ∀ cls ∈ statements.flatMap Stmt.classes, CreatedIn c R cls) :
      Resolves c (CreatedIn c R) (statements.mapM (Stmt.resolve c)) fun code vs =>
        vs = code.flatMap StmtCode.visits :=
    .mapM fun stmt hstmt => resolves_stmt fun cls hcls =>
      h cls (List.mem_flatMap.mpr ⟨stmt, hstmt, hcls⟩)
  have hstmt {stmt : Option (Stmt VariableId κ)}
      (h : ∀ cls ∈ stmt.toList.flatMap Stmt.classes, CreatedIn c R cls) :=
    Resolves.optional (c := c) (o := stmt) (g := Stmt.resolve c) (V := StmtCode.visits)
      fun stmt hstmt => resolves_stmt fun cls hcls =>
        h cls (List.mem_flatMap.mpr ⟨stmt, Option.mem_toList.mpr hstmt, hcls⟩)
  cases form with
  | block statements =>
    refine Walks.of_resolves ((hstmts hclasses).bind fun code vs hvs => .pure ?_)
    simpa [formVisits] using hvs
  | conditional skip whenTrue whenFalse =>
    rw [Form.branches, List.forall_mem_cons] at hbranches
    rw [Form.branches, ← Multiset.cons_coe, ← Multiset.singleton_add]
    refine Walks.resolve_bind (resolves_guard hclasses) fun condition vs hvs => ?_
    refine (hwalk whenTrue hbranches.1).bind fun yes us hus => ?_
    refine (Walks.optional fun id hid => walks_elseBranch hR hwalk
      (hbranches.2 id (Option.mem_toList.mpr hid))).map fun no ws hws => ?_
    simp [formVisits, branchVisits_eq_flatMap, hvs, hus, hws]
  | whileLoop skip body =>
    rw [Form.branches, List.forall_mem_singleton] at hbranches
    refine Walks.resolve_bind (resolves_guard hclasses) fun condition vs hvs => ?_
    refine (hwalk body hbranches).map fun code us hus => ?_
    simp [formVisits, hvs, hus]
  | doLoop condition body =>
    rw [Form.branches, List.forall_mem_singleton] at hbranches
    refine (hwalk body hbranches).bind_resolve fun code vs hvs => ?_
    refine (resolves_expr hclasses).bind fun e us hus => .pure ?_
    simp [formVisits, hvs, hus]
  | countedLoop init skip update body =>
    simp only [Form.classes, List.mem_append, or_imp, forall_and] at hclasses
    rw [Form.branches, List.forall_mem_singleton] at hbranches
    rw [Context.unfoldForm]
    refine Walks.resolve_bind (hstmt hclasses.1.1) fun init' vs hvs => ?_
    split
    · next hheader =>
      refine Walks.resolve_bind (resolves_guard hclasses.1.2) fun condition us hus => ?_
      refine Walks.resolve_bind (hstmt hclasses.2) fun update' ws hws => ?_
      refine (hwalk body hbranches).map fun code xs hxs => ?_
      simp [formVisits, hheader, hvs, hus, hws, hxs]
    · next hheader =>
      refine (hwalk body hbranches).bind_resolve fun code xs hxs => ?_
      refine (hstmt hclasses.2).bind fun update' ws hws => ?_
      refine (resolves_guard hclasses.1.2).bind fun condition us hus => .pure ?_
      simp [formVisits, hheader, hvs, hus, hws, hxs]
  | forEach vars container body =>
    rw [Form.branches, List.forall_mem_singleton] at hbranches
    refine Walks.resolve_bind (resolves_loopVariables vars) fun vars' vs hvs => ?_
    refine Walks.resolve_bind (resolves_expr hclasses) fun container' us hus => ?_
    refine (hwalk body hbranches).map fun code ws hws => ?_
    simp [formVisits, hvs, hus, hws]
  | guarded body handlers cleanup =>
    simp only [Form.branches, List.forall_mem_cons, List.mem_append, or_imp, forall_and]
      at hbranches
    rw [Form.branches, ← Multiset.cons_coe, ← Multiset.singleton_add, ← Multiset.coe_add]
    refine (hwalk body hbranches.1).bind fun code vs hvs => ?_
    refine (Walks.mapM (V := fun h => .bind h.1 :: codeVisits c.target h.2)
      fun handler hhandler => ?_).bind fun handlers' us hus => ?_
    · refine Walks.resolve_bind (resolves_bind handler.1) fun v vs hvs => ?_
      refine (hwalk handler.2 (hbranches.2.1 _ (List.mem_map_of_mem hhandler))).map
        fun code us hus => ?_
      simp [hvs, hus]
    · refine (Walks.optional fun id hid =>
        hwalk id (hbranches.2.2 id (Option.mem_toList.mpr hid))).map fun cleanup' ws hws => ?_
      simp [formVisits, handlerVisits_eq_flatMap, branchVisits_eq_flatMap, hvs, hus, hws]
  | switch selector cases =>
    refine (Walks.mapM (V := fun h => codeVisits c.target h.2) fun case hcase => ?_).bind_resolve
      fun cases' vs hvs => ?_
    · refine (hwalk case.2 (hbranches _ (List.mem_map_of_mem hcase))).map fun code us hus => ?_
      simpa using hus
    · refine (resolves_expr hclasses).bind fun e us hus => .pure ?_
      simp [formVisits, caseVisits_eq_flatMap, hvs, hus]
  | select selector arms fallback =>
    simp only [Form.classes, List.mem_append, or_imp, forall_and] at hclasses
    simp only [Form.branches, List.mem_append, or_imp, forall_and] at hbranches
    rw [Form.branches, ← Multiset.coe_add]
    refine (Walks.mapM (V := fun h => h.1.visits ++ codeVisits c.target h.2)
      fun arm harm => ?_).bind fun arms' vs hvs => ?_
    · refine Walks.resolve_bind (resolves_expr fun cls hcls =>
        hclasses.1 cls (List.mem_flatMap.mpr ⟨arm, harm, hcls⟩)) fun guard us hus => ?_
      refine (hwalk arm.2 (hbranches.1 _ (List.mem_map_of_mem harm))).map fun code ws hws => ?_
      simp [hus, hws]
    · refine (Walks.optional fun id hid =>
        hwalk id (hbranches.2 id (Option.mem_toList.mpr hid))).bind_resolve fun fallback' us hus => ?_
      refine (resolves_expr hclasses.2).bind fun e ws hws => .pure ?_
      simp [formVisits, armVisits_eq_flatMap, branchVisits_eq_flatMap, hvs, hus, hws]

end Form

/-- A chain is unfolded by following every link of its constructions. -/
theorem walks_unfoldWithin (hR : ∀ id, R id → ∀ target ∈ c.body.links id, R target)
    {head : Option ConstructionId} (hhead : ∀ id ∈ head, R id) :
    Walks c R n head.toList (c.unfoldWithin n head) fun code vs =>
      vs = codeVisits c.target code := by
  induction n generalizing head with
  | zero =>
    cases head with
    | none => exact .pure (by simp [codeVisits])
    | some id => exact Walks.enter (hhead id rfl) fun construction m _ hm => by omega
  | succ depth ih =>
    cases head with
    | none => exact .pure (by simp [codeVisits])
    | some id =>
      have hid : R id := hhead id rfl
      refine Walks.enter hid fun construction m hc hm => ?_
      obtain rfl : depth = m := by omega
      have hlinks : ∀ target ∈ construction.links, R target := by
        rw [← Body.links_of_get? hc]
        exact hR id hid
      simp only [Construction.links, List.mem_append, or_imp, forall_and] at hlinks
      rw [Construction.links, ← Multiset.coe_add]
      refine Walks.resolve_bind (resolves_report (.entered id)) fun _ vs hvs => ?_
      have hform : Walks c R depth construction.form.branches
          (c.unfoldForm (fun branch => c.unfoldWithin depth (some branch)) construction.form)
          fun form vs => vs = formVisits c.target form :=
        walks_unfoldForm hR (fun branch hbranch => ih (by simpa using hbranch)) hlinks.1
          fun cls hcls => ⟨id, construction, hid, hc, hcls⟩
      refine hform.bind fun form us hus => ?_
      refine (ih fun next hnext => hlinks.2 next (Option.mem_toList.mpr hnext)).map
        fun code ws hws => ?_
      simp [codeVisits, Element.visits, hvs, hus, hws]

theorem walks_unfold (hR : ∀ id, R id → ∀ target ∈ c.body.links id, R target)
    (head : Option ConstructionId) (hhead : ∀ id ∈ head, R id) :
    Walks c R c.body.constructions.size head.toList (c.unfold head) fun code vs =>
      vs = codeVisits c.target code := walks_unfoldWithin hR hhead

end Unparse
