import Unparse.Proofs.Walk.Unfold

/-! # Depth of unfolding

Every construction is entered at most once, so their number bounds the depth at
which one is entered. What an unfolding would do below that depth is of no
consequence: it ends, whatever the links are.
-/

namespace Unparse

open Walking

variable {κ α β : Type}

namespace Context

/-- Unfold a chain, and let `stuck` take over below a depth. -/
def walkWithin (c : Context κ) (stuck : ConstructionId → Walking Code) :
    (depth : Nat) → Option ConstructionId → Walking Code
  | _, none => return []
  | 0, some id => stuck id
  | depth + 1, some id => do
    let construction ← c.body.enter id
    Walking.report (.entered id)
    let form ← c.unfoldForm (fun branch => c.walkWithin stuck depth (some branch))
      construction.form
    return .mk form construction.place :: (← c.walkWithin stuck depth construction.next)

end Context

/-- A scope that leaves at most `n` constructions to be visited. -/
def Leaves (b : Body κ) (n : Nat) (s : Scope) : Prop :=
  s.Consistent b ∧ s.visited.missing b.constructions ≤ n

/-- Two traversals do the same in every scope that leaves at most `n`
constructions to be visited, and end in such a scope. -/
def Agree (b : Body κ) (n : Nat) (w w' : Walking α) : Prop :=
  ∀ s, Leaves b n s → w.run.run s = w'.run.run s ∧ Leaves b n (w.run.run s).2

namespace Agree

variable {b : Body κ} {c : Context κ} {n : Nat} {w w' : Walking α} {f f' : α → Walking β}

theorem pure (a : α) : Agree b n (Pure.pure a) (Pure.pure a) := fun _ hs => ⟨rfl, hs⟩

theorem lift (x : Except PrintError α) : Agree b n (liftM x) (liftM x) :=
  fun _ hs => ⟨rfl, by cases x <;> exact hs⟩

theorem of_resolves {A : κ → Prop} {P : α → List Visit → Prop} (h : Resolves c A w P) :
    Agree c.body n w w := by
  rintro s ⟨hs, hmissing⟩
  have hpath {vs : List Visit} {s' : Scope} (h : Path c.body s vs s') : Leaves c.body n s' :=
    ⟨h.consistent hs, (h.missing_le hs).trans hmissing⟩
  refine ⟨rfl, ?_⟩
  rcases hrun : w.run.run s with ⟨_ | a, s'⟩
  · obtain ⟨vs, -, hvs, -⟩ := (h s).failure hrun
    exact hpath hvs
  · obtain ⟨vs, -, hvs, -⟩ := (h s).result hrun
    exact hpath hvs

theorem bind (hw : Agree b n w w') (hf : ∀ a, Agree b n (f a) (f' a)) :
    Agree b n (w >>= f) (w' >>= f') := by
  intro s hs
  obtain ⟨heq, hleaves⟩ := hw s hs
  simp only [ExceptT.run_bind, StateT.run_bind]
  rw [← heq]
  rcases hrun : w.run.run s with ⟨_ | a, s'⟩
  · rw [hrun] at hleaves
    exact ⟨rfl, hleaves⟩
  · rw [hrun] at hleaves
    exact hf a s' hleaves

theorem map {g : α → β} (hw : Agree b n w w') :
    Agree b n (do return g (← w)) (do return g (← w')) := hw.bind fun a => .pure (g a)

theorem mapM {as : List α} (h : ∀ a ∈ as, Agree b n (f a) (f' a)) :
    Agree b n (as.mapM f) (as.mapM f') := by
  induction as with
  | nil => exact .pure []
  | cons a as ih =>
    rw [List.mapM_cons, List.mapM_cons]
    refine (h a List.mem_cons_self).bind fun x => ?_
    exact (ih fun y hy => h y (List.mem_cons_of_mem a hy)).map

theorem optional {o : Option α} (h : ∀ a, Agree b n (f a) (f' a)) :
    Agree b n (o.mapM f) (o.mapM f') := by
  cases o with
  | none => exact .pure none
  | some a => exact (h a).map (g := some)

theorem enter {id : ConstructionId} {f f' : Construction κ → Walking β}
    (hf : ∀ construction m, n = m + 1 → Agree b m (f construction) (f' construction)) :
    Agree b n (b.enter id >>= f) (b.enter id >>= f') := by
  rintro s ⟨hs, hmissing⟩
  simp only [ExceptT.run_bind, StateT.run_bind]
  rcases hrun : (b.enter id).run.run s with ⟨_ | construction, s'⟩
  · obtain ⟨rfl, -⟩ := (meets_enter hs id).failure hrun
    exact ⟨rfl, hs, hmissing⟩
  · obtain ⟨-, htake, hless⟩ := (meets_enter hs id).result hrun
    obtain ⟨m, rfl⟩ : ∃ m, n = m + 1 := ⟨n - 1, by omega⟩
    obtain ⟨heq, hconsistent, hleaves⟩ :=
      hf construction m rfl s' ⟨htake.consistent hs, by omega⟩
    exact ⟨heq, hconsistent, hleaves.trans (Nat.le_succ m)⟩

section Form

variable {walk walk' : ConstructionId → Walking Code}

theorem elseBranch (hwalk : ∀ id, Agree c.body n (walk id) (walk' id)) (id : ConstructionId) :
    Agree c.body n (c.elseBranch walk id) (c.elseBranch walk' id) := by
  refine (Agree.lift (c.elseIf? id)).bind fun follower => ?_
  cases follower with
  | none => exact hwalk id
  | some next =>
    have henter : Agree c.body n (c.body.enter id) (c.body.enter id) := by
      have hpure : Agree c.body n (c.body.enter id >>= Pure.pure) (c.body.enter id >>= Pure.pure) :=
        .enter fun construction _ _ => .pure construction
      simpa only [bind_pure] using hpure
    exact henter.bind fun carrier => (hwalk next).map

theorem unfoldForm (hwalk : ∀ id, Agree c.body n (walk id) (walk' id))
    (form : Form VariableId (Expr VariableId κ) (Stmt VariableId κ) ConstructionId) :
    Agree c.body n (c.unfoldForm walk form) (c.unfoldForm walk' form) := by
  have hexpr (e : Expr VariableId κ) : Agree c.body n (e.resolve c) (e.resolve c) :=
    of_resolves (A := fun _ => True) (resolves_expr fun _ _ => trivial)
  have hguard (e : Expr VariableId κ) : Agree c.body n (c.guard e) (c.guard e) := hexpr e.negate
  have hstmt (stmt : Stmt VariableId κ) : Agree c.body n (stmt.resolve c) (stmt.resolve c) :=
    of_resolves (A := fun _ => True) (resolves_stmt fun _ _ => trivial)
  cases form with
  | block statements => exact (Agree.mapM fun stmt _ => hstmt stmt).map
  | conditional skip whenTrue whenFalse =>
    exact (hguard skip).bind fun _ => (hwalk whenTrue).bind fun _ =>
      (Agree.optional (elseBranch hwalk)).map
  | whileLoop skip body => exact (hguard skip).bind fun _ => (hwalk body).map
  | doLoop condition body => exact (hwalk body).bind fun _ => (hexpr condition).map
  | countedLoop init skip update body =>
    rw [Context.unfoldForm, Context.unfoldForm]
    refine (Agree.optional hstmt).bind fun _ => ?_
    split
    · exact (hguard skip).bind fun _ => (Agree.optional hstmt).bind fun _ => (hwalk body).map
    · exact (hwalk body).bind fun _ => (Agree.optional hstmt).bind fun _ => (hguard skip).map
  | forEach vars container body =>
    have hvars : Agree c.body n (c.loopVariables vars) (c.loopVariables vars) :=
      of_resolves (A := fun _ => True) (resolves_loopVariables vars)
    exact hvars.bind fun _ => (hexpr container).bind fun _ => (hwalk body).map
  | guarded body handlers cleanup =>
    have hbind (id : VariableId) : Agree c.body n (c.bind id) (c.bind id) :=
      of_resolves (A := fun _ => True) (resolves_bind id)
    exact (hwalk body).bind fun _ => (Agree.mapM fun handler _ =>
      (hbind handler.1).bind fun _ => (hwalk handler.2).map).bind fun _ =>
        (Agree.optional hwalk).map
  | switch selector cases =>
    exact (Agree.mapM fun case _ => (hwalk case.2).map).bind fun _ => (hexpr selector).map
  | select selector arms fallback =>
    exact (Agree.mapM fun arm _ => (hexpr arm.1).bind fun _ => (hwalk arm.2).map).bind fun _ =>
      (Agree.optional hwalk).bind fun _ => (hexpr selector).map

end Form

end Agree

/-- Depths beyond the number of constructions that are left do not differ. -/
theorem agree_walkWithin {c : Context κ} (stuck : ConstructionId → Walking Code) {k n m : Nat}
    (hn : k < n) (hm : k ≤ m) (head : Option ConstructionId) :
    Agree c.body k (c.walkWithin stuck n head) (c.unfoldWithin m head) := by
  induction k generalizing n m head with
  | zero =>
    obtain ⟨n, rfl⟩ : ∃ n', n = n' + 1 := ⟨n - 1, by omega⟩
    cases head with
    | none => cases m <;> exact .pure []
    | some id => cases m <;> exact Agree.enter fun _ j hj => by omega
  | succ k ih =>
    obtain ⟨n, rfl⟩ : ∃ n', n = n' + 1 := ⟨n - 1, by omega⟩
    obtain ⟨m, rfl⟩ : ∃ m', m = m' + 1 := ⟨m - 1, by omega⟩
    cases head with
    | none => exact .pure []
    | some id =>
      refine Agree.enter fun construction j hj => ?_
      obtain rfl : k = j := by omega
      have hreport : Agree c.body k (report (.entered id)) (report (.entered id)) :=
        Agree.of_resolves (c := c) (A := fun _ => True) (resolves_report (.entered id))
      have hwalk (head : Option ConstructionId) :
          Agree c.body k (c.walkWithin stuck n head) (c.unfoldWithin m head) :=
        ih (by omega) (by omega) head
      exact hreport.bind fun _ =>
        (Agree.unfoldForm (fun branch => hwalk (some branch)) construction.form).bind fun _ =>
          (hwalk construction.next).map

/-- In a fresh scope no chain is unfolded deeper than there are constructions. -/
theorem walkWithin_eq_unfold (c : Context κ) (stuck : ConstructionId → Walking Code)
    (head : Option ConstructionId) (events : List Event) {n : Nat}
    (hn : c.body.constructions.size < n) :
    (c.walkWithin stuck n head).run.run { events } = (c.unfold head).run.run { events } :=
  (agree_walkWithin stuck hn le_rfl head _
    ⟨Scope.consistent_fresh c.body events, KeySet.missing_le_size _ _⟩).1

end Unparse
