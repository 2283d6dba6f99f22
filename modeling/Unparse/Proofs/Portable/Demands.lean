import Mathlib.Data.Multiset.UnionInter
import Unparse.Proofs.Failure.Isolation
import Unparse.Proofs.Walk.Walks

/-! # Demands of traversals

What a traversal needs in order to succeed can be told in advance: variables and
constructions of the body, each construction for itself, and anonymous classes whose
members can be printed. If it succeeds exactly when its demands are granted, and leaves
what they tell in its scope, then it does not matter in which order they are made.
-/

namespace Unparse

open Walking

variable {κ α β : Type}

inductive Demand (κ : Type) where
  | use (id : VariableId)
  | bind (id : VariableId)
  | enter (id : ConstructionId)
  | members (cls : κ)
  | never

namespace Demand

def isEnter : Demand κ → Bool
  | enter _ => true
  | _ => false

/-- Whether there is what is needed. Anonymous classes have to be among the classes `A`. -/
def Met (c : Context κ) (A : κ → Prop) : Demand κ → Prop
  | use id | bind id => c.body.vars.contains id = true
  | enter id => c.body.constructions.contains id = true
  | members cls => A cls ∧ ¬ (c.view cls).members.Fails
  | never => False

/-- Whether a variable is recorded as declared. A use declares local ones only. -/
def Declares (b : Body κ) (id : VariableId) : Demand κ → Prop
  | use v => v = id ∧ ∃ found, b.vars.get? id = some found ∧ found.kind = .localVar
  | bind v => v = id
  | _ => False

theorem isEnter_iff {d : Demand κ} : d.isEnter = true ↔ ∃ id, d = enter id := by
  cases d <;> simp [isEnter]

end Demand

open Demand (use bind enter members never)

/-- All demands are met, and each construction is visited once. -/
structure Granted (c : Context κ) (A : κ → Prop) (s : Scope) (ds : Multiset (Demand κ)) :
    Prop where
  met : ∀ d ∈ ds, d.Met c A
  nodup : (ds.filter fun d => d.isEnter = true).Nodup
  fresh : ∀ id, enter id ∈ ds → s.visited.contains id = false

/-- A scope remembers what was demanded, and nothing else in addition. -/
structure Grows (b : Body κ) (s : Scope) (ds : Multiset (Demand κ)) (s' : Scope) : Prop where
  consistent : s'.Consistent b
  declared : ∀ id, s'.declared.contains id = true ↔
    s.declared.contains id = true ∨ ∃ d ∈ ds, d.Declares b id
  visited : ∀ id, s'.visited.contains id = true ↔
    s.visited.contains id = true ∨ enter id ∈ ds

/-- A traversal that succeeds exactly if its demands are granted. -/
def Asks (c : Context κ) (A : κ → Prop) (w : Walking α) (ds : Multiset (Demand κ)) : Prop :=
  ∀ s, s.Consistent c.body →
    Meets s w (fun _ s' => Granted c A s ds ∧ Grows c.body s ds s') fun _ _ => ¬ Granted c A s ds

section Scopes

variable {c : Context κ} {A : κ → Prop} {b : Body κ} {s s' s'' : Scope}
  {ds ds' : Multiset (Demand κ)}

theorem granted_zero (c : Context κ) (A : κ → Prop) (s : Scope) : Granted c A s 0 where
  met := by simp
  nodup := by simp
  fresh := by simp

theorem not_granted_of_mem {d : Demand κ} (hd : d ∈ ds) (h : ¬ d.Met c A) : ¬ Granted c A s ds :=
  fun hds => h (hds.met d hd)

theorem Granted.left (h : Granted c A s (ds + ds')) : Granted c A s ds where
  met d hd := h.met d (Multiset.mem_add.mpr (.inl hd))
  nodup := by
    have hnodup := h.nodup
    rw [Multiset.filter_add, Multiset.nodup_add] at hnodup
    exact hnodup.1
  fresh id hid := h.fresh id (Multiset.mem_add.mpr (.inl hid))

theorem Grows.refl (hs : s.Consistent b) (events : List Event) :
    Grows b s 0 { s with events } where
  consistent := hs.events
  declared := by simp
  visited := by simp

theorem Grows.trans (h : Grows b s ds s') (h' : Grows b s' ds' s'') :
    Grows b s (ds + ds') s'' where
  consistent := h'.consistent
  declared id := by
    simp only [h'.declared, h.declared, Multiset.mem_add, or_and_right, exists_or, or_assoc]
  visited id := by
    simp only [h'.visited, h.visited, Multiset.mem_add, or_assoc]

theorem Grows.alike {t t' : Scope} (h : Grows b s ds t) (h' : Grows b s' ds t')
    (hdeclared : s.declared = s'.declared) (hvisited : s.visited = s'.visited) (id : Key) :
    t.declared.contains id = t'.declared.contains id ∧
      t.visited.contains id = t'.visited.contains id := by
  constructor
  · rw [Bool.eq_iff_iff, h.declared, h'.declared, hdeclared]
  · rw [Bool.eq_iff_iff, h.visited, h'.visited, hvisited]

/-- Demands are granted together if the first ones are, and the others in the scope that
these leave. -/
theorem Grows.granted_add_iff (h : Grows c.body s ds s') :
    Granted c A s (ds + ds') ↔ Granted c A s ds ∧ Granted c A s' ds' := by
  constructor
  · intro hall
    have hnodup := hall.nodup
    rw [Multiset.filter_add, Multiset.nodup_add, Multiset.disjoint_left] at hnodup
    refine ⟨hall.left, fun d hd => hall.met d (Multiset.mem_add.mpr (.inr hd)), hnodup.2.1, ?_⟩
    intro id hid
    rw [Bool.eq_false_iff, ne_eq, h.visited]
    rintro (hvisited | hearlier)
    · have hfresh := hall.fresh id (Multiset.mem_add.mpr (.inr hid))
      rw [hvisited] at hfresh
      cases hfresh
    · exact hnodup.2.2 (Multiset.mem_filter.mpr ⟨hearlier, rfl⟩)
        (Multiset.mem_filter.mpr ⟨hid, rfl⟩)
  · rintro ⟨hds, hds'⟩
    have hnew {id : ConstructionId} (hid : enter id ∈ ds') :
        s.visited.contains id = false ∧ enter id ∉ ds := by
      have hfresh := hds'.fresh id hid
      rwa [Bool.eq_false_iff, ne_eq, h.visited, not_or, ← ne_eq, ← Bool.eq_false_iff] at hfresh
    refine ⟨?_, ?_, ?_⟩
    · intro d hd
      exact (Multiset.mem_add.mp hd).elim (hds.met d) (hds'.met d)
    · rw [Multiset.filter_add, Multiset.nodup_add, Multiset.disjoint_left]
      refine ⟨hds.nodup, hds'.nodup, fun hd hd' => ?_⟩
      obtain ⟨hd, henter⟩ := Multiset.mem_filter.mp hd
      obtain ⟨id, rfl⟩ := Demand.isEnter_iff.mp henter
      exact (hnew (Multiset.mem_filter.mp hd').1).2 hd
    · intro id hid
      exact (Multiset.mem_add.mp hid).elim (hds.fresh id) fun hid => (hnew hid).1

/-- What is granted does not depend on the target, if the classes are printed alike. -/
theorem granted_congr {c' : Context κ} (hbody : c'.body = c.body)
    (hmembers : ∀ cls, A cls → ((c'.view cls).members.Fails ↔ (c.view cls).members.Fails)) :
    Granted c' A s ds ↔ Granted c A s ds := by
  have hmet (d : Demand κ) : d.Met c' A ↔ d.Met c A := by
    cases d with
    | members cls => exact and_congr_right fun hcls => not_congr (hmembers cls hcls)
    | _ => simp only [Demand.Met, hbody]
  constructor
  · intro h
    exact ⟨fun d hd => (hmet d).mp (h.met d hd), h.nodup, h.fresh⟩
  · intro h
    exact ⟨fun d hd => (hmet d).mpr (h.met d hd), h.nodup, h.fresh⟩

theorem granted_enter_iff {id : ConstructionId} : Granted c A s {enter id} ↔
    c.body.constructions.contains id = true ∧ s.visited.contains id = false := by
  constructor
  · intro h
    exact ⟨h.met _ (Multiset.mem_singleton_self _), h.fresh id (Multiset.mem_singleton_self _)⟩
  · rintro ⟨hlive, hfresh⟩
    refine ⟨?_, ?_, ?_⟩
    · rintro d hd
      rw [Multiset.mem_singleton.mp hd]
      exact hlive
    · exact (Multiset.nodup_singleton (enter id)).filter _
    · intro id' hid'
      cases Multiset.mem_singleton.mp hid'
      exact hfresh

theorem granted_singleton {d : Demand κ} (henter : d.isEnter = false) (hmet : d.Met c A) :
    Granted c A s {d} where
  met x hx := by
    rw [Multiset.mem_singleton.mp hx]
    exact hmet
  nodup := (Multiset.nodup_singleton d).filter _
  fresh id hid := by
    rw [← Multiset.mem_singleton.mp hid] at henter
    cases henter

def Visit.demand : Visit → Demand κ
  | .use v => .use v.id
  | .bind v => .bind v.id
  | .enter id => .enter id

theorem Takes.grows {x : Visit} (hs : s.Consistent b) (h : Takes b s x s') :
    Grows b s {x.demand} s' := by
  refine ⟨h.consistent hs, fun id => ?_, fun id => ?_⟩
  · cases h with
    | useLocal hv hk =>
      rw [hs.declaredLive.contains_insert hv, Bool.or_eq_true, beq_iff_eq, or_comm]
      refine or_congr_right ?_
      constructor
      · rintro rfl
        exact ⟨_, Multiset.mem_singleton_self _, rfl, _, hv, hk⟩
      · rintro ⟨d, hd, hdeclares⟩
        rw [Multiset.mem_singleton.mp hd] at hdeclares
        exact hdeclares.1.symm
    | useOther hv hk =>
      refine ⟨.inl, fun h => h.resolve_right ?_⟩
      rintro ⟨d, hd, hdeclares⟩
      rw [Multiset.mem_singleton.mp hd] at hdeclares
      obtain ⟨rfl, found, hfound, hlocal⟩ := hdeclares
      rw [hv] at hfound
      cases hfound
      exact hk hlocal
    | bind hv =>
      rw [hs.declaredLive.contains_insert hv, Bool.or_eq_true, beq_iff_eq, or_comm]
      refine or_congr_right ?_
      simp [Visit.demand, Demand.Declares, eq_comm]
    | enter hc hf => simp [Visit.demand, Demand.Declares]
  · cases h with
    | enter hc hf =>
      rw [hs.visitedLive.contains_insert hc, Bool.or_eq_true, beq_iff_eq, or_comm]
      simp [Visit.demand]
    | _ => simp [Visit.demand]

end Scopes

namespace Asks

variable {c : Context κ} {A : κ → Prop} {w : Walking α} {f : α → Walking β}
  {ds ds' : Multiset (Demand κ)}

theorem pure (a : α) : Asks c A (Pure.pure a) 0 :=
  fun s hs => ⟨granted_zero c A s, .refl hs s.events⟩

theorem throw (e : PrintError) : Asks c A (throw e : Walking α) {never} :=
  fun _ _ => not_granted_of_mem (Multiset.mem_singleton_self _) id

theorem throw_bind (e : PrintError) :
    Asks c A ((MonadExcept.throw e : Walking α) >>= f) {never} :=
  fun _ _ => not_granted_of_mem (Multiset.mem_singleton_self _) id

theorem bind (hw : Asks c A w ds) (hf : ∀ a, Asks c A (f a) ds') :
    Asks c A (w >>= f) (ds + ds') := by
  intro s hs
  rw [meets_bind]
  refine (hw s hs).mono ?_ fun _ _ hfails hall => hfails hall.left
  rintro a s' ⟨hds, hgrows⟩
  refine (hf a s' hgrows.consistent).mono ?_ ?_
  · rintro b s'' ⟨hds', hgrows'⟩
    exact ⟨hgrows.granted_add_iff.mpr ⟨hds, hds'⟩, hgrows.trans hgrows'⟩
  · intro e s'' hfails hall
    exact hfails (hgrows.granted_add_iff.mp hall).2

theorem map {g : α → β} (hw : Asks c A w ds) : Asks c A (do return g (← w)) ds := by
  have hbind := hw.bind fun a => Asks.pure (c := c) (A := A) (g a)
  rwa [add_zero] at hbind

theorem mapM {as : List α} {g : α → Walking β} {D : α → Multiset (Demand κ)}
    (h : ∀ a ∈ as, Asks c A (g a) (D a)) : Asks c A (as.mapM g) (as.map D).sum := by
  induction as with
  | nil => exact .pure []
  | cons a as ih =>
    rw [List.mapM_cons, List.map_cons, List.sum_cons]
    refine (h a List.mem_cons_self).bind fun b => ?_
    exact (ih fun x hx => h x (List.mem_cons_of_mem a hx)).map

theorem optional {o : Option α} {g : α → Walking β} {D : α → Multiset (Demand κ)}
    (h : ∀ a ∈ o, Asks c A (g a) (D a)) : Asks c A (o.mapM g) (o.elim 0 D) := by
  cases o with
  | none => exact .pure none
  | some a => exact (h a rfl).map (g := some)

/-- Alone, a traversal fails if its demands are not granted at once. -/
theorem alone_fails_iff (hw : Asks c A w ds) : (alone w).Fails ↔ ¬ Granted c A {} ds := by
  have houtcome : (alone w).outcome = (w.run.run {}).1 := rfl
  have hspec := hw {} (Scope.consistent_fresh c.body [])
  unfold Printing.Fails
  rw [houtcome]
  rcases hrun : w.run.run {} with ⟨e | a, s'⟩
  · exact ⟨fun _ => hspec.failure hrun, fun _ => ⟨e, rfl⟩⟩
  · exact ⟨nofun, fun hfails => (hfails (hspec.result hrun).1).elim⟩

theorem enter {id : ConstructionId} {f : Construction κ → Walking β}
    {D : Construction κ → Multiset (Demand κ)}
    (hf : ∀ construction, c.body.constructions.get? id = some construction →
      Asks c A (f construction) (D construction)) :
    Asks c A (c.body.enter id >>= f)
      ({.enter id} + (c.body.constructions.get? id).elim 0 D) := by
  intro s hs
  rw [meets_bind]
  refine (meets_enter hs id).mono ?_ ?_
  · rintro construction s' ⟨hc, htake, -⟩
    have hgrows : Grows c.body s {.enter id} s' := htake.grows hs
    have hfresh : s.visited.contains id = false := by
      cases htake with
      | enter hc hf => rwa [KeySet.insert_fst_of_live _ hc, Bool.not_eq_true'] at hf
    have hgranted : Granted c A s {.enter id} :=
      granted_enter_iff.mpr ⟨Arena.contains_iff.mpr ⟨construction, hc⟩, hfresh⟩
    rw [hc, Option.elim_some]
    refine (hf construction hc s' hgrows.consistent).mono ?_ ?_
    · rintro b s'' ⟨hds, hgrows'⟩
      exact ⟨hgrows.granted_add_iff.mpr ⟨hgranted, hds⟩, hgrows.trans hgrows'⟩
    · intro e s'' hfails hall
      exact hfails (hgrows.granted_add_iff.mp hall).2
  · rintro e s' ⟨rfl, he⟩ hall
    obtain ⟨hlive, hfresh⟩ := granted_enter_iff.mp hall.left
    rcases he with ⟨-, hdead⟩ | ⟨-, hvisited⟩
    · rw [hlive] at hdead
      cases hdead
    · rw [hfresh] at hvisited
      cases hvisited

end Asks

section Steps

variable {c : Context κ} {A : κ → Prop}

theorem asks_use (id : VariableId) : Asks c A (c.use id) {use id} := by
  intro s hs
  cases hv : c.body.vars.get? id with
  | none =>
    rw [Context.use_of_none hv]
    refine not_granted_of_mem (Multiset.mem_singleton_self _) ?_
    simp [Demand.Met, Arena.contains, hv]
  | some v =>
    refine (takes_use hv s).mono ?_ fun _ _ => False.elim
    rintro a s' ⟨rfl, htake⟩
    exact ⟨granted_singleton rfl (Arena.contains_iff.mpr ⟨v, hv⟩), htake.grows hs⟩

theorem asks_bind (id : VariableId) : Asks c A (c.bind id) {bind id} := by
  intro s hs
  cases hv : c.body.vars.get? id with
  | none =>
    rw [Context.bind_of_none hv]
    refine not_granted_of_mem (Multiset.mem_singleton_self _) ?_
    simp [Demand.Met, Arena.contains, hv]
  | some v =>
    refine (takes_bind hv s).mono ?_ fun _ _ => False.elim
    rintro a s' ⟨rfl, htake⟩
    exact ⟨granted_singleton rfl (Arena.contains_iff.mpr ⟨v, hv⟩), htake.grows hs⟩

theorem asks_report (e : Event) : Asks c A (report e) 0 :=
  fun s hs => ⟨granted_zero c A s, .refl hs _⟩

theorem asks_members {cls : κ} (hcls : A cls) {P : Layout.Doc → List Event → Prop}
    (hview : Logs (c.view cls).members P) :
    Asks c A (outside (c.view cls).members) {members cls} := by
  intro s hs
  obtain ⟨log, hrun, -⟩ := hview.exists_run (x := [])
  have houtside : (outside (c.view cls).members).run.run s =
      ((c.view cls).members.outcome, { s with events := s.events ++ log }) :=
    runs_outside hrun s s.events
  rw [Meets, houtside]
  cases hresult : (c.view cls).members.outcome with
  | ok d =>
    refine ⟨granted_singleton rfl ⟨hcls, ?_⟩, hs.events, by simp [Demand.Declares], by simp⟩
    rintro ⟨e, he⟩
    rw [hresult] at he
    cases he
  | error e =>
    exact not_granted_of_mem (Multiset.mem_singleton_self _) fun hmet => hmet.2 ⟨e, hresult⟩

end Steps

end Unparse
