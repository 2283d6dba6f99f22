import Unparse.Proofs.Walk.Links

/-! # Traversals of constructions

A traversal accounts for every link: it enters the constructions that it is
called for, and those that the entered ones are linked to. When it fails, no
link was followed twice, so a construction that is reached once more has a
second link to it.
-/

namespace Unparse

open Walking

variable {κ α β : Type}

def variableVisits (vs : List Visit) : List Visit := vs.filter fun x => x.entered?.isNone

@[simp] theorem variableVisits_append (vs us : List Visit) :
    variableVisits (vs ++ us) = variableVisits vs ++ variableVisits us := List.filter_append ..

theorem variableVisits_eq_self {vs : List Visit} (h : entered vs = []) :
    variableVisits vs = vs := by
  rw [entered, List.filterMap_eq_nil_iff] at h
  simpa [variableVisits] using h

/-- The visits enter the roots and all that the entered constructions link to,
within a region. -/
structure Settles (b : Body κ) (R : ConstructionId → Prop) (roots : Multiset ConstructionId)
    (vs : List Visit) : Prop where
  account : (entered vs : Multiset ConstructionId) = roots + b.linksOf (entered vs)
  region : ∀ id ∈ entered vs, R id

def CreatedIn (c : Context κ) (R : ConstructionId → Prop) (cls : κ) : Prop :=
  ∃ id construction, R id ∧ c.body.constructions.get? id = some construction ∧
    cls ∈ construction.form.classes

/-- Why a traversal from the roots failed after some visits. -/
inductive Fails (c : Context κ) (R : ConstructionId → Prop) (roots : Multiset ConstructionId)
    (s : Scope) (vs : List Visit) : PrintError → Prop where
  | plain {e : PrintError} (he : Plain c (CreatedIn c R) e) : Fails c R roots s vs e
  | unknown {id : ConstructionId} (hid : R id) (hlive : c.body.constructions.contains id = false) :
    Fails c R roots s vs (.unknownConstruction id)
  | revisited {id : ConstructionId} (hid : s.visited.contains id = true)
    (hregion : ∀ x ∈ entered vs, R x)
    (hle : id ::ₘ (entered vs : Multiset ConstructionId) ≤ roots + c.body.linksOf (entered vs)) :
    Fails c R roots s vs (.revisitedConstruction id)

/-- A traversal that enters the roots and what they link to, in a scope that
leaves at most `n` constructions to be visited. The region `R` holds all that
links may lead to. -/
def Walks (c : Context κ) (R : ConstructionId → Prop) (n : Nat) (roots : Multiset ConstructionId)
    (w : Walking α) (P : α → List Visit → Prop) : Prop :=
  ∀ s, s.Consistent c.body → s.visited.missing c.body.constructions ≤ n →
    Meets s w
      (fun a s' => ∃ vs, Path c.body s vs s' ∧ Settles c.body R roots vs ∧ P a (variableVisits vs))
      (fun e s' => ∃ vs, Path c.body s vs s' ∧ Fails c R roots s' vs e)

section Accounts

variable {b : Body κ} {R : ConstructionId → Prop} {roots roots' : Multiset ConstructionId}
  {vs us : List Visit}

theorem settles_zero (h : entered vs = []) : Settles b R 0 vs where
  account := by simp [h]
  region := by simp [h]

theorem Settles.append (h : Settles b R roots vs) (h' : Settles b R roots' us) :
    Settles b R (roots + roots') (vs ++ us) where
  account := by
    rw [entered_append, ← Multiset.coe_add, Body.linksOf_append]
    calc (entered vs : Multiset ConstructionId) + entered us
        = roots + b.linksOf (entered vs) + (roots' + b.linksOf (entered us)) := by
          rw [← h.account, ← h'.account]
      _ = roots + roots' + (b.linksOf (entered vs) + b.linksOf (entered us)) :=
          add_add_add_comm ..
  region := by
    simp only [entered_append, List.mem_append, or_imp, forall_and]
    exact ⟨h.region, h'.region⟩

theorem Settles.enter {id : ConstructionId} {links : Multiset ConstructionId}
    (h : Settles b R links vs) (hid : R id)
    (hlinks : (b.links id : Multiset ConstructionId) = links) :
    Settles b R {id} (.enter id :: vs) where
  account := by
    rw [entered_enter, Body.linksOf_cons, ← Multiset.cons_coe, hlinks, ← h.account]
    rfl
  region := List.forall_mem_cons.mpr ⟨hid, h.region⟩

variable {c : Context κ} {s : Scope} {e : PrintError}

theorem Fails.mono (h : Fails c R roots s vs e) : Fails c R (roots + roots') s vs e := by
  cases h with
  | plain he => exact .plain he
  | unknown hid hlive => exact .unknown hid hlive
  | revisited hid hregion hle =>
    refine .revisited hid hregion (hle.trans ?_)
    gcongr
    exact Multiset.le_add_right ..

theorem Fails.append (hvs : Settles c.body R roots vs) (h : Fails c R roots' s us e) :
    Fails c R (roots + roots') s (vs ++ us) e := by
  cases h with
  | plain he => exact .plain he
  | unknown hid hlive => exact .unknown hid hlive
  | @revisited id hid hregion hle =>
    refine .revisited hid ?_ ?_
    · simp only [entered_append, List.mem_append, or_imp, forall_and]
      exact ⟨hvs.region, hregion⟩
    · rw [entered_append, ← Multiset.coe_add, Body.linksOf_append, ← Multiset.add_cons]
      calc (entered vs : Multiset ConstructionId) + id ::ₘ (entered us : Multiset ConstructionId)
          ≤ roots + c.body.linksOf (entered vs) + (roots' + c.body.linksOf (entered us)) :=
            add_le_add hvs.account.le hle
        _ = roots + roots' + (c.body.linksOf (entered vs) + c.body.linksOf (entered us)) :=
            add_add_add_comm ..

theorem Fails.enter {id : ConstructionId} {links : Multiset ConstructionId}
    (h : Fails c R links s vs e) (hid : R id)
    (hlinks : (c.body.links id : Multiset ConstructionId) = links) :
    Fails c R {id} s (.enter id :: vs) e := by
  cases h with
  | plain he => exact .plain he
  | unknown hid hlive => exact .unknown hid hlive
  | @revisited id' hid' hregion hle =>
    refine .revisited hid' (List.forall_mem_cons.mpr ⟨hid, hregion⟩) ?_
    rw [entered_enter, Body.linksOf_cons, ← Multiset.cons_coe, hlinks, Multiset.cons_swap,
      Multiset.singleton_add]
    exact Multiset.cons_le_cons _ hle

end Accounts

theorem meets_enter {b : Body κ} {s : Scope} (hs : s.Consistent b) (id : ConstructionId) :
    Meets s (b.enter id)
      (fun construction s' => b.constructions.get? id = some construction ∧
        Takes b s (.enter id) s' ∧
        s'.visited.missing b.constructions < s.visited.missing b.constructions)
      (fun e s' => s' = s ∧
        (e = .unknownConstruction id ∧ b.constructions.contains id = false ∨
          e = .revisitedConstruction id ∧ s.visited.contains id = true)) := by
  cases hc : b.constructions.get? id with
  | none =>
    simp only [Body.enter, Body.peek, hc, meets_bind, meets_lift]
    exact ⟨trivial, .inl ⟨trivial, by simp [Arena.contains, hc]⟩⟩
  | some construction =>
    cases hcontains : s.visited.contains id with
    | true =>
      have hfirst : (s.visited.insert id).1 = false := by
        rw [KeySet.insert_fst_of_live _ hc, hcontains]
        rfl
      simp only [Body.enter, Body.peek, hc, meets_bind, meets_lift, meets_visit, hfirst,
        KeySet.insert_of_contains hcontains]
      exact ⟨rfl, .inr ⟨rfl, trivial⟩⟩
    | false =>
      have hfirst : (s.visited.insert id).1 = true := by
        rw [KeySet.insert_fst_of_live _ hc, hcontains]
        rfl
      simp only [Body.enter, Body.peek, hc, meets_bind, meets_lift, meets_visit, hfirst, if_true,
        meets_record, meets_pure]
      exact ⟨trivial, .enter hc hfirst s.events,
        hs.visitedLive.missing_insert_lt hc hcontains⟩

namespace Walks

variable {c : Context κ} {R : ConstructionId → Prop} {n : Nat}
  {roots roots' : Multiset ConstructionId} {w : Walking α} {f : α → Walking β}
  {P : α → List Visit → Prop} {Q : β → List Visit → Prop}

theorem pure {a : α} (h : P a []) : Walks c R n 0 (Pure.pure a) P :=
  fun s _ _ => ⟨[], .refl s, settles_zero rfl, h⟩

theorem of_resolves (h : Resolves c (CreatedIn c R) w P) : Walks c R n 0 w P := by
  intro s _ _
  refine (h s).mono ?_ ?_
  · rintro a s' ⟨vs, hvs, hpath, ha⟩
    exact ⟨vs, hpath, settles_zero hvs, by rwa [variableVisits_eq_self hvs]⟩
  · rintro e s' ⟨vs, -, hpath, he⟩
    exact ⟨vs, hpath, .plain he⟩

theorem mono {m : Nat} (hm : m ≤ n) (h : Walks c R n roots w P) : Walks c R m roots w P :=
  fun s hs hmissing => h s hs (hmissing.trans hm)

theorem bind (hw : Walks c R n roots w P)
    (hf : ∀ a vs, P a vs → Walks c R n roots' (f a) fun b us => Q b (vs ++ us)) :
    Walks c R n (roots + roots') (w >>= f) Q := by
  intro s hs hmissing
  rw [meets_bind]
  refine (hw s hs hmissing).mono ?_ ?_
  · rintro a s' ⟨vs, hpath, hsettles, ha⟩
    refine (hf a _ ha s' (hpath.consistent hs) ((hpath.missing_le hs).trans hmissing)).mono ?_ ?_
    · rintro b s'' ⟨us, hpath', hsettles', hb⟩
      exact ⟨vs ++ us, hpath.append hpath', hsettles.append hsettles',
        by rwa [variableVisits_append]⟩
    · rintro e s'' ⟨us, hpath', hfails⟩
      exact ⟨vs ++ us, hpath.append hpath', hfails.append hsettles⟩
  · rintro e s' ⟨vs, hpath, hfails⟩
    exact ⟨vs, hpath, hfails.mono⟩

theorem resolve_bind (hw : Resolves c (CreatedIn c R) w P)
    (hf : ∀ a vs, P a vs → Walks c R n roots (f a) fun b us => Q b (vs ++ us)) :
    Walks c R n roots (w >>= f) Q := by
  have hbind := (of_resolves (n := n) hw).bind hf
  rwa [zero_add] at hbind

theorem bind_resolve (hw : Walks c R n roots w P)
    (hf : ∀ a vs, P a vs → Resolves c (CreatedIn c R) (f a) fun b us => Q b (vs ++ us)) :
    Walks c R n roots (w >>= f) Q := by
  have hbind := hw.bind fun a vs ha => of_resolves (n := n) (hf a vs ha)
  rwa [add_zero] at hbind

theorem map {g : α → β} (hw : Walks c R n roots w P) (hg : ∀ a vs, P a vs → Q (g a) vs) :
    Walks c R n roots (do return g (← w)) Q :=
  hw.bind_resolve fun a vs ha => .pure (by simpa using hg a vs ha)

theorem mapM {as : List α} {g : α → Walking β} {V : β → List Visit} {r : α → ConstructionId}
    (h : ∀ a ∈ as, Walks c R n {r a} (g a) fun b vs => vs = V b) :
    Walks c R n ↑(as.map r) (as.mapM g) fun bs vs => vs = bs.flatMap V := by
  induction as with
  | nil => exact .pure rfl
  | cons a as ih =>
    rw [List.mapM_cons, List.map_cons, ← Multiset.cons_coe, ← Multiset.singleton_add]
    refine (h a List.mem_cons_self).bind fun b vs hvs => ?_
    refine (ih fun x hx => h x (List.mem_cons_of_mem a hx)).map fun bs us hus => ?_
    simp [hvs, hus]

theorem optional {o : Option ConstructionId} {g : ConstructionId → Walking β}
    {V : β → List Visit} (h : ∀ id ∈ o, Walks c R n {id} (g id) fun b vs => vs = V b) :
    Walks c R n ↑o.toList (o.mapM g) fun b vs => vs = b.toList.flatMap V := by
  cases o with
  | none => exact .pure rfl
  | some id =>
    refine (h id rfl).map (g := some) fun b vs hvs => ?_
    simpa using hvs

theorem enter {id : ConstructionId} {f : Construction κ → Walking β} (hid : R id)
    (hf : ∀ construction m, c.body.constructions.get? id = some construction → n = m + 1 →
      Walks c R m construction.links (f construction) Q) :
    Walks c R n {id} (c.body.enter id >>= f) Q := by
  intro s hs hmissing
  rw [meets_bind]
  refine (meets_enter hs id).mono ?_ ?_
  · rintro construction s' ⟨hc, htake, hless⟩
    obtain ⟨m, rfl⟩ : ∃ m, n = m + 1 := ⟨n - 1, by omega⟩
    have hlinks := Body.links_of_get? hc
    refine (hf construction m hc rfl s' (htake.consistent hs) (by omega)).mono ?_ ?_
    · rintro b s'' ⟨vs, hpath, hsettles, hb⟩
      exact ⟨_, .cons htake hpath, hsettles.enter hid (by rw [hlinks]), hb⟩
    · rintro e s'' ⟨vs, hpath, hfails⟩
      exact ⟨_, .cons htake hpath, hfails.enter hid (by rw [hlinks])⟩
  · rintro e s' ⟨rfl, he⟩
    refine ⟨[], .refl s', ?_⟩
    rcases he with ⟨rfl, hlive⟩ | ⟨rfl, hcontains⟩
    · exact .unknown hid hlive
    · exact .revisited hcontains (by simp) (by simp)

end Walks

end Unparse
