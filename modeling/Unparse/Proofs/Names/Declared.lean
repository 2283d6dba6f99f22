import Unparse.Proofs.Names.First
import Unparse.Proofs.Walk.Pairs

/-! # Declarations in blocks

The variables that are declared in each block of a text. A variable of a handler belongs
to the block of the handler, as one in the header of a loop belongs to that of the loop.
-/

namespace Unparse

open Unparse.Part (newline keyword)

def Visit.declared? : Visit → Option Occurrence
  | use v | bind v => if v.declares then some v else none
  | enter _ => none

namespace Region

/-- What is declared directly in a block. -/
def declared (rs : List Region) : List Occurrence :=
  rs.filterMap fun
    | visit x => x.declared?
    | block _ => none

mutual

/-- What is declared in each block inside a region. -/
def inner : Region → List (List Occurrence)
  | visit _ => []
  | block rs => declared rs :: allInner rs

def allInner : List Region → List (List Occurrence)
  | [] => []
  | r :: rs => r.inner ++ allInner rs

end

/-- What is declared in each block, the outermost first. -/
def declarations (rs : List Region) : List (List Occurrence) := declared rs :: allInner rs

@[simp] theorem declared_append (rs rs' : List Region) :
    declared (rs ++ rs') = declared rs ++ declared rs' := List.filterMap_append

@[simp] theorem declared_block (rs : List Region) : declared [block rs] = [] := rfl

@[simp] theorem allInner_append (rs rs' : List Region) :
    allInner (rs ++ rs') = allInner rs ++ allInner rs' := by
  induction rs with
  | nil => rfl
  | cons r rs ih => simp [allInner, ih]

@[simp] theorem declared_visits (vs : List Visit) :
    declared (vs.map visit) = vs.filterMap Visit.declared? := by
  simp [declared, List.filterMap_map]

@[simp] theorem allInner_visits (vs : List Visit) : allInner (vs.map visit) = [] := by
  induction vs with
  | nil => rfl
  | cons v vs ih => simp [allInner, inner, ih]

end Region

def Part.owned : Part → Part
  | keyword word => keyword (if word = " catch " then "for (" else word)
  | p => p

def declarationsOf (ps : List Part) : List (List Occurrence) :=
  Region.declarations (readBlocks (ps.map Part.owned))

section Owned

theorem map_owned {ps : List Part} (h : keyword " catch " ∉ ps) : ps.map Part.owned = ps := by
  refine (List.map_congr_left fun p hp => ?_).trans (List.map_id ps)
  cases p with
  | keyword word =>
    have hword : word ≠ " catch " := by
      rintro rfl
      exact h hp
    simp [Part.owned, hword]
  | _ => rfl

end Owned

section Follows

variable {κ : Type} {b : Body κ} {sc sc' : Scope} {before before' vs us : List Visit}

/-- A visit as the traversal of a body makes it after others. -/
def Visit.Follows (b : Body κ) (before : List Visit) : Visit → Prop
  | use v => ∃ x, b.vars.get? v.id = some x ∧ v.name = x.name ∧ v.type = x.type ∧
      (v.declares = true ↔ x.kind = .localVar ∧ ∀ y ∈ before, ¬ y.Concerns v.id)
  | bind v => ∃ x, b.vars.get? v.id = some x ∧ v = ⟨v.id, x.name, x.type, true⟩
  | enter _ => True

def Follows (b : Body κ) : List Visit → List Visit → Prop
  | _, [] => True
  | before, x :: vs => x.Follows b before ∧ Follows b (before ++ [x]) vs

theorem follows_append :
    Follows b before (vs ++ us) ↔ Follows b before vs ∧ Follows b (before ++ vs) us := by
  induction vs generalizing before with
  | nil => simp [Follows]
  | cons x vs ih => simp [Follows, ih, and_assoc]

theorem Takes.follows {x : Visit} (hs : sc.Consistent b) (h : Takes b sc x sc') :
    x.Follows b sc.history := by
  cases x with
  | use v => exact h.declares_iff hs
  | bind v =>
    cases h with
    | bind hv => exact ⟨_, hv, rfl⟩
  | enter id => trivial

theorem Path.follows (hs : sc.Consistent b) (h : Path b sc vs sc') : Follows b sc.history vs := by
  induction h with
  | nil => trivial
  | cons hx _ ih =>
    have hrest := ih (hx.consistent hs)
    rw [hx.history] at hrest
    exact ⟨hx.follows hs, hrest⟩

theorem Follows.variables (h : Follows b before vs) : Follows b before (variableVisits vs) := by
  have hcongr {x : Visit} {before before' : List Visit}
      (heq : ∀ id, (∃ y ∈ before, y.Concerns id) ↔ ∃ y ∈ before', y.Concerns id)
      (h : x.Follows b before) : x.Follows b before' := by
    cases x with
    | use v =>
      obtain ⟨x, hx, hname, htype, hiff⟩ := h
      refine ⟨x, hx, hname, htype, hiff.trans (and_congr_right fun _ => ?_)⟩
      simpa using not_congr (heq v.id)
    | _ => exact h
  suffices hgoes : ∀ before', (∀ id, (∃ y ∈ before, y.Concerns id) ↔
      ∃ y ∈ before', y.Concerns id) → Follows b before' (variableVisits vs) from
    hgoes before fun _ => .rfl
  induction vs generalizing before with
  | nil => exact fun _ _ => trivial
  | cons x vs ih =>
    intro before' heq
    cases x with
    | enter id =>
      refine ih h.2 before' fun id' => ?_
      simpa [Visit.Concerns, or_and_right, exists_or] using heq id'
    | _ =>
      refine ⟨hcongr heq h.1, ih h.2 _ fun id => ?_⟩
      simp only [Visit.exists_concerns_concat, heq id]

end Follows

section Outside

variable {κ : Type} (b : Body κ) (H : VariableId → Prop)
  {before before' before'' vs vs' us us' : List Visit}

/-- Except for variables of a set, the same local variables have been visited. -/
def AgreeOutside (before before' : List Visit) : Prop :=
  ∀ id x, b.vars.get? id = some x → x.kind = .localVar → ¬ H id →
    ((∃ y ∈ before, y.Concerns id) ↔ ∃ y ∈ before', y.Concerns id)

namespace AgreeOutside

variable {b H}

theorem symm (h : AgreeOutside b H before before') : AgreeOutside b H before' before :=
  fun id x hx hlocal hid => (h id x hx hlocal hid).symm

theorem trans (h : AgreeOutside b H before before') (h' : AgreeOutside b H before' before'') :
    AgreeOutside b H before before'' :=
  fun id x hx hlocal hid => (h id x hx hlocal hid).trans (h' id x hx hlocal hid)

theorem append (h : AgreeOutside b H before before')
    (hvs : ∀ id, (∃ y ∈ vs, y.Concerns id) ↔ ∃ y ∈ us, y.Concerns id) :
    AgreeOutside b H (before ++ vs) (before' ++ us) := by
  intro id x hx hlocal hid
  simp only [List.mem_append, or_and_right, exists_or, h id x hx hlocal hid, hvs id]

end AgreeOutside

/-- Uses of variables that have been visited already, or may be declared anywhere. -/
def Known (before vs : List Visit) : Prop :=
  ∀ x ∈ vs, ∃ v, x = .use v ∧ ∀ y, b.vars.get? v.id = some y → y.kind = .localVar → ¬ H v.id →
    ∃ z ∈ before, z.Concerns v.id

namespace Known

variable {b H}

theorem mono (h : Known b H before vs) (hsub : ∀ z ∈ before, z ∈ before') :
    Known b H before' vs := by
  intro x hx
  obtain ⟨v, rfl, hv⟩ := h x hx
  refine ⟨v, rfl, fun y hy hlocal hid => ?_⟩
  obtain ⟨z, hz, hconcerns⟩ := hv y hy hlocal hid
  exact ⟨z, hsub z hz, hconcerns⟩

theorem agree (h : Known b H before vs) : AgreeOutside b H before (before ++ vs) := by
  intro id x hx hlocal hid
  constructor
  · rintro ⟨y, hy, hconcerns⟩
    exact ⟨y, List.mem_append_left vs hy, hconcerns⟩
  · rintro ⟨y, hy, hconcerns⟩
    rcases List.mem_append.mp hy with hy | hy
    · exact ⟨y, hy, hconcerns⟩
    · obtain ⟨v, rfl, hv⟩ := h y hy
      obtain rfl : v.id = id := hconcerns
      exact hv x hx hlocal hid

theorem transfer (h : Known b H before vs) (hagree : AgreeOutside b H before before')
    (hus : ∀ x ∈ us, ∃ v, x = .use v ∧ ∃ y ∈ vs, y.Concerns v.id) : Known b H before' us := by
  intro x hx
  obtain ⟨v, rfl, y, hy, hconcerns⟩ := hus x hx
  refine ⟨v, rfl, fun z hz hlocal hid => ?_⟩
  obtain ⟨w, rfl, hw⟩ := h y hy
  have hwv : w.id = v.id := hconcerns
  rw [hwv] at hw
  exact (hagree v.id z hz hlocal hid).mp (hw z hz hlocal hid)

theorem of_declared (hvs : Follows b before vs) (huses : ∀ x ∈ vs, ∃ v, x = .use v)
    (h : ∀ v ∈ vs.filterMap Visit.declared?, H v.id) : Known b H before vs := by
  induction vs generalizing before with
  | nil => nofun
  | cons x vs ih =>
    rw [List.forall_mem_cons] at huses
    obtain ⟨⟨v, rfl⟩, huses⟩ := huses
    obtain ⟨⟨x, hx, -, -, hiff⟩, hvs⟩ := hvs
    rw [← List.singleton_append, List.filterMap_append, List.forall_mem_append] at h
    have hv : ∀ y, b.vars.get? v.id = some y → y.kind = .localVar → ¬ H v.id →
        ∃ z ∈ before, z.Concerns v.id := by
      intro y hy hlocal hid
      obtain rfl : x = y := Option.some.inj (hx.symm.trans hy)
      by_contra hnone
      have hdeclares : v.declares = true := by
        refine hiff.mpr ⟨hlocal, fun z hz hconcerns => hnone ⟨z, hz, hconcerns⟩⟩
      exact hid (h.1 v (by simp [Visit.declared?, hdeclares]))
    refine List.forall_mem_cons.mpr ⟨⟨v, rfl, hv⟩, fun y hy => ?_⟩
    obtain ⟨w, rfl, hw⟩ := ih hvs huses h.2 y hy
    refine ⟨w, rfl, fun z hz hlocal hid => ?_⟩
    obtain ⟨u, hu, hconcerns⟩ := hw z hz hlocal hid
    rcases List.mem_append.mp hu with hu | hu
    · exact ⟨u, hu, hconcerns⟩
    · obtain rfl := List.mem_singleton.mp hu
      have hvw : v.id = w.id := hconcerns
      rw [← hvw] at hz hid ⊢
      exact hv z hz hlocal hid

end Known

variable [DecidablePred H]

def outsideOf (vs : List Occurrence) : List Occurrence := vs.filter fun v => ¬ H v.id

@[simp] theorem outsideOf_nil : outsideOf H [] = [] := rfl

@[simp] theorem outsideOf_append (vs us : List Occurrence) :
    outsideOf H (vs ++ us) = outsideOf H vs ++ outsideOf H us := List.filter_append ..

def Keeps (vs us : List Visit) : Prop :=
  ∀ before before', Follows b before vs → Follows b before' us → AgreeOutside b H before before' →
    AgreeOutside b H (before ++ vs) (before' ++ us) ∧
      outsideOf H (vs.filterMap Visit.declared?) = outsideOf H (us.filterMap Visit.declared?)

variable {b H}

theorem Keeps.nil : Keeps b H [] [] := by
  intro before before' _ _ hagree
  simpa using hagree

theorem Keeps.append (h : Keeps b H vs us) (h' : Keeps b H vs' us') :
    Keeps b H (vs ++ vs') (us ++ us') := by
  intro before before' hvs hus hagree
  rw [follows_append] at hvs hus
  obtain ⟨hagree, hsame⟩ := h _ _ hvs.1 hus.1 hagree
  obtain ⟨hagree, hsame'⟩ := h' _ _ hvs.2 hus.2 hagree
  rw [List.append_assoc, List.append_assoc] at hagree
  exact ⟨hagree, by simp [hsame, hsame']⟩

theorem keeps_use {v v' : Occurrence} (h : v.id = v'.id) : Keeps b H [.use v] [.use v'] := by
  rintro before before' ⟨⟨x, hx, hname, htype, hiff⟩, -⟩ ⟨⟨x', hx', hname', htype', hiff'⟩, -⟩
    hagree
  refine ⟨hagree.append fun id => by simp [Visit.Concerns, h], ?_⟩
  rw [← h] at hx' hiff'
  obtain rfl := Option.some.inj (hx.symm.trans hx')
  by_cases hid : H v.id
  · have hnone {w : Occurrence} (hw : v.id = w.id) :
        outsideOf H ([Visit.use w].filterMap Visit.declared?) = [] := by
      rw [hw] at hid
      cases hw : w.declares <;> simp [outsideOf, Visit.declared?, hw, hid]
    rw [hnone rfl, hnone h]
  · have hdeclares : v.declares = v'.declares := by
      rw [Bool.eq_iff_iff, hiff, hiff']
      refine and_congr_right fun hlocal => ?_
      simpa using not_congr (hagree v.id x hx hlocal hid)
    obtain rfl : v = v' := by
      obtain ⟨id, name, type, declares⟩ := v
      obtain ⟨id', name', type', declares'⟩ := v'
      simp_all
    rfl

theorem keeps_bind {v v' : Occurrence} (h : v.id = v'.id) : Keeps b H [.bind v] [.bind v'] := by
  rintro before before' ⟨⟨x, hx, hv⟩, -⟩ ⟨⟨x', hx', hv'⟩, -⟩ hagree
  refine ⟨hagree.append fun id => by simp [Visit.Concerns, h], ?_⟩
  rw [← h] at hx' hv'
  obtain rfl := Option.some.inj (hx.symm.trans hx')
  rw [hv, hv']

theorem keeps_uses (h : List.Forall₂ Visit.SameUse vs us) : Keeps b H vs us := by
  induction h with
  | nil => exact .nil
  | cons hx _ ih =>
    obtain ⟨hid⟩ := hx
    exact (keeps_use hid).append ih

theorem keeps_binds {vs us : List Occurrence} (h : List.Forall₂ (fun v v' => v.id = v'.id) vs us) :
    Keeps b H (vs.map .bind) (us.map .bind) := by
  induction h with
  | nil => exact .nil
  | cons hid _ ih => exact (keeps_bind hid).append ih

theorem Known.outsideOf_eq_nil (h : Known b H before vs) (hvs : Follows b before vs) :
    outsideOf H (vs.filterMap Visit.declared?) = [] := by
  induction vs generalizing before with
  | nil => rfl
  | cons x vs ih =>
    obtain ⟨hx, hvs⟩ := hvs
    have hrest : Known b H (before ++ [x]) vs :=
      (show Known b H before vs from fun y hy => h y (List.mem_cons_of_mem x hy)).mono
        fun z hz => List.mem_append_left _ hz
    obtain ⟨v, rfl, hv⟩ := h x List.mem_cons_self
    obtain ⟨y, hy, -, -, hiff⟩ := hx
    have hnone : outsideOf H ([Visit.use v].filterMap Visit.declared?) = [] := by
      cases hdeclares : v.declares with
      | false => simp [outsideOf, Visit.declared?, hdeclares]
      | true =>
        obtain ⟨hlocal, hnone⟩ := hiff.mp hdeclares
        have hid : H v.id := by
          by_contra hid
          obtain ⟨z, hz, hconcerns⟩ := hv y hy hlocal hid
          exact hnone z hz hconcerns
        simp [outsideOf, Visit.declared?, hdeclares, hid]
    rw [← List.singleton_append, List.filterMap_append, outsideOf_append, hnone, ih hrest hvs,
      List.append_nil]

/-- Uses that are made again declare nothing more. -/
theorem keeps_restates (h : Restates vs us) : Keeps b H vs us := by
  cases h with
  | same h => exact keeps_uses h
  | @again vs vs' us ws ws' h hagain hrest =>
    refine Keeps.append ?_ (keeps_uses hrest)
    intro before before' hvs hus hagree
    rw [follows_append] at hus
    obtain ⟨hagree, hsame⟩ := keeps_uses h before before' hvs hus.1 hagree
    have hknown : Known b H (before' ++ vs') us := by
      intro x hx
      obtain ⟨v, rfl, hy⟩ := (uses_of_sameUse hagain).2 x hx
      obtain ⟨z, hz, hconcerns⟩ := (concerns_of_sameUse h v.id).mp hy
      exact ⟨v, rfl, fun _ _ _ _ => ⟨z, List.mem_append_right _ hz, hconcerns⟩⟩
    rw [← List.append_assoc]
    refine ⟨hagree.trans hknown.agree, ?_⟩
    rw [List.filterMap_append, outsideOf_append, hknown.outsideOf_eq_nil hus.2, List.append_nil,
      hsame]

end Outside

end Unparse
