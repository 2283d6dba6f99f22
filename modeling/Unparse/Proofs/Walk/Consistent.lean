import Unparse.Proofs.Walk.Live
import Unparse.Proofs.Walk.Path

/-! # Consistent scopes

What a scope remembers agrees with its history: a local variable is declared if
some visit concerned it, and a construction is visited if it was entered. A
fresh scope is consistent, and every visit keeps it so.
-/

namespace Unparse

variable {κ : Type} {b : Body κ} {s s' : Scope} {x : Visit} {vs : List Visit}

namespace Visit

def Concerns (id : VariableId) : Visit → Prop
  | use v | bind v => v.id = id
  | enter _ => False

theorem exists_concerns_concat {id : VariableId} :
    (∃ y ∈ vs ++ [x], y.Concerns id) ↔ (∃ y ∈ vs, y.Concerns id) ∨ x.Concerns id := by
  simp [or_and_right, exists_or]

def entered? : Visit → Option ConstructionId
  | enter id => some id
  | _ => none

end Visit

def entered (vs : List Visit) : List ConstructionId := vs.filterMap Visit.entered?

@[simp] theorem entered_nil : entered [] = [] := rfl

@[simp] theorem entered_append (vs us : List Visit) :
    entered (vs ++ us) = entered vs ++ entered us := List.filterMap_append

@[simp] theorem entered_use (v : Occurrence) (vs : List Visit) :
    entered (.use v :: vs) = entered vs := rfl

@[simp] theorem entered_bind (v : Occurrence) (vs : List Visit) :
    entered (.bind v :: vs) = entered vs := rfl

@[simp] theorem entered_enter (id : ConstructionId) (vs : List Visit) :
    entered (.enter id :: vs) = id :: entered vs := rfl

namespace Scope

/-- The scope agrees with its history. -/
structure Consistent (b : Body κ) (s : Scope) : Prop where
  declaredLive : s.declared.LiveIn b.vars
  visitedLive : s.visited.LiveIn b.constructions
  declared : ∀ {id v}, b.vars.get? id = some v → v.kind = .localVar →
    (s.declared.contains id = true ↔ ∃ x ∈ s.history, x.Concerns id)
  visited : ∀ {id construction}, b.constructions.get? id = some construction →
    (s.visited.contains id = true ↔ id ∈ entered s.history)
  live : ∀ id ∈ entered s.history, b.constructions.contains id = true
  nodup : (entered s.history).Nodup

theorem consistent_fresh (b : Body κ) (events : List Event) : Consistent b { events } where
  declaredLive := KeySet.liveIn_empty _
  visitedLive := KeySet.liveIn_empty _
  declared _ _ := by simp [KeySet.contains, KeySet.holder?]
  visited _ := by simp [KeySet.contains, KeySet.holder?]
  live := by simp
  nodup := by simp

theorem Consistent.events {events : List Event} (h : Consistent b s) :
    Consistent b { s with events } := { h with }

end Scope

open Scope (Consistent)

theorem Takes.consistent (hs : Consistent b s) (h : Takes b s x s') : Consistent b s' := by
  cases h with
  | @useLocal id v hv hk =>
    refine { hs with
      declaredLive := hs.declaredLive.insert hv
      declared := fun {id' v'} hv' hk' => ?_
      visited := fun hc => by simpa using hs.visited hc
      live := by simpa using hs.live
      nodup := by simpa using hs.nodup }
    rw [hs.declaredLive.contains_insert hv, Bool.or_eq_true, beq_iff_eq, hs.declared hv' hk',
      Visit.exists_concerns_concat, or_comm, eq_comm]
    rfl
  | @useOther id v hv hk =>
    refine { hs with
      declared := fun {id' v'} hv' hk' => ?_
      visited := fun hc => by simpa using hs.visited hc
      live := by simpa using hs.live
      nodup := by simpa using hs.nodup }
    have hne : id ≠ id' := by
      rintro rfl
      rw [hv] at hv'
      cases hv'
      exact hk hk'
    rw [hs.declared hv' hk', Visit.exists_concerns_concat]
    simp [Visit.Concerns, hne]
  | @bind id v hv =>
    refine { hs with
      declaredLive := hs.declaredLive.insert hv
      declared := fun {id' v'} hv' hk' => ?_
      visited := fun hc => by simpa using hs.visited hc
      live := by simpa using hs.live
      nodup := by simpa using hs.nodup }
    rw [hs.declaredLive.contains_insert hv, Bool.or_eq_true, beq_iff_eq, hs.declared hv' hk',
      Visit.exists_concerns_concat, or_comm, eq_comm]
    rfl
  | @enter id construction hc hf =>
    have hnew : id ∉ entered s.history := by
      rw [KeySet.insert_fst_of_live _ hc, Bool.not_eq_true'] at hf
      rw [← hs.visited hc, hf]
      decide
    refine { hs with
      visitedLive := hs.visitedLive.insert hc
      declared := fun {id' v'} hv' hk' => ?_
      visited := fun {id' construction'} hc' => ?_
      live := ?_
      nodup := ?_ }
    · rw [hs.declared hv' hk', Visit.exists_concerns_concat]
      simp [Visit.Concerns]
    · rw [hs.visitedLive.contains_insert hc, Bool.or_eq_true, hs.visited hc']
      simp [or_comm]
    · intro id' hid'
      simp only [entered_append, entered_enter, entered_nil, List.mem_append,
        List.mem_singleton] at hid'
      rcases hid' with hid' | rfl
      · exact hs.live id' hid'
      · exact Arena.contains_iff.mpr ⟨construction, hc⟩
    · simpa [List.nodup_append] using ⟨hs.nodup, fun _ hid' heq => hnew (heq ▸ hid')⟩

theorem Takes.missing_le (hs : Consistent b s) (h : Takes b s x s') :
    s'.visited.missing b.constructions ≤ s.visited.missing b.constructions := by
  cases h with
  | enter hc hf =>
    rw [KeySet.insert_fst_of_live _ hc, Bool.not_eq_true'] at hf
    exact (hs.visitedLive.missing_insert_lt hc hf).le
  | _ => exact le_rfl

namespace Path

theorem consistent (hs : Consistent b s) (h : Path b s vs s') : Consistent b s' :=
  h.invariant (fun hs hx => hx.consistent hs) Consistent.events hs

theorem missing_le (hs : Consistent b s) (h : Path b s vs s') :
    s'.visited.missing b.constructions ≤ s.visited.missing b.constructions := by
  induction h with
  | nil => exact le_rfl
  | cons hx _ ih => exact (ih (hx.consistent hs)).trans (hx.missing_le hs)

/-- Every visit of a path is made from where the visits before it lead. -/
theorem split {us : List Visit} (h : Path b s (us ++ x :: vs) s') :
    ∃ t t', Path b s us t ∧ Takes b t x t' ∧ Path b t' vs s' := by
  induction us generalizing s with
  | nil =>
    cases h with
    | cons hx hvs => exact ⟨_, _, .refl s, hx, hvs⟩
  | cons y us ih =>
    cases h with
    | cons hy hvs =>
      obtain ⟨t, t', hus, hx, hvs⟩ := ih hvs
      exact ⟨t, t', .cons hy hus, hx, hvs⟩

end Path

end Unparse
