import Unparse.Proofs.Walk.Meets

/-! # Paths of visits

What a traversal does to its scope is a sequence of visits. A visit to a
variable looks it up and records its declaration; a visit to a construction is
the first one to it. Whatever a path preserves is preserved by a traversal.
-/

namespace Unparse

variable {κ : Type}

/-- One visit in the scope of a body. Events do not matter. -/
inductive Takes (b : Body κ) : Scope → Visit → Scope → Prop where
  /-- A local variable is declared by the first visit that records it. -/
  | useLocal {s : Scope} {id : VariableId} {v : Variable}
      (hv : b.vars.get? id = some v) (hk : v.kind = .localVar) (events : List Event) :
      Takes b s (.use ⟨id, v.name, v.type, (s.declared.insert id).1⟩)
        { s with
          declared := (s.declared.insert id).2
          events
          history := s.history ++ [.use ⟨id, v.name, v.type, (s.declared.insert id).1⟩] }
  | useOther {s : Scope} {id : VariableId} {v : Variable}
      (hv : b.vars.get? id = some v) (hk : v.kind ≠ .localVar) (events : List Event) :
      Takes b s (.use ⟨id, v.name, v.type, false⟩)
        { s with events, history := s.history ++ [.use ⟨id, v.name, v.type, false⟩] }
  | bind {s : Scope} {id : VariableId} {v : Variable}
      (hv : b.vars.get? id = some v) (events : List Event) :
      Takes b s (.bind ⟨id, v.name, v.type, true⟩)
        { s with
          declared := (s.declared.insert id).2
          events
          history := s.history ++ [.bind ⟨id, v.name, v.type, true⟩] }
  | enter {s : Scope} {id : ConstructionId} {construction : Construction κ}
      (hc : b.constructions.get? id = some construction) (hf : (s.visited.insert id).1 = true)
      (events : List Event) :
      Takes b s (.enter id)
        { s with
          visited := (s.visited.insert id).2
          events
          history := s.history ++ [.enter id] }

/-- A sequence of visits in the scope of a body. -/
inductive Path (b : Body κ) : Scope → List Visit → Scope → Prop where
  | nil {s : Scope} {events : List Event} : Path b s [] { s with events }
  | cons {s s' s'' : Scope} {v : Visit} {vs : List Visit} (hv : Takes b s v s')
      (hvs : Path b s' vs s'') : Path b s (v :: vs) s''

variable {b : Body κ} {s s' s'' : Scope} {v : Visit} {vs vs' : List Visit}

theorem Takes.history (h : Takes b s v s') : s'.history = s.history ++ [v] := by
  cases h <;> rfl

theorem Takes.events (h : Takes b s v s') (events events' : List Event) :
    Takes b { s with events } v { s' with events := events' } := by
  cases h with
  | useLocal hv hk => exact .useLocal (s := { s with events }) hv hk events'
  | useOther hv hk => exact .useOther (s := { s with events }) hv hk events'
  | bind hv => exact .bind (s := { s with events }) hv events'
  | enter hc hf => exact .enter (s := { s with events }) hc hf events'

namespace Path

theorem refl (s : Scope) : Path b s [] s := @nil κ b s s.events

theorem history (h : Path b s vs s') : s'.history = s.history ++ vs := by
  induction h with
  | nil => simp
  | cons hv _ ih => rw [ih, hv.history, List.append_assoc, List.singleton_append]

theorem events (h : Path b s vs s') (events events' : List Event) :
    Path b { s with events } vs { s' with events := events' } := by
  induction h generalizing events with
  | nil => exact .nil
  | cons hv _ ih => exact .cons (hv.events events events) (ih events)

theorem append (h : Path b s vs s') (h' : Path b s' vs' s'') : Path b s (vs ++ vs') s'' := by
  induction h generalizing s'' with
  | nil => simpa using h'.events _ s''.events
  | cons hv _ ih => exact .cons hv (ih h')

theorem of_takes (h : Takes b s v s') : Path b s [v] s' := .cons h .nil

/-- Whatever every visit preserves is preserved along a path. -/
theorem invariant {I : Scope → Prop}
    (htake : ∀ {s v s'}, I s → Takes b s v s' → I s')
    (hevents : ∀ {s events}, I s → I { s with events }) (h : Path b s vs s') (hs : I s) :
    I s' := by
  induction h with
  | nil => exact hevents hs
  | cons hv _ ih => exact ih (htake hs hv)

end Path

end Unparse
