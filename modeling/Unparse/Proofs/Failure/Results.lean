import Mathlib.Data.List.Forall2
import Unparse.Print.Error
import Unparse.Proofs.Walk.Related

/-! # Results

A sequence of computations fails with the first of them that does, and so does a
list of parts that are computed one after another. If they all come to a result,
the results are those of the parts.
-/

namespace Unparse

variable {α β : Type} {x : Except PrintError α}

/-! ## Sequences -/

section Sequences

variable {f : α → Except PrintError β} {g : α → β} {b : β} {P : Prop}

theorem bind_eq_ok_iff : (x >>= f) = .ok b ↔ ∃ a, x = .ok a ∧ f a = .ok b := by
  cases x with
  | error e => exact ⟨nofun, nofun⟩
  | ok a =>
    refine ⟨fun h => ⟨a, rfl, h⟩, ?_⟩
    rintro ⟨_, ⟨⟩, h⟩
    exact h

theorem map_eq_ok_iff : x.map g = .ok b ↔ ∃ a, x = .ok a ∧ b = g a := by
  cases x <;> simp [Except.map, eq_comm]

theorem map_error_iff : (∃ e, x.map g = .error e) ↔ ∃ e, x = .error e := by
  cases x with
  | error e => exact ⟨fun _ => ⟨e, rfl⟩, fun _ => ⟨e, rfl⟩⟩
  | ok a => exact ⟨nofun, nofun⟩

theorem error_bind_iff (hf : ∀ a, (∃ e, f a = .error e) ↔ P) :
    (∃ e, (x >>= f) = .error e) ↔ (∃ e, x = .error e) ∨ P := by
  cases x with
  | error e => exact ⟨fun _ => .inl ⟨e, rfl⟩, fun _ => ⟨e, rfl⟩⟩
  | ok a => exact (hf a).trans ⟨.inr, fun h => h.resolve_left nofun⟩

end Sequences

/-! ## Lists of parts -/

section Lists

variable {f : α → Except PrintError β} {as : List α} {bs : List β} {a : α} {b : β}
  {R : α → Prop} {P : β → Prop}

theorem mapM_error_iff : (∃ e, as.mapM f = .error e) ↔ ∃ a ∈ as, ∃ e, f a = .error e := by
  induction as with
  | nil => exact ⟨nofun, nofun⟩
  | cons a as ih =>
    rw [List.mapM_cons]
    cases ha : f a with
    | error e => exact ⟨fun _ => ⟨a, List.mem_cons_self, e, ha⟩, fun _ => ⟨e, rfl⟩⟩
    | ok b =>
      have hskip : (∃ x ∈ a :: as, ∃ e, f x = .error e) ↔ ∃ x ∈ as, ∃ e, f x = .error e := by
        simp [ha]
      rw [hskip, ← ih]
      cases as.mapM f with
      | error e => exact Iff.rfl
      | ok bs => exact ⟨nofun, nofun⟩

theorem forall₂_of_mapM (h : as.mapM f = .ok bs) :
    List.Forall₂ (fun a b => f a = .ok b) as bs := by
  induction as generalizing bs with
  | nil =>
    cases h
    exact .nil
  | cons a as ih =>
    rw [List.mapM_cons] at h
    obtain ⟨b, hb, h⟩ := bind_eq_ok_iff.mp h
    obtain ⟨rest, hrest, h⟩ := bind_eq_ok_iff.mp h
    cases h
    exact .cons hb (ih hrest)

theorem forall_of_mapM (hf : ∀ a b, f a = .ok b → P b) (h : as.mapM f = .ok bs) :
    ∀ b ∈ bs, P b :=
  forall_of_forall₂ ((forall₂_of_mapM h).imp hf)

theorem exists_of_mapM (hf : ∀ a b, f a = .ok b → R a → P b) (h : as.mapM f = .ok bs)
    (hR : ∃ a ∈ as, R a) : ∃ b ∈ bs, P b :=
  exists_of_forall₂ ((forall₂_of_mapM h).imp hf) hR

theorem mem_of_mapM (h : as.mapM f = .ok bs) (ha : a ∈ as) (hb : f a = .ok b) : b ∈ bs := by
  have hsame (a' : α) (b' : β) (hb' : f a' = .ok b') (heq : a' = a) : b' = b := by
    rw [heq, hb] at hb'
    exact (Except.ok.inj hb').symm
  obtain ⟨b', hmem, rfl⟩ := exists_of_mapM hsame h ⟨a, ha, rfl⟩
  exact hmem

end Lists

end Unparse
