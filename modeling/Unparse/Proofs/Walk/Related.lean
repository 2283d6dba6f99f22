import Mathlib.Data.List.Forall2
import Unparse.Code.Unfold

/-! # Control structures part by part

Two control structures are related if they are of one kind and their parts are
related one by one. An empty block has no parts.
-/

namespace Unparse

variable {ν ν' ε ε' σ σ' β β' : Type}

/-- Control structures of one kind with related variables, expressions,
statements and branches. -/
inductive Form.Rel (V : ν → ν' → Prop) (E : ε → ε' → Prop) (S : σ → σ' → Prop)
    (B : β → β' → Prop) : Form ν ε σ β → Form ν' ε' σ' β' → Prop where
  | block {statements statements'} (hs : List.Forall₂ S statements statements') :
    Rel V E S B (.block statements) (.block statements')
  | conditional {e e' whenTrue whenTrue' whenFalse whenFalse'} (he : E e e')
      (ht : B whenTrue whenTrue') (hf : Option.Rel B whenFalse whenFalse') :
    Rel V E S B (.conditional e whenTrue whenFalse) (.conditional e' whenTrue' whenFalse')
  | whileLoop {e e' body body'} (he : E e e') (hb : B body body') :
    Rel V E S B (.whileLoop e body) (.whileLoop e' body')
  | doLoop {e e' body body'} (he : E e e') (hb : B body body') :
    Rel V E S B (.doLoop e body) (.doLoop e' body')
  | countedLoop {init init' e e' update update' body body'} (hi : Option.Rel S init init')
      (he : E e e') (hu : Option.Rel S update update') (hb : B body body') :
    Rel V E S B (.countedLoop init e update body) (.countedLoop init' e' update' body')
  | forEach {vars vars' e e' body body'} (hv : List.Forall₂ V vars vars') (he : E e e')
      (hb : B body body') :
    Rel V E S B (.forEach vars e body) (.forEach vars' e' body')
  | guarded {body body' handlers handlers' cleanup cleanup'} (hb : B body body')
      (hh : List.Forall₂ (fun h h' => V h.1 h'.1 ∧ B h.2 h'.2) handlers handlers')
      (hc : Option.Rel B cleanup cleanup') :
    Rel V E S B (.guarded body handlers cleanup) (.guarded body' handlers' cleanup')
  | switch {e e' cases cases'} (he : E e e')
      (hc : List.Forall₂ (fun c c' => c.1 = c'.1 ∧ B c.2 c'.2) cases cases') :
    Rel V E S B (.switch e cases) (.switch e' cases')
  | select {e e' arms arms' fallback fallback'} (he : E e e')
      (ha : List.Forall₂ (fun a a' => E a.1 a'.1 ∧ B a.2 a'.2) arms arms')
      (hf : Option.Rel B fallback fallback') :
    Rel V E S B (.select e arms fallback) (.select e' arms' fallback')

namespace Form.Rel

variable {V : ν → ν' → Prop} {E : ε → ε' → Prop} {S : σ → σ' → Prop} {B : β → β' → Prop}
  {form : Form ν ε σ β} {form' : Form ν' ε' σ' β'}

theorem isBlock_eq (h : form.Rel V E S B form') : form.isBlock = form'.isBlock := by
  cases h <;> rfl

theorem isEmptyBlock_eq (h : form.Rel V E S B form') : form.isEmptyBlock = form'.isEmptyBlock := by
  cases h with
  | block hs => cases hs <;> rfl
  | _ => rfl

theorem isConditional_eq (h : form.Rel V E S B form') :
    form.isConditional = form'.isConditional := by
  cases h <;> rfl

theorem isCountedLoop_eq (h : form.Rel V E S B form') :
    form.isCountedLoop = form'.isCountedLoop := by
  cases h <;> rfl

end Form.Rel

/-- Every expression, statement and branch of a control structure has a property. -/
def Form.Each (E : ε → Prop) (S : σ → Prop) (B : β → Prop) : Form ν ε σ β → Prop
  | block statements => ∀ stmt ∈ statements, S stmt
  | conditional e whenTrue whenFalse => E e ∧ B whenTrue ∧ ∀ branch ∈ whenFalse, B branch
  | whileLoop e body | doLoop e body | forEach _ e body => E e ∧ B body
  | countedLoop init e update body =>
    (∀ stmt ∈ init, S stmt) ∧ E e ∧ (∀ stmt ∈ update, S stmt) ∧ B body
  | guarded body handlers cleanup =>
    B body ∧ (∀ handler ∈ handlers, B handler.2) ∧ ∀ branch ∈ cleanup, B branch
  | switch e cases => E e ∧ ∀ case ∈ cases, B case.2
  | select e arms fallback => E e ∧ (∀ arm ∈ arms, E arm.1 ∧ B arm.2) ∧ ∀ branch ∈ fallback, B branch

theorem forall_of_forall₂ {α α' : Type} {P : α' → Prop} {as : List α} {as' : List α'}
    (h : List.Forall₂ (fun _ a => P a) as as') : ∀ a ∈ as', P a := by
  induction h with
  | nil => nofun
  | cons h _ ih => exact List.forall_mem_cons.mpr ⟨h, ih⟩

theorem forall_of_option_rel {α α' : Type} {P : α' → Prop} {o : Option α} {o' : Option α'}
    (h : Option.Rel (fun _ a => P a) o o') : ∀ a ∈ o', P a := by
  rintro a rfl
  cases h
  assumption

theorem Form.Rel.each {V : ν → ν' → Prop} {E : ε' → Prop} {S : σ' → Prop} {B : β' → Prop}
    {form : Form ν ε σ β} {form' : Form ν' ε' σ' β'}
    (h : form.Rel V (fun _ => E) (fun _ => S) (fun _ => B) form') : form'.Each E S B := by
  cases h with
  | block hs => exact forall_of_forall₂ hs
  | conditional he ht hf => exact ⟨he, ht, forall_of_option_rel hf⟩
  | whileLoop he hb => exact ⟨he, hb⟩
  | doLoop he hb => exact ⟨he, hb⟩
  | countedLoop hi he hu hb => exact ⟨forall_of_option_rel hi, he, forall_of_option_rel hu, hb⟩
  | forEach _ he hb => exact ⟨he, hb⟩
  | guarded hb hh hc =>
    exact ⟨hb, forall_of_forall₂ (hh.imp fun _ _ h => h.2), forall_of_option_rel hc⟩
  | switch he hc => exact ⟨he, forall_of_forall₂ (hc.imp fun _ _ h => h.2)⟩
  | select he ha hf => exact ⟨he, forall_of_forall₂ ha, forall_of_option_rel hf⟩

def Form.Some {ν ε σ β : Type} (E : ε → Prop) (S : σ → Prop) (B : β → Prop) :
    Form ν ε σ β → Prop
  | block statements => ∃ stmt ∈ statements, S stmt
  | conditional e whenTrue whenFalse => E e ∨ B whenTrue ∨ ∃ branch ∈ whenFalse, B branch
  | whileLoop e body | doLoop e body | forEach _ e body => E e ∨ B body
  | countedLoop init e update body =>
    (∃ stmt ∈ init, S stmt) ∨ E e ∨ (∃ stmt ∈ update, S stmt) ∨ B body
  | guarded body handlers cleanup =>
    B body ∨ (∃ handler ∈ handlers, B handler.2) ∨ ∃ branch ∈ cleanup, B branch
  | switch e cases => E e ∨ ∃ case ∈ cases, B case.2
  | select e arms fallback =>
    E e ∨ (∃ arm ∈ arms, E arm.1 ∨ B arm.2) ∨ ∃ branch ∈ fallback, B branch

theorem exists_of_forall₂ {α α' : Type} {P : α → Prop} {P' : α' → Prop} {as : List α}
    {as' : List α'} (h : List.Forall₂ (fun a a' => P a → P' a') as as') (hP : ∃ a ∈ as, P a) :
    ∃ a ∈ as', P' a := by
  induction h with
  | nil => simp at hP
  | cons h _ ih =>
    rw [List.exists_mem_cons_iff] at hP ⊢
    exact hP.imp h ih

theorem exists_of_option_rel {α α' : Type} {P : α → Prop} {P' : α' → Prop} {o : Option α}
    {o' : Option α'} (h : Option.Rel (fun a a' => P a → P' a') o o') (hP : ∃ a ∈ o, P a) :
    ∃ a ∈ o', P' a := by
  obtain ⟨a, rfl, hP⟩ := hP
  cases h with
  | some h => exact ⟨_, rfl, h hP⟩

theorem Form.Rel.some {ν ν' ε ε' σ σ' β β' : Type} {V : ν → ν' → Prop} {E : ε → Prop}
    {E' : ε' → Prop} {S : σ → Prop} {S' : σ' → Prop} {B : β → Prop} {B' : β' → Prop}
    {form : Form ν ε σ β} {form' : Form ν' ε' σ' β'}
    (h : form.Rel V (fun e e' => E e → E' e') (fun stmt stmt' => S stmt → S' stmt')
      (fun b b' => B b → B' b') form') (hsome : form.Some E S B) : form'.Some E' S' B' := by
  cases h with
  | block hs => exact exists_of_forall₂ hs hsome
  | conditional he ht hf => exact hsome.imp he (.imp ht (exists_of_option_rel hf))
  | whileLoop he hb => exact hsome.imp he hb
  | doLoop he hb => exact hsome.imp he hb
  | countedLoop hi he hu hb =>
    exact hsome.imp (exists_of_option_rel hi) (.imp he (.imp (exists_of_option_rel hu) hb))
  | forEach _ he hb => exact hsome.imp he hb
  | guarded hb hh hc =>
    exact hsome.imp hb (.imp (exists_of_forall₂ (hh.imp fun _ _ h => h.2)) (exists_of_option_rel hc))
  | switch he hc => exact hsome.imp he (exists_of_forall₂ (hc.imp fun _ _ h => h.2))
  | select he ha hf =>
    have harms := ha.imp fun arm arm' h (harm : E arm.1 ∨ B arm.2) => harm.imp h.1 h.2
    exact hsome.imp he (.imp (exists_of_forall₂ harms) (exists_of_option_rel hf))

theorem forall₂_toList {α α' : Type} {R : α → α' → Prop} {o : Option α}
    {o' : Option α'} (h : Option.Rel R o o') : List.Forall₂ R o.toList o'.toList := by
  cases h with
  | none => exact .nil
  | some h => exact .cons h .nil

theorem forall₂_isEmpty {α α' : Type} {R : α → α' → Prop} {as : List α} {as' : List α'}
    (h : List.Forall₂ R as as') : as.isEmpty = as'.isEmpty := by
  cases h <;> rfl

theorem forall₂_zipIdx {α α' : Type} {R : α → α' → Prop} {as : List α} {as' : List α'}
    (h : List.Forall₂ R as as') (n : Nat) :
    List.Forall₂ (fun p p' => R p.1 p'.1 ∧ p.2 = p'.2) (as.zipIdx n) (as'.zipIdx n) := by
  induction h generalizing n with
  | nil => exact .nil
  | cons ha _ ih => exact .cons ⟨ha, rfl⟩ (ih (n + 1))

theorem Construction.form_of_isEmptyBlock {κ : Type} (c : Construction κ)
    (h : c.isEmptyBlock = true) : c.form = .block [] := by
  obtain ⟨form, place, next⟩ := c
  obtain ⟨hform, -⟩ := Bool.and_eq_true_iff.mp h
  rcases form with ⟨_ | ⟨stmt, statements⟩⟩ <;> first | rfl | cases hform

theorem Context.carrier_of_elseIf? {κ : Type} {c : Context κ} {id next : ConstructionId}
    (h : c.elseIf? id = .ok (some next)) :
    ∃ carrier, c.body.constructions.get? id = some carrier ∧ carrier.isEmptyBlock = true ∧
      carrier.next = some next := by
  unfold elseIf? Body.peek at h
  cases hcarrier : c.body.constructions.get? id with
  | none =>
    rw [hcarrier] at h
    cases h
  | some carrier =>
    rw [hcarrier] at h
    rcases carrier with ⟨form, place, _ | follower⟩
    · cases h
    · change (if _ then _ else _ : Except PrintError (Option ConstructionId)) = _ at h
      split_ifs at h with hempty
      · cases hfollower : c.body.constructions.get? follower with
        | none =>
          rw [hfollower] at h
          cases h
        | some f =>
          rw [hfollower] at h
          change Except.ok (if _ then some follower else none) = _ at h
          split_ifs at h
          · cases h
            exact ⟨_, rfl, hempty, rfl⟩
          · cases h
      · cases h

end Unparse
