import Mathlib.Data.List.Basic
import Unparse.Print.Chain

/-! # What linking a list does

A list of keys is linked pair by pair, from left to right. A later link from
the same construction overwrites an earlier one, so each live construction ends
up with the successor of its last place before the end of the list, and nothing
else changes. The links of distinct live constructions form a trail through all
of them.
-/

namespace Unparse

variable {κ : Type}

namespace Body

def next? (b : Body κ) (id : ConstructionId) : Option ConstructionId :=
  (b.constructions.get? id).bind (·.next)

/-- The keys of live constructions met one after the other from a key, each by
the link of the one before, and the link out of the last one. -/
inductive Trail (b : Body κ) :
    Option ConstructionId → List ConstructionId → Option ConstructionId → Prop where
  | nil (out : Option ConstructionId) : Trail b out [] out
  | cons {id : ConstructionId} {c : Construction κ} {ids : List ConstructionId}
      {out : Option ConstructionId} (hc : b.constructions.get? id = some c)
      (h : Trail b c.next ids out) : Trail b (some id) (id :: ids) out

/-- The effect of linking a list of keys, whether or not they are distinct and
live. -/
structure Linked (b : Body κ) (ids : List ConstructionId) (chain : Chain κ) : Prop where
  head : chain.head = ids.head?
  vars : chain.body.vars = b.vars
  entry : chain.body.entry = b.entry
  dead : ∀ x, b.constructions.get? x = none → chain.body.constructions.get? x = none
  /-- A construction is followed by what comes after its last place before the
  end of the list. -/
  linked : ∀ x c i y, b.constructions.get? x = some c → ids[i]? = some x → ids[i + 1]? = some y →
    (∀ j, i < j → ids[j]? = some x → j + 1 = ids.length) →
    chain.body.constructions.get? x = some { c with next := some y }
  kept : ∀ x c, b.constructions.get? x = some c → x ∉ ids.dropLast →
    chain.body.constructions.get? x = some c
  /-- The turn of a pair comes when the pairs before it have been linked. -/
  events : chain.events = ((ids.zip ids.tail).zipIdx.filter fun (pair, j) =>
    ((b.linkAll (ids.take (j + 1))).body.next? pair.1).isSome).map fun (pair, _) =>
      .relinked pair.1
  warnings : ∀ e ∈ chain.events, e.level = .warn
  trail : ids.Nodup → (∀ x ∈ ids, b.constructions.contains x = true) → ∀ rest out,
    b.Trail (ids.getLast?.bind b.next?) rest out → List.Disjoint ids.dropLast rest →
    chain.body.Trail chain.head (ids ++ rest) out

variable {b : Body κ} {x source target : ConstructionId} {ids : List ConstructionId}

/-! ## One link -/

@[simp] theorem link_vars : (b.link source target).2.vars = b.vars := rfl

@[simp] theorem link_entry : (b.link source target).2.entry = b.entry := rfl

theorem link_fst : (b.link source target).1 = (b.next? source).isSome := by
  unfold link next?
  cases b.constructions.get? source <;> rfl

theorem get?_link : (b.link source target).2.constructions.get? x =
    (b.constructions.get? x).map fun c =>
      { c with next := (if source = x then some target else none).or c.next } := by
  unfold link
  rw [Arena.get?_modify]
  by_cases h : x = source
  · simp [h]
  · simp [h, Ne.symm h]

theorem get?_link_of_ne (h : x ≠ source) :
    (b.link source target).2.constructions.get? x = b.constructions.get? x := by
  simp [get?_link, Ne.symm h]

theorem next?_link_of_ne (h : x ≠ source) : (b.link source target).2.next? x = b.next? x := by
  simp [next?, get?_link_of_ne h]

/-! ## One link after the other -/

@[simp] theorem linkAll_nil : b.linkAll [] = ⟨none, [], b⟩ := rfl

@[simp] theorem linkAll_singleton : b.linkAll [x] = ⟨some x, [], b⟩ := rfl

theorem linkAll_cons_body : (b.linkAll (source :: target :: ids)).body =
    ((b.link source target).2.linkAll (target :: ids)).body := by
  simp [linkAll, Body.chain]

theorem linkAll_cons_events : (b.linkAll (source :: target :: ids)).events =
    (if (b.next? source).isSome then [.relinked source] else []) ++
      ((b.link source target).2.linkAll (target :: ids)).events := by
  simp only [linkAll, Body.chain, link_fst]
  split <;> simp

/-! ## The successors in a list -/

/-- The successor of the last place of a key before the end of a list. -/
def successor? (x : ConstructionId) : List ConstructionId → Option ConstructionId
  | source :: target :: ids =>
    (successor? x (target :: ids)).or (if source = x then some target else none)
  | _ => none

theorem isSome_successor?_iff : ∀ {ids : List ConstructionId},
    (successor? x ids).isSome ↔ x ∈ ids.dropLast
  | [] => by simp [successor?]
  | [_] => by simp [successor?]
  | source :: target :: ids => by
    rw [successor?, Option.isSome_or, Bool.or_eq_true, isSome_successor?_iff,
      List.dropLast_cons_cons, List.mem_cons, or_comm, eq_comm (a := x)]
    by_cases h : source = x <;> simp [h]

theorem successor?_eq_none (h : x ∉ ids.dropLast) : successor? x ids = none := by
  rwa [← isSome_successor?_iff, Bool.not_eq_true, Option.isSome_eq_false_iff,
    Option.isNone_iff_eq_none] at h

theorem successor?_eq_some : ∀ {ids : List ConstructionId} {i : Nat},
    ids[i]? = some x → ids[i + 1]? = some target →
    (∀ j, i < j → ids[j]? = some x → j + 1 = ids.length) → successor? x ids = some target
  | [], _, hx, _, _ => by simp at hx
  | [_], i, _, ht, _ => by simp at ht
  | source :: target' :: ids, 0, hx, ht, hlast => by
    have hnone : x ∉ (target' :: ids).dropLast := by
      intro hmem
      obtain ⟨j, hj⟩ := List.mem_iff_getElem?.1 hmem
      rw [List.getElem?_dropLast] at hj
      have hlt : j < ids.length := by grind
      have hend := hlast (j + 1) (by omega) (by grind)
      simp at hend
      omega
    obtain rfl : source = x := by simpa using hx
    obtain rfl : target' = target := by simpa using ht
    simp [successor?, successor?_eq_none hnone]
  | source :: target' :: ids, i + 1, hx, ht, hlast => by
    have hrest : successor? x (target' :: ids) = some target := by
      apply successor?_eq_some (i := i) (by simpa using hx) (by simpa using ht)
      intro j hj hjx
      have := hlast (j + 1) (by omega) (by simpa using hjx)
      simp at this ⊢
      omega
    simp [successor?, hrest]

/-! ## All links -/

theorem linkAll_vars : ∀ (ids : List ConstructionId) (b : Body κ),
    (b.linkAll ids).body.vars = b.vars
  | [], _ => rfl
  | [_], _ => rfl
  | source :: target :: ids, b => by
    rw [linkAll_cons_body, linkAll_vars (target :: ids), link_vars]

theorem linkAll_entry : ∀ (ids : List ConstructionId) (b : Body κ),
    (b.linkAll ids).body.entry = b.entry
  | [], _ => rfl
  | [_], _ => rfl
  | source :: target :: ids, b => by
    rw [linkAll_cons_body, linkAll_entry (target :: ids), link_entry]

/-- Linking sets successors and nothing else. -/
theorem get?_linkAll : ∀ (ids : List ConstructionId) (b : Body κ),
    (b.linkAll ids).body.constructions.get? x =
      (b.constructions.get? x).map fun c => { c with next := (successor? x ids).or c.next }
  | [], b => by simp [successor?]
  | [_], b => by simp [successor?]
  | source :: target :: ids, b => by
    rw [linkAll_cons_body, get?_linkAll (target :: ids), get?_link, Option.map_map]
    simp [Function.comp_def, successor?, Option.or_assoc]

theorem linkAll_events : ∀ (ids : List ConstructionId) (b : Body κ),
    (b.linkAll ids).events = ((ids.zip ids.tail).zipIdx.filter fun (pair, j) =>
      ((b.linkAll (ids.take (j + 1))).body.next? pair.1).isSome).map fun (pair, _) =>
        .relinked pair.1
  | [], _ => rfl
  | [_], _ => rfl
  | source :: target :: ids, b => by
    rw [linkAll_cons_events, linkAll_events (target :: ids)]
    simp only [List.tail_cons, List.zip_cons_cons, List.zipIdx_cons', List.filter_cons,
      List.filter_map, Function.comp_def, Prod.map, id, List.take_succ_cons, linkAll_cons_body,
      List.take_zero, linkAll_singleton]
    split <;> simp [Function.comp_def]

/-! ## Following the links -/

theorem Trail.congr {b b' : Body κ} {entry out : Option ConstructionId}
    (h : b.Trail entry ids out)
    (hb : ∀ x ∈ ids, b'.constructions.get? x = b.constructions.get? x) :
    b'.Trail entry ids out := by
  induction h with
  | nil out => exact .nil out
  | cons hc _ ih =>
    rw [List.forall_mem_cons] at hb
    exact .cons (hb.1.trans hc) (ih hb.2)

/-- Distinct live keys are on a trail that goes on as it did after the last of
them. -/
theorem trail_linkAll {rest : List ConstructionId} {out : Option ConstructionId} :
    ∀ {ids : List ConstructionId} {b : Body κ}, ids.Nodup →
      (∀ x ∈ ids, b.constructions.contains x = true) →
      b.Trail (ids.getLast?.bind b.next?) rest out → List.Disjoint ids.dropLast rest →
      (b.linkAll ids).body.Trail ids.head? (ids ++ rest) out
  | [], _, _, _, h, _ => h
  | [x], b, _, hlive, h, _ => by
    obtain ⟨c, hc⟩ := Arena.contains_iff.1 (hlive x (by simp))
    exact .cons hc (by simpa [next?, hc] using h)
  | source :: target :: ids, b, hnodup, hlive, h, hdisjoint => by
    obtain ⟨hsource, hnodup⟩ := List.nodup_cons.1 hnodup
    rw [List.forall_mem_cons] at hlive
    rw [List.dropLast_cons_cons, List.disjoint_cons_left] at hdisjoint
    obtain ⟨c, hc⟩ := Arena.contains_iff.1 hlive.1
    have hnone : successor? source (target :: ids) = none :=
      successor?_eq_none fun hmem => hsource (List.dropLast_subset _ hmem)
    have hnext : ((b.link source target).2.linkAll (target :: ids)).body.constructions.get? source =
        some { c with next := some target } := by
      simp [get?_linkAll, get?_link, hc, hnone]
    have hout : (target :: ids).getLast?.bind (b.link source target).2.next? =
        (source :: target :: ids).getLast?.bind b.next? := by
      rw [List.getLast?_cons_cons]
      apply Option.bind_congr
      intro x hx
      apply next?_link_of_ne
      rintro rfl
      exact hsource (List.mem_of_getLast? hx)
    rw [linkAll_cons_body]
    apply Trail.cons hnext
    apply trail_linkAll hnodup
    · intro x hx
      have hne : x ≠ source := fun h => hsource (h ▸ hx)
      simpa [Arena.contains, get?_link_of_ne hne] using hlive.2 x hx
    · rw [hout]
      apply h.congr
      intro x hx
      exact get?_link_of_ne fun h => hdisjoint.1 (h ▸ hx)
    · exact hdisjoint.2

/-- Linking a list has its intended effect on every body, whether or not the
keys are distinct and live. -/
theorem linked_linkAll (b : Body κ) (ids : List ConstructionId) : b.Linked ids (b.linkAll ids) where
  head := rfl
  vars := linkAll_vars ids b
  entry := linkAll_entry ids b
  dead x hx := by simp [get?_linkAll, hx]
  linked x c i y hc hx hy hlast := by
    simp [get?_linkAll, hc, successor?_eq_some hx hy hlast]
  kept x c hc hx := by simp [get?_linkAll, hc, successor?_eq_none hx]
  events := linkAll_events ids b
  warnings e he := by
    simp only [linkAll, List.mem_map] at he
    obtain ⟨_, _, rfl⟩ := he
    rfl
  trail hnodup hlive rest out h hdisjoint := trail_linkAll hnodup hlive h hdisjoint

end Body

end Unparse
