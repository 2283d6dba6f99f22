import Unparse.Print.Class
import Unparse.Proofs.Walk.Depth

/-! # Trees of constructions

Unfolding succeeds on trees only, and on a tree it fails for no reason that has
to do with its links.
-/

namespace Unparse

variable {κ : Type} {c : Context κ} {b : Body κ} {head : Option ConstructionId}
  {vs : List Visit}

section Settles

variable {R : ConstructionId → Prop} (h : Settles b R head.toList vs)
include h

theorem Settles.mem_of_reaches {id : ConstructionId} (hid : Reaches b head id) :
    id ∈ entered vs := by
  have hmem (id : ConstructionId) : id ∈ entered vs ↔
      id ∈ head.toList ∨ ∃ source ∈ entered vs, id ∈ b.links source := by
    rw [← Multiset.mem_coe, h.account, Multiset.mem_add, Multiset.mem_coe, Body.mem_linksOf]
  induction hid with
  | head hhead => exact (hmem _).mpr (.inl (by simp [hhead]))
  | link _ htarget ih => exact (hmem _).mpr (.inr ⟨_, ih, htarget⟩)

/-- Visits that settle all links, each construction once, are those of a tree. -/
theorem Settles.isTree (hvs : (entered vs).Nodup)
    (hlive : ∀ id ∈ entered vs, b.constructions.contains id = true) : IsTree b head := by
  rw [← Multiset.coe_nodup, h.account, Body.linksOf, Multiset.coe_add, Multiset.coe_nodup,
    List.nodup_append, List.nodup_flatMap] at hvs
  obtain ⟨-, ⟨hlinks, hpairwise⟩, hhead⟩ := hvs
  have hsymm : Std.Symm (Function.onFun List.Disjoint b.links) := ⟨fun _ _ h => h.symm⟩
  have hdisjoint {id id' : ConstructionId} (hid : Reaches b head id) (hid' : Reaches b head id')
      (hne : id ≠ id') : List.Disjoint (b.links id) (b.links id') :=
    hpairwise.forall (h.mem_of_reaches hid) (h.mem_of_reaches hid') hne
  have hnot_head {id : ConstructionId} (hid : Reaches b head id) {target : ConstructionId}
      (htarget : target ∈ b.links id) : head ≠ some target := by
    rintro rfl
    exact hhead target (by simp) target
      (List.mem_flatMap.mpr ⟨id, h.mem_of_reaches hid, htarget⟩) rfl
  refine
    { live := fun id hid => hlive id (h.mem_of_reaches hid)
      nodup := fun id hid => hlinks id (h.mem_of_reaches hid)
      disjoint := fun id id' => hdisjoint
      not_head := fun id hid target => hnot_head hid
      irrefl := ?_ }
  -- A link to itself would be one of two to a construction, or lead to the head.
  intro id hid
  induction hid with
  | head hhead => exact fun hself => hnot_head (.head hhead) hself hhead
  | @link source target hsource htarget ih =>
    intro hself
    by_cases heq : source = target
    · subst heq
      exact ih hself
    · exact hdisjoint hsource (.link hsource htarget) heq htarget hself

end Settles

theorem IsTree.nodup_flatMap (h : IsTree b head) {ids : List ConstructionId}
    (hids : ids.Nodup) (hreaches : ∀ id ∈ ids, Reaches b head id) :
    (head.toList ++ ids.flatMap b.links).Nodup := by
  rw [List.nodup_append, List.nodup_flatMap]
  refine ⟨by cases head <;> simp, ⟨fun id hid => h.nodup id (hreaches id hid), ?_⟩, ?_⟩
  · refine hids.pairwise_of_forall_ne fun id hid id' hid' hne => ?_
    exact h.disjoint id id' (hreaches id hid) (hreaches id' hid') hne
  · rintro target htarget target' htarget' rfl
    obtain ⟨id, hid, htarget'⟩ := List.mem_flatMap.mp htarget'
    exact h.not_head id (hreaches id hid) target htarget' (by simpa using htarget)

/-- On a tree no link is to blame for a failure. -/
theorem IsTree.plain_of_fails (h : IsTree c.body head) {s : Scope} {e : PrintError}
    (hs : s.Consistent c.body) (hvs : s.history = vs)
    (he : Fails c (Reaches c.body head) head.toList s vs e) :
    Plain c (CreatedIn c (Reaches c.body head)) e := by
  subst hvs
  cases he with
  | plain he => exact he
  | unknown hid hlive =>
    rw [h.live _ hid] at hlive
    cases hlive
  | @revisited id hid hregion hle =>
    have hmem : id ∈ (head.toList : Multiset ConstructionId) + c.body.linksOf (entered s.history) :=
      Multiset.mem_of_le hle (Multiset.mem_cons_self id _)
    have hreaches : Reaches c.body head id := by
      rw [Multiset.mem_add, Multiset.mem_coe, Body.mem_linksOf] at hmem
      rcases hmem with hhead | ⟨source, hsource, hlink⟩
      · exact .head (by simpa using hhead)
      · exact .link (hregion source hsource) hlink
    obtain ⟨construction, hc⟩ := Arena.contains_iff.mp (h.live id hreaches)
    have hentered : id ∈ entered s.history := (hs.visited hc).mp hid
    have hnodup := h.nodup_flatMap hs.nodup hregion
    rw [← Multiset.coe_nodup, ← Multiset.coe_add] at hnodup
    have hcons := Multiset.nodup_of_le hle hnodup
    exact absurd hentered (Multiset.nodup_cons.mp hcons).1

/-- From a fresh scope every chain is unfolded to an end, without what would
happen at a depth beyond the number of constructions, and enters each of them at
most once. It is unfolded into code only if all that is reachable is a tree, and
then all of it is entered. On a tree it fails for plain reasons only, such as
those for which the members of an anonymous class in it cannot be printed. -/
theorem unfold_tree (c : Context κ) (head : Option ConstructionId) (events : List Event) :
    (∀ stuck n, c.body.constructions.size < n →
      (c.walkWithin stuck n head).run.run { events } = (c.unfold head).run.run { events }) ∧
    (entered ((c.unfold head).run.run { events }).2.history).Nodup ∧
    (∀ code, ((c.unfold head).run.run { events }).1 = .ok code →
      IsTree c.body head ∧ ∀ id, Reaches c.body head id →
        (entered ((c.unfold head).run.run { events }).2.history).count id = 1) ∧
    (IsTree c.body head → ∀ e, ((c.unfold head).run.run { events }).1 = .error e →
      Plain c (CreatedIn c (Reaches c.body head)) e) := by
  have hfresh := Scope.consistent_fresh c.body events
  have hmeets := walks_unfold (c := c) (R := Reaches c.body head)
    (fun id hid target htarget => .link hid htarget) head (fun id hid => .head hid)
    { events } hfresh (KeySet.missing_le_size _ _)
  refine ⟨fun stuck n => walkWithin_eq_unfold c stuck head events, ?_⟩
  rcases hrun : (c.unfold head).run.run { events } with ⟨e | code, sc⟩
  · obtain ⟨vs, hpath, hfails⟩ := hmeets.failure hrun
    have hconsistent := hpath.consistent hfresh
    refine ⟨hconsistent.nodup, nofun, ?_⟩
    rintro htree _ ⟨⟩
    exact htree.plain_of_fails hconsistent hpath.history hfails
  · obtain ⟨vs, hpath, hsettles, -⟩ := hmeets.result hrun
    have hconsistent := hpath.consistent hfresh
    have hhistory : sc.history = vs := hpath.history
    subst hhistory
    refine ⟨hconsistent.nodup, fun _ _ => ⟨?_, fun id hid => ?_⟩, nofun⟩
    · exact hsettles.isTree hconsistent.nodup hconsistent.live
    · exact List.count_eq_one_of_mem hconsistent.nodup (hsettles.mem_of_reaches hid)

/-- A block that creates an object of an anonymous class, in Java. The chain of
the only method of the class starts nowhere. -/
def creation : Context (ClassTree 1) where
  target := .java
  body :=
    let astray : ClassDecl Empty :=
      { methods := [{ name := "m", returnType := some "void", body := { entry := some ⟨1, 1⟩ } }] }
    { constructions := ⟨[⟨1, some { form := .block [.eval (.anonymous astray [])] }⟩], []⟩
      entry := some ⟨1, 1⟩ }
  view := ClassTree.toText ⟨.java, 4⟩

/-- A class that cannot be printed is no matter of the links around it. -/
theorem creation_fails :
    IsTree creation.body creation.body.entry ∧
      ((creation.unfold creation.body.entry).run.run {}).1 =
        .error (.unknownConstruction ⟨1, 1⟩) := by
  have hlinks : creation.body.links ⟨1, 1⟩ = [] := rfl
  have hreaches (id : ConstructionId) (h : Reaches creation.body creation.body.entry id) :
      id = ⟨1, 1⟩ := by
    induction h with
    | head h =>
      cases h
      rfl
    | link _ htarget ih =>
      rw [ih, hlinks] at htarget
      cases htarget
  refine ⟨⟨?_, ?_, ?_, ?_, ?_⟩, rfl⟩
  · intro id hid
    rw [hreaches id hid]
    rfl
  · intro id hid
    rw [hreaches id hid, hlinks]
    exact List.nodup_nil
  · intro id id' hid hid' hne
    exact absurd ((hreaches id hid).trans (hreaches id' hid').symm) hne
  · intro id hid target htarget
    rw [hreaches id hid, hlinks] at htarget
    cases htarget
  · intro id hid
    rw [hreaches id hid, hlinks]
    exact List.not_mem_nil

end Unparse
