import Unparse.Proofs.Meaning.WhileForm
import Unparse.Proofs.Names.Declared

/-! # Declarations that leave their loop

Where counted loops have no header, what the header would declare stands around the loop
or inside of it. Everything else is declared in the same block in both languages: this is
read off the two texts part by part, with the variables that were visited before.
-/

namespace Unparse

open Unparse.Part (newline keyword expression item owned)
open Visit (declared?)

def Form.headerVisits : FormCode → List Visit
  | countedLoop init condition update _ =>
    init.toList.flatMap StmtCode.visits ++ condition.visits ++
      update.toList.flatMap StmtCode.visits
  | _ => []

/-- A variable is declared in the header of a counted loop. -/
def Hoisted (code : Code) (id : VariableId) : Prop :=
  ∃ e : Element, e.Occurs code ∧ ∃ v ∈ e.form.headerVisits.filterMap declared?, v.id = id

section Texts

variable {κ : Type} (b : Body κ) (H : VariableId → Prop) [DecidablePred H]

/-- Except for variables of a set, the same is declared in each block. -/
structure AlikeOutside (rs rs' : List Region) : Prop where
  declared : outsideOf H (Region.declared rs) = outsideOf H (Region.declared rs')
  inner : (Region.allInner rs).map (outsideOf H) = (Region.allInner rs').map (outsideOf H)

/-- Visits after others that agree, with their texts, declare the same in each block, and
agree at their end. -/
def Simulates (vs us : List Visit) (ps qs : List Part) : Prop :=
  ∀ before before', Follows b before vs → Follows b before' us → AgreeOutside b H before before' →
    AgreeOutside b H (before ++ vs) (before' ++ us) ∧
      ∃ rs rs', Reads (ps.map owned) rs ∧ Reads (qs.map owned) rs' ∧ AlikeOutside H rs rs'

variable {b H} {rs rs' qs qs' : List Region} {vs vs' us us' hs hs' : List Visit}
  {ps ps' os os' : List Part}

theorem AlikeOutside.append (h : AlikeOutside H rs rs') (h' : AlikeOutside H qs qs') :
    AlikeOutside H (rs ++ qs) (rs' ++ qs') where
  declared := by simp [h.declared, h'.declared]
  inner := by simp [h.inner, h'.inner]

theorem AlikeOutside.block (h : AlikeOutside H rs rs') :
    AlikeOutside H [.block rs] [.block rs'] where
  declared := rfl
  inner := by simp [Region.allInner, Region.inner, h.declared, h.inner]

theorem alikeOutside_visits
    (h : outsideOf H (vs.filterMap declared?) = outsideOf H (us.filterMap declared?)) :
    AlikeOutside H (vs.map .visit) (us.map .visit) where
  declared := by simpa using h
  inner := by simp

theorem Flat.owned (h : Flat ps vs) (hcatch : keyword " catch " ∉ ps) :
    Flat (ps.map owned) vs := by rwa [map_owned hcatch]

theorem map_owned_bracedParts (ps : List Part) :
    (bracedParts ps).map owned = bracedParts (ps.map owned) := by
  simp [bracedParts, owned]

theorem map_owned_loop {word : String} (h : word = "for (" ∨ word = " catch ") (hs ps : List Part) :
    (keyword word :: hs ++ bracedParts ps).map owned =
      keyword "for (" :: hs.map owned ++ bracedParts (ps.map owned) := by
  rcases h with rfl | rfl <;> simp [bracedParts, owned]

namespace Simulates

theorem nil : Simulates b H [] [] [] [] := by
  intro before before' _ _ hagree
  exact ⟨by simpa using hagree, [], [], .nil, .nil, rfl, rfl⟩

theorem flat (h : Keeps b H vs us) (hps : Flat (ps.map owned) vs) (hos : Flat (os.map owned) us) :
    Simulates b H vs us ps os := by
  intro before before' hvs hus hagree
  obtain ⟨hagree, hsame⟩ := h before before' hvs hus hagree
  exact ⟨hagree, _, _, hps.reads, hos.reads, alikeOutside_visits hsame⟩

theorem append (h : Simulates b H vs us ps os) (h' : Simulates b H vs' us' ps' os') :
    Simulates b H (vs ++ vs') (us ++ us') (ps ++ ps') (os ++ os') := by
  intro before before' hvs hus hagree
  rw [follows_append] at hvs hus
  obtain ⟨hagree, rs, rs', hrs, hrs', halike⟩ := h _ _ hvs.1 hus.1 hagree
  obtain ⟨hagree, qs, qs', hqs, hqs', halike'⟩ := h' _ _ hvs.2 hus.2 hagree
  rw [List.append_assoc, List.append_assoc] at hagree
  refine ⟨hagree, rs ++ qs, rs' ++ qs', ?_, ?_, halike.append halike'⟩
  · rw [List.map_append]
    exact hrs.append hqs
  · rw [List.map_append]
    exact hrs'.append hqs'

theorem swap (h : Simulates b H vs us ps os) (h' : Simulates b H vs' us' ps' os') :
    Simulates b H (vs ++ vs') (us ++ us') (ps' ++ ps) (os' ++ os) := by
  intro before before' hvs hus hagree
  rw [follows_append] at hvs hus
  obtain ⟨hagree, rs, rs', hrs, hrs', halike⟩ := h _ _ hvs.1 hus.1 hagree
  obtain ⟨hagree, qs, qs', hqs, hqs', halike'⟩ := h' _ _ hvs.2 hus.2 hagree
  rw [List.append_assoc, List.append_assoc] at hagree
  refine ⟨hagree, qs ++ rs, qs' ++ rs', ?_, ?_, halike'.append halike⟩
  · rw [List.map_append]
    exact hqs.append hrs
  · rw [List.map_append]
    exact hqs'.append hrs'

theorem after (h : Simulates b H vs us ps os) (hps : Flat (ps'.map owned) [])
    (hos : Flat (os'.map owned) []) : Simulates b H vs us (ps' ++ ps) (os' ++ os) :=
  (flat .nil hps hos).append h

theorem before (h : Simulates b H vs us ps os) (hps : Flat (ps'.map owned) [])
    (hos : Flat (os'.map owned) []) : Simulates b H vs us (ps ++ ps') (os ++ os') := by
  have happend := h.append (flat .nil hps hos)
  rwa [List.append_nil, List.append_nil] at happend

theorem word (h : Simulates b H vs us ps os) (word : String)
    (hbracket : (keyword word).bracket? = none) (hcatch : word ≠ " catch ") :
    Simulates b H vs us (keyword word :: ps) (keyword word :: os) := by
  have hword : Flat ([keyword word].map owned) [] :=
    (flat_words [word] (by simpa using hbracket)).owned (by simpa using hcatch.symm)
  exact h.after hword hword

theorem braces (h : Simulates b H vs us ps os) (opening : String)
    (hopening : (keyword opening).bracket? = some .opening) (hcatch : opening ≠ " catch ") :
    Simulates b H vs us (keyword opening :: ps ++ [newline, keyword "\x7d"])
      (keyword opening :: os ++ [newline, keyword "\x7d"]) := by
  intro before before' hvs hus hagree
  obtain ⟨hagree, rs, rs', hrs, hrs', halike⟩ := h before before' hvs hus hagree
  have hmap (ps : List Part) : (keyword opening :: ps ++ [newline, keyword "\x7d"]).map owned =
      keyword opening :: ps.map owned ++ [newline, keyword "\x7d"] := by
    simp [owned, hcatch]
  refine ⟨hagree, _, _, ?_, ?_, halike.block⟩
  · rw [hmap]
    exact hrs.braces opening hopening
  · rw [hmap]
    exact hrs'.braces opening hopening

theorem braced (h : Simulates b H vs us ps os) :
    Simulates b H vs us (bracedParts ps) (bracedParts os) :=
  h.braces _ (by simp [Part.bracket?]) (by simp)

theorem loop (h : Simulates b H vs us ps os) (hheader : Keeps b H hs hs') {word : String}
    (hword : word = "for (" ∨ word = " catch ") (hps : Flat (ps'.map owned) hs)
    (hos : Flat (os'.map owned) hs') :
    Simulates b H (hs ++ vs) (hs' ++ us) (keyword word :: ps' ++ bracedParts ps)
      (keyword word :: os' ++ bracedParts os) := by
  intro before before' hvs hus hagree
  rw [follows_append] at hvs hus
  obtain ⟨hagree, hsame⟩ := hheader _ _ hvs.1 hus.1 hagree
  obtain ⟨hagree, rs, rs', hrs, hrs', halike⟩ := h _ _ hvs.2 hus.2 hagree
  rw [List.append_assoc, List.append_assoc] at hagree
  refine ⟨hagree, _, _, ?_, ?_, ((alikeOutside_visits hsame).append halike).block⟩
  · rw [map_owned_loop hword]
    exact hrs.loop hps
  · rw [map_owned_loop hword]
    exact hrs'.loop hos

/-- Where a counted loop has a header, only what the header declares is declared in
another block than without one. -/
theorem counted {is is' cs cs' : List Visit} {hps ips cps ups : List Part} (hi : Restates is is')
    (hc : Restates cs cs') (hu : Restates us us') (hbody : Simulates b H vs vs' ps os)
    (hheader : ∀ v ∈ (is ++ cs ++ us).filterMap declared?, H v.id)
    (hhps : Flat (hps.map owned) (is ++ cs ++ us)) (hips : Flat (ips.map owned) is')
    (hcps : Flat (cps.map owned) cs') (hups : Flat (ups.map owned) us') :
    Simulates b H (is ++ (cs ++ us ++ vs)) (is' ++ (vs' ++ us' ++ cs'))
      (keyword "for (" :: hps ++ bracedParts ps) (ips ++ (cps ++ bracedParts (os ++ ups))) := by
  intro before before' hvs hus hagree
  rw [List.append_assoc vs'] at hus ⊢
  rw [follows_append, follows_append] at hvs hus
  obtain ⟨hfi, hfh, hfb⟩ := hvs
  obtain ⟨hfi', hfb', hfh'⟩ := hus
  obtain ⟨hinit, hsame⟩ := keeps_restates hi _ _ hfi hfi' hagree
  have hknown : Known b H (before ++ is) (cs ++ us) := by
    refine .of_declared hfh (List.forall_mem_append.mpr ⟨hc.uses.1, hu.uses.1⟩) fun v hv => ?_
    rw [List.append_assoc, List.filterMap_append] at hheader
    exact hheader v (List.mem_append_right _ hv)
  obtain ⟨hagree, rs, rs', hrs, hrs', halike⟩ := hbody _ _ hfb hfb' (hknown.agree.symm.trans hinit)
  have hknown' : Known b H (before' ++ is' ++ vs') (us' ++ cs') := by
    refine (hknown.transfer hinit ?_).mono fun z hz => List.mem_append_left vs' hz
    intro x hx
    rcases List.mem_append.mp hx with hx | hx
    · obtain ⟨v, rfl, y, hy, hconcerns⟩ := hu.uses.2 x hx
      exact ⟨v, rfl, y, List.mem_append_right cs hy, hconcerns⟩
    · obtain ⟨v, rfl, y, hy, hconcerns⟩ := hc.uses.2 x hx
      exact ⟨v, rfl, y, List.mem_append_left us hy, hconcerns⟩
  have hnone : outsideOf H ((is ++ cs ++ us).filterMap declared?) = [] :=
    List.filter_eq_nil_iff.mpr fun v hv => by simpa using hheader v hv
  have hlate : outsideOf H ((us' ++ cs').filterMap declared?) = [] :=
    hknown'.outsideOf_eq_nil hfh'
  simp only [List.filterMap_append, outsideOf_append, List.append_eq_nil_iff] at hnone hlate
  have hheaded := hrs.loop hhps
  have hspread := hips.reads.append (hcps.reads.append (hrs'.append hups.reads).bracedParts)
  rw [← map_owned_loop (.inl rfl)] at hheaded
  rw [← List.map_append, ← map_owned_bracedParts, ← List.map_append, ← List.map_append] at hspread
  refine ⟨by simpa using hagree.trans hknown'.agree, _, _, hheaded, hspread, ?_, ?_⟩
  · simp [← hsame, hnone, hlate]
  · simp [Region.allInner, Region.inner, hnone, hlate, halike.declared, halike.inner]

end Simulates

end Texts

end Unparse
