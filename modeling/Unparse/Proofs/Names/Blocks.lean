import Unparse.Proofs.Branching.Else
import Unparse.Proofs.Names.Tokens

/-! # Blocks in texts

The braces in a text make blocks of it. A header of a loop that declares variables
belongs to the block of the loop. What is read of some parts is put together from
what is read of each of them.
-/

namespace Unparse

/-- A visit in an expression or a binding, or a block. -/
inductive Region where
  | visit (v : Visit)
  | block (inner : List Region)

namespace Region

mutual

def visits : Region → List Visit
  | visit v => [v]
  | block inner => allVisits inner

def allVisits : List Region → List Visit
  | [] => []
  | r :: rs => r.visits ++ allVisits rs

end

@[simp] theorem allVisits_append (rs rs' : List Region) :
    allVisits (rs ++ rs') = allVisits rs ++ allVisits rs' := by
  induction rs with
  | nil => rfl
  | cons r rs ih => simp [allVisits, ih]

@[simp] theorem allVisits_map_visit (vs : List Visit) : allVisits (vs.map visit) = vs := by
  induction vs with
  | nil => rfl
  | cons v vs ih => simp [allVisits, visits, ih]

end Region

inductive Bracket where
  | header
  | opening
  | closing

/-- What a part opens or closes. Braces inside an expression are no matter of the
code around it. -/
def Part.bracket? : Part → Option Bracket
  | keyword word =>
    if word = "for (" then some .header
    else if word = "\x7b" ∨ word = " \x7b" then some .opening
    else if word = "\x7d" then some .closing
    else none
  | _ => none

/-- What has been read of a text: the innermost block that is open, the blocks
around it, and whether its brace is still to come. -/
structure Reader where
  inner : List Region := []
  outer : List (List Region) := []
  header : Bool := false

namespace Reader

def step (r : Reader) (p : Part) : Reader :=
  match p.bracket?, r with
  | some .header, ⟨inner, outer, _⟩ => ⟨[], inner :: outer, true⟩
  | some .opening, ⟨inner, outer, true⟩ => ⟨inner, outer, false⟩
  | some .opening, ⟨inner, outer, false⟩ => ⟨[], inner :: outer, false⟩
  | some .closing, ⟨inner, around :: outer, header⟩ => ⟨around ++ [.block inner], outer, header⟩
  | some .closing, ⟨inner, [], header⟩ => ⟨inner, [], header⟩
  | none, ⟨inner, outer, header⟩ => ⟨inner ++ p.visits.map .visit, outer, header⟩

end Reader

/-- Read the blocks of a text. -/
def readBlocks (ps : List Part) : List Region := (ps.foldl Reader.step {}).inner

/-- Wherever the parts are read, what they add to the open block. -/
def Reads (ps : List Part) (rs : List Region) : Prop :=
  ∀ inner outer, ps.foldl Reader.step ⟨inner, outer, false⟩ = ⟨inner ++ rs, outer, false⟩

structure Flat (ps : List Part) (vs : List Visit) : Prop where
  bracket : ∀ p ∈ ps, p.bracket? = none
  visits : visitsOf ps = vs

section Reads

open Unparse.Part (newline keyword label expression binding caseLabel item clause)

variable {ps qs hs : List Part} {rs rs' : List Region} {vs us : List Visit} {p : Part}

theorem Reads.readBlocks_eq (h : Reads ps rs) : readBlocks ps = rs := by
  rw [readBlocks, h [] []]
  rfl

def Reader.visits (r : Reader) : List Visit :=
  r.outer.reverse.flatMap Region.allVisits ++ Region.allVisits r.inner

theorem Reader.visits_step (r : Reader) (p : Part) : (r.step p).visits = r.visits ++ p.visits := by
  obtain ⟨inner, outer, header⟩ := r
  cases hbracket : p.bracket? with
  | none => simp [step, hbracket, visits]
  | some bracket =>
    have hvisits : p.visits = [] := by
      cases p with
      | keyword word => rfl
      | _ => cases hbracket
    cases bracket with
    | header => simp [step, hbracket, visits, hvisits, Region.allVisits]
    | opening => cases header <;> simp [step, hbracket, visits, hvisits, Region.allVisits]
    | closing =>
      cases outer <;>
        simp [step, hbracket, visits, hvisits, Region.allVisits, Region.visits]

theorem Reads.visitsOf_eq (h : Reads ps rs) : visitsOf ps = Region.allVisits rs := by
  have hfold (r : Reader) : (ps.foldl Reader.step r).visits = r.visits ++ visitsOf ps := by
    clear h
    induction ps generalizing r with
    | nil => simp [visitsOf]
    | cons p ps ih => simp [ih, Reader.visits_step, visitsOf]
  have hvisits := hfold {}
  rw [h [] []] at hvisits
  simpa [Reader.visits, Region.allVisits] using hvisits.symm

theorem Reads.nil : Reads [] [] := by
  intro inner outer
  simp

theorem Reads.append (h : Reads ps rs) (h' : Reads qs rs') : Reads (ps ++ qs) (rs ++ rs') := by
  intro inner outer
  rw [List.foldl_append, h, h', List.append_assoc]

namespace Flat

theorem nil : Flat [] [] := ⟨nofun, rfl⟩

theorem cons (hp : p.bracket? = none) (h : Flat ps vs) : Flat (p :: ps) (p.visits ++ vs) where
  bracket := List.forall_mem_cons.mpr ⟨hp, h.bracket⟩
  visits := by rw [← h.visits]; rfl

theorem quiet (h : Flat ps vs) (hp : p.bracket? = none) (hvisits : p.visits = []) :
    Flat (p :: ps) vs := by
  have hcons := cons hp h
  rwa [hvisits] at hcons

theorem singleton (hp : p.bracket? = none) : Flat [p] p.visits := by
  have hcons := cons hp nil
  rwa [List.append_nil] at hcons

theorem append (h : Flat ps vs) (h' : Flat qs us) : Flat (ps ++ qs) (vs ++ us) where
  bracket := List.forall_mem_append.mpr ⟨h.bracket, h'.bracket⟩
  visits := by simp [visitsOf, ← h.visits, ← h'.visits]

theorem flatMap {α : Type} {as : List α} {f : α → List Part} {g : α → List Visit}
    (h : ∀ a ∈ as, Flat (f a) (g a)) : Flat (as.flatMap f) (as.flatMap g) := by
  induction as with
  | nil => exact nil
  | cons a as ih =>
    rw [List.forall_mem_cons] at h
    exact h.1.append (ih h.2)

theorem flatMap_quiet {α : Type} {as : List α} {f : α → List Part} (h : ∀ a ∈ as, Flat (f a) []) :
    Flat (as.flatMap f) [] := by
  have hflat := flatMap h
  rwa [List.flatMap_eq_nil_iff.mpr fun _ _ => rfl] at hflat

theorem foldl_step (h : Flat ps vs) (inner : List Region) (outer : List (List Region))
    (header : Bool) :
    ps.foldl Reader.step ⟨inner, outer, header⟩ = ⟨inner ++ vs.map .visit, outer, header⟩ := by
  obtain ⟨hbracket, rfl⟩ := h
  induction ps generalizing inner with
  | nil => simp [visitsOf]
  | cons p ps ih =>
    rw [List.forall_mem_cons] at hbracket
    simp [Reader.step, hbracket.1, ih _ hbracket.2, visitsOf]

theorem reads (h : Flat ps vs) : Reads ps (vs.map .visit) :=
  fun inner outer => h.foldl_step inner outer false

theorem reads_append (h : Flat ps []) (h' : Reads qs rs) : Reads (ps ++ qs) rs := h.reads.append h'

end Flat

theorem Reads.append_flat (h : Reads ps rs) (h' : Flat qs []) : Reads (ps ++ qs) rs := by
  have happend := h.append h'.reads
  rwa [List.map_nil, List.append_nil] at happend

theorem Reads.braces (h : Reads ps rs) (opening : String)
    (hopening : (keyword opening).bracket? = some .opening) :
    Reads (keyword opening :: ps ++ [newline, keyword "\x7d"]) [.block rs] := by
  intro inner outer
  have hopen :
      Reader.step ⟨inner, outer, false⟩ (keyword opening) = ⟨[], inner :: outer, false⟩ := by
    simp [Reader.step, hopening]
  rw [List.cons_append, List.foldl_cons, hopen, List.foldl_append, h]
  simp [Reader.step, Part.bracket?, Part.visits]

theorem Reads.bracedParts (h : Reads ps rs) : Reads (bracedParts ps) [.block rs] :=
  h.braces _ (by simp [Part.bracket?])

/-- The header of a loop is part of its block. -/
theorem Reads.loop (h : Reads ps rs) (hheader : Flat hs vs) :
    Reads (keyword "for (" :: hs ++ Unparse.bracedParts ps) [.block (vs.map .visit ++ rs)] := by
  intro inner outer
  have hfor : Reader.step ⟨inner, outer, false⟩ (keyword "for (") =
      ⟨[], inner :: outer, true⟩ := by
    simp [Reader.step, Part.bracket?]
  have hbrace (inner : List Region) (outer : List (List Region)) :
      Reader.step ⟨inner, outer, true⟩ (keyword "\x7b") = ⟨inner, outer, false⟩ := by
    simp [Reader.step, Part.bracket?]
  rw [List.cons_append, List.foldl_cons, hfor, List.foldl_append, hheader.foldl_step,
    Unparse.bracedParts, List.cons_append, List.foldl_cons, hbrace, List.foldl_append, h]
  simp [Reader.step, Part.bracket?, Part.visits]

theorem flat_headParts (word : String) (h : (keyword word).bracket? = none) (e : ExprCode) :
    Flat (headParts word e) e.visits where
  bracket := by
    simp only [headParts, List.forall_mem_cons]
    exact ⟨h, by simp [Part.bracket?]⟩
  visits := by simp [headParts, visitsOf, Part.visits]

theorem flat_labelParts (p : Place) : Flat p.labelParts [] := by
  unfold Place.labelParts
  cases p.label with
  | none => exact .nil
  | some name => exact Flat.nil.quiet rfl rfl

theorem flat_leadParts (form : FormCode) : Flat (leadParts form) [] := by
  unfold leadParts
  split
  · exact .nil
  · exact Flat.nil.quiet rfl rfl

theorem flat_exitParts (p : Place) : Flat p.exitParts [] := by
  refine .flatMap_quiet fun i hi => ?_
  rcases List.mem_append.mp hi with hi | hi
  all_goals
    obtain ⟨j, -, rfl⟩ := List.mem_map.mp hi
    exact (Flat.nil.quiet rfl rfl).quiet rfl rfl

theorem StmtCode.visits_of_isSilent {stmt : StmtCode} (h : stmt.isSilent = true) :
    stmt.visits = [] := by
  unfold isSilent at h
  split at h
  · next stmt =>
    unfold Stmt.isSilent at h
    split at h
    · rfl
    · cases h
  · cases h

theorem flat_spokenItems {f : Item StmtCode → List Part}
    (hf : ∀ stmt, Flat (f (.statement stmt)) stmt.visits) (statements : List StmtCode) :
    Flat ((spokenItems StmtCode.isSilent statements).flatMap f)
      (statements.flatMap StmtCode.visits) := by
  induction statements with
  | nil => exact .nil
  | cons stmt statements ih =>
    cases h : stmt.isSilent with
    | true => simpa [spokenItems, h, StmtCode.visits_of_isSilent h] using ih
    | false => simpa [spokenItems, h] using (hf stmt).append ih

theorem flat_lineParts (statements : List StmtCode) :
    Flat (lineParts statements) (statements.flatMap StmtCode.visits) :=
  flat_spokenItems (fun _ => (Flat.singleton rfl).quiet rfl rfl) statements

theorem flat_initParts (init : Option StmtCode) :
    Flat ((spokenItems StmtCode.isSilent init.toList).flatMap fun i => [item i, newline])
      (init.toList.flatMap StmtCode.visits) := by
  refine flat_spokenItems (fun stmt => ?_) _
  have hitem : Flat [item (.statement stmt)] stmt.visits := Flat.singleton rfl
  simpa using hitem.append (Flat.nil.quiet (p := newline) rfl rfl)

theorem flat_clauseParts (stmt : Option StmtCode) :
    Flat (clauseParts stmt) (stmt.toList.flatMap StmtCode.visits) := by
  rcases stmt with _ | stmt
  · exact .nil
  · cases h : stmt.isSilent with
    | true => simpa [clauseParts, h, StmtCode.visits_of_isSilent h] using Flat.nil
    | false => simpa [clauseParts, h, Part.visits] using Flat.singleton (p := clause stmt) rfl

theorem flat_loopVariableParts (vs : List Occurrence) :
    Flat (loopVariableParts vs) (vs.map Visit.bind) := by
  rcases vs with _ | ⟨v, _ | ⟨w, vs⟩⟩
  · exact ⟨by simp [loopVariableParts, Part.bracket?], rfl⟩
  · exact ⟨by simp [loopVariableParts, Part.bracket?], rfl⟩
  · constructor
    · simp only [loopVariableParts, List.cons_append, List.mem_cons, List.mem_append,
        List.mem_flatMap, List.not_mem_nil, or_false]
      rintro p (rfl | rfl | ⟨u, -, rfl | rfl⟩ | rfl) <;> simp [Part.bracket?]
    · simp [loopVariableParts, visitsOf, Part.visits, List.flatMap_assoc, List.map_eq_flatMap]

theorem flat_caseLabels (keys : List (Option Literal)) :
    Flat (keys.flatMap fun key => [newline, caseLabel key]) [] :=
  .flatMap_quiet fun _ _ => (Flat.nil.quiet rfl rfl).quiet rfl rfl

end Reads

end Unparse
