import Unparse.Proofs.Names.Blocks

/-! # Blocks of code

The blocks in the text of a chain can be told from its code, in the order in which
they are visited as well as in the order in which they are written.
-/

namespace Unparse

inductive Order where
  | written
  | walked
deriving DecidableEq

def Order.arrange {α : Type} (o : Order) (late rest : List α) : List α :=
  match o with
  | written => late ++ rest
  | walked => rest ++ late

section Regions

open Region (visit block)

variable (t : Target) (o : Order)

mutual

/-- The regions of a construction. -/
def Element.regions : Element → List Region
  | .mk form _ => formRegions form

def formRegions : FormCode → List Region
  | .block statements => (statements.flatMap StmtCode.visits).map visit
  | .conditional condition whenTrue whenFalse =>
    condition.visits.map visit ++ [block (codeRegions whenTrue)] ++ elseRegions whenFalse
  | .whileLoop condition body => condition.visits.map visit ++ [block (codeRegions body)]
  | .doLoop condition body => [block (codeRegions body)] ++ condition.visits.map visit
  | .countedLoop init condition update body =>
    let inits := (init.toList.flatMap StmtCode.visits).map visit
    let conditions := condition.visits.map visit
    let updates := (update.toList.flatMap StmtCode.visits).map visit
    if t.lexicon.countedLoops then
      [block (inits ++ conditions ++ updates ++ codeRegions body)]
    else inits ++ o.arrange conditions [block (codeRegions body ++ updates)]
  | .forEach vars container body =>
    [block ((vars.map Visit.bind ++ container.visits).map visit ++ codeRegions body)]
  | .guarded body handlers cleanup =>
    [block (codeRegions body)] ++ handlersRegions handlers ++ branchRegions cleanup
  | .switch selector cases =>
    o.arrange (selector.visits.map visit) [block (casesRegions cases)]
  | .select selector arms fallback =>
    o.arrange (selector.visits.map visit) [block (armsRegions arms ++ branchRegions fallback)]

def codeRegions : List Element → List Region
  | [] => []
  | e :: es => e.regions ++ codeRegions es

/-- A collapsed `else` branch is no block. -/
def elseRegions : Option (List Element) → List Region
  | none => []
  | some [] => [block []]
  | some [e] => [block e.regions]
  | some (e :: f :: es) =>
    if e.isEmptyBlock && f.form.isConditional then f.regions ++ codeRegions es
    else [block (e.regions ++ (f.regions ++ codeRegions es))]

def handlersRegions : List (Occurrence × List Element) → List Region
  | [] => []
  | (v, body) :: handlers =>
    visit (.bind v) :: block (codeRegions body) :: handlersRegions handlers

def branchRegions : Option (List Element) → List Region
  | none => []
  | some body => [block (codeRegions body)]

def casesRegions : List (List (Option Literal) × List Element) → List Region
  | [] => []
  | (_, body) :: cases => codeRegions body ++ casesRegions cases

def armsRegions : List (ExprCode × List Element) → List Region
  | [] => []
  | (guard, body) :: arms =>
    guard.visits.map visit ++ block (codeRegions body) :: armsRegions arms

end

end Regions

section Written

open Unparse.Part (newline keyword label expression binding caseLabel item clause)

variable (s : Style)

theorem bracket?_lexicon :
    (keyword s.lexicon.terminator).bracket? = none ∧
      (keyword (" " ++ s.lexicon.forEachKeyword ++ " ")).bracket? = none ∧
      (keyword (s.lexicon.selectKeyword ++ " ")).bracket? = none ∧
      (keyword s.lexicon.armKeyword).bracket? = none ∧
      (keyword (s.lexicon.fallbackArm ++ " -> ")).bracket? = none := by
  cases h : s.target <;> simp [Style.lexicon, h, Target.lexicon, Part.bracket?]

theorem flat_between {before after : List Part} (hbefore : Flat before []) (hafter : Flat after [])
    (e : ExprCode) : Flat (before ++ expression e :: after) e.visits := by
  have hflat := hbefore.append (hafter.cons (p := expression e) rfl)
  rwa [List.nil_append, List.append_nil] at hflat

theorem flat_words (words : List String) (h : ∀ w ∈ words, (keyword w).bracket? = none) :
    Flat (words.map keyword) [] where
  bracket := by simpa using h
  visits := by simp [visitsOf, List.flatMap_map, Part.visits]

theorem flat_countedParts (init : Option StmtCode) (condition : ExprCode)
    (update : Option StmtCode) :
    ∃ hs, countedParts init condition update = keyword "for (" :: hs ∧
      Flat hs (init.toList.flatMap StmtCode.visits ++ condition.visits ++
        update.toList.flatMap StmtCode.visits) := by
  have hcondition : Flat [keyword "; ", expression condition, keyword ";"] condition.visits :=
    flat_between (flat_words ["; "] (by simp [Part.bracket?]))
      (flat_words [";"] (by simp [Part.bracket?])) condition
  have hblank : Flat (update.toList.map fun _ => keyword " ") [] := by
    cases update with
    | none => exact .nil
    | some stmt => exact Flat.nil.quiet rfl rfl
  have hall := ((((flat_clauseParts init).append hcondition).append hblank).append
    (flat_clauseParts update)).append (flat_words [") "] (by simp [Part.bracket?]))
  rw [List.append_nil, List.append_nil] at hall
  exact ⟨_, rfl, hall⟩

theorem flat_doTail (e : ExprCode) : Flat [keyword " while ", keyword "(", expression e,
    keyword ")", keyword s.lexicon.terminator] e.visits :=
  flat_between (flat_words [" while ", "("] (by simp [Part.bracket?]))
    ((Flat.nil.quiet (bracket?_lexicon s).1 rfl).quiet (by simp [Part.bracket?]) rfl) e

theorem flat_forEachHead (vars : List Occurrence) (e : ExprCode) :
    Flat (loopVariableParts vars ++ [keyword (" " ++ s.lexicon.forEachKeyword ++ " "),
      expression e, keyword ") "]) (vars.map Visit.bind ++ e.visits) := by
  have hcontainer := flat_between (Flat.nil.quiet (bracket?_lexicon s).2.1 rfl)
    (flat_words [") "] (by simp [Part.bracket?])) e
  exact (flat_loopVariableParts vars).append hcontainer

theorem flat_selector {word : String} (h : (keyword word).bracket? = none) (e : ExprCode) :
    Flat [keyword word, keyword "(", expression e, keyword ")"] e.visits :=
  flat_between ((flat_words ["("] (by simp [Part.bracket?])).quiet h rfl)
    (flat_words [")"] (by simp [Part.bracket?])) e

theorem flat_armHead (e : ExprCode) : Flat [newline, keyword s.lexicon.armKeyword, expression e,
    keyword " -> "] e.visits :=
  flat_between ((Flat.nil.quiet (bracket?_lexicon s).2.2.2.1 rfl).quiet rfl rfl)
    (flat_words [" -> "] (by simp [Part.bracket?])) e

theorem flat_fallbackHead : Flat [newline, keyword (s.lexicon.fallbackArm ++ " -> ")] [] :=
  (Flat.nil.quiet (bracket?_lexicon s).2.2.2.2 rfl).quiet rfl rfl

mutual

theorem Element.reads_parts (e : Element) : Reads (e.parts s) (e.regions s.target .written) := by
  cases e with
  | mk form place =>
    rw [Element.parts, Element.regions]
    refine (Flat.reads_append ?_ (reads_formParts place form)).append_flat (flat_exitParts place)
    split
    · exact .nil
    · exact flat_labelParts place

theorem reads_formParts (place : Place) (form : FormCode) :
    Reads (formParts s place form) (formRegions s.target .written form) := by
  cases form with
  | block statements =>
    rw [formParts, formRegions]
    exact (flat_lineParts statements).reads
  | conditional condition whenTrue whenFalse =>
    rw [formParts, formRegions]
    exact ((flat_headParts _ (by simp [Part.bracket?]) condition).reads.append
      (reads_codeParts whenTrue).bracedParts).append (reads_elseParts whenFalse)
  | whileLoop condition body =>
    rw [formParts, formRegions]
    exact (flat_headParts _ (by simp [Part.bracket?]) condition).reads.append
      (reads_codeParts body).bracedParts
  | doLoop condition body =>
    rw [formParts, formRegions]
    exact ((flat_words ["do "] (by simp [Part.bracket?])).reads_append
      (reads_codeParts body).bracedParts).append (flat_doTail s condition).reads
  | countedLoop init condition update body =>
    rw [formParts, formRegions]
    have hbody := reads_codeParts body
    change Reads (if s.target.lexicon.countedLoops then _ else _) _
    cases hheader : s.target.lexicon.countedLoops with
    | true =>
      obtain ⟨hs, hparts, hflat⟩ := flat_countedParts init condition update
      have hloop := hbody.loop hflat
      rw [List.map_append, List.map_append] at hloop
      rw [hparts]
      exact hloop
    | false =>
      have hhead := flat_headParts "while " (by simp [Part.bracket?]) condition
      have hupdate := hbody.append (flat_lineParts update.toList).reads
      have hloop := ((flat_initParts init).reads.append_flat (flat_labelParts place)).append
        (hhead.reads.append hupdate.bracedParts)
      simpa [Order.arrange] using hloop
  | forEach vars container body =>
    rw [formParts, formRegions]
    exact (reads_codeParts body).loop (flat_forEachHead s vars container)
  | guarded body handlers cleanup =>
    rw [formParts, formRegions]
    exact (((flat_words ["try "] (by simp [Part.bracket?])).reads_append
      (reads_codeParts body).bracedParts).append (reads_handlersParts handlers)).append
      (reads_cleanupParts cleanup)
  | switch selector cases =>
    rw [formParts, formRegions]
    have hselector : Flat [keyword "switch ", keyword "(", expression selector, keyword ")"]
        selector.visits := flat_selector (by simp [Part.bracket?]) selector
    have hcases := (reads_casesParts cases).braces " \x7b" (by simp [Part.bracket?])
    simpa [Order.arrange] using hselector.reads.append hcases
  | select selector arms fallback =>
    rw [formParts, formRegions]
    have hselector := flat_selector (bracket?_lexicon s).2.2.1 selector
    have hinner := ((reads_armsParts arms).append_flat (flat_fallbackHead s)).append
      (reads_fallbackParts fallback)
    have hbraces := hinner.braces " \x7b" (by simp [Part.bracket?])
    simpa [Order.arrange] using hselector.reads.append hbraces

theorem reads_codeParts (code : List Element) :
    Reads (codeParts s code) (codeRegions s.target .written code) := by
  cases code with
  | nil => exact .nil
  | cons e es =>
    rw [codeParts, codeRegions]
    exact ((flat_leadParts e.form).reads_append (e.reads_parts)).append (reads_codeParts es)

theorem reads_elseParts (code : Option (List Element)) :
    Reads (elseParts s code) (elseRegions s.target .written code) := by
  have helse : Flat [keyword " else "] [] := Flat.nil.quiet (by simp [Part.bracket?]) rfl
  cases code with
  | none => exact .nil
  | some code =>
    cases code with
    | nil => exact helse.reads_append (Reads.nil.bracedParts)
    | cons e code =>
      have he := (flat_leadParts e.form).reads_append e.reads_parts
      cases code with
      | nil => exact helse.reads_append he.bracedParts
      | cons f es =>
        have hes := reads_codeParts es
        rw [elseParts, elseRegions]
        split
        · exact helse.reads_append (f.reads_parts.append hes)
        · refine helse.reads_append (Reads.bracedParts (he.append ?_))
          exact ((flat_leadParts f.form).reads_append f.reads_parts).append hes

theorem reads_handlersParts (handlers : List (Occurrence × List Element)) :
    Reads (handlersParts s handlers) (handlersRegions s.target .written handlers) := by
  cases handlers with
  | nil => exact .nil
  | cons handler handlers =>
    cases handler with
    | mk v body =>
      rw [handlersParts, handlersRegions]
      have hbinding : Flat [keyword " catch ", keyword "(", binding .handler v, keyword ")",
          keyword " "] [.bind v] := ⟨by simp [Part.bracket?], rfl⟩
      exact (hbinding.reads.append (reads_codeParts body).bracedParts).append
        (reads_handlersParts handlers)

theorem reads_cleanupParts (code : Option (List Element)) :
    Reads (cleanupParts s code) (branchRegions s.target .written code) := by
  cases code with
  | none => exact .nil
  | some body =>
    exact (flat_words [" finally "] (by simp [Part.bracket?])).reads_append
      (reads_codeParts body).bracedParts

theorem reads_fallbackParts (code : Option (List Element)) :
    Reads (fallbackParts s code) (branchRegions s.target .written code) := by
  cases code with
  | none => exact (flat_words ["\x7b\x7d"] (by simp [Part.bracket?])).reads
  | some body => exact (reads_codeParts body).bracedParts

theorem reads_casesParts (cases : List (List (Option Literal) × List Element)) :
    Reads (casesParts s cases) (casesRegions s.target .written cases) := by
  cases cases with
  | nil => exact .nil
  | cons case cases =>
    cases case with
    | mk keys body =>
      rw [casesParts, casesRegions]
      exact ((flat_caseLabels keys).reads_append (reads_codeParts body)).append
        (reads_casesParts cases)

theorem reads_armsParts (arms : List (ExprCode × List Element)) :
    Reads (armsParts s arms) (armsRegions s.target .written arms) := by
  cases arms with
  | nil => exact .nil
  | cons arm arms =>
    cases arm with
    | mk guard body =>
      rw [armsParts, armsRegions]
      have harms := ((flat_armHead s guard).reads.append (reads_codeParts body).bracedParts).append
        (reads_armsParts arms)
      simpa using harms

end

/-- The blocks in the text of a chain are those of its code. -/
theorem Code.reads_parts (sameLine : Bool) (code : Code) :
    Reads (Code.parts s sameLine code) (codeRegions s.target .written code) := by
  cases code with
  | nil => exact .nil
  | cons e es =>
    rw [Code.parts, codeRegions]
    refine Reads.append (Flat.reads_append ?_ (e.reads_parts s)) (reads_codeParts s es)
    split
    · exact .nil
    · exact flat_leadParts e.form

end Written

end Unparse
