import Unparse.Print.Class
import Unparse.Proofs.Branching.Else
import Unparse.Proofs.Listing.Parts

/-! # Lines of code

Labels, statements, jumps and the keywords that open a control structure each begin a
line of their own. Exempt are the keyword behind a label, and what follows an `else`
that is collapsed. Parts of code are read from left to right to see whether they keep
to this: what a part may be depends on the one before it.
-/

namespace Unparse

open Unparse.Part (newline keyword label expression binding caseLabel item clause)

def isOpening (word : String) : Bool :=
  ["if ", "while ", "do ", "for (", "try ", "switch ", "when "].contains word

/-- Labels, statements, jumps and opening keywords each begin a line, except behind the
`else` of a collapsed branch, and a label is followed by the keyword it belongs to. -/
structure OwnLines (ps : List Part) : Prop where
  item : ∀ before i after, ps = before ++ .item i :: after → before.getLast? = some .newline
  label : ∀ before name after, ps = before ++ .label name :: after →
    (before.getLast? = some .newline ∨ before.getLast? = some (.keyword " else ")) ∧
      ∃ word rest, after = .keyword word :: rest ∧ isOpening word = true
  opening : ∀ before word after, ps = before ++ .keyword word :: after → isOpening word = true →
    before.getLast? = some .newline ∨ before.getLast? = some (.keyword " else ") ∨
      ∃ name, before.getLast? = some (.label name)

/-- Where on its line the next part stands. -/
inductive Stand where
  | fresh
  | behindElse
  | behindLabel
  | within
deriving DecidableEq

def Part.stand : Part → Stand
  | newline => .fresh
  | label _ => .behindLabel
  | keyword word => if word = " else " then .behindElse else .within
  | _ => .within

def Part.mayStand (st : Stand) : Part → Bool
  | item _ => st = .fresh
  | label _ => st = .fresh || st = .behindElse
  | keyword word => if isOpening word then st ≠ .within else st ≠ .behindLabel
  | _ => st ≠ .behindLabel

/-- Where what follows the parts stands, if each of them may stand where it does. -/
def stand? : Stand → List Part → Option Stand
  | st, [] => some st
  | st, p :: ps => if p.mayStand st then stand? p.stand ps else none

section Stand

variable {st st' : Stand} {p : Part} {ps qs : List Part}

theorem stand?_append : stand? st (ps ++ qs) = (stand? st ps).bind (stand? · qs) := by
  induction ps generalizing st with
  | nil => rfl
  | cons p ps ih =>
    rw [List.cons_append, stand?, stand?]
    split
    · exact ih
    · rfl

def standAfter (st : Stand) (ps : List Part) : Stand := (ps.getLast?.map Part.stand).getD st

theorem standAfter_cons : standAfter st (p :: ps) = standAfter p.stand ps := by
  rw [standAfter, standAfter, List.getLast?_cons]
  cases ps.getLast? <;> rfl

theorem stand?_eq_some_iff :
    stand? st ps = some st' ↔ standAfter st ps = st' ∧
      ∀ before p after, ps = before ++ p :: after → p.mayStand (standAfter st before) = true := by
  induction ps generalizing st with
  | nil => simp [stand?, standAfter]
  | cons p ps ih =>
    have hall : (∀ before q after, p :: ps = before ++ q :: after →
          q.mayStand (standAfter st before) = true) ↔
        p.mayStand st = true ∧ ∀ before q after, ps = before ++ q :: after →
          q.mayStand (standAfter p.stand before) = true := by
      constructor
      · intro h
        refine ⟨h [] p ps rfl, fun before q after hsplit => ?_⟩
        rw [← standAfter_cons]
        exact h (p :: before) q after (by rw [hsplit, List.cons_append])
      · rintro ⟨hp, h⟩ (_ | ⟨r, before⟩) q after hsplit
        · obtain ⟨rfl, rfl⟩ := List.cons.inj hsplit
          exact hp
        · rw [List.cons_append, List.cons.injEq] at hsplit
          obtain ⟨rfl, hsplit⟩ := hsplit
          rw [standAfter_cons]
          exact h before q after hsplit
    rw [stand?, standAfter_cons, hall]
    split
    · next hp => simp [ih, hp]
    · next hp => simp [hp]

@[simp] theorem standAfter_concat : standAfter st (ps ++ [p]) = p.stand := by
  simp [standAfter]

theorem standAfter_eq_iff (hst : st ≠ .within) :
    standAfter .within ps = st ↔ ∃ p, ps.getLast? = some p ∧ p.stand = st := by
  rw [standAfter]
  cases ps.getLast? with
  | none => simpa using hst.symm
  | some p => simp

theorem Part.stand_eq_iff : (p.stand = .fresh ↔ p = newline) ∧
    (p.stand = .behindElse ↔ p = keyword " else ") ∧
      (p.stand = .behindLabel ↔ ∃ name, p = label name) := by
  cases p <;> simp [stand]
  split <;> simp

theorem standAfter_eq_fresh : standAfter .within ps = .fresh ↔ ps.getLast? = some newline := by
  simp [standAfter_eq_iff, Part.stand_eq_iff.1]

theorem standAfter_eq_behindElse :
    standAfter .within ps = .behindElse ↔ ps.getLast? = some (keyword " else ") := by
  simp [standAfter_eq_iff, Part.stand_eq_iff.2.1]

theorem standAfter_eq_behindLabel :
    standAfter .within ps = .behindLabel ↔ ∃ name, ps.getLast? = some (label name) := by
  simp [standAfter_eq_iff, Part.stand_eq_iff.2.2]

theorem Part.exists_keyword_of_mayStand (h : p.mayStand .behindLabel = true) :
    ∃ word, p = keyword word ∧ isOpening word = true := by
  cases p with
  | keyword word => exact ⟨word, rfl, by simpa [mayStand] using h⟩
  | _ => simp [mayStand] at h

theorem OwnLines.exists_keyword (h : OwnLines ps) {before after : List Part}
    (hlabel : standAfter .within before = .behindLabel) (hsplit : ps = before ++ after) :
    ∃ word rest, after = keyword word :: rest ∧ isOpening word = true := by
  obtain ⟨name, hlast⟩ := standAfter_eq_behindLabel.mp hlabel
  obtain ⟨before, rfl⟩ := List.getLast?_eq_some_iff.mp hlast
  exact (h.label before name after (by rw [hsplit, List.append_assoc]; rfl)).2

theorem OwnLines.mayStand (h : OwnLines ps) {before after : List Part}
    (hsplit : ps = before ++ p :: after) : p.mayStand (standAfter .within before) = true := by
  have hnot (hp : ∀ word, p = keyword word → isOpening word = false) :
      standAfter .within before ≠ .behindLabel := by
    intro hlabel
    obtain ⟨word, rest, hafter, hopening⟩ := h.exists_keyword hlabel hsplit
    rw [hp word (List.cons.inj hafter).1] at hopening
    cases hopening
  cases p with
  | item i => simp [Part.mayStand, standAfter_eq_fresh, h.item before i after hsplit]
  | label name =>
    simpa [Part.mayStand, standAfter_eq_fresh, standAfter_eq_behindElse] using
      (h.label before name after hsplit).1
  | keyword word =>
    rw [Part.mayStand]
    split
    · next hopening =>
      refine decide_eq_true fun hwithin => ?_
      rcases h.opening before word after hsplit hopening with hlast | hlast | ⟨name, hlast⟩
      · cases hwithin.symm.trans (standAfter_eq_fresh.mpr hlast)
      · cases hwithin.symm.trans (standAfter_eq_behindElse.mpr hlast)
      · cases hwithin.symm.trans (standAfter_eq_behindLabel.mpr ⟨name, hlast⟩)
    · next hopening =>
      refine decide_eq_true (hnot ?_)
      rintro _ ⟨⟩
      simpa using hopening
  | _ => exact decide_eq_true (hnot nofun)

/-- Parts keep to their lines if they may stand where they do, and no label is left alone. -/
theorem ownLines_iff :
    OwnLines ps ↔ ∃ st, stand? .within ps = some st ∧ st ≠ .behindLabel := by
  constructor
  · intro h
    refine ⟨_, stand?_eq_some_iff.mpr ⟨rfl, fun before p after => h.mayStand⟩, fun hlabel => ?_⟩
    obtain ⟨word, rest, hafter, -⟩ := h.exists_keyword hlabel (List.append_nil ps).symm
    cases hafter
  · rintro ⟨_, hscan, hne⟩
    obtain ⟨rfl, hall⟩ := stand?_eq_some_iff.mp hscan
    refine ⟨fun before i after hsplit => ?_, fun before name after hsplit => ⟨?_, ?_⟩,
      fun before word after hsplit hopening => ?_⟩
    · simpa [Part.mayStand, standAfter_eq_fresh] using hall before _ after hsplit
    · simpa [Part.mayStand, standAfter_eq_fresh, standAfter_eq_behindElse] using
        hall before _ after hsplit
    · rw [List.append_cons] at hsplit
      cases after with
      | nil =>
        rw [hsplit, List.append_nil, standAfter_concat] at hne
        exact absurd rfl hne
      | cons p rest =>
        have hp := hall _ p rest hsplit
        rw [standAfter_concat] at hp
        obtain ⟨word, rfl, hopening⟩ := Part.exists_keyword_of_mayStand hp
        exact ⟨word, rest, rfl, hopening⟩
    · have hword := hall before _ after hsplit
      rw [Part.mayStand, if_pos hopening, decide_eq_true_eq] at hword
      rw [← standAfter_eq_fresh, ← standAfter_eq_behindElse, ← standAfter_eq_behindLabel]
      cases hst : standAfter .within before with
      | within => exact absurd hst hword
      | _ => simp

end Stand

/-- Nothing but lines: the parts, read behind something on a line, end within a line if the
condition holds, and break the rule otherwise. -/
def KeepsLines (st : Stand) (ps : List Part) (h : Prop) : Prop :=
  (h → stand? st ps = some .within) ∧ (¬ h → stand? st ps = none)

namespace KeepsLines

variable {st st' : Stand} {p : Part} {ps qs : List Part} {h h' : Prop}

theorem nil : KeepsLines .within [] True := ⟨fun _ => rfl, fun h => absurd trivial h⟩

theorem congr (hps : KeepsLines st ps h) (hiff : h' ↔ h) : KeepsLines st ps h' := by
  rwa [hiff.eq]

theorem append (hps : KeepsLines st ps h) (hqs : KeepsLines .within qs h') :
    KeepsLines st (ps ++ qs) (h ∧ h') := by
  rw [KeepsLines, stand?_append]
  by_cases hh : h
  · rw [hps.1 hh, Option.bind_some]
    exact ⟨fun hboth => hqs.1 hboth.2, fun hnot => hqs.2 fun hh' => hnot ⟨hh, hh'⟩⟩
  · rw [hps.2 hh]
    exact ⟨fun hboth => absurd hboth.1 hh, fun _ => rfl⟩

theorem append_true (hps : KeepsLines st ps h) (hqs : KeepsLines .within qs True) :
    KeepsLines st (ps ++ qs) h :=
  (hps.append hqs).congr (by simp)

theorem true_append (hps : KeepsLines st ps True) (hqs : KeepsLines .within qs h) :
    KeepsLines st (ps ++ qs) h :=
  (hps.append hqs).congr (by simp)

theorem cons (hp : p.mayStand st = true) (hps : KeepsLines p.stand ps h) :
    KeepsLines st (p :: ps) h := by
  rwa [KeepsLines, stand?, if_pos hp]

theorem cons_of_not_mayStand (hp : p.mayStand st = false) : KeepsLines st (p :: ps) False := by
  simp [KeepsLines, stand?, hp]

theorem of_cons (hp : p.mayStand st = true) (hps : KeepsLines st (p :: ps) h) :
    KeepsLines p.stand ps h := by
  rwa [KeepsLines, stand?, if_pos hp] at hps

end KeepsLines

/-- A part that may stand anywhere but behind a label, and has nothing to say about
what follows it. -/
def Part.isPlain : Part → Bool
  | keyword word => !isOpening word && word ≠ " else "
  | expression _ | binding _ _ | caseLabel _ | clause _ => true
  | _ => false

/-- No block of a chain, at any depth, has a label. -/
def Code.Unlabelled (code : Code) : Prop :=
  ∀ e : Element, e.Occurs code → e.form.isBlock = true → e.place.label = none

theorem Code.unlabelled_cons {form : FormCode} {place : Place} {es : Code} :
    Code.Unlabelled (.mk form place :: es) ↔ (form.isBlock = true → place.label = none) ∧
      (∀ code ∈ form.branches, Code.Unlabelled code) ∧ Code.Unlabelled es :=
  Element.forall_occurs_cons

section Keeps

variable {st : Stand} {p : Part} {ps : List Part} {h : Prop}

theorem Part.mayStand_of_isPlain (hp : p.isPlain = true) (hst : st ≠ .behindLabel) :
    p.mayStand st = true ∧ p.stand = .within := by
  cases p <;> simp_all [isPlain, mayStand, stand]

theorem KeepsLines.cons_plain (hp : p.isPlain = true) (hst : st ≠ .behindLabel)
    (hps : KeepsLines .within ps h) : KeepsLines st (p :: ps) h := by
  obtain ⟨hmay, hstand⟩ := Part.mayStand_of_isPlain hp hst
  exact .cons hmay (by rwa [hstand])

theorem keepsLines_plain (hps : ps.all Part.isPlain = true) : KeepsLines .within ps True := by
  induction ps with
  | nil => exact .nil
  | cons p ps ih =>
    obtain ⟨hp, hps⟩ := Bool.and_eq_true_iff.mp hps
    exact .cons_plain hp (by decide) (ih hps)

theorem KeepsLines.cons_newline (hst : st ≠ .behindLabel) (hps : KeepsLines .fresh ps h) :
    KeepsLines st (newline :: ps) h :=
  .cons (by simpa [Part.mayStand] using hst) hps

theorem KeepsLines.cons_opening {word : String} (hword : isOpening word = true) (hst : st ≠ .within)
    (hps : KeepsLines .within ps h) : KeepsLines st (keyword word :: ps) h := by
  have helse : word ≠ " else " := by
    rintro rfl
    cases hword
  exact .cons (by simpa [Part.mayStand, hword] using hst) (by rwa [Part.stand, if_neg helse])

theorem keepsLines_items (is : List (Item StmtCode)) :
    KeepsLines .within (is.flatMap fun i => [newline, item i]) True := by
  induction is with
  | nil => exact .nil
  | cons i is ih => exact .cons_newline (by decide) (.cons rfl ih)

theorem keepsLines_bracedParts (hst : st ≠ .behindLabel) (hps : KeepsLines .within ps h) :
    KeepsLines st (bracedParts ps) h :=
  .cons_plain rfl hst
    (hps.append_true (.cons_newline (by decide) (.cons_plain rfl (by decide) .nil)))

theorem KeepsLines.labelled {place : Place} (hst : st = .fresh ∨ st = .behindElse)
    (hps : ∀ st, st ≠ .within → KeepsLines st ps h) :
    KeepsLines st (place.labelParts ++ ps) h := by
  have hwithin : st ≠ .within := by rcases hst with rfl | rfl <;> decide
  rw [Place.labelParts]
  cases place.label with
  | none => exact hps st hwithin
  | some name =>
    refine .cons ?_ (hps .behindLabel (by decide))
    rcases hst with rfl | rfl <;> rfl

theorem keepsLines_headParts {word : String} (hword : isOpening word = true) (hst : st ≠ .within)
    (condition : ExprCode) (hps : KeepsLines .within ps h) :
    KeepsLines st (headParts word condition ++ ps) h :=
  .cons_opening hword hst (.true_append (keepsLines_plain rfl) hps)

theorem all_isPlain_loopVariableParts (vs : List Occurrence) :
    (loopVariableParts vs).all Part.isPlain = true := by
  rcases vs with _ | ⟨v, _ | ⟨w, vs⟩⟩
  · rfl
  · rfl
  · simp [loopVariableParts, Part.isPlain, isOpening]

theorem all_isPlain_clauseParts (stmt : Option StmtCode) :
    (clauseParts stmt).all Part.isPlain = true := by
  simp [clauseParts, Part.isPlain]

theorem keepsLines_caseLabels (keys : List (Option Literal)) :
    KeepsLines .within (keys.flatMap fun key => [newline, caseLabel key]) True := by
  induction keys with
  | nil => exact .nil
  | cons key keys ih => exact .cons_newline (by decide) (.cons_plain rfl (by decide) ih)

end Keeps

section Code

variable (s : Style)

def Code.Keeps (code : Code) : Prop := KeepsLines .within (codeParts s code) code.Unlabelled

variable {s}

theorem keepsLines_handlersParts {handlers : List (Occurrence × Code)}
    (h : ∀ x ∈ handlers, Code.Keeps s x.2) :
    KeepsLines .within (handlersParts s handlers) (∀ x ∈ handlers, Code.Unlabelled x.2) := by
  induction handlers with
  | nil => exact KeepsLines.nil.congr (by simp)
  | cons x handlers ih =>
    rw [List.forall_mem_cons] at h ⊢
    exact .append (.true_append (keepsLines_plain rfl)
      (keepsLines_bracedParts (by decide) h.1)) (ih h.2)

theorem keepsLines_cleanupParts {cleanup : Option Code} (h : ∀ code ∈ cleanup, Code.Keeps s code) :
    KeepsLines .within (cleanupParts s cleanup) (∀ code ∈ cleanup, Code.Unlabelled code) := by
  cases cleanup with
  | none => exact KeepsLines.nil.congr (by simp)
  | some body =>
    refine KeepsLines.congr (h := Code.Unlabelled body) ?_ (by simp)
    exact .cons_plain rfl (by decide) (keepsLines_bracedParts (by decide) (h body rfl))

theorem keepsLines_fallbackParts {fallback : Option Code}
    (h : ∀ code ∈ fallback, Code.Keeps s code) :
    KeepsLines .within (fallbackParts s fallback) (∀ code ∈ fallback, Code.Unlabelled code) := by
  cases fallback with
  | none => exact KeepsLines.congr (.cons_plain rfl (by decide) .nil) (by simp)
  | some body =>
    exact KeepsLines.congr (keepsLines_bracedParts (by decide) (h body rfl)) (by simp)

theorem keepsLines_casesParts {cases : List (List (Option Literal) × Code)}
    (h : ∀ x ∈ cases, Code.Keeps s x.2) :
    KeepsLines .within (casesParts s cases) (∀ x ∈ cases, Code.Unlabelled x.2) := by
  induction cases with
  | nil => exact KeepsLines.nil.congr (by simp)
  | cons x cases ih =>
    rw [List.forall_mem_cons] at h ⊢
    exact .append (.true_append (keepsLines_caseLabels x.1) h.1) (ih h.2)

theorem keepsLines_armsParts {arms : List (ExprCode × Code)}
    (h : ∀ x ∈ arms, Code.Keeps s x.2) :
    KeepsLines .within (armsParts s arms) (∀ x ∈ arms, Code.Unlabelled x.2) := by
  have harm : (keyword s.lexicon.armKeyword).isPlain = true := by
    rcases s with ⟨_ | _, n⟩ <;> rfl
  induction arms with
  | nil => exact KeepsLines.nil.congr (by simp)
  | cons x arms ih =>
    rw [List.forall_mem_cons] at h ⊢
    refine .append ?_ (ih h.2)
    exact .cons_newline (by decide) (.cons_plain harm (by decide) (.cons_plain rfl (by decide)
      (.cons_plain rfl (by decide) (keepsLines_bracedParts (by decide) h.1))))

theorem Element.parts_of_isEmptyBlock {e : Element} (h : e.isEmptyBlock = true) :
    leadParts e.form ++ e.parts s = [] := by
  have hform := e.form_of_isEmptyBlock h
  obtain ⟨form, ⟨label, breakTo, continueTo⟩⟩ := e
  obtain rfl : form = .block [] := hform
  have hbare := (Bool.and_eq_true_iff.mp h).2
  simp only [place, Place.isBare, Bool.and_eq_true, Option.isNone_iff_eq_none] at hbare
  obtain ⟨⟨rfl, rfl⟩, rfl⟩ := hbare
  rfl

/-- A collapsed branch goes on behind the `else` as it would on a line of its own. -/
theorem stand?_behindElse {f : Element} (hf : f.form.isConditional = true) (ps : List Part) :
    stand? .behindElse (f.parts s ++ ps) = stand? .fresh (f.parts s ++ ps) := by
  obtain ⟨form, place⟩ := f
  cases form with
  | conditional condition whenTrue whenFalse =>
    rw [Element.parts, formParts, Place.labelParts]
    cases place.label <;> rfl
  | _ => cases hf

theorem keepsLines_elseParts {code : Option Code} (h : ∀ c ∈ code, Code.Keeps s c) :
    KeepsLines .within (elseParts s code) (∀ c ∈ code, Code.Unlabelled c) := by
  have hbraced {c : Code} (hc : Code.Keeps s c) :
      KeepsLines .within (keyword " else " :: bracedParts (codeParts s c)) c.Unlabelled :=
    .cons rfl (keepsLines_bracedParts (by decide) hc)
  have hsome {c : Code} : (∀ d ∈ some c, Code.Unlabelled d) ↔ c.Unlabelled := by simp
  rcases code with _ | ⟨_ | ⟨e, _ | ⟨f, es⟩⟩⟩
  · exact KeepsLines.nil.congr (by simp)
  · exact KeepsLines.congr (hbraced (h [] rfl)) hsome
  · refine KeepsLines.congr ?_ hsome
    have he := hbraced (h [e] rfl)
    rwa [codeParts, codeParts, List.append_nil] at he
  · refine KeepsLines.congr ?_ hsome
    have hcode := h (e :: f :: es) rfl
    rw [elseParts]
    split
    · next hcollapsed =>
      obtain ⟨hempty, hf⟩ := Bool.and_eq_true_iff.mp hcollapsed
      have hlead : leadParts f.form = [newline] := by
        obtain ⟨form, place⟩ := f
        cases form <;> first | rfl | cases hf
      rw [Code.Keeps, codeParts, e.parts_of_isEmptyBlock hempty, codeParts, hlead] at hcode
      have hfresh : KeepsLines .fresh (f.parts s ++ codeParts s es)
          (Code.Unlabelled (e :: f :: es)) := KeepsLines.of_cons rfl hcode
      refine .cons rfl ?_
      change KeepsLines .behindElse _ _
      rwa [KeepsLines, stand?_behindElse hf]
    · exact hbraced hcode

/-- A control structure that starts with its keyword keeps to its lines behind anything
that a keyword may follow. -/
theorem keepsLines_formParts {st : Stand} (hst : st ≠ .within) (place : Place) {form : FormCode}
    (hform : form.isBlock = false) (hwhile : s.writesAsWhile form = false)
    (ih : ∀ code ∈ form.branches, Code.Keeps s code) :
    KeepsLines st (formParts s place form) (∀ code ∈ form.branches, Code.Unlabelled code) := by
  cases form with
  | block => cases hform
  | conditional condition whenTrue whenFalse =>
    simp only [Form.branches, List.forall_mem_cons, Option.mem_toList] at ih ⊢
    rw [formParts, List.append_assoc]
    exact keepsLines_headParts rfl hst condition
      (.append (keepsLines_bracedParts (by decide) ih.1) (keepsLines_elseParts ih.2))
  | whileLoop condition body =>
    simp only [Form.branches, List.forall_mem_singleton] at ih ⊢
    exact keepsLines_headParts rfl hst condition (keepsLines_bracedParts (by decide) ih)
  | doLoop condition body =>
    simp only [Form.branches, List.forall_mem_singleton] at ih ⊢
    have hplain : (keyword s.lexicon.terminator).isPlain = true := by
      rcases s with ⟨_ | _, n⟩ <;> rfl
    refine .cons_opening rfl hst (.append_true (keepsLines_bracedParts (by decide) ih) ?_)
    exact .cons_plain rfl (by decide) (.cons_plain rfl (by decide) (.cons_plain rfl (by decide)
      (.cons_plain rfl (by decide) (.cons_plain hplain (by decide) .nil))))
  | countedLoop init condition update body =>
    simp only [Form.branches, List.forall_mem_singleton] at ih ⊢
    have hheader : s.lexicon.countedLoops = true := by
      simpa [Style.writesAsWhile, Form.isCountedLoop] using hwhile
    rw [formParts, if_pos hheader]
    refine .true_append (.cons_opening rfl hst (keepsLines_plain ?_))
      (keepsLines_bracedParts (by decide) ih)
    simp [all_isPlain_clauseParts, Part.isPlain, isOpening]
  | forEach vars container body =>
    simp only [Form.branches, List.forall_mem_singleton] at ih ⊢
    have hplain : (keyword (" " ++ s.lexicon.forEachKeyword ++ " ")).isPlain = true := by
      rcases s with ⟨_ | _, n⟩ <;> rfl
    refine .true_append (.cons_opening rfl hst ?_) (keepsLines_bracedParts (by decide) ih)
    refine .true_append (keepsLines_plain (all_isPlain_loopVariableParts vars)) ?_
    exact .cons_plain hplain (by decide) (keepsLines_plain rfl)
  | guarded body handlers cleanup =>
    simp only [Form.branches, List.forall_mem_cons, List.forall_mem_append, List.forall_mem_map,
      Option.mem_toList] at ih ⊢
    rw [formParts, List.append_assoc]
    exact .cons_opening rfl hst (.append (keepsLines_bracedParts (by decide) ih.1)
      (.append (keepsLines_handlersParts ih.2.1) (keepsLines_cleanupParts ih.2.2)))
  | switch selector cases =>
    simp only [Form.branches, List.forall_mem_map] at ih ⊢
    rw [formParts]
    refine .append_true (.true_append (.cons_opening rfl hst (keepsLines_plain rfl))
      (keepsLines_casesParts ih)) ?_
    exact .cons_newline (by decide) (.cons_plain rfl (by decide) .nil)
  | select selector arms fallback =>
    simp only [Form.branches, List.forall_mem_append, List.forall_mem_map, Option.mem_toList]
      at ih ⊢
    have hselect : isOpening (s.lexicon.selectKeyword ++ " ") = true := by
      rcases s with ⟨_ | _, n⟩ <;> rfl
    have hfallback : (keyword (s.lexicon.fallbackArm ++ " -> ")).isPlain = true := by
      rcases s with ⟨_ | _, n⟩ <;> rfl
    rw [formParts]
    refine .append_true (.append (.append_true (.true_append
      (.cons_opening hselect hst (keepsLines_plain rfl)) (keepsLines_armsParts ih.1)) ?_)
      (keepsLines_fallbackParts ih.2)) ?_
    · exact .cons_newline (by decide) (.cons_plain hfallback (by decide) .nil)
    · exact .cons_newline (by decide) (.cons_plain rfl (by decide) .nil)

theorem keepsLines_asWhile (place : Place) {form : FormCode} (hwhile : s.writesAsWhile form = true)
    (ih : ∀ code ∈ form.branches, Code.Keeps s code) :
    KeepsLines .fresh (formParts s place form) (∀ code ∈ form.branches, Code.Unlabelled code) := by
  obtain ⟨hcounted, hheader⟩ := Bool.and_eq_true_iff.mp hwhile
  cases form with
  | countedLoop init condition update body =>
    simp only [Form.branches, List.forall_mem_singleton] at ih ⊢
    have hupdate : KeepsLines .within (lineParts update.toList) True := keepsLines_items _
    have hloop : KeepsLines .fresh (place.labelParts ++ (headParts "while " condition ++
        bracedParts (codeParts s body ++ lineParts update.toList))) (Code.Unlabelled body) :=
      .labelled (.inl rfl) fun st hst => keepsLines_headParts rfl hst condition
        (keepsLines_bracedParts (by decide) (KeepsLines.append_true ih hupdate))
    rw [formParts, if_neg (by simpa using hheader), List.append_assoc, List.append_assoc]
    rcases init with _ | stmt
    · exact hloop
    · cases hsilent : stmt.isSilent with
      | true => simpa [spokenItems, hsilent] using hloop
      | false =>
        have hbroken := KeepsLines.cons_newline (show Stand.within ≠ .behindLabel by decide) hloop
        have hinit : KeepsLines .fresh (item (.statement stmt) :: _) _ := .cons rfl hbroken
        simpa [spokenItems, hsilent] using hinit
  | _ => cases hcounted

theorem Code.keeps (code : Code) : Code.Keeps s code := by
  induction code using Code.induct with
  | nil => exact KeepsLines.nil.congr (by simp [Code.Unlabelled])
  | cons form place es ihform ihes =>
    have hexits : KeepsLines .within place.exitParts True := keepsLines_items _
    have hrest {h : Prop} {st : Stand} {ps : List Part} (hps : KeepsLines st ps h) :
        KeepsLines st (ps ++ place.exitParts ++ codeParts s es) (h ∧ Code.Unlabelled es) :=
      (hps.append_true hexits).append ihes
    rw [Code.Keeps, codeParts, Element.parts]
    cases hblock : form.isBlock with
    | true =>
      obtain ⟨statements, rfl⟩ : ∃ statements, form = .block statements := by
        cases form <;> first | exact ⟨_, rfl⟩ | cases hblock
      have hlines : KeepsLines .within (lineParts statements) True := keepsLines_items _
      have hparts : leadParts (Element.mk (.block statements) place).form ++
          ((if s.writesAsWhile (.block statements) then [] else place.labelParts) ++
            formParts s place (.block statements) ++ place.exitParts) ++ codeParts s es =
          place.labelParts ++ (lineParts statements ++ place.exitParts ++ codeParts s es) := by
        simp [leadParts, Element.form, Form.isBlock, Style.writesAsWhile, Form.isCountedLoop,
          formParts]
      rw [hparts, Place.labelParts]
      cases hlabel : place.label with
      | none =>
        refine (hrest hlines).congr ?_
        simp [Code.unlabelled_cons, hlabel, Form.branches]
      | some name =>
        refine (KeepsLines.cons_of_not_mayStand rfl).congr ?_
        simp [Code.unlabelled_cons, hlabel, Form.isBlock]
    | false =>
      have hform : KeepsLines .fresh ((if s.writesAsWhile form then [] else place.labelParts) ++
          formParts s place form) (∀ code ∈ form.branches, Code.Unlabelled code) := by
        cases hwhile : s.writesAsWhile form with
        | true => exact keepsLines_asWhile place hwhile ihform
        | false =>
          exact .labelled (.inl rfl) fun st hst =>
            keepsLines_formParts hst place hblock hwhile ihform
      have hlead : leadParts (Element.mk form place).form = [newline] := by
        simp [leadParts, Element.form, hblock]
      rw [hlead]
      refine KeepsLines.cons_newline (by decide) ((hrest hform).congr ?_)
      simp [Code.unlabelled_cons, hblock]

end Code

/-- The document of a chain is made of its parts in their order. Every label, statement,
jump and opening keyword among them begins a line, and every label is followed by its
keyword, if and only if no block of the chain, at any depth, has a label. -/
theorem own_lines_iff (s : Style) (code : Code) :
    (Code.doc s false code).leaves = leavesOf s (Code.parts s false code) ∧
      (OwnLines (Code.parts s false code) ↔
        ∀ e : Element, e.Occurs code → e.form.isBlock = true → e.place.label = none) := by
  have hparts : Code.parts s false code = codeParts s code := by cases code <;> rfl
  refine ⟨(Code.leavesOf_parts s false code).symm, ?_⟩
  rw [hparts, ownLines_iff]
  by_cases h : code.Unlabelled
  · exact ⟨fun _ => h, fun _ => ⟨.within, code.keeps.1 h, by decide⟩⟩
  · refine ⟨fun ⟨st, hst, _⟩ => ?_, fun hnot => absurd hnot h⟩
    rw [code.keeps.2 h] at hst
    cases hst

def labelledBlock : Body Empty :=
  let call (f : String) : Stmt VariableId Empty := .eval (.apply f [])
  { constructions := ⟨[
      ⟨1, some { form := .block [call "f"], next := some ⟨2, 1⟩ }⟩,
      ⟨1, some { form := .block [call "g"], place := { label := some "L" } }⟩], []⟩
    entry := some ⟨1, 1⟩ }

/-- The label stands behind the first call, on the same line. -/
theorem exists_mislaid : ∃ code sc,
    ((Style.context ⟨.java, 4⟩ Empty.elim labelledBlock).unfold labelledBlock.entry).run.run {} =
        (.ok code, sc) ∧
      ¬ OwnLines (Code.parts ⟨.java, 4⟩ false code) := by
  refine ⟨_, _, rfl, fun h => ?_⟩
  have hlabel := (h.label _ "L" _ (show _ = [.newline, _] ++ _ from rfl)).1
  simp at hlabel

end Unparse
