import Unparse.Proofs.Meaning.CutShort

/-! # Code without counted loops

Where counted loops have no header, all of them are written in their `while`
form, at any depth. The code still does the same if no `continue` in the body of
a counted loop with an update is aimed at the loop.
-/

namespace Unparse.Execution

variable {σ ρ : Type}

mutual

/-- Whether no counted loop with an update can be cut short. -/
def elementUncut : Element → Prop
  | .mk form place => formUncut place.label form

def formUncut (label : Option String) : FormCode → Prop
  | .block _ => True
  | .conditional _ whenTrue whenFalse => codeUncut whenTrue ∧ optionUncut whenFalse
  | .whileLoop _ body | .doLoop _ body | .forEach _ _ body => codeUncut body
  | .countedLoop _ _ update body =>
    codeUncut body ∧ ((∀ stmt ∈ update, stmt.isSilent = true) ∨
      ∀ j ∈ codeContinues body, aimedAt label true j = false)
  | .guarded body handlers cleanup =>
    codeUncut body ∧ handlersUncut handlers ∧ optionUncut cleanup
  | .switch _ cases => casesUncut cases
  | .select _ arms fallback => armsUncut arms ∧ optionUncut fallback

def codeUncut : List Element → Prop
  | [] => True
  | e :: es => elementUncut e ∧ codeUncut es

def optionUncut : Option (List Element) → Prop
  | none => True
  | some code => codeUncut code

def handlersUncut : List (Occurrence × List Element) → Prop
  | [] => True
  | (_, body) :: handlers => codeUncut body ∧ handlersUncut handlers

def casesUncut : List (List (Option Literal) × List Element) → Prop
  | [] => True
  | (_, body) :: cases => codeUncut body ∧ casesUncut cases

def armsUncut : List (ExprCode × List Element) → Prop
  | [] => True
  | (_, body) :: arms => codeUncut body ∧ armsUncut arms

end

theorem not_cutShort {js : List Jump} {label : Option String} {test : Nat → Run σ ρ Bool}
    {body update : Run σ ρ Unit} (hbody : Leaves (· ∈ js) body)
    (h : ∀ j ∈ js, aimedAt label true j = false) (bound k : Nat) (log : Log σ ρ) :
    ¬ CutShort label test body update bound k log := by
  induction bound generalizing k log with
  | zero => exact id
  | succ bound ih =>
    rintro ⟨log₁, -, ⟨j, log₂, hleft, haimed⟩ | ⟨log₂, log₃, -, -, hcut⟩⟩
    · have hj := (hbody log₁).2.2 j (by rw [hleft])
      simp [h j hj] at haimed
    · exact ih (k + 1) log₃ hcut

theorem fst_asWhile {κ : Type} {f : List (κ × List Element) → List (κ × List Element)}
    (hnil : f [] = [])
    (hcons : ∀ key body rest, f ((key, body) :: rest) = (key, codeAsWhile body) :: f rest)
    (branches : List (κ × List Element)) :
    (f branches).map Prod.fst = branches.map Prod.fst := by
  induction branches with
  | nil => rw [hnil]
  | cons branch branches ih => rw [hcons, List.map_cons, List.map_cons, ih]

section Run

variable (m : Machine σ ρ) (bound : Nat)

mutual

theorem runElement_asWhile {e : Element} (h : elementUncut e) :
    m.runCode bound (elementAsWhile e) = m.runElement bound e := by
  cases e with
  | mk form place =>
    have hform := runForm_asWhile h
    cases form with
    | countedLoop init condition update body =>
      obtain ⟨huncut, hskip⟩ := h
      have hbody := runCode_asWhile huncut
      have hwhile (log : Log σ ρ) :
          m.runCode bound (whileForm init condition update (codeAsWhile body) place) log =
            m.runCode bound [.mk (.countedLoop init condition update (codeAsWhile body)) place]
              log := by
        rw [run_whileForm_iff, hbody]
        refine hskip.imp_right fun hskip _ _ => ?_
        exact not_cutShort (leaves_runCode m bound body) hskip bound 0 _
      rw [elementAsWhile, funext hwhile]
      simp only [Machine.runCode, Machine.runElement, ← hform, formAsWhile, bind_pure_unit]
    | _ => simp [elementAsWhile, Machine.runCode, Machine.runElement, hform]

theorem runForm_asWhile {label : Option String} {form : FormCode} (h : formUncut label form) :
    m.runForm bound label (formAsWhile form) = m.runForm bound label form := by
  cases form with
  | block stmts => rfl
  | conditional condition whenTrue whenFalse =>
    simp only [formAsWhile, Machine.runForm, runCode_asWhile h.1, runOption_asWhile h.2]
  | whileLoop condition body =>
    simp only [formAsWhile, Machine.runForm, runCode_asWhile (show codeUncut body from h)]
  | doLoop condition body =>
    simp only [formAsWhile, Machine.runForm, runCode_asWhile (show codeUncut body from h)]
  | countedLoop init condition update body =>
    simp only [formAsWhile, Machine.runForm, runCode_asWhile h.1]
  | forEach vars container body =>
    simp only [formAsWhile, Machine.runForm, runCode_asWhile (show codeUncut body from h)]
  | guarded body handlers cleanup =>
    simp only [formAsWhile, Machine.runForm, runCode_asWhile h.1, runHandlers_asWhile h.2.1,
      runOption_asWhile h.2.2, fst_asWhile handlersAsWhile.eq_1 handlersAsWhile.eq_2]
  | switch selector cases =>
    simp only [formAsWhile, Machine.runForm, runCases_asWhile (show casesUncut cases from h),
      fst_asWhile casesAsWhile.eq_1 casesAsWhile.eq_2]
  | select selector arms fallback =>
    simp only [formAsWhile, Machine.runForm, runArms_asWhile h.1, runOption_asWhile h.2,
      fst_asWhile armsAsWhile.eq_1 armsAsWhile.eq_2]

theorem runCode_asWhile {code : List Element} (h : codeUncut code) :
    m.runCode bound (codeAsWhile code) = m.runCode bound code := by
  cases code with
  | nil => rfl
  | cons e es =>
    rw [codeAsWhile, runCode_append, runElement_asWhile h.1, runCode_asWhile h.2, Machine.runCode]

theorem runOption_asWhile {code : Option (List Element)} (h : optionUncut code) :
    m.runOption bound (optionAsWhile code) = m.runOption bound code := by
  cases code with
  | none => rfl
  | some code => exact runCode_asWhile (show codeUncut code from h)

theorem runHandlers_asWhile {handlers : List (Occurrence × List Element)}
    (h : handlersUncut handlers) :
    m.runHandlers bound (handlersAsWhile handlers) = m.runHandlers bound handlers := by
  cases handlers with
  | nil => rfl
  | cons handler handlers =>
    cases handler with
    | mk v body =>
      simp only [handlersAsWhile, Machine.runHandlers, runCode_asWhile h.1,
        runHandlers_asWhile h.2]

theorem runCases_asWhile {cases : List (List (Option Literal) × List Element)}
    (h : casesUncut cases) :
    m.runCases bound (casesAsWhile cases) = m.runCases bound cases := by
  cases cases with
  | nil => rfl
  | cons c cases =>
    cases c with
    | mk keys body =>
      simp only [casesAsWhile, Machine.runCases, runCode_asWhile h.1, runCases_asWhile h.2]

theorem runArms_asWhile {arms : List (ExprCode × List Element)} (h : armsUncut arms) :
    m.runArms bound (armsAsWhile arms) = m.runArms bound arms := by
  cases arms with
  | nil => rfl
  | cons arm arms =>
    cases arm with
    | mk guard body =>
      simp only [armsAsWhile, Machine.runArms, runCode_asWhile h.1, runArms_asWhile h.2]

end

end Run

/-! ## The text and the meaning -/

/-- Where counted loops have no header, code is written as its `while` forms. It
does the same in this form if no `continue` can skip an update, and a single
loop does the same from a given state if and only if none does so in the run
from there. Both hold of runs within a bound and of runs without one. -/
theorem counted_loops_as_while {s : Style} (hs : s.lexicon.countedLoops = false)
    (m : Machine σ ρ) :
    (∀ code, codeParts s (codeAsWhile code) = codeParts s code) ∧
      (∀ code, codeUncut code →
        (∀ bound, m.runCode bound (codeAsWhile code) = m.runCode bound code) ∧
          ∀ log, m.Alike (codeAsWhile code) code log) ∧
      ∀ init condition update body place log,
        (∀ bound, m.runCode bound (whileForm init condition update body place) log =
            m.runCode bound [.mk (.countedLoop init condition update body) place] log ↔
          (∀ stmt ∈ update, stmt.isSilent = true) ∨
            ∀ log', m.statements init.toList log = (.ok (), log') →
              ¬ CutShort place.label (fun _ => m.holds (.test condition)) (m.runCode bound body)
                (m.statements update.toList) bound 0 log') ∧
        (m.Alike (whileForm init condition update body place)
            [.mk (.countedLoop init condition update body) place] log ↔
          (∀ stmt ∈ update, stmt.isSilent = true) ∨
            ∀ bound log', m.statements init.toList log = (.ok (), log') →
              ¬ CutShort place.label (fun _ => m.holds (.test condition)) (m.runCode bound body)
                (m.statements update.toList) bound 0 log') := by
  constructor
  · exact codeParts_asWhile hs
  constructor
  · intro code h
    have hsame (bound : Nat) : m.runCode bound (codeAsWhile code) = m.runCode bound code :=
      runCode_asWhile m bound h
    exact ⟨hsame, fun log => .of_eq fun bound => congrFun (hsame bound) log⟩
  · intro init condition update body place log
    exact ⟨fun bound => run_whileForm_iff log, alike_whileForm_iff log⟩

/-- Counts statements and tests. A test holds as long as nothing has been counted. -/
def counter : Machine Nat Unit where
  perform
    | .statement _, i => (.ok 0, i + 1)
    | .test _, i => (.ok (if i < 1 then 1 else 0), i + 1)
    | _, i => (.ok 0, i)
  leavesChoice := false

def countUp : StmtCode := .plain (.eval (.stepAfter .increment (.var ⟨⟨1, 1⟩, "i", "int", false⟩)))

/-- The body of a loop that goes on with the next round at once. -/
def goOn : Code := [.mk (.block []) { continueTo := some ⟨none⟩ }]

theorem counted_loops_as_while_block :
    counter.runCode 1 (codeAsWhile [.mk (.countedLoop none (.const (.bool true)) (some countUp)
        [.mk (.block [countUp]) {}]) {}]) =
      counter.runCode 1 [.mk (.countedLoop none (.const (.bool true)) (some countUp)
        [.mk (.block [countUp]) {}]) {}] :=
  ((counted_loops_as_while (s := { target := .kotlin }) rfl counter).2.1 _
    (by simp [codeUncut, elementUncut, formUncut, codeContinues, elementContinues,
      formContinues])).1 1

/-- A `continue` in the body of a counted loop skips the update where the loop is
written as a `while` loop, and the two end in different states. -/
theorem exists_skipped_update :
    ∃ (init : Option StmtCode) (condition : ExprCode) (update : Option StmtCode) (body : Code)
      (place : Place),
      codeParts { target := .kotlin } (whileForm init condition update body place) =
          codeParts { target := .kotlin } [.mk (.countedLoop init condition update body) place] ∧
        ∃ log result result',
          counter.Ends (whileForm init condition update body place) log result ∧
            counter.Ends [.mk (.countedLoop init condition update body) place] log result' ∧
            result.2.state ≠ result'.2.state := by
  have hwhile : counter.Ends (whileForm none (.const (.bool true)) (some countUp) goOn {})
      ⟨0, []⟩ _ := Machine.ends_runCode 2 nofun
  have hcounted : counter.Ends
      [.mk (.countedLoop none (.const (.bool true)) (some countUp) goOn) {}] ⟨0, []⟩ _ :=
    Machine.ends_runCode 2 nofun
  exact ⟨none, .const (.bool true), some countUp, goOn, {}, codeParts_whileForm rfl ..,
    ⟨0, []⟩, _, _, hwhile, hcounted, by decide⟩

end Unparse.Execution
