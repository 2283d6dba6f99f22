import Unparse.Proofs.Meaning.Bounds
import Unparse.Proofs.Meaning.WhileForm

/-! # Rounds that are cut short

A `continue` ends a round early. A counted loop still runs its update then, the
`while` form does not. As long as no round is cut short the two loops take the
same steps, and the first round that is cut short tells them apart.
-/

namespace Unparse.Execution

variable {σ ρ α : Type}

/-! ## Rounds -/

section Rounds

variable {label : Option String} {body update : Run σ ρ Unit} {test : Nat → Run σ ρ Bool}

/-- Whether some round is cut short by a `continue` that is aimed at the loop,
before a test fails or the loop is left. -/
def CutShort (label : Option String) (test : Nat → Run σ ρ Bool) (body update : Run σ ρ Unit) :
    (bound k : Nat) → Log σ ρ → Prop
  | 0, _, _ => False
  | bound + 1, k, log =>
    ∃ log₁, test k log = (.ok true, log₁) ∧
      ((∃ j log₂, body log₁ = (.error (.continues j), log₂) ∧ aimedAt label true j = true) ∨
        ∃ log₂ log₃, body log₁ = (.ok (), log₂) ∧ update log₂ = (.ok (), log₃) ∧
          CutShort label test body update bound (k + 1) log₃)

abbrev Steady (x : Run σ ρ Unit) : Prop := Leaves (fun _ => False) x

theorem Steady.catching {x : Run σ ρ Unit} (h : Steady x) (aimed : Jump → Bool) :
    catching (isContinue aimed) x = x := by
  funext log
  have hjumps := (h log).2.2
  rw [catching_apply]
  generalize x log = outcome at hjumps
  rcases outcome with ⟨e | _, log'⟩
  · cases e with
    | continues j => exact (hjumps j rfl).elim
    | _ => rfl
  · rfl

theorem whileRound_apply (hupdate : Steady update) (log : Log σ ρ) :
    resuming label (do body; update) log = match body log with
      | (.ok _, log) => update log
      | (.error e, log) =>
        (if isContinue (aimedAt label true) e then .ok () else .error e, log) := by
  have hsteady := congrFun (hupdate.catching (aimedAt label true))
  rw [resuming.eq_def, catching_apply, bind_apply]
  rcases body log with ⟨e | _, log'⟩
  · rfl
  · dsimp only
    rw [← catching_apply]
    exact hsteady log'

theorem countedRound_apply (log : Log σ ρ) :
    (do resuming label body; update) log = match body log with
      | (.ok _, log) => update log
      | (.error e, log) =>
        if isContinue (aimedAt label true) e then update log else (.error e, log) := by
  rw [bind_apply, resuming.eq_def, catching_apply]
  rcases body log with ⟨e | _, log'⟩
  · cases hstop : isContinue (aimedAt label true) e <;> simp [hstop]
  · rfl

theorem rounds_of_true {bound k : Nat} {log log' : Log σ ρ} {round : Run σ ρ Unit}
    (h : test k log = (.ok true, log')) :
    rounds test round (bound + 1) k log =
      (do round; rounds test round bound (k + 1)) log' := by
  rw [rounds, bind_apply, h]
  rfl

/-- Unless a round is cut short, the rounds of the `while` form do the same as
those of the counted loop. -/
theorem rounds_eq (hupdate : Steady update) (bound k : Nat) {log : Log σ ρ}
    (h : ¬ CutShort label test body update bound k log) :
    rounds test (resuming label (do body; update)) bound k log =
      rounds test (do resuming label body; update) bound k log := by
  induction bound generalizing k log with
  | zero => rfl
  | succ bound ih =>
    rcases htest : test k log with ⟨e | _ | _, log₁⟩
    · rw [rounds, rounds, bind_apply, bind_apply, htest]
    · rw [rounds, rounds, bind_apply, bind_apply, htest]
      rfl
    rw [rounds_of_true htest, rounds_of_true htest, bind_apply, bind_apply,
      whileRound_apply hupdate, countedRound_apply]
    rcases hbody : body log₁ with ⟨e | _, log₂⟩
    · cases hstop : isContinue (aimedAt label true) e
      · simp [hstop]
      · cases e with
        | continues j => exact (h ⟨log₁, htest, .inl ⟨j, log₂, hbody, hstop⟩⟩).elim
        | _ => cases hstop
    · dsimp only
      rcases hresult : update log₂ with ⟨e | _, log₃⟩
      · rfl
      · apply ih
        intro hcut
        exact h ⟨log₁, htest, .inr ⟨log₂, log₃, hbody, hresult, hcut⟩⟩

variable {m : Machine σ ρ} {condition : ExprCode} {stmt : StmtCode}

def Grows (x : Run σ ρ α) : Prop := ∀ log, log.steps <+: (x log).2.steps

theorem Meets.grows {x : Run σ ρ α} {ok : α → Prop} {js : Jump → Prop} (h : Meets ok js x) :
    Grows x := fun log => (h log).1

theorem Grows.meets {x : Run σ ρ α} (h : Grows x) : Meets (fun _ => True) (fun _ => True) x :=
  fun log => ⟨h log, fun _ _ => trivial, fun _ _ => trivial⟩

theorem grows_rounds {round : Run σ ρ Unit} (hround : Grows round) (bound k : Nat) :
    Grows (rounds (fun _ => m.holds (.test condition)) round bound k) :=
  (Leaves.rounds (fun _ => meets_holds m _) hround.meets bound k).grows

theorem prefix_bind {β : Type} {x : Run σ ρ α} {f : α → Run σ ρ β} (hf : ∀ a, Grows (f a))
    (log : Log σ ρ) : (x log).2.steps <+: ((x >>= f) log).2.steps := by
  rw [bind_apply]
  rcases x log with ⟨e | a, log'⟩
  · exact List.prefix_refl _
  · exact hf a log'

theorem prefix_holds (a : Act ρ) (log : Log σ ρ) :
    log.steps ++ [(a, log.state)] <+: (m.holds a log).2.steps :=
  prefix_bind (x := m.act a) (fun _ _ => List.prefix_refl _) log

theorem prefix_statements (hsilent : stmt.isSilent = false) (log : Log σ ρ) :
    log.steps ++ [(.statement stmt, log.state)] <+: (m.statements [stmt] log).2.steps := by
  have hstatement : log.steps ++ [(.statement stmt, log.state)] <+:
      (m.statement stmt log).2.steps := by
    simp only [Machine.statement, hsilent]
    exact prefix_bind (x := m.act (.statement stmt)) (fun _ _ => List.prefix_refl _) log
  exact hstatement.trans (prefix_bind (fun _ _ => List.prefix_refl _) log)

theorem prefix_rounds {round : Run σ ρ Unit} (hround : Grows round) (bound k : Nat)
    (log : Log σ ρ) :
    (rounds (fun _ => m.holds (.test condition)) round bound k log).2 = log ∨
      log.steps ++ [(.test condition, log.state)] <+:
        (rounds (fun _ => m.holds (.test condition)) round bound k log).2.steps := by
  cases bound with
  | zero => exact .inl rfl
  | succ bound =>
    right
    refine (prefix_holds _ log).trans (prefix_bind (fun b => ?_) log)
    cases b with
    | false => exact fun _ => List.prefix_refl _
    | true =>
      intro log'
      exact (hround log').trans (prefix_bind (fun _ => grows_rounds hround bound (k + 1)) log')

/-- From a log on, the counted loop goes on with its update, and the `while` form with its
test unless it has come to its bound. -/
structure PartedAt (condition : ExprCode) (stmt : StmtCode) (log counted repeated : Log σ ρ) :
    Prop where
  counted : log.steps ++ [(.statement stmt, log.state)] <+: counted.steps
  repeated : repeated = log ∨ log.steps ++ [(.test condition, log.state)] <+: repeated.steps

theorem PartedAt.not_updated {log counted repeated : Log σ ρ}
    (h : PartedAt condition stmt log counted repeated) :
    ¬ log.steps ++ [(.statement stmt, log.state)] <+: repeated.steps := by
  intro hupdated
  rcases h.repeated with rfl | htested
  · have hlength := hupdated.length_le
    rw [List.length_append, List.length_singleton] at hlength
    omega
  · have hsame := (List.prefix_of_prefix_length_le htested hupdated (by simp)).eq_of_length
      (by simp)
    simp at hsame

/-- The loops part where a round is cut short, however far beyond that they may go. -/
theorem CutShort.exists_partedAt (hsilent : stmt.isSilent = false) {bound k : Nat} {log : Log σ ρ}
    (h : CutShort label (fun _ => m.holds (.test condition)) body (m.statements [stmt])
      bound k log) :
    ∃ log', ∀ (bound' : Nat) (body' : Run σ ρ Unit), bound ≤ bound' → Extends body body' →
      PartedAt condition stmt log'
        (rounds (fun _ => m.holds (.test condition))
          (do resuming label body'; m.statements [stmt]) bound' k log).2
        (rounds (fun _ => m.holds (.test condition))
          (resuming label (do body'; m.statements [stmt])) bound' k log).2 := by
  have hupdate : Steady (m.statements [stmt]) := .statements m [stmt]
  induction bound generalizing k log with
  | zero => exact h.elim
  | succ bound ih =>
    obtain ⟨log₁, htest, hcut⟩ := h
    obtain ⟨j, log₂, hleft, haimed⟩ | ⟨log₂, log₃, hleft, hresult, hcut⟩ := hcut
    · use log₂
      intro bound' body' hle hbody
      obtain ⟨bound', rfl⟩ := Nat.exists_eq_add_of_le' (Nat.one_le_of_lt hle)
      have hleft' : body' log₁ = (.error (.continues j), log₂) :=
        (hbody.apply_eq (by simp [hleft])).trans hleft
      have hstop : isContinue (aimedAt label true) (.continues j : Exit ρ) = true := haimed
      have hwhile : resuming label (do body'; m.statements [stmt]) log₁ = (.ok (), log₂) := by
        rw [whileRound_apply hupdate, hleft']
        simp [hstop]
      have hcounted : (do resuming label body'; m.statements [stmt]) log₁ =
          m.statements [stmt] log₂ := by
        rw [countedRound_apply, hleft']
        simp [hstop]
      have hwhileRound : Grows (resuming label (do body'; m.statements [stmt])) :=
        (Leaves.catching (.andThen hbody.meets (.statements m [stmt])) fun _ _ _ => trivial).grows
      have hcountedRound : Grows (do resuming label body'; m.statements [stmt]) :=
        (Leaves.andThen (.catching hbody.meets fun _ _ _ => trivial) (.statements m [stmt])).grows
      rw [rounds_of_true htest, rounds_of_true htest, bind_apply _ _ log₁, hcounted, ← bind_apply,
        bind_apply _ _ log₁, hwhile]
      constructor
      · exact (prefix_statements hsilent log₂).trans
          (prefix_bind (fun _ => grows_rounds hcountedRound bound' (k + 1)) log₂)
      · exact prefix_rounds hwhileRound bound' (k + 1) log₂
    · obtain ⟨log', hparted⟩ := ih hcut
      use log'
      intro bound' body' hle hbody
      obtain ⟨bound', rfl⟩ := Nat.exists_eq_add_of_le' (Nat.one_le_of_lt hle)
      have hleft' : body' log₁ = (.ok (), log₂) :=
        (hbody.apply_eq (by simp [hleft])).trans hleft
      have hwhile : resuming label (do body'; m.statements [stmt]) log₁ = (.ok (), log₃) := by
        rw [whileRound_apply hupdate, hleft']
        exact hresult
      have hcounted : (do resuming label body'; m.statements [stmt]) log₁ = (.ok (), log₃) := by
        rw [countedRound_apply, hleft']
        exact hresult
      rw [rounds_of_true htest, rounds_of_true htest, bind_apply, hcounted, bind_apply, hwhile]
      exact hparted bound' body' (by omega) hbody

end Rounds

/-! ## Loops in code -/

section Code

variable (m : Machine σ ρ) (bound : Nat)

theorem runCode_append (code code' : Code) :
    m.runCode bound (code ++ code') = (do m.runCode bound code; m.runCode bound code') := by
  induction code with
  | nil => simp [Machine.runCode]
  | cons e es ih => simp only [List.cons_append, Machine.runCode, ih, bind_assoc]

theorem runElement_block (stmts : List StmtCode) :
    m.runElement bound (.mk (.block stmts) {}) = m.statements stmts := by
  simp [Machine.runElement, Machine.runForm, jumps]

theorem statements_of_silent {stmts : List StmtCode} (h : ∀ stmt ∈ stmts, stmt.isSilent = true) :
    m.statements stmts = pure () := by
  induction stmts with
  | nil => rfl
  | cons stmt stmts ih =>
    obtain ⟨hstmt, hstmts⟩ := List.forall_mem_cons.mp h
    simp [Machine.statements, Machine.statement, hstmt, ih hstmts]

variable (init : Option StmtCode) (condition : ExprCode) (update : Option StmtCode)
  (body : Code) (place : Place)

def around (round : Run σ ρ Unit) : Run σ ρ Unit := do
  m.statements init.toList
  leaving place.label true (rounds (fun _ => m.holds (.test condition)) round bound 0)
  jumps place

theorem runCode_countedLoop :
    m.runCode bound [.mk (.countedLoop init condition update body) place] =
      around m bound init condition place (do
        resuming place.label (m.runCode bound body); m.statements update.toList) := by
  simp [Machine.runCode, Machine.runElement, Machine.runForm, around]

theorem runCode_whileForm :
    m.runCode bound (whileForm init condition update body place) =
      around m bound init condition place (resuming place.label (do
        m.runCode bound body; m.statements update.toList)) := by
  have hbody : m.runCode bound (body ++ [.mk (.block update.toList) {}]) =
      (do m.runCode bound body; m.statements update.toList) := by
    rw [runCode_append]
    simp only [Machine.runCode, runElement_block, bind_pure_unit]
  simp only [whileForm, Machine.runCode, runElement_block]
  simp [Machine.runElement, Machine.runForm, hbody, around]

variable {m bound init condition update body place}

theorem log_jumps (log : Log σ ρ) : (jumps place log).2 = log := by
  rcases place with ⟨_, _ | _, _ | _⟩ <;> rfl

theorem log_catching (stops : Exit ρ → Bool) (x : Run σ ρ Unit) (log : Log σ ρ) :
    (catching stops x log).2 = (x log).2 := by
  rw [catching_apply]
  rcases x log with ⟨_ | _, _⟩ <;> rfl

theorem log_around {round : Run σ ρ Unit} {log log' : Log σ ρ}
    (h : m.statements init.toList log = (.ok (), log')) :
    (around m bound init condition place round log).2 =
      (rounds (fun _ => m.holds (.test condition)) round bound 0 log').2 := by
  have hloop := log_catching (isBreak (aimedAt place.label true))
    (rounds (fun _ => m.holds (.test condition)) round bound 0) log'
  rw [around, bind_apply, h]
  change ((leaving place.label true _ >>= fun _ => jumps place) log').2 = _
  rw [bind_apply, leaving, ← hloop]
  rcases catching _ _ log' with ⟨_ | _, log''⟩
  · rfl
  · exact log_jumps log''

theorem around_congr {round round' : Run σ ρ Unit} {log : Log σ ρ}
    (h : ∀ log', m.statements init.toList log = (.ok (), log') →
      rounds (fun _ => m.holds (.test condition)) round bound 0 log' =
        rounds (fun _ => m.holds (.test condition)) round' bound 0 log') :
    around m bound init condition place round log =
      around m bound init condition place round' log := by
  rw [around, around, bind_apply, bind_apply]
  rcases hinit : m.statements init.toList log with ⟨_ | _, log'⟩
  · rfl
  · have hleaving := h log' hinit
    simp only [bind_apply, leaving, catching_apply, hleaving]

/-- The two loops part, whatever larger bound they have. -/
theorem exists_partedAt_runCode {stmt : StmtCode} (hsilent : stmt.isSilent = false)
    {log log' : Log σ ρ} (hinit : m.statements init.toList log = (.ok (), log'))
    (hcut : CutShort place.label (fun _ => m.holds (.test condition)) (m.runCode bound body)
      (m.statements [stmt]) bound 0 log') :
    ∃ log'', ∀ bound' ≥ bound, PartedAt condition stmt log''
      (m.runCode bound' [.mk (.countedLoop init condition (some stmt) body) place] log).2
      (m.runCode bound' (whileForm init condition (some stmt) body place) log).2 := by
  obtain ⟨log'', hparted⟩ := hcut.exists_partedAt hsilent
  use log''
  intro bound' hle
  rw [runCode_countedLoop, runCode_whileForm, log_around hinit, log_around hinit]
  exact hparted bound' _ hle (extends_runCode m hle body)

/-- A counted loop and its `while` form do the same if and only if there is no
update to be skipped or no round of the run is cut short. -/
theorem run_whileForm_iff (log : Log σ ρ) :
    m.runCode bound (whileForm init condition update body place) log =
        m.runCode bound [.mk (.countedLoop init condition update body) place] log ↔
      (∀ stmt ∈ update, stmt.isSilent = true) ∨
        ∀ log', m.statements init.toList log = (.ok (), log') →
          ¬ CutShort place.label (fun _ => m.holds (.test condition)) (m.runCode bound body)
            (m.statements update.toList) bound 0 log' := by
  constructor
  · intro hsame
    by_contra hnot
    push Not at hnot
    obtain ⟨⟨stmt, rfl, hsilent⟩, log', hinit, hcut⟩ := hnot
    obtain ⟨log'', hparted⟩ := exists_partedAt_runCode (by simpa using hsilent) hinit hcut
    have hparted := hparted bound (Nat.le_refl _)
    exact hparted.not_updated (hsame ▸ hparted.counted)
  · rw [runCode_whileForm, runCode_countedLoop]
    rintro (hsilent | hcut)
    · have hupdate : m.statements update.toList = pure () :=
        statements_of_silent m fun stmt hstmt => hsilent stmt (Option.mem_toList.mp hstmt)
      simp [hupdate]
    · apply around_congr
      intro log' hinit
      exact rounds_eq (.statements m _) bound 0 (hcut log' hinit)

/-- Without a bound, the two loops do the same if and only if no round is cut short
within any. -/
theorem alike_whileForm_iff (log : Log σ ρ) :
    m.Alike (whileForm init condition update body place)
        [.mk (.countedLoop init condition update body) place] log ↔
      (∀ stmt ∈ update, stmt.isSilent = true) ∨
        ∀ bound log', m.statements init.toList log = (.ok (), log') →
          ¬ CutShort place.label (fun _ => m.holds (.test condition)) (m.runCode bound body)
            (m.statements update.toList) bound 0 log' := by
  constructor
  · intro halike
    by_contra hnot
    push Not at hnot
    obtain ⟨⟨stmt, rfl, hsilent⟩, bound, log', hinit, hcut⟩ := hnot
    obtain ⟨log'', hparted⟩ := exists_partedAt_runCode (by simpa using hsilent) hinit hcut
    have hcounted := Machine.takes_runCode bound (hparted bound (Nat.le_refl _)).counted
    obtain ⟨bound', hwhile⟩ := (halike.takes _).2 hcounted
    have htaken := hwhile (max bound bound') (Nat.le_max_right _ _)
    exact (hparted _ (Nat.le_max_left _ _)).not_updated htaken
  · intro h
    apply Machine.Alike.of_eq
    intro bound
    exact (run_whileForm_iff log).2 (h.imp_right fun hcut => hcut bound)

end Code

end Unparse.Execution
