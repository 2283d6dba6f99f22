import Unparse.Proofs.Renaming.Traversal

/-! # Chains of renamed bodies

Chains of bodies that are the same up to their keys are unfolded into code that is
alike. The two arenas may differ in size and with them the depths of the two
unfoldings, so both are compared at a depth that neither can reach.
-/

namespace Unparse

open Walking

variable {κ κ' : Type} {V : VariableId → VariableId → Prop} {K : κ → κ' → Prop}
  {C : ConstructionId → ConstructionId → Prop} {b : Body κ} {b' : Body κ'}

theorem Construction.Renamed.isEmptyBlock_eq {c : Construction κ} {c' : Construction κ'}
    (h : c.Renamed V K C c') : c.isEmptyBlock = c'.isEmptyBlock := by
  rw [Construction.isEmptyBlock, Construction.isEmptyBlock, h.form.isEmptyBlock_eq, h.place]

section Chains

variable {E : PrintError → PrintError → Prop} {W : String → String → Prop} {s : Style}
  {view : κ → ClassText} {view' : κ' → ClassText}
  (hbody : b.Renamed V K C b') (hE : ∀ e e', PrintError.Renamed V C e e' → E e e')

include hbody hE

theorem mirror_loopVariables {ids ids' : List VariableId} (h : List.Forall₂ V ids ids') :
    Mirror E (Scope.Renamed V C b b') ((s.context view b).loopVariables ids)
      ((s.context view' b').loopVariables ids') (List.Forall₂ Occurrence.Alike) := by
  unfold Context.loopVariables
  rw [h.length_eq]
  refine .ite Iff.rfl ?_ ?_
  · exact .mapM h fun _ _ => mirror_bind hbody hE
  · exact .throw (hE _ _ (.unsupportedDestructuring _))

theorem mirror_elseIf {k k' : ConstructionId} (hk : C k k') :
    Twin E (Option.Rel C) ((s.context view b).elseIf? k) ((s.context view' b').elseIf? k') := by
  refine (mirror_peek hbody hE hk).bind fun carrier carrier' hcarrier => ?_
  have hempty := hcarrier.isEmptyBlock_eq
  obtain ⟨form, place, next⟩ := carrier
  obtain ⟨form', place', next'⟩ := carrier'
  obtain ⟨-, -, hnext⟩ := hcarrier
  cases hnext with
  | none => exact .ok .none
  | some hnext =>
    refine rel_ite (T := Twin E (Option.Rel C)) (Eq.congr_left hempty) ?_ (.ok .none)
    refine (mirror_peek hbody hE hnext).bind fun follower follower' hfollower => .ok ?_
    exact rel_ite (Eq.congr_left hfollower.form.isConditional_eq) (.some hnext) .none

variable {walk walk' : ConstructionId → Walking Code}
  (hwalk : ∀ k k', C k k' → Mirror E (Scope.Renamed V C b b') (walk k) (walk' k') (Code.Alike W s))

include hwalk

theorem mirror_elseBranch {k k' : ConstructionId} (hk : C k k') :
    Mirror E (Scope.Renamed V C b b') ((s.context view b).elseBranch walk k)
      ((s.context view' b').elseBranch walk' k') (Code.Alike W s) := by
  refine (Mirror.lift (mirror_elseIf hbody hE hk)).bind fun next next' hnext => ?_
  cases hnext with
  | none => exact hwalk k k' hk
  | some hnext =>
    refine (mirror_enter hbody hE hk).bind fun carrier carrier' hcarrier => ?_
    refine (hwalk _ _ hnext).map fun _ _ hcode => .cons ?_ hcode
    rw [hcarrier.place]
    exact .of_rel _ (.block .nil)

variable (hview : ∀ cls cls', K cls cls' → ClassText.Alike E W (view cls) (view' cls'))

include hview

theorem mirror_unfoldForm
    {form : Form VariableId (Expr VariableId κ) (Stmt VariableId κ) ConstructionId}
    {form' : Form VariableId (Expr VariableId κ') (Stmt VariableId κ') ConstructionId}
    (h : form.Rel V (Expr.Renamed V K) (Stmt.Renamed V K) C form') :
    Mirror E (Scope.Renamed V C b b') ((s.context view b).unfoldForm walk form)
      ((s.context view' b').unfoldForm walk' form')
      (Form.Rel Occurrence.Alike (Expr.Alike W s) (StmtCode.Alike W s) (Code.Alike W s)) := by
  have hexpr {e : Expr VariableId κ} {e' : Expr VariableId κ'} (h : e.Renamed V K e') :=
    mirror_expr (s := s) hbody hE hview h
  have hguard {e : Expr VariableId κ} {e' : Expr VariableId κ'} (h : e.Renamed V K e') :=
    mirror_guard (s := s) hbody hE hview h
  have hstmt (stmt : Stmt VariableId κ) (stmt' : Stmt VariableId κ') (h : stmt.Renamed V K stmt') :=
    mirror_stmt (s := s) hbody hE hview h
  cases h with
  | block hs => exact (Mirror.mapM hs hstmt).map fun _ _ => .block
  | conditional he ht hf =>
    exact (hguard he).bind fun _ _ he => (hwalk _ _ ht).bind fun _ _ ht =>
      (Mirror.optional hf fun _ _ => mirror_elseBranch hbody hE hwalk).map fun _ _ hf =>
        .conditional he ht hf
  | whileLoop he hb =>
    exact (hguard he).bind fun _ _ he => (hwalk _ _ hb).map fun _ _ hb => .whileLoop he hb
  | doLoop he hb =>
    exact (hwalk _ _ hb).bind fun _ _ hb => (hexpr he).map fun _ _ he => .doLoop he hb
  | countedLoop hi he hu hb =>
    rw [Context.unfoldForm, Context.unfoldForm]
    refine (Mirror.optional hi hstmt).bind fun _ _ hi => ?_
    refine .ite Iff.rfl ?_ ?_
    · exact (hguard he).bind fun _ _ he => (Mirror.optional hu hstmt).bind fun _ _ hu =>
        (hwalk _ _ hb).map fun _ _ hb => .countedLoop hi he hu hb
    · exact (hwalk _ _ hb).bind fun _ _ hb => (Mirror.optional hu hstmt).bind fun _ _ hu =>
        (hguard he).map fun _ _ he => .countedLoop hi he hu hb
  | forEach hv he hb =>
    exact (mirror_loopVariables hbody hE hv).bind fun _ _ hv => (hexpr he).bind fun _ _ he =>
      (hwalk _ _ hb).map fun _ _ hb => .forEach hv he hb
  | guarded hb hh hc =>
    refine (hwalk _ _ hb).bind fun _ _ hb => (Mirror.mapM hh fun h h' hh => ?_).bind fun _ _ hh =>
      (Mirror.optional hc hwalk).map fun _ _ hc => .guarded hb hh hc
    exact (mirror_bind hbody hE hh.1).bind fun _ _ hv => (hwalk _ _ hh.2).map fun _ _ hb => ⟨hv, hb⟩
  | switch he hc =>
    refine (Mirror.mapM hc fun c c' hc => ?_).bind fun _ _ hc => (hexpr he).map fun _ _ he =>
      .switch he hc
    exact (hwalk _ _ hc.2).map fun _ _ hb => ⟨hc.1, hb⟩
  | select he ha hf =>
    refine (Mirror.mapM ha fun a a' ha => ?_).bind fun _ _ ha =>
      (Mirror.optional hf hwalk).bind fun _ _ hf => (hexpr he).map fun _ _ he => .select he ha hf
    exact (hexpr ha.1).bind fun _ _ he => (hwalk _ _ ha.2).map fun _ _ hb => ⟨he, hb⟩

omit hwalk

theorem mirror_walkWithin {stuck stuck' : ConstructionId → Walking Code}
    (hstuck : ∀ k k', C k k' → Mirror E (Scope.Renamed V C b b') (stuck k) (stuck' k')
      (Code.Alike W s))
    (depth : Nat) {head head' : Option ConstructionId} (h : Option.Rel C head head') :
    Mirror E (Scope.Renamed V C b b') ((s.context view b).walkWithin stuck depth head)
      ((s.context view' b').walkWithin stuck' depth head') (Code.Alike W s) := by
  induction depth generalizing head head' with
  | zero =>
    cases h with
    | none => exact .pure .nil
    | some hk => exact hstuck _ _ hk
  | succ depth ih =>
    cases h with
    | none => exact .pure .nil
    | @some k k' hk =>
      have hreport : Mirror E (Scope.Renamed V C b b') (report (.entered k)) (report (.entered k'))
          fun _ _ => True := mirror_report (fun _ _ h => h.events _ _) _ _
      refine (mirror_enter hbody hE hk).bind fun c c' hc => hreport.bind fun _ _ _ => ?_
      refine (mirror_unfoldForm hbody hE (fun _ _ hk => ih (.some hk)) hview hc.form).bind
        fun form form' hform => ?_
      rw [hc.place]
      exact (ih hc.next).map fun _ _ hcode => .cons (.of_rel _ hform) hcode

/-- Chains that correspond are unfolded into code that is alike, however many
constructions there are besides them. -/
theorem mirror_unfold {head head' : Option ConstructionId} (h : Option.Rel C head head') :
    Mirror E (Scope.Renamed V C b b') ((s.context view b).unfold head)
      ((s.context view' b').unfold head') (Code.Alike W s) := by
  intro sc sc' hsc
  let depth := max b.constructions.size b'.constructions.size + 1
  let stuck (_ : ConstructionId) : Walking Code := pure []
  have hwalk : Mirror E (Scope.Renamed V C b b') ((s.context view b).walkWithin stuck depth head)
      ((s.context view' b').walkWithin stuck depth head') (Code.Alike W s) :=
    mirror_walkWithin hbody hE hview (fun _ _ _ => .pure .nil) depth h
  have hleft := agree_walkWithin (c := s.context view b) stuck (n := depth)
    (Nat.lt_succ_of_le (Nat.le_max_left _ _)) le_rfl head sc
    ⟨hsc.left, KeySet.missing_le_size _ _⟩
  have hright := agree_walkWithin (c := s.context view' b') stuck (n := depth)
    (Nat.lt_succ_of_le (Nat.le_max_right _ _)) le_rfl head' sc'
    ⟨hsc.right, KeySet.missing_le_size _ _⟩
  have hmirror := hwalk sc sc' hsc
  rw [hleft.1, hright.1] at hmirror
  exact hmirror

end Chains

end Unparse
