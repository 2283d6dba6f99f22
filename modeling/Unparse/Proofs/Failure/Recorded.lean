import Unparse.Proofs.Failure.Runs
import Unparse.Proofs.Layout.Outward
import Unparse.Proofs.Walk.Links

/-! # Telling of recorded failures

A failure that was recorded for a class or method is told by a comment in the
document and by an event in the log. What the parts of code tell, the code tells
as a whole, since its document is made of theirs.
-/

namespace Unparse

open Layout (Doc)

variable {ν κ α β : Type}

/-- A failure that was recorded for a class or method. -/
inductive Recorded where
  | cls (name : String) (error : UnitError)
  | method (name : String) (error : UnitError)
deriving DecidableEq, Repr

namespace Recorded

def failureText (kind name reason : String) : String :=
  "// Error occurred while decompiling " ++ kind ++ " " ++ name ++ ": " ++ reason

theorem failureText_ne (kind name reason : String) : failureText kind name reason ≠ "" := by
  unfold failureText
  simp [← String.toList_inj]

def comment : Recorded → String
  | cls name error => failureText "class" name error.spell
  | method _ error => "// " ++ error.spell

def event : Recorded → Event
  | cls name error => .classFailed name error
  | method name error => .methodFailed name error

end Recorded

theorem Style.failure_eq (kind name reason : String) :
    Style.failure kind name reason = .text (Recorded.failureText kind name reason) := rfl

theorem Style.failure_eq_word (kind name reason : String) :
    Style.failure kind name reason = .word (Recorded.failureText kind name reason) := by
  rw [failure_eq, Doc.text, if_neg (Recorded.failureText_ne kind name reason)]

namespace Expr

mutual

/-- The anonymous classes that are written of an expression: none in the
dimensions of an array with an initializer, and none in the arguments of a
class that drops them. -/
def created (drops : κ → Bool) : Expr ν κ → List κ
  | const _ | staticField _ _ | var _ => []
  | unary _ e | field e _ | length e | cast _ e | instanceOf e _ _ | stepBefore _ e
  | stepAfter _ e => e.created drops
  | binary _ l r | index l r | compound _ l r => l.created drops ++ r.created drops
  | ternary e l r => e.created drops ++ (l.created drops ++ r.created drops)
  | call receiver _ _ args => receiver.created drops ++ allCreated drops args
  | apply _ args | create _ args => allCreated drops args
  | createArray _ dimensions none => allCreated drops dimensions
  | createArray _ _ (some elements) => allCreated drops elements
  | anonymous cls args => (if drops cls then [] else allCreated drops args) ++ [cls]

def allCreated (drops : κ → Bool) : List (Expr ν κ) → List κ
  | [] => []
  | e :: es => e.created drops ++ allCreated drops es

end

theorem created_negate (drops : κ → Bool) (e : Expr ν κ) :
    e.negate.created drops = e.created drops := by
  induction e using Expr.induct with
  | const value => cases value <;> rfl
  | unary op e => cases op <;> rfl
  | binary op l r ihl ihr =>
    cases op <;> simp only [negate, BinaryOp.negated?, created, ihl, ihr]
  | _ => simp only [negate, created]

end Expr

def Stmt.created (drops : κ → Bool) : Stmt ν κ → List κ
  | .eval e | .throw e | .ret (some e) _ => e.created drops
  | .assign target value => target.created drops ++ value.created drops
  | .ret none _ => []

def Form.created {ν' β : Type} (drops : κ → Bool) : Form ν (Expr ν' κ) (Stmt ν' κ) β → List κ
  | block statements => statements.flatMap (Stmt.created drops)
  | conditional e _ _ | whileLoop e _ | doLoop e _ | forEach _ e _ | switch e _ =>
    e.created drops
  | countedLoop init e update _ =>
    init.toList.flatMap (Stmt.created drops) ++
      (e.created drops ++ update.toList.flatMap (Stmt.created drops))
  | guarded _ _ _ => []
  | select e arms _ => arms.flatMap (fun arm => arm.1.created drops) ++ e.created drops

def Hits (R : α → Prop) (as : List α) : Prop := ∃ a ∈ as, R a

/-- If it is to be told, a recorded failure is in the log, and its comment is
among the leaves. -/
def Told (r : Recorded) (H : Prop) (leaves : List Doc) (log : List Event) : Prop :=
  H → Doc.word r.comment ∈ leaves ∧ r.event ∈ log

section Told

variable {R : α → Prop} {as bs : List α} {r : Recorded} {H H' : Prop} {ls ls' : List Doc}
  {log log' : List Event}

@[simp] theorem hits_nil : ¬ Hits R [] := nofun

@[simp] theorem hits_cons {a : α} : Hits R (a :: as) ↔ R a ∨ Hits R as := by simp [Hits]

@[simp] theorem hits_append : Hits R (as ++ bs) ↔ Hits R as ∨ Hits R bs := by
  simp [Hits, or_and_right, exists_or]

theorem hits_flatMap {f : β → List α} {bs : List β} :
    Hits R (bs.flatMap f) ↔ Hits (fun b => Hits R (f b)) bs := by
  simp only [Hits, List.mem_flatMap]
  constructor
  · rintro ⟨a, ⟨b, hb, ha⟩, hR⟩
    exact ⟨b, hb, a, ha, hR⟩
  · rintro ⟨b, hb, a, ha, hR⟩
    exact ⟨a, ⟨b, hb, ha⟩, hR⟩

theorem hits_map {f : β → α} {bs : List β} : Hits R (bs.map f) ↔ Hits (fun b => R (f b)) bs := by
  simp [Hits]

theorem Hits.or {R' : α → Prop} : Hits (fun a => R a ∨ R' a) as ↔ Hits R as ∨ Hits R' as := by
  simp [Hits, and_or_left, exists_or]

theorem Told.of_not (h : ¬ H) : Told r H ls log := fun hH => (h hH).elim

theorem Told.append (h : Told r H ls log) (h' : Told r H' ls' log') :
    Told r (H ∨ H') (ls ++ ls') (log ++ log') := by
  rintro (hH | hH)
  · exact ⟨List.mem_append_left _ (h hH).1, List.mem_append_left _ (h hH).2⟩
  · exact ⟨List.mem_append_right _ (h' hH).1, List.mem_append_right _ (h' hH).2⟩

theorem Told.later (h : Told r H ls log') : Told r H ls (log ++ log') :=
  fun hH => ⟨(h hH).1, List.mem_append_right _ (h hH).2⟩

theorem Told.mono (h : Told r H ls log) (hH : H' → H) (hl : ls ⊆ ls') : Told r H' ls' log :=
  fun h' => ⟨hl (h (hH h')).1, (h (hH h')).2⟩

/-- One after another, computations tell what each of them tells. -/
theorem logs_mapM {σ : Type} [Reporting σ] {as : List α}
    {g : α → ExceptT PrintError (StateM σ) β} {H : α → Prop} {L : β → List Doc}
    (h : ∀ a ∈ as, Logs (g a) fun b log => Told r (H a) (L b) log) :
    Logs (as.mapM g) fun bs log => Told r (Hits H as) (bs.flatMap L) log := by
  induction as with
  | nil => exact .pure (.of_not hits_nil)
  | cons a as ih =>
    rw [List.mapM_cons]
    refine (h a List.mem_cons_self).bind fun b log hb => ?_
    refine (ih fun x hx => h x (List.mem_cons_of_mem a hx)).map fun bs log' hbs => ?_
    exact (hb.append hbs).mono hits_cons.mp (List.Subset.refl _)

theorem logs_optional {σ : Type} [Reporting σ] {o : Option α}
    {g : α → ExceptT PrintError (StateM σ) β} {H : α → Prop} {L : β → List Doc}
    (h : ∀ a ∈ o, Logs (g a) fun b log => Told r (H a) (L b) log) :
    Logs (o.mapM g) fun b log => Told r (Hits H o.toList) (b.toList.flatMap L) log := by
  cases o with
  | none => exact .pure (.of_not hits_nil)
  | some a =>
    refine (h a rfl).map (g := some) fun b log hb => ?_
    simpa [Told, Hits] using hb

end Told

section Docs

variable (s : Style) {d : Doc} {ds : List Doc} {leaf : Doc}

theorem mem_operand (h : leaf ∈ d.leaves) (own : Option Operation) (around : Operation)
    (associative : Bool) : leaf ∈ (s.operand own around associative d).leaves :=
  (Doc.outward_leaf leaf).operand s h own around associative

theorem mem_owner (h : leaf ∈ d.leaves) (own : Option Operation) (around : Operation) :
    leaf ∈ (s.owner own around d).leaves := mem_operand s h own around _

theorem mem_continued (h : leaf ∈ d.leaves) : leaf ∈ (s.continued d).leaves :=
  (Doc.outward_leaf leaf).continued s h

theorem mem_separated (h : leaf ∈ ds.flatMap Doc.leaves) (sep : Doc) :
    leaf ∈ (Doc.separated sep ds).leaves :=
  (Doc.outward_leaf leaf).separated sep (List.mem_flatMap.mp h)

theorem mem_arguments (h : leaf ∈ ds.flatMap Doc.leaves) : leaf ∈ (s.arguments ds).leaves :=
  (Doc.outward_leaf leaf).arguments s (List.mem_flatMap.mp h)

theorem mem_createArray (h : leaf ∈ ds.flatMap Doc.leaves) (element : String) :
    leaf ∈ (s.createArray element ds none).leaves :=
  (Doc.outward_leaf leaf).createArray s (List.mem_flatMap.mp h) element

theorem mem_createArray_elements (h : leaf ∈ ds.flatMap Doc.leaves) (element : String) :
    leaf ∈ (s.createArray element [] (some ds)).leaves :=
  (Doc.outward_leaf leaf).createArray_elements s (List.mem_flatMap.mp h) element

theorem mem_binary {left right : Option Operation × Doc}
    (h : leaf ∈ left.2.leaves ++ right.2.leaves) (op : BinaryOp) :
    leaf ∈ (s.binary op left right).leaves :=
  (Doc.outward_leaf leaf).binary s (List.mem_append.mp h) op

theorem mem_compound {target amount : Option Operation × Doc}
    (h : leaf ∈ target.2.leaves ++ amount.2.leaves) (op : BinaryOp) :
    leaf ∈ (s.compound op target amount).leaves :=
  (Doc.outward_leaf leaf).compound s (List.mem_append.mp h) op

theorem mem_index {array position : ExprCode}
    (h : leaf ∈ (array.doc s).leaves ++ (position.doc s).leaves) :
    leaf ∈ ((Expr.index array position).doc s).leaves :=
  (Doc.outward_leaf leaf).index s (List.mem_append.mp h)

theorem mem_unary (h : leaf ∈ d.leaves) (op : Operation) (own : Option Operation) :
    leaf ∈ (s.unary op own d).leaves := (Doc.outward_leaf leaf).unary s h op own

theorem mem_instanceOf (h : leaf ∈ d.leaves) (type : String) (inverted : Bool)
    (own : Option Operation) : leaf ∈ (s.instanceOf type inverted own d).leaves :=
  (Doc.outward_leaf leaf).instanceOf s h type inverted own

theorem mem_cast (h : leaf ∈ d.leaves) (type : String) (own : Option Operation) :
    leaf ∈ (s.cast type own d).leaves := (Doc.outward_leaf leaf).cast s h type own

theorem mem_braced {d : Doc} (h : leaf ∈ d.leaves) : leaf ∈ (s.braced d).leaves :=
  (Doc.outward_leaf leaf).braced s h

theorem mem_blockDoc {statements : List StmtCode}
    (h : leaf ∈ statements.flatMap fun stmt => (stmt.bodyDoc s).leaves) :
    leaf ∈ (s.blockDoc statements).leaves :=
  (Doc.outward_leaf leaf).block s (List.mem_flatMap.mp h)

theorem mem_countedLoop {init update : Option StmtCode} {condition : ExprCode}
    {body : List Element} (place : Place)
    (h : leaf ∈ (init.toList.flatMap fun stmt => (stmt.bodyDoc s).leaves) ++
      ((condition.doc s).leaves ++
        ((update.toList.flatMap fun stmt => (stmt.bodyDoc s).leaves) ++ (codeDoc s body).leaves))) :
    leaf ∈ (formDoc s place (.countedLoop init condition update body)).leaves := by
  simp only [List.mem_append, List.mem_flatMap, Option.mem_toList] at h
  exact (Doc.outward_leaf leaf).countedLoop s place h

theorem mem_handlersDoc {handlers : List (Occurrence × List Element)}
    (h : leaf ∈ handlers.flatMap fun h => (codeDoc s h.2).leaves) :
    leaf ∈ (handlersDoc s handlers).leaves :=
  (Doc.outward_leaf leaf).handlers s (List.mem_flatMap.mp h)

theorem mem_casesDoc {cases : List (List (Option Literal) × List Element)}
    (h : leaf ∈ cases.flatMap fun c => (codeDoc s c.2).leaves) :
    leaf ∈ (casesDoc s cases).leaves :=
  (Doc.outward_leaf leaf).cases s (List.mem_flatMap.mp h)

theorem mem_armsDoc {arms : List (ExprCode × List Element)}
    (h : leaf ∈ arms.flatMap fun a => (a.1.doc s).leaves ++ (codeDoc s a.2).leaves) :
    leaf ∈ (armsDoc s arms).leaves := by
  simp only [List.mem_flatMap, List.mem_append] at h
  exact (Doc.outward_leaf leaf).arms s h

theorem exists_word_of_codeDoc {code : List Element} {w : String}
    (h : Doc.word w ∈ (codeDoc s code).leaves) : ∃ e ∈ code, Doc.word w ∈ (e.doc s).leaves := by
  induction code with
  | nil => cases h
  | cons e code ih =>
    have hlead : Doc.word w ∉ (Style.leadDoc e.form).leaves := by
      unfold Style.leadDoc
      split <;> simp
    simp only [codeDoc, Doc.leaves_append, List.mem_append, hlead, false_or] at h
    rcases h with h | h
    · exact ⟨e, List.mem_cons_self, h⟩
    · obtain ⟨f, hf, h⟩ := ih h
      exact ⟨f, List.mem_cons_of_mem e hf, h⟩

/-- Every word of an `else` branch is written, collapsed or not. -/
theorem word_mem_elseDoc {code : List Element} {w : String}
    (h : Doc.word w ∈ (codeDoc s code).leaves) :
    Doc.word w ∈ (elseDoc s (some code)).leaves :=
  (Doc.outward_leaf _).elseBranch s (exists_word_of_codeDoc s h)

end Docs

end Unparse
