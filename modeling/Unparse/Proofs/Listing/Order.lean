import Unparse.Print.Class
import Unparse.Proofs.Branching.Else
import Unparse.Proofs.Listing.Parts
import Unparse.Proofs.Walk.Ensures

/-! # The order of statements

A body lists its statements and jumps by its links: those of a construction,
then its jumps, then those of its successor. A printed chain writes the same
ones in the same order.
-/

namespace Unparse

open Walking

variable {κ : Type}

/-- The statements and jumps of a control structure in the order in which they
are written, given those of its branches. The update of a counted loop stands
in front of the body if the loop has a header. -/
def Form.items {ν ε σ β : Type} (silent : σ → Bool) (header : Bool)
    (branch : β → List (Item σ)) : Form ν ε σ β → List (Item σ)
  | block statements => spokenItems silent statements
  | conditional _ whenTrue whenFalse => branch whenTrue ++ whenFalse.toList.flatMap branch
  | whileLoop _ body | doLoop _ body | forEach _ _ body => branch body
  | countedLoop init _ update body =>
    spokenItems silent init.toList ++
      if header then spokenItems silent update.toList ++ branch body
      else branch body ++ spokenItems silent update.toList
  | guarded body handlers cleanup =>
    branch body ++ handlers.flatMap (fun handler => branch handler.2) ++
      cleanup.toList.flatMap branch
  | switch _ cases => cases.flatMap fun case => branch case.2
  | select _ arms fallback =>
    arms.flatMap (fun arm => branch arm.2) ++ fallback.toList.flatMap branch

/-- The statements and jumps of a chain, with its constructions looked up one
inside or after another up to a depth. -/
def Body.listing (b : Body κ) (header : Bool) :
    (depth : Nat) → Option ConstructionId → List (Item (Stmt VariableId κ))
  | depth + 1, some id =>
    match b.constructions.get? id with
    | some c =>
      c.form.items Stmt.isSilent header (fun branch => b.listing header depth (some branch)) ++
        c.place.exits ++ b.listing header depth c.next
    | none => []
  | _, _ => []

section Parts

variable (s : Style)

@[simp] theorem itemsOf_nil : itemsOf [] = [] := rfl

@[simp] theorem itemsOf_cons (p : Part) (ps : List Part) :
    itemsOf (p :: ps) = p.item?.toList ++ itemsOf ps := by
  cases h : p.item? <;> simp [itemsOf, h]

@[simp] theorem itemsOf_append (ps qs : List Part) :
    itemsOf (ps ++ qs) = itemsOf ps ++ itemsOf qs := List.filterMap_append

theorem itemsOf_flatMap {α : Type} (as : List α) (f : α → List Part) :
    itemsOf (as.flatMap f) = as.flatMap fun a => itemsOf (f a) := List.filterMap_flatMap

theorem itemsOf_flatMap_items (is : List (Item StmtCode)) {f : Item StmtCode → List Part}
    (h : ∀ i, itemsOf (f i) = [i]) : itemsOf (is.flatMap f) = is := by
  simp [itemsOf_flatMap, h]

@[simp] theorem itemsOf_bracedParts (ps : List Part) : itemsOf (bracedParts ps) = itemsOf ps := by
  simp [bracedParts, Part.item?]

@[simp] theorem itemsOf_headParts (word : String) (condition : ExprCode) :
    itemsOf (headParts word condition) = [] := rfl

@[simp] theorem itemsOf_labelParts (p : Place) : itemsOf p.labelParts = [] := by
  cases h : p.label <;> simp [Place.labelParts, h, Part.item?]

@[simp] theorem itemsOf_exitParts (p : Place) : itemsOf p.exitParts = p.exits :=
  itemsOf_flatMap_items p.exits fun _ => rfl

@[simp] theorem itemsOf_leadParts (form : FormCode) : itemsOf (leadParts form) = [] := by
  unfold leadParts
  split <;> rfl

@[simp] theorem itemsOf_lineParts (statements : List StmtCode) :
    itemsOf (lineParts statements) = spokenItems StmtCode.isSilent statements :=
  itemsOf_flatMap_items _ fun _ => rfl

@[simp] theorem itemsOf_clauseParts (stmt : Option StmtCode) :
    itemsOf (clauseParts stmt) = spokenItems StmtCode.isSilent stmt.toList := by
  rcases stmt with _ | stmt
  · rfl
  · cases h : stmt.isSilent <;> simp [clauseParts, spokenItems, h, Part.item?]

@[simp] theorem itemsOf_countedParts (init : Option StmtCode) (condition : ExprCode)
    (update : Option StmtCode) :
    itemsOf (countedParts init condition update) =
      spokenItems StmtCode.isSilent init.toList ++ spokenItems StmtCode.isSilent update.toList := by
  cases update <;> simp [countedParts, Part.item?]

@[simp] theorem itemsOf_loopVariableParts (vs : List Occurrence) :
    itemsOf (loopVariableParts vs) = [] := by
  rcases vs with _ | ⟨v, _ | ⟨w, vs⟩⟩
  · rfl
  · rfl
  · simp [loopVariableParts, itemsOf_flatMap, Part.item?]

theorem itemsOf_caseLabels (keys : List (Option Literal)) :
    itemsOf (keys.flatMap fun key => [.newline, .caseLabel key]) = [] := by
  simp [itemsOf_flatMap, Part.item?]

abbrev codeItems (code : List Element) : List (Item StmtCode) := itemsOf (codeParts s code)

theorem itemsOf_handlersParts (handlers : List (Occurrence × List Element)) :
    itemsOf (handlersParts s handlers) = handlers.flatMap fun h => codeItems s h.2 := by
  induction handlers with
  | nil => simp [handlersParts]
  | cons h handlers ih => simp [handlersParts, ih, Part.item?]

theorem itemsOf_casesParts (cases : List (List (Option Literal) × List Element)) :
    itemsOf (casesParts s cases) = cases.flatMap fun c => codeItems s c.2 := by
  induction cases with
  | nil => simp [casesParts]
  | cons c cases ih => simp [casesParts, ih, itemsOf_caseLabels]

theorem itemsOf_armsParts (arms : List (ExprCode × List Element)) :
    itemsOf (armsParts s arms) = arms.flatMap fun a => codeItems s a.2 := by
  induction arms with
  | nil => simp [armsParts]
  | cons a arms ih => simp [armsParts, ih, Part.item?]

theorem itemsOf_cleanupParts (code : Option (List Element)) :
    itemsOf (cleanupParts s code) = code.toList.flatMap (codeItems s) := by
  cases code <;> simp [cleanupParts, Part.item?]

theorem itemsOf_fallbackParts (code : Option (List Element)) :
    itemsOf (fallbackParts s code) = code.toList.flatMap (codeItems s) := by
  cases code <;> simp [fallbackParts, Part.item?]

theorem exits_of_isBare {σ : Type} {p : Place} (h : p.isBare = true) :
    (p.exits : List (Item σ)) = [] := by
  simp only [Place.isBare, Bool.and_eq_true, Option.isNone_iff_eq_none] at h
  simp [Place.exits, h]

theorem Element.itemsOf_parts_of_isEmptyBlock {e : Element} (h : e.isEmptyBlock = true) :
    itemsOf (e.parts s) = [] := by
  have hform := e.form_of_isEmptyBlock h
  obtain ⟨form, place⟩ := e
  obtain rfl : form = .block [] := hform
  have hexits := exits_of_isBare (σ := StmtCode) (Bool.and_eq_true_iff.mp h).2
  rw [Element.parts]
  split <;> simp_all [formParts, spokenItems, Element.place]

theorem itemsOf_elseParts (code : Option (List Element)) :
    itemsOf (elseParts s code) = code.toList.flatMap (codeItems s) := by
  rcases code with _ | ⟨_ | ⟨e, _ | ⟨f, es⟩⟩⟩
  · simp [elseParts]
  · simp [elseParts, codeItems, codeParts, Part.item?]
  · simp [elseParts, codeItems, codeParts, Part.item?]
  · rw [elseParts]
    split
    · next h =>
      have he := Element.itemsOf_parts_of_isEmptyBlock s (Bool.and_eq_true_iff.mp h).1
      simp [codeItems, codeParts, Part.item?, he]
    · simp [codeItems, codeParts, Part.item?]

theorem itemsOf_formParts (place : Place) (form : FormCode) :
    itemsOf (formParts s place form) =
      form.items StmtCode.isSilent s.lexicon.countedLoops (codeItems s) := by
  cases form with
  | block statements => simp [formParts, Form.items]
  | conditional condition whenTrue whenFalse =>
    simp [formParts, Form.items, itemsOf_elseParts]
  | countedLoop init condition update body =>
    have hinit : itemsOf ((spokenItems StmtCode.isSilent init.toList).flatMap
        fun i => [.item i, .newline]) = spokenItems StmtCode.isSilent init.toList :=
      itemsOf_flatMap_items _ fun _ => rfl
    rw [formParts, Form.items]
    split <;> simp [hinit]
  | guarded body handlers cleanup =>
    simp [formParts, Form.items, itemsOf_handlersParts, itemsOf_cleanupParts, Part.item?]
  | switch selector cases =>
    simp [formParts, Form.items, itemsOf_casesParts, Part.item?]
  | select selector arms fallback =>
    simp [formParts, Form.items, itemsOf_armsParts, itemsOf_fallbackParts, Part.item?]
  | _ => simp [formParts, Form.items, Part.item?]

theorem codeItems_cons (form : FormCode) (place : Place) (es : List Element) :
    codeItems s (.mk form place :: es) =
      form.items StmtCode.isSilent s.lexicon.countedLoops (codeItems s) ++ place.exits ++
        codeItems s es := by
  rw [codeItems, codeParts, Element.parts]
  split <;> simp [itemsOf_formParts]

theorem Code.itemsOf_parts (sameLine : Bool) (code : Code) :
    itemsOf (Code.parts s sameLine code) = codeItems s code := by
  cases code with
  | nil => rfl
  | cons e es => cases sameLine <;> simp [Code.parts, codeItems, codeParts]

end Parts

section Matches

variable {ν ν' ε ε' σ σ' β β' : Type}

inductive Item.Rel (S : σ → σ' → Prop) : Item σ → Item σ' → Prop where
  | statement {stmt : σ} {stmt' : σ'} (h : S stmt stmt') : Rel S (.statement stmt) (.statement stmt')
  | breaks (j : Jump) : Rel S (.breaks j) (.breaks j)
  | continues (j : Jump) : Rel S (.continues j) (.continues j)

variable {S : σ → σ' → Prop} {silent : σ → Bool} {silent' : σ' → Bool}

theorem spokenItems_cons (stmt : σ) (statements : List σ) :
    spokenItems silent (stmt :: statements) =
      if silent stmt then spokenItems silent statements else .statement stmt :: spokenItems silent statements := by
  cases h : silent stmt <;> simp [spokenItems, h]

theorem rel_spokenItems (hsilent : ∀ stmt stmt', S stmt stmt' → silent' stmt' = silent stmt)
    {statements : List σ} {statements' : List σ'} (h : List.Forall₂ S statements statements') :
    List.Forall₂ (Item.Rel S) (spokenItems silent statements) (spokenItems silent' statements') := by
  induction h with
  | nil => exact .nil
  | @cons stmt stmt' statements statements' h _ ih =>
    rw [spokenItems_cons, spokenItems_cons, hsilent stmt stmt' h]
    split
    · exact ih
    · exact .cons (.statement h) ih

theorem rel_exits (p : Place) : List.Forall₂ (Item.Rel S) p.exits p.exits := by
  unfold Place.exits
  refine List.rel_append ?_ ?_
  · cases p.breakTo with
    | none => exact .nil
    | some j => exact .cons (.breaks j) .nil
  · cases p.continueTo with
    | none => exact .nil
    | some j => exact .cons (.continues j) .nil

theorem Form.Rel.items {V : ν → ν' → Prop} {E : ε → ε' → Prop} {B : β → β' → Prop}
    {f : Form ν ε σ β} {f' : Form ν' ε' σ' β'} (h : Form.Rel V E S B f f')
    (hsilent : ∀ stmt stmt', S stmt stmt' → silent' stmt' = silent stmt) (header : Bool)
    {branch : β → List (Item σ)} {branch' : β' → List (Item σ')}
    (hB : ∀ b b', B b b' → List.Forall₂ (Item.Rel S) (branch b) (branch' b')) :
    List.Forall₂ (Item.Rel S) (f.items silent header branch) (f'.items silent' header branch') := by
  have hoption {o : Option β} {o' : Option β'} (h : Option.Rel B o o') :
      List.Forall₂ (Item.Rel S) (o.toList.flatMap branch) (o'.toList.flatMap branch') :=
    List.rel_flatMap (forall₂_toList h) fun _ _ h => hB _ _ h
  have hpairs {α α' : Type} {A : α → α' → Prop} {l : List (α × β)} {l' : List (α' × β')}
      (h : List.Forall₂ (fun a a' => A a.1 a'.1 ∧ B a.2 a'.2) l l') :
      List.Forall₂ (Item.Rel S) (l.flatMap fun a => branch a.2) (l'.flatMap fun a => branch' a.2) :=
    List.rel_flatMap h fun _ _ h => hB _ _ h.2
  cases h with
  | block hs => exact rel_spokenItems hsilent hs
  | conditional _ ht hf => exact List.rel_append (hB _ _ ht) (hoption hf)
  | whileLoop _ hb | doLoop _ hb | forEach _ _ hb => exact hB _ _ hb
  | countedLoop hi _ hu hb =>
    have hinit := rel_spokenItems hsilent (forall₂_toList hi)
    have hupdate := rel_spokenItems hsilent (forall₂_toList hu)
    cases header
    · exact List.rel_append hinit (List.rel_append (hB _ _ hb) hupdate)
    · exact List.rel_append hinit (List.rel_append hupdate (hB _ _ hb))
  | guarded hb hh hc =>
    exact List.rel_append (List.rel_append (hB _ _ hb) (hpairs hh)) (hoption hc)
  | switch _ hc => exact List.rel_flatMap hc fun _ _ h => hB _ _ h.2
  | select _ ha hf => exact List.rel_append (hpairs ha) (hoption hf)

end Matches

section Walk

variable {c : Context κ}

/-- The code of a statement, in some scope. -/
def Stmt.Says (c : Context κ) (stmt : Stmt VariableId κ) (code : StmtCode) : Prop :=
  ∃ sc sc', (stmt.resolve c).run.run sc = (.ok code, sc')

theorem ensures_says (stmt : Stmt VariableId κ) : Ensures (stmt.resolve c) (stmt.Says c) := by
  intro s
  unfold Meets
  split
  · next code s' hrun => exact ⟨s, s', hrun⟩
  · trivial

theorem Stmt.Says.isSilent {stmt : Stmt VariableId κ} {code : StmtCode} (h : stmt.Says c code) :
    code.isSilent = stmt.isSilent := by
  have hsilent : Ensures (stmt.resolve c) fun code => code.isSilent = stmt.isSilent := by
    unfold Stmt.resolve
    split
    · next op target amount =>
      have hplain : Ensures (do
          return StmtCode.plain (.eval (← (Expr.compound op target amount).resolve c)))
          fun code => code.isSilent = false := (Ensures.trivial _).map fun _ _ => rfl
      split_ifs
      · exact (Ensures.trivial _).bind fun _ _ => (Ensures.trivial _).bind fun _ _ =>
          (Ensures.trivial _).map fun _ _ => rfl
      · exact hplain
    · exact (Ensures.trivial _).map fun _ _ => rfl
    · exact (Ensures.trivial _).bind fun _ _ => (Ensures.trivial _).map fun _ _ => rfl
    · next explicit => exact .pure (by cases explicit <;> rfl)
    · exact (Ensures.trivial _).map fun _ _ => rfl
    · exact (Ensures.trivial _).map fun _ _ => rfl
  obtain ⟨sc, sc', hrun⟩ := h
  exact hsilent.result hrun

variable (s : Style)

/-- The items of a chain are those that are listed, at every depth from `n` on. -/
def Agrees (c : Context κ) (s : Style) (n : Nat) (head : Option ConstructionId) (code : Code) :
    Prop :=
  ∀ depth, n ≤ depth →
    List.Forall₂ (Item.Rel (Stmt.Says c)) (c.body.listing s.lexicon.countedLoops depth head)
      (codeItems s code)

theorem listing_of_isEmptyBlock {b : Body κ} {id : ConstructionId} {carrier : Construction κ}
    (hget : b.constructions.get? id = some carrier) (hempty : carrier.isEmptyBlock = true)
    (header : Bool) (depth : Nat) :
    b.listing header (depth + 1) (some id) = b.listing header depth carrier.next := by
  have hexits := exits_of_isBare (σ := Stmt VariableId κ) (Bool.and_eq_true_iff.mp hempty).2
  simp [Body.listing, hget, carrier.form_of_isEmptyBlock hempty, Form.items, spokenItems, hexits]

/-- The empty block of an `else if` takes one depth more. -/
theorem ensures_elseBranch {n : Nat} {walk : ConstructionId → Walking Code}
    (hwalk : ∀ id, Ensures (walk id) (Agrees c s n (some id))) (id : ConstructionId) :
    Ensures (c.elseBranch walk id) (Agrees c s (n + 1) (some id)) := by
  refine Ensures.lift.bind fun follower helse => ?_
  cases follower with
  | none => exact (hwalk id).mono fun code hcode depth hdepth => hcode depth (by omega)
  | some next =>
    obtain ⟨carrier, hget, hempty, hnext⟩ := Context.carrier_of_elseIf? helse
    refine (ensures_enter c.body id).bind fun entered hentered => ?_
    obtain rfl : carrier = entered := Option.some.inj (hget.symm.trans hentered)
    refine (hwalk next).map fun code hcode depth hdepth => ?_
    obtain ⟨depth, rfl⟩ : ∃ d, depth = d + 1 := ⟨depth - 1, by omega⟩
    have hexits := exits_of_isBare (σ := StmtCode) (Bool.and_eq_true_iff.mp hempty).2
    rw [listing_of_isEmptyBlock hget hempty, hnext, codeItems_cons, hexits]
    exact hcode depth (by omega)

theorem ensures_unfoldWithin (n : Nat) (head : Option ConstructionId) :
    Ensures (c.unfoldWithin n head) (Agrees c s (2 * n) head) := by
  induction n generalizing head with
  | zero =>
    cases head with
    | none =>
      refine .pure fun depth _ => ?_
      cases depth <;> exact .nil
    | some id => exact (Ensures.trivial _).bind fun _ _ => .throw
  | succ n ih =>
    cases head with
    | none =>
      refine .pure fun depth _ => ?_
      cases depth <;> exact .nil
    | some id =>
      refine (ensures_enter c.body id).bind fun construction hget => ?_
      refine (Ensures.trivial _).bind fun _ _ => ?_
      have hform : Ensures
          (c.unfoldForm (fun branch => c.unfoldWithin n (some branch)) construction.form)
          (Form.Rel (fun _ _ => True) (fun _ _ => True) (Stmt.Says c)
            (fun branch => Agrees c s (2 * n + 1) (some branch)) construction.form) := by
        refine ensures_unfoldForm (fun _ => .trivial _) (fun _ => .trivial _) (fun _ => .trivial _)
          ensures_says (fun branch => ?_) (ensures_elseBranch s fun id => ih (some id)) _
        exact (ih (some branch)).mono fun code hcode depth hdepth => hcode depth (by omega)
      refine hform.bind fun form hform => (ih construction.next).map fun rest hrest => ?_
      intro depth hdepth
      obtain ⟨depth, rfl⟩ : ∃ d, depth = d + 1 := ⟨depth - 1, by omega⟩
      have hitems : List.Forall₂ (Item.Rel (Stmt.Says c))
          (construction.form.items Stmt.isSilent s.lexicon.countedLoops
            fun branch => c.body.listing s.lexicon.countedLoops depth (some branch))
          (form.items StmtCode.isSilent s.lexicon.countedLoops (codeItems s)) :=
        hform.items (fun _ _ h => h.isSilent) _ fun _ _ h => h depth (by omega)
      simp only [Body.listing, hget, codeItems_cons]
      exact List.rel_append (List.rel_append hitems (rel_exits _)) (hrest depth (by omega))

end Walk

def counted : Body Empty :=
  let call (f : String) : Stmt VariableId Empty := .eval (.apply f [])
  { constructions := ⟨[
      ⟨1, some {
        form := .countedLoop (some (call "start")) (.const (.name "done")) (some (call "step")) ⟨2, 1⟩
        place := { breakTo := some ⟨none⟩ } }⟩,
      ⟨1, some { form := .block [call "work", .ret none false] }⟩], []⟩
    entry := some ⟨1, 1⟩ }

example : counted.listing true 4 counted.entry =
    [.statement (.eval (.apply "start" [])), .statement (.eval (.apply "step" [])),
      .statement (.eval (.apply "work" [])), .breaks ⟨none⟩] := rfl

end Unparse
