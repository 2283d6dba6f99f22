import Unparse.Proofs.Portable.Code

/-! # Compound assignments written out

A compound assignment `x op= e` evaluates what is in front of the dot or the bracket of
its target once, reads the target, evaluates the amount and stores. Written out as
`x = x op e` it evaluates the target twice. If the target only reads, that makes no
difference, whatever the amount does in between. An amount that repeats an associative
operator loses its brackets, and the operands are then combined from the left.
-/

namespace Unparse

namespace Expr

variable {ν κ : Type}

def operands (op : BinaryOp) : Expr ν κ → List (Expr ν κ)
  | binary op' l r => if op' = op then operands op l ++ operands op r else [binary op' l r]
  | e => [e]

/-- The operands that stand without brackets of their own behind an operator. -/
def links (op : BinaryOp) (e : Expr ν κ) : List (Expr ν κ) :=
  if op.isAssociative then e.operands op else [e]

/-- The operation `l op r` as it is written: the operands of a chain are combined from
the left. -/
def asWritten (op : BinaryOp) (l r : Expr ν κ) : Expr ν κ := (r.links op).foldl (binary op) l

end Expr

namespace Assigning

inductive Location (ν α : Type) where
  | variable (v : ν)
  | named (name : String)
  | static (qualifier name : String)
  | member (owner : α) (name : String)
  | element (array position : α)

/-- What is done to the outside: a value is stored, or something happens within the
evaluation of an expression. -/
inductive Deed (ν α δ : Type) where
  | store (place : Location ν α) (value : α)
  | within (deed : δ)

/-- The meaning of what is no assignment, over states `σ`, exceptions `ε`, values `α` and
deeds `δ`. Reading changes nothing, but may throw. The operators on bits do not throw. -/
structure Memory (ν κ σ ε α δ : Type) where
  constant : Literal → α
  read : Location ν α → σ → Except ε α
  size : α → σ → Except ε α
  store : Location ν α → α → σ → Except ε Unit × σ
  combine : BinaryOp → α → α → α
  combine_assoc : ∀ op, op.isBitwise = true → op.isAssociative = true →
    ∀ x y z, combine op (combine op x y) z = combine op x (combine op y z)
  operand : Expr ν κ → σ → Except ε α × σ × List δ

structure Course (ν σ α δ : Type) where
  state : σ
  deeds : List (Deed ν α δ)

abbrev Run (ν σ ε α δ β : Type) := ExceptT ε (StateM (Course ν σ α δ)) β

section Look

variable {ν σ ε α δ β γ : Type}

def look (f : σ → Except ε β) : Run ν σ ε α δ β := ExceptT.mk fun p => (f p.state, p)

theorem run_look_bind (f : σ → Except ε β) (k : β → Run ν σ ε α δ γ) (p : Course ν σ α δ) :
    (look f >>= k).run.run p =
      match f p.state with
      | .ok b => (k b).run.run p
      | .error e => (.error e, p) := by
  have hlook : (look f : Run ν σ ε α δ β).run.run p = (f p.state, p) := rfl
  simp only [ExceptT.run_bind, StateT.run_bind, hlook]
  cases f p.state <;> rfl

/-- The run looks at the state and does nothing else. -/
def Looks (x : Run ν σ ε α δ β) : Prop := ∃ f, x = look f

namespace Looks

variable {x : Run ν σ ε α δ β}

theorem pure (b : β) : Looks (Pure.pure b : Run ν σ ε α δ β) := ⟨fun _ => .ok b, rfl⟩

theorem bind {k : β → Run ν σ ε α δ γ} (hx : Looks x) (hk : ∀ b, Looks (k b)) :
    Looks (x >>= k) := by
  obtain ⟨f, rfl⟩ := hx
  choose g hg using hk
  refine ⟨fun s => f s >>= (g · s), ?_⟩
  rw [funext hg]
  refine ExceptT.ext (funext fun p => (run_look_bind f _ p).trans ?_)
  change _ = (f p.state >>= (g · p.state), p)
  cases f p.state <;> rfl

theorem bind_bind (hx : Looks x) (k : β → β → Run ν σ ε α δ γ) :
    (do let b ← x; let b' ← x; k b b') = (do let b ← x; k b b) := by
  obtain ⟨f, rfl⟩ := hx
  refine ExceptT.ext (funext fun p => ?_)
  refine (run_look_bind f _ p).trans (Eq.trans ?_ (run_look_bind f _ p).symm)
  cases h : f p.state with
  | ok b =>
    refine (run_look_bind f (k b) p).trans ?_
    rw [h]
  | error e => rfl

end Looks

end Look

namespace Memory

variable {ν κ σ ε α δ : Type} (m : Memory ν κ σ ε α δ)

def fetch (place : Location ν α) : Run ν σ ε α δ α := look (m.read place)

def put (place : Location ν α) (value : α) : Run ν σ ε α δ Unit :=
  ExceptT.mk fun p =>
    let (result, state) := m.store place value p.state
    (result, ⟨state, p.deeds ++ [.store place value]⟩)

def evalOperand (e : Expr ν κ) : Run ν σ ε α δ α :=
  ExceptT.mk fun p =>
    let (result, state, deeds) := m.operand e p.state
    (result, ⟨state, p.deeds ++ deeds.map .within⟩)

def eval : Expr ν κ → Run ν σ ε α δ α
  | .const (.name s) => m.fetch (.named s)
  | .const value => pure (m.constant value)
  | .var v => m.fetch (.variable v)
  | .staticField qualifier name => m.fetch (.static qualifier name)
  | .field owner name => do m.fetch (.member (← eval owner) name)
  | .index array position => do m.fetch (.element (← eval array) (← eval position))
  | .length array => do
    let array ← eval array
    look (m.size array)
  | .binary op l r =>
    if op.isBitwise then return m.combine op (← eval l) (← eval r)
    else m.evalOperand (.binary op l r)
  | e => m.evalOperand e

/-- Find out where a target is stored. Its owner, or its array and position, are evaluated. -/
def locate : Expr ν κ → Option (Run ν σ ε α δ (Location ν α))
  | .const (.name s) => some (pure (.named s))
  | .var v => some (pure (.variable v))
  | .staticField qualifier name => some (pure (.static qualifier name))
  | .field owner name => some do return .member (← m.eval owner) name
  | .index array position => some do return .element (← m.eval array) (← m.eval position)
  | _ => none

/-- The assignment `target = value`: first the place, then the value. -/
def assign (target value : Expr ν κ) : Option (Run ν σ ε α δ Unit) :=
  (m.locate target).map fun find => do
    let place ← find
    let value ← m.eval value
    m.put place value

/-- The assignment `target op= amount`: the place, what is stored there, then the amount. -/
def assignCompound (op : BinaryOp) (target amount : Expr ν κ) : Option (Run ν σ ε α δ Unit) :=
  (m.locate target).map fun find => do
    let place ← find
    let current ← m.fetch place
    let amount ← m.eval amount
    m.put place (m.combine op current amount)

variable {m} {e target amount : Expr ν κ} {op : BinaryOp}

theorem looks_fetch (place : Location ν α) : Looks (m.fetch place) := ⟨_, rfl⟩

theorem looks_eval (h : e.isPure = true) : Looks (m.eval e) := by
  induction e using Expr.induct with
  | const value =>
    cases value with
    | name s => exact looks_fetch _
    | _ => exact .pure _
  | var | staticField => exact looks_fetch _
  | field owner name ih => exact (ih h).bind fun _ => looks_fetch _
  | index array position iha ihp =>
    obtain ⟨ha, hp⟩ := Bool.and_eq_true_iff.mp h
    exact (iha ha).bind fun _ => (ihp hp).bind fun _ => looks_fetch _
  | length array ih => exact (ih h).bind fun _ => ⟨_, rfl⟩
  | _ => cases h

variable {find : Run ν σ ε α δ (Location ν α)}

theorem looks_locate (h : e.isPure = true) (hfind : m.locate e = some find) : Looks find := by
  cases e with
  | const value =>
    cases value with
    | name s =>
      cases hfind
      exact .pure _
    | _ => cases hfind
  | var | staticField =>
    cases hfind
    exact .pure _
  | field owner name =>
    cases hfind
    exact (looks_eval (e := owner) h).bind fun _ => .pure _
  | index array position =>
    cases hfind
    obtain ⟨ha, hp⟩ := Bool.and_eq_true_iff.mp h
    exact (looks_eval ha).bind fun _ => (looks_eval hp).bind fun _ => .pure _
  | _ => cases hfind

theorem eval_of_locate (h : m.locate e = some find) : m.eval e = find >>= m.fetch := by
  cases e with
  | const value =>
    cases value with
    | name s =>
      cases h
      rfl
    | _ => cases h
  | var | staticField =>
    cases h
    rfl
  | field | index =>
    cases h
    simp [eval]
  | _ => cases h

def combineWith (op : BinaryOp) (x : α) (e : Expr ν κ) : Run ν σ ε α δ α :=
  return m.combine op x (← m.eval e)

theorem eval_foldl (hop : op.isBitwise = true) (es : List (Expr ν κ)) (l : Expr ν κ) :
    m.eval (es.foldl (.binary op) l) = m.eval l >>= (es.foldlM (m.combineWith op)) := by
  induction es generalizing l with
  | nil => simp
  | cons e es ih => simp [ih, eval, hop, combineWith]

/-- The operands of a chain may be combined from the left. -/
theorem foldlM_operands (hop : op.isBitwise = true) (hassoc : op.isAssociative = true) (x : α)
    (e : Expr ν κ) :
    (e.operands op).foldlM (m.combineWith op) x = m.combineWith op x e := by
  induction e using Expr.induct generalizing x with
  | binary op' l r ihl ihr =>
    rw [Expr.operands]
    split
    · next heq =>
      subst heq
      have hregroup (y : α) : m.combine op' (m.combine op' x y) =
          fun z => m.combine op' x (m.combine op' y z) :=
        funext (m.combine_assoc op' hop hassoc x y)
      simp [ihl, ihr, combineWith, eval, hop, hregroup]
    · simp
  | _ => simp [Expr.operands]

theorem eval_asWritten (hop : op.isBitwise = true) (l r : Expr ν κ) :
    m.eval (l.asWritten op r) = do return m.combine op (← m.eval l) (← m.eval r) := by
  rw [Expr.asWritten, eval_foldl hop, Expr.links]
  split
  · next hassoc => simp [foldlM_operands hop hassoc, combineWith]
  · simp [combineWith]

/-- A compound assignment to a pure target may be written out. The runs are the same
whatever the amount does. -/
theorem assign_asWritten (hop : op.isBitwise = true) (h : target.isPure = true) :
    m.assign target (target.asWritten op amount) = m.assignCompound op target amount := by
  rw [assign, assignCompound]
  cases hfind : m.locate target with
  | none => rfl
  | some find =>
    -- Nothing happens between the two looks at the target, so the place is the same.
    have htwice := (looks_locate h hfind).bind_bind fun place again => do
      let current ← m.fetch again
      let amount ← m.eval amount
      m.put place (m.combine op current amount)
    simpa [eval_asWritten hop, eval_of_locate hfind] using htwice

/-- A memory of one variable. Whatever is not known to it sets the variable to one and has
the value five. -/
def single : Memory String Empty ℕ Empty ℕ Unit where
  constant _ := 0
  read _ s := .ok s
  size _ _ := .ok 0
  store _ x _ := (.ok (), x)
  combine
    | .bitAnd => (· &&& ·)
    | .bitOr => (· ||| ·)
    | .bitXor => (· ^^^ ·)
    | _ => fun x _ => x
  combine_assoc op hbits hassoc := by
    cases op with
    | bitAnd => exact Nat.and_assoc
    | bitOr => exact Nat.or_assoc
    | bitXor => exact Nat.xor_assoc
    | shl | shr | ushr => cases hassoc
    | _ => cases hbits
  operand _ _ := (.ok 5, 1, [()])

example : (single.assignCompound .bitAnd (.var "x") (.apply "f" [])).map
    (fun run => (run.run.run ⟨6, []⟩).2.state) = some 4 := rfl

end Memory

end Assigning

end Unparse
