import Unparse.Proofs.Reading.Grammar
import Unparse.Target.Precedence

/-! # Runs of the reader

What single tokens do to the frames of the reader. The levels of its operators
are the priorities by which brackets are written.
-/

namespace Unparse.Reading

variable {t : Target} {e : Tree} {K : List Frame} {rest : List Token} {n : Nat}

def level (t : Target) (own : Option Operation) : Nat := (own.map t.priority).getD 0

theorem priority_bounds (t : Target) (op : Operation) :
    0 < t.priority op ∧ t.priority op < closingLevel := by
  cases t <;> cases op with
  | binary op => cases op <;> decide
  | unary op => cases op <;> decide
  | _ => simp [Target.priority, closingLevel]

theorem level_lt_closing (t : Target) (own : Option Operation) : level t own < closingLevel := by
  cases own with
  | none => exact Nat.zero_lt_succ 15
  | some op => exact (priority_bounds t op).2

/-- The frames do not bind as tightly as an operation of the level. -/
def Admits (t : Target) (n : Nat) (K : List Frame) : Prop :=
  ∀ f ∈ K.head?, ∀ m, f.level? t = some m → n < m

theorem Admits.mono {m : Nat} (h : Admits t n K) (hm : m ≤ n) : Admits t m K :=
  fun f hf k hk => Nat.lt_of_le_of_lt hm (h f hf k hk)

theorem admits_cons {f : Frame} {m : Nat} (hf : f.level? t = some m) (h : n < m) :
    Admits t n (f :: K) := by
  rintro _ ⟨⟩ k hk
  rw [hf] at hk
  cases hk
  exact h

theorem admits_cons_of_none {f : Frame} (hf : f.level? t = none) : Admits t n (f :: K) := by
  rintro _ ⟨⟩ k hk
  rw [hf] at hk
  cases hk

theorem reduce_of_admits {bound : Nat} (h : Admits t n K) (hb : bound ≤ n + 1) (e : Tree) :
    reduce t bound e K = (e, K) := by
  cases K with
  | nil => rfl
  | cons f K =>
    rw [reduce]
    cases hf : f.level? t with
    | none => rfl
    | some m =>
      have hm : n < m := h f rfl m hf
      exact if_neg (by omega)

theorem reduce_zero (e : Tree) (K : List Frame) : reduce t 0 e K = (e, K) := by
  cases K with
  | nil => rfl
  | cons f K =>
    rw [reduce]
    split
    · exact if_neg (Nat.not_lt_zero _)
    · rfl

theorem run_cons (s : State) (tok : Token) (ts : List Token) :
    run t s (tok :: ts) = (step t s tok).bind (run t · ts) := rfl

theorem run_begin {tok : Token} {s : State} (h : begin? t K tok = some s) :
    run t ⟨.operand, K⟩ (tok :: rest) = run t s rest := by
  have hstep : step t ⟨.operand, K⟩ tok = some s := h
  rw [run_cons, hstep]
  rfl

theorem run_act {tok : Token} (h : reduce t ((role t tok).bound t) e K = (e, K)) :
    run t ⟨.complete e, K⟩ (tok :: rest) = (act t (role t tok) e K).bind (run t · rest) := by
  change (continue? t e K tok).bind _ = _
  rw [continue?, h]

/-- What follows ends an operation of the level. -/
def Ends (t : Target) (n : Nat) (rest : List Token) : Prop :=
  ∀ tok ∈ rest.head?, n < (role t tok).bound t

/-- A frame is closed by what ends it. -/
theorem run_close {f : Frame} (hf : f.level? t = some n) (hn : n < closingLevel)
    (hr : Ends t n rest) :
    run t ⟨.complete e, f :: K⟩ rest = run t ⟨.complete (f.close e), K⟩ rest := by
  have hreduce {bound : Nat} (h : n < bound) :
      reduce t bound e (f :: K) = reduce t bound (f.close e) K := by
    rw [reduce, hf]
    exact if_pos h
  cases rest with
  | nil =>
    change finish? t e (f :: K) = finish? t (f.close e) K
    rw [finish?, finish?, hreduce hn]
  | cons tok rest =>
    change (continue? t e (f :: K) tok).bind _ = (continue? t (f.close e) K tok).bind _
    rw [continue?, continue?, hreduce (hr tok rfl)]

theorem run_word {w : String} (h : rest.head? ≠ some (.symbol "(")) :
    run t ⟨.word w, K⟩ rest = run t ⟨.complete (Tree.name w), K⟩ rest := by
  cases rest with
  | nil => rfl
  | cons tok rest =>
    have htok : tok ≠ .symbol "(" := by simpa using h
    have hstep : step t ⟨.word w, K⟩ tok = continue? t (Tree.name w) K tok := if_neg htok
    rw [run_cons, hstep]
    rfl

theorem run_named {checked : Bool} {name : String} (h : rest.head? ≠ some (.symbol "(")) :
    run t ⟨.named e checked name, K⟩ rest = run t ⟨.complete (.field e name), K⟩ rest := by
  cases rest with
  | nil => rfl
  | cons tok rest =>
    have htok : tok ≠ .symbol "(" := by simpa using h
    have hstep : step t ⟨.named e checked name, K⟩ tok = continue? t (.field e name) K tok :=
      if_neg htok
    rw [run_cons, hstep]
    rfl

theorem run_sized {element : String} {sizes : List Tree} (h : rest.head? ≠ some (.symbol "[")) :
    run t ⟨.sized element sizes, K⟩ rest =
      run t ⟨.complete (.createArray element sizes none), K⟩ rest := by
  cases rest with
  | nil => rfl
  | cons tok rest =>
    have htok : tok ≠ .symbol "[" := by simpa using h
    have hstep : step t ⟨.sized element sizes, K⟩ tok =
        continue? t (.createArray element sizes none) K tok := if_neg htok
    rw [run_cons, hstep]
    rfl

theorem run_bracketed {w : String} (h : ∀ tok ∈ rest.head?, opensCast tok = false) :
    run t ⟨.bracketed w, K⟩ rest = run t ⟨.complete (Tree.name w), K⟩ rest := by
  cases rest with
  | nil => rfl
  | cons tok rest =>
    have htok : ¬ opensCast tok = true := by simp [h tok rfl]
    have hstep : step t ⟨.bracketed w, K⟩ tok = continue? t (Tree.name w) K tok := if_neg htok
    rw [run_cons, hstep]
    rfl

theorem run_cast {w : String} (h : ∃ tok ∈ rest.head?, opensCast tok = true) :
    run t ⟨.bracketed w, K⟩ rest = run t ⟨.operand, .cast w :: K⟩ rest := by
  obtain ⟨tok, htok, ho⟩ := h
  cases rest with
  | nil => cases htok
  | cons tok' rest =>
    obtain rfl : tok' = tok := by simpa using htok
    have hstep : step t ⟨.bracketed w, K⟩ tok' = begin? t (.cast w :: K) tok' := if_pos ho
    rw [run_cons, hstep]
    rfl

def isPlainName : Tree → Bool
  | .staticField "" _ => true
  | _ => false

theorem unbracket_of_not_name (h : isPlainName e = false) : unbracket t e = .complete e := by
  unfold unbracket
  split
  · cases h
  · rfl

theorem role_operator (t : Target) (op : BinaryOp) {tok : Token}
    (h : tok = .symbol (t.binaryToken op) ∨ tok = .word (t.binaryToken op)) :
    role t tok = .binary (t.priority (.binary op)) op := by
  rcases h with rfl | rfl <;> cases t <;> cases op <;> rfl

end Unparse.Reading
