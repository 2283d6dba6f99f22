import Unparse.Proofs.Reading.Line
import Unparse.Proofs.Reading.Readable

/-! # Texts of expressions

The text of a readable expression is read as its tokens, by induction on the
expression: each of them ends where the next one begins, and brackets and blanks
keep them apart.
-/

namespace Unparse.Reading

open Layout (Doc)

theorem covers_open : Covers ['('] [.symbol "("] :=
  covers_symbol (s := "(") rfl (by decide) (by decide)

theorem covers_close : Covers [')'] [.symbol ")"] :=
  covers_symbol (s := ")") rfl (by decide) (by decide)

theorem covers_round {cs : List Char} {ts : List Token} {tight : Bool}
    (h : Spells tight cs ts) : Covers ('(' :: cs ++ [')']) (.symbol "(" :: ts ++ [.symbol ")"]) :=
  covers_open.around h covers_close fun _ => by simp [Apart]; decide

theorem spells_round {cs : List Char} {ts : List Token} {tight : Bool}
    (h : Spells tight cs ts) : Spells true ('(' :: cs ++ [')']) (enclosed true ts) where
  reads rest _ := (covers_round h).reads rest
  line := (covers_round h).line
  first := ⟨_, rfl, rfl⟩
  last := ⟨')', List.getLast?_concat .., rfl⟩

theorem operand_eq (s : Style) (own : Option Operation) (around : Operation)
    (associative : Bool) (d : Doc) :
    s.operand own around associative d =
      if encloses s.target own around associative then d.parens else d := by
  cases own <;> rfl

theorem spells_operand {s : Style} {own : Option Operation} {d : Doc} {ts : List Token}
    (h : Spells (isTight s.target own) d.flat ts) (around : Operation) (associative : Bool) :
    Spells (encloses s.target own around associative || isTight s.target own)
      (s.operand own around associative d).flat
      (enclosed (encloses s.target own around associative) ts) := by
  rw [operand_eq]
  cases encloses s.target own around associative with
  | false => simpa [enclosed] using h
  | true => simpa using spells_round h

theorem tight_of_encloses {t : Target} {own : Option Operation} {around : Operation}
    {associative : Bool} (h : t.priority around = 1 ∨ t.priority around = 2 ∧ associative = false) :
    (encloses t own around associative || isTight t own) = true := by
  cases own with
  | none => simp [isTight]
  | some op =>
    rcases h with h | ⟨h, rfl⟩
    · simp only [encloses, isTight, Option.any_some, Option.all_some, needsBrackets, h,
        Bool.or_eq_true, decide_eq_true_eq]
      omega
    · simp only [encloses, isTight, Option.any_some, Option.all_some, needsBrackets, h,
        Bool.or_eq_true, Bool.and_eq_true, decide_eq_true_eq, beq_iff_eq, Bool.not_false, and_true]
      omega

theorem spells_tight {s : Style} {own : Option Operation} {d : Doc} {ts : List Token}
    (h : Spells (isTight s.target own) d.flat ts) {around : Operation} {associative : Bool}
    (hp : s.target.priority around = 1 ∨ s.target.priority around = 2 ∧ associative = false) :
    Spells true (s.operand own around associative d).flat
      (enclosed (encloses s.target own around associative) ts) := by
  have hop := spells_operand h around associative
  rwa [tight_of_encloses hp] at hop

section Lists

variable {α : Type} {f : α → Doc} {g : α → List Token} {τ : α → Bool} (s : Style)

theorem spells_separated {cs : List Char} {ts : List Token} {tight : Bool}
    (h : Spells tight cs ts) {es : List α} (hes : ∀ e ∈ es, Spells (τ e) (f e).flat (g e)) :
    Spells tight (cs ++ es.flatMap fun e => ',' :: ' ' :: (f e).flat)
      (ts ++ es.flatMap fun e => .symbol "," :: g e) := by
  induction es generalizing cs ts with
  | nil => simpa using h
  | cons e es ih =>
    have hcomma : Covers [',', ' '] [.symbol ","] := ⟨fun _ => rfl, by decide⟩
    have hnext := h.append
      (hcomma.append_spells false (hes e List.mem_cons_self) ⟨_, rfl, rfl⟩)
      fun _ _ => by simp [Apart]; decide
    simpa using ih hnext fun x hx => hes x (List.mem_cons_of_mem e hx)

theorem spells_list {e : α} {es : List α}
    (h : ∀ x ∈ e :: es, Spells (τ x) (f x).flat (g x)) :
    Spells (τ e) (s.list ((e :: es).map f)).flat (commaTokens ((e :: es).map g)) := by
  have hsep := spells_separated (h e List.mem_cons_self)
    fun x hx => h x (List.mem_cons_of_mem e hx)
  simpa [Style.list, commaTokens, List.flatMap_map] using hsep

theorem covers_list {a b : Char} {o c : Token} {es : List α}
    (ho : Covers [a] [o]) (hc : Covers [b] [c])
    (hr : ∀ rest, Apart (b :: rest)) (h : ∀ x ∈ es, Spells (τ x) (f x).flat (g x)) :
    Covers (a :: (s.list (es.map f)).flat ++ [b])
      (o :: commaTokens (es.map g) ++ [c]) := by
  cases es with
  | nil => simpa [Style.list, commaTokens] using ho.append hc
  | cons e es => exact ho.around (spells_list s h) hc hr

theorem covers_arguments {es : List α} (h : ∀ x ∈ es, Spells (τ x) (f x).flat (g x)) :
    Covers (s.arguments (es.map f)).flat (argumentTokens (es.map g)) := by
  have hgrouped : ∀ x ∈ es, Spells (τ x) (f x).grouped.flat (g x) := by simpa using h
  have hlist := covers_list s covers_open covers_close (fun _ => by simp [Apart]; decide) hgrouped
  simpa [Style.arguments, argumentTokens, Function.comp_def] using hlist

end Lists

theorem apart_open (rest : List Char) : Apart ('(' :: rest) := by simp [Apart]; decide

theorem arguments_flat (s : Style) (ds : List Doc) :
    ∃ cs, (s.arguments ds).flat = '(' :: cs ++ [')'] := ⟨_, by simp [Style.arguments]; rfl⟩

theorem Spells.arguments {s : Style} {cs : List Char} {ts : List Token} {tight : Bool}
    (h : Spells tight cs ts) {ds : List Doc} {us : List Token}
    (hd : Covers (s.arguments ds).flat us) :
    Spells tight (cs ++ (s.arguments ds).flat) (ts ++ us) := by
  obtain ⟨as, has⟩ := arguments_flat s ds
  rw [has] at hd ⊢
  exact h.append_covers hd (fun rest => apart_open _) ⟨')', List.getLast?_concat .., rfl⟩

/-- An expression whose text is read as its tokens. -/
def IsSpelled (s : Style) (e : ExprCode) : Prop :=
  Spells (isTight s.target e.operation?) (e.doc s).flat (tokens s.target e)

namespace IsSpelled

variable {s : Style} {e l r : ExprCode}

attribute [local simp] Expr.doc tokens

theorem operand (h : IsSpelled s e) (around : Operation) (associative : Bool) :
    Spells false (s.operand e.operation? around associative (e.doc s)).flat
      (enclosed (encloses s.target e.operation? around associative) (tokens s.target e)) :=
  (spells_operand h around associative).loosen

theorem operator (t : Target) (op : BinaryOp) :
    Covers ((" " ++ t.binaryToken op).toList ++ [' ']) [operatorToken (t.binaryToken op)] := by
  cases t <;> cases op <;> exact ⟨fun _ => rfl, by decide⟩

theorem apart_blank (cs : List Char) : Apart (' ' :: cs) := by simp [Apart]; decide

theorem binary (op : BinaryOp) (hl : IsSpelled s l) (hr : IsSpelled s r) :
    IsSpelled s (.binary op l r) := by
  have htight : isTight s.target (Expr.binary op l r).operation? = false := by
    rcases s with ⟨t, n⟩
    cases t <;> cases op <;> rfl
  have h := (hl.operand (.binary op) true).around (operator s.target op)
    (hr.operand (.binary op) (regroups s.target op r.operation?))
    ⟨' ', by simp, rfl⟩ fun rest => by simpa using apart_blank _
  rw [IsSpelled, htight]
  simpa [Style.binary, Style.continued, regroups, Target.token] using h

theorem unary (op : UnaryOp) (he : IsSpelled s e) : IsSpelled s (.unary op e) := by
  rcases s with ⟨t, n⟩
  have hp : t.priority (.unary op) = 1 ∨
      t.priority (.unary op) = 2 ∧ t.isAssociative (.unary op) = false := by
    cases t <;> cases op <;> decide
  have howner := spells_tight he hp
  have hinv := (howner.member "inv" (by decide)).append_covers
    (covers_open.append covers_close) (fun _ => by simp [Apart]; decide) ⟨')', rfl, rfl⟩
  rw [IsSpelled, show (Expr.unary op e).operation? = some (.unary op) from rfl]
  cases op with
  | bitNot =>
    cases t with
    | java =>
      have h := (covers_symbol (s := "~") rfl (by decide) (by decide)).append_spells
        false howner ⟨_, rfl, rfl⟩
      simpa [Style.unary, Style.owner, Target.followsOperand, Target.token, UnaryOp.symbol,
        isTight, Target.priority] using h
    | kotlin =>
      simpa [Style.unary, Style.owner, Target.followsOperand, Target.token, argumentTokens,
        commaTokens, isTight, Target.priority] using hinv
  | negate =>
    have h := howner.sign (.inl rfl)
    cases t <;> simpa [Style.unary, Style.owner, Target.followsOperand, Target.token,
      UnaryOp.symbol, isTight, Target.priority] using h
  | not =>
    have h := howner.sign (.inr rfl)
    cases t <;> simpa [Style.unary, Style.owner, Target.followsOperand, Target.token,
      UnaryOp.symbol, isTight, Target.priority] using h

theorem ternary (he : IsSpelled s e) (hl : IsSpelled s l) (hr : IsSpelled s r) :
    IsSpelled s (.ternary e l r) := by
  rcases s with ⟨t, n⟩
  have hcondition := covers_round he
  have hl := hl.operand .ternary false
  have hr := hr.operand .ternary false
  rw [IsSpelled, show (Expr.ternary e l r).operation? = some .ternary from rfl]
  cases t with
  | java =>
    have hquestion : Covers [' ', '?', ' '] [.symbol "?"] := ⟨fun _ => rfl, by decide⟩
    have hcolon : Covers [' ', ':', ' '] [.symbol ":"] := ⟨fun _ => rfl, by decide⟩
    have hbranches := hl.around hcolon hr ⟨_, rfl, rfl⟩ fun _ => apart_blank _
    have h := (hcondition.append hquestion).append_spells false hbranches
      ⟨'(', rfl, rfl⟩
    simpa [Style.ternary, Style.lexicon, Target.lexicon, enclosed, isTight, Target.priority] using h
  | kotlin =>
    have hif : Covers ['i', 'f', ' '] [.word "if"] := ⟨fun _ => rfl, by decide⟩
    have hblank : Covers [' '] [] := ⟨fun _ => rfl, by decide⟩
    have helse : Covers [' ', 'e', 'l', 's', 'e', ' '] [.word "else"] :=
      ⟨fun _ => rfl, by decide⟩
    have hbranches := hl.around helse hr ⟨_, rfl, rfl⟩ fun _ => apart_blank _
    have h := ((hif.append hcondition).append hblank).append_spells false hbranches
      ⟨'i', rfl, rfl⟩
    simpa [Style.ternary, Style.lexicon, Target.lexicon, enclosed, isTight, Target.priority] using h

theorem tight (he : IsSpelled s e) (around : Operation) (hp : s.target.priority around = 1) :
    Spells true (s.owner e.operation? around (e.doc s)).flat
      (enclosed (encloses s.target e.operation? around (s.target.isAssociative around))
        (tokens s.target e)) :=
  spells_tight he (.inl hp)

theorem field {name : String} (he : IsSpelled s e) (hn : isWord name = true) :
    IsSpelled s (.field e name) := by
  rcases s with ⟨t, n⟩
  have h := (he.tight .member (by cases t <;> rfl)).member name hn
  have hpoint : t.token .member = "." := by cases t <;> rfl
  rw [IsSpelled, show (Expr.field e name).operation? = some .member from rfl]
  cases t <;> simpa [hpoint, isTight, Target.priority, Target.isAssociative] using h

theorem length (he : IsSpelled s e) : IsSpelled s (.length e) := by
  rcases s with ⟨t, n⟩
  have howner := he.tight .length (by cases t <;> rfl)
  rw [IsSpelled, show (Expr.length e).operation? = some .length from rfl]
  cases t with
  | java =>
    have h := howner.member "length" (by decide)
    simpa [Target.token, isTight, Target.priority, Target.isAssociative] using h
  | kotlin =>
    have h := howner.member "size" (by decide)
    simpa [Target.token, isTight, Target.priority, Target.isAssociative] using h

theorem apart_exclamation (cs : List Char) : Apart ('!' :: cs) := by simp [Apart]; decide

theorem call {checked : Bool} {function : String} {args : List ExprCode} (he : IsSpelled s e)
    (hf : isWord function = true) (ha : ∀ a ∈ args, IsSpelled s a) :
    IsSpelled s (.call e checked function args) := by
  rcases s with ⟨t, n⟩
  have howner := he.tight .member (by cases t <;> rfl)
  have hargs := covers_arguments ⟨t, n⟩ ha
  have hpoint := (howner.member function hf).arguments hargs
  have hcheck : Covers ['!', '!', '.'] [.symbol "!!."] :=
    covers_symbol (s := "!!.") rfl (by decide) (by decide)
  have hchecked := (howner.append (hcheck.append_spells false (spells_word hf)
    ⟨_, rfl, rfl⟩) fun _ _ => apart_exclamation _).arguments hargs
  rw [IsSpelled, show (Expr.call e checked function args).operation? = some .member from rfl]
  cases t with
  | java =>
    cases checked <;> simpa [Target.token, isTight, Target.priority, Style.lexicon, Target.lexicon,
      Target.isAssociative, Expr.docs_eq_map, allTokens_eq_map] using hpoint
  | kotlin =>
    cases checked with
    | false =>
      simpa [Target.token, isTight, Target.priority, Style.lexicon, Target.lexicon,
        Target.isAssociative, Expr.docs_eq_map, allTokens_eq_map] using hpoint
    | true =>
      simpa [Target.token, isTight, Target.priority, Style.lexicon, Target.lexicon,
        Target.isAssociative, Expr.docs_eq_map, allTokens_eq_map] using hchecked

theorem apply {function : String} {args : List ExprCode} (hf : isWord function = true)
    (ha : ∀ a ∈ args, IsSpelled s a) : IsSpelled s (.apply function args) := by
  have h := (spells_word hf).arguments (covers_arguments s ha)
  rw [IsSpelled, show (Expr.apply function args : ExprCode).operation? = some .member from rfl]
  rcases s with ⟨t, n⟩
  cases t <;> simpa [isTight, Target.priority, Expr.docs_eq_map, allTokens_eq_map] using h

theorem covers_new : Covers ['n', 'e', 'w', ' '] [.word "new"] := ⟨fun _ => rfl, by decide⟩

theorem create {cls : String} {args : List ExprCode} (hc : isWord cls = true)
    (ha : ∀ a ∈ args, IsSpelled s a) : IsSpelled s (.create cls args) := by
  have h := (spells_word hc).arguments (covers_arguments s ha)
  rw [IsSpelled, show (Expr.create cls args : ExprCode).operation? = none from rfl]
  rcases s with ⟨t, n⟩
  cases t with
  | java =>
    have hnew := covers_new.append_spells true h ⟨'n', rfl, rfl⟩
    simpa [isTight, Target.lexicon, Style.lexicon, Expr.docs_eq_map, allTokens_eq_map] using hnew
  | kotlin =>
    simpa [isTight, Target.lexicon, Style.lexicon, Expr.docs_eq_map, allTokens_eq_map] using h

theorem staticField {qualifier name : String}
    (hq : qualifier = "" ∨ isWord qualifier = true) (hn : isWord name = true) :
    IsSpelled s (.staticField qualifier name) := by
  rw [IsSpelled, show (Expr.staticField qualifier name : ExprCode).operation? = some .member
    from rfl]
  have htight : isTight s.target (some .member) = true := by
    rcases s with ⟨t, n⟩
    cases t <;> rfl
  rw [htight]
  by_cases he : qualifier = ""
  · simpa [he] using spells_word hn
  · have hpoint : s.target.token .member = "." := by
      rcases s with ⟨t, n⟩
      cases t <;> rfl
    have h := (spells_word (hq.resolve_left he)).member name hn
    simpa [he, hpoint] using h

theorem stepBefore (step : Step) (he : IsSpelled s e) : IsSpelled s (.stepBefore step e) := by
  rcases s with ⟨t, n⟩
  have hstep : Covers step.symbol.toList [.symbol step.symbol] := by
    cases step <;> exact covers_symbol rfl (by decide) (by decide)
  have htoken : t.token (.stepBefore step) = step.symbol := by cases t <;> rfl
  have h := hstep.append_spells false (he.operand (.stepBefore step) false)
    (by cases step <;> exact ⟨_, rfl, rfl⟩)
  rw [IsSpelled, show (Expr.stepBefore step e).operation? = some (.stepBefore step) from rfl]
  cases t <;> simpa [isTight, Target.priority, Style.owner, htoken, Target.isAssociative] using h

theorem stepAfter (step : Step) (he : IsSpelled s e) : IsSpelled s (.stepAfter step e) := by
  rcases s with ⟨t, n⟩
  have hstep : Covers step.symbol.toList [.symbol step.symbol] := by
    cases step <;> exact covers_symbol rfl (by decide) (by decide)
  have htoken : t.token (.stepAfter step) = step.symbol := by cases t <;> rfl
  have h := (he.tight (.stepAfter step) (by cases t <;> rfl)).append_covers hstep
    (fun rest => by cases step <;> simp [Apart, Step.symbol] <;> decide)
    (by cases step <;> exact ⟨_, rfl, rfl⟩)
  rw [IsSpelled, show (Expr.stepAfter step e).operation? = some (.stepAfter step) from rfl]
  cases t <;> simpa [isTight, Target.priority, htoken, Target.isAssociative] using h

theorem compound {op : BinaryOp} (ho : hasAssignment s.target op = true) (hl : IsSpelled s l)
    (hr : IsSpelled s r) : IsSpelled s (.compound op l r) := by
  rcases s with ⟨t, n⟩
  have hspace : Covers ((" " ++ t.token (.compound op)).toList ++ [' '])
      [.symbol ((t.compoundToken? op).getD "")] := by
    cases t <;> cases op <;> first | exact ⟨fun _ => rfl, by decide⟩ | cases ho
  have h := (hl.operand (.compound op) true).around hspace (hr.operand (.compound op) false)
    ⟨' ', by simp, rfl⟩ fun rest => by simpa using apart_blank _
  rw [IsSpelled, show (Expr.compound op l r).operation? = some (.compound op) from rfl]
  cases t <;> simpa [Style.compound, Style.continued, isTight, Target.priority] using h

theorem cast {type : String} (ht : isWord (castType s.target type) = true)
    (he : IsSpelled s e) : IsSpelled s (.cast type e) := by
  rw [IsSpelled, show (Expr.cast type e).operation? = some .cast from rfl]
  rcases s with ⟨t, n⟩
  cases t with
  | java =>
    have hclose : Covers [')', ' '] [.symbol ")"] := ⟨fun _ => rfl, by decide⟩
    have h := (covers_open.around (spells_word ht) hclose
      fun _ => by simp [Apart]; decide).append_spells false
      (he.operand .cast false) ⟨'(', rfl, rfl⟩
    simpa [Style.cast, Style.owner, Target.castAffix, castType, isTight, Target.priority,
      Target.isAssociative] using h
  | kotlin =>
    have has : Covers [' ', 'a', 's', ' '] [.word "as"] := ⟨fun _ => rfl, by decide⟩
    have h := (he.operand .cast true).around has (spells_word ht) ⟨_, rfl, rfl⟩
      fun _ => apart_blank _
    simpa [Style.cast, Style.owner, Target.castAffix, castType, isTight, Target.priority,
      Target.isAssociative] using h

theorem instanceOf {type : String} {inverted : Bool} (ht : isWord type = true)
    (he : IsSpelled s e) : IsSpelled s (.instanceOf e type inverted) := by
  rw [IsSpelled, show (Expr.instanceOf e type inverted).operation? = some .instanceOf from rfl]
  have hoperand := he.operand .instanceOf true
  have htest (mark : List Char) (ts : List Token) (hm : Covers (' ' :: mark ++ [' ']) ts) :=
    hoperand.around hm (spells_word ht) ⟨_, rfl, rfl⟩ fun _ => apart_blank _
  rcases s with ⟨t, n⟩
  cases t with
  | java =>
    have hplain := htest "instanceof".toList [.word "instanceof"]
      ⟨fun _ => rfl, by decide⟩
    cases inverted with
    | false =>
      simpa [Style.instanceOf, Style.lexicon, Target.lexicon, isTight, Target.priority] using hplain
    | true =>
      have h := (spells_round hplain).sign (c := '!') (.inr rfl)
      simpa [Style.instanceOf, Style.lexicon, Target.lexicon, isTight, Target.priority,
        Target.token, UnaryOp.symbol] using h
  | kotlin =>
    cases inverted with
    | false =>
      have h := htest "is".toList [.word "is"] ⟨fun _ => rfl, by decide⟩
      simpa [Style.instanceOf, Style.lexicon, Target.lexicon, isTight, Target.priority] using h
    | true =>
      have h := htest "!is".toList [.symbol "!", .word "is"]
        ⟨fun _ => rfl, by decide⟩
      simpa [Style.instanceOf, Style.lexicon, Target.lexicon, isTight, Target.priority] using h

theorem covers_square {cs : List Char} {ts : List Token} {tight : Bool}
    (h : Spells tight cs ts) : Covers ('[' :: cs ++ [']']) (.symbol "[" :: ts ++ [.symbol "]"]) :=
  Covers.around (covers_symbol (s := "[") rfl (by decide) (by decide)) h
    (covers_symbol (s := "]") rfl (by decide) (by decide)) fun _ => by simp [Apart]; decide

theorem apart_square {cs : List Char} {ts : List Token} {tight : Bool}
    (h : Spells tight cs ts) (rest : List Char) : Apart ('[' :: cs ++ rest) := by
  obtain ⟨c, hc, hs⟩ := h.first
  have hne : c ≠ ']' := by
    rintro rfl
    cases tight <;> cases hs
  refine ⟨by decide, by decide, fun _ => ?_, fun h => absurd h (by decide)⟩
  change (cs ++ rest).head? ≠ _
  rw [h.head?_append, hc]
  simpa using hne

theorem append_square {cs ds : List Char} {ts us : List Token} {tight τ : Bool}
    (h : Spells tight cs ts) (hd : Spells τ ds us) :
    Spells tight (cs ++ ('[' :: ds ++ [']'])) (ts ++ (.symbol "[" :: us ++ [.symbol "]"])) :=
  h.append_covers (covers_square hd)
    (fun rest => by simpa using apart_square hd ([']'] ++ rest)) ⟨']', List.getLast?_concat .., rfl⟩

theorem index (he : IsSpelled s e) (hl : IsSpelled s l) : IsSpelled s (.index e l) := by
  rw [IsSpelled, show (Expr.index e l).operation? = some .index from rfl]
  have howner := append_square (he.tight .index (by
    rcases s with ⟨t, n⟩
    cases t <;> rfl)) hl
  have hcreation := append_square (spells_round he) hl
  have htight : isTight s.target (some .index) = true := by
    rcases s with ⟨t, n⟩
    cases t <;> rfl
  have hassoc : s.target.isAssociative .index = true := by
    rcases s with ⟨t, n⟩
    cases t <;> rfl
  rw [htight]
  cases e with
  | createArray _ _ _ => simpa using hcreation
  | _ =>
    rw [hassoc] at howner
    simpa only [Expr.doc, tokens, Doc.flat_append, Doc.flat_brackets, List.append_assoc,
      List.cons_append] using howner

theorem sizes {cs : List Char} {ts : List Token} {tight : Bool} (h : Spells tight cs ts)
    {es : List ExprCode} (hes : ∀ e ∈ es, IsSpelled s e) :
    Spells tight (cs ++ es.flatMap fun e => '[' :: (e.doc s).flat ++ [']'])
      (ts ++ es.flatMap fun e => .symbol "[" :: tokens s.target e ++ [.symbol "]"]) := by
  induction es generalizing cs ts with
  | nil => simpa using h
  | cons e es ih =>
    have hnext := append_square h (hes e List.mem_cons_self)
    simpa using ih hnext fun x hx => hes x (List.mem_cons_of_mem e hx)

theorem flat_foldl_brackets (d : Doc) (ds : List Doc) :
    (ds.foldl (fun d size => d ++ size.brackets) d).flat =
      d.flat ++ ds.flatMap fun size => '[' :: size.flat ++ [']'] := by
  induction ds generalizing d with
  | nil => simp
  | cons e ds ih => simp [ih]

theorem createSized {element : String} {dimensions : List ExprCode} (hs : s.target = .java)
    (he : isWord element = true) (hd : ∀ e ∈ dimensions, IsSpelled s e) :
    IsSpelled s (.createArray element dimensions none) := by
  rcases s with ⟨t, n⟩
  obtain rfl : t = .java := hs
  have h := sizes (covers_new.append_spells true (spells_word he) ⟨'n', rfl, rfl⟩) hd
  rw [IsSpelled, show (Expr.createArray element dimensions none : ExprCode).operation? = none
    from rfl]
  simpa [Style.createArray, isTight, flat_foldl_brackets, Expr.docs_eq_map, allTokens_eq_map,
    List.flatMap_map] using h

theorem createInitialized {element : String} {dimensions elements : List ExprCode}
    (hs : s.target = .java) (he : isWord (element ++ "[]") = true)
    (hd : ∀ e ∈ elements, IsSpelled s e) :
    IsSpelled s (.createArray element dimensions (some elements)) := by
  rcases s with ⟨t, n⟩
  obtain rfl : t = .java := hs
  have hlist := covers_list ⟨.java, n⟩ (a := '\x7b') (b := '\x7d')
    (covers_symbol (s := "\x7b") rfl (by decide) (by decide))
    (covers_symbol (s := "\x7d") rfl (by decide) (by decide)) (fun _ => by simp [Apart]; decide) hd
  have hblank : Covers [' '] [] := ⟨fun _ => rfl, by decide⟩
  have h := (covers_new.append_spells true (spells_word he) ⟨'n', rfl, rfl⟩).append_covers
    (hblank.append hlist) (fun _ => apart_blank _)
    ⟨'\x7d', List.getLast?_concat (l := ' ' :: '\x7b' :: _), rfl⟩
  rw [IsSpelled, show (Expr.createArray element dimensions (some elements) : ExprCode).operation? =
    none from rfl]
  simpa [Style.createArray, isTight, Expr.docs_eq_map, allTokens_eq_map] using h

theorem const {value : Literal} (h : ∀ w, value = .name w → isWord w = true) :
    IsSpelled s (.const value) := by
  have hatom := Atom.spelled_ofLiteral s.target h
  rw [Atom.Spelled, Atom.spell_ofLiteral, Atom.isNegative_ofLiteral] at hatom
  have htight : isTight s.target (Expr.const value : ExprCode).operation? = !value.isNegative := by
    rcases s with ⟨t, n⟩
    cases t <;> cases hv : value.isNegative <;> simp [Expr.operation?, hv, isTight, Target.priority]
  rw [IsSpelled, htight]
  simpa using hatom

end IsSpelled

/-- The text of a readable expression is read as its tokens. -/
theorem isSpelled_of_isReadable {s : Style} {e : ExprCode}
    (h : isReadable s.target (isBare s.target) (fun _ => false) e = true) : IsSpelled s e := by
  induction e using Expr.induct with
  | const value =>
    refine .const ?_
    rintro w rfl
    exact isWord_of_isName h
  | var v =>
    simp only [isReadable, isBare, Bool.and_eq_true, Bool.not_eq_true'] at h
    have hw := spells_word (isWord_of_isName h.2)
    simpa [IsSpelled, Expr.operation?, isTight, Expr.doc, Style.occurrence, h.1, tokens] using hw
  | binary op l r ihl ihr =>
    simp only [isReadable, Bool.and_eq_true] at h
    exact .binary op (ihl h.1) (ihr h.2)
  | unary op e ih => exact .unary op (ih h)
  | ternary e l r ihe ihl ihr =>
    simp only [isReadable, Bool.and_eq_true] at h
    exact .ternary (ihe h.1.1) (ihl h.1.2) (ihr h.2)
  | field owner name ih =>
    simp only [isReadable, Bool.and_eq_true] at h
    exact .field (ih h.1) (isWord_of_isName h.2)
  | staticField qualifier name =>
    simp only [isReadable, Bool.and_eq_true, Bool.or_eq_true, beq_iff_eq] at h
    exact .staticField (h.1.imp_right isWord_of_isName) (isWord_of_isName h.2)
  | call receiver checked function args ih iha =>
    simp only [isReadable, Bool.and_eq_true, areReadable_iff] at h
    exact .call (ih h.1.1.2) (isWord_of_isName h.1.2) fun a ha => iha a ha (h.2 a ha)
  | apply function args iha =>
    simp only [isReadable, Bool.and_eq_true, areReadable_iff] at h
    exact .apply (isWord_of_isName h.1) fun a ha => iha a ha (h.2 a ha)
  | create cls args iha =>
    simp only [isReadable, Bool.and_eq_true, areReadable_iff] at h
    exact .create (isWord_of_isName h.1) fun a ha => iha a ha (h.2 a ha)
  | createArray element dimensions initializer ihd ihi =>
    cases initializer with
    | none =>
      simp only [isReadable, Bool.and_eq_true, areReadable_iff, beq_iff_eq] at h
      exact .createSized h.1.1.1.1 (isWord_of_isName h.1.1.1.2) fun a ha => ihd a ha (h.2 a ha)
    | some elements =>
      simp only [isReadable, Bool.and_eq_true, areReadable_iff, beq_iff_eq] at h
      exact .createInitialized h.1.1.1.1 (isWord_of_isName h.1.1.2)
        fun a ha => ihi elements rfl a ha (h.2 a ha)
  | length array ih => exact .length (ih h)
  | index array position iha ihp =>
    simp only [isReadable, Bool.and_eq_true] at h
    exact .index (iha h.1) (ihp h.2)
  | cast type e ih =>
    simp only [isReadable, Bool.and_eq_true] at h
    exact .cast (isWord_of_isName h.1) (ih h.2)
  | instanceOf e type inverted ih =>
    simp only [isReadable, Bool.and_eq_true] at h
    exact .instanceOf (isWord_of_isName h.1) (ih h.2)
  | stepBefore step target ih =>
    simp only [isReadable, Bool.and_eq_true] at h
    exact .stepBefore step (ih h.2)
  | stepAfter step target ih =>
    simp only [isReadable, Bool.and_eq_true] at h
    exact .stepAfter step (ih h.2)
  | compound op target amount iht iha =>
    simp only [isReadable, Bool.and_eq_true] at h
    exact .compound h.1.1.1 (iht h.1.2) (iha h.2)
  | anonymous => cases h

end Unparse.Reading
