import Unparse.Proofs.Listing.Parts
import Unparse.Proofs.Walk.Visits

/-! # Variables in the text of code

What is written of code, from first to last, with its variables told apart from
all that surrounds them. Within an expression or a statement the variables are
written in the order in which they are visited.
-/

namespace Unparse

open Layout (Doc)
open Layout.Doc (text)

/-- A variable as it is written, or a leaf that writes none. -/
inductive Token where
  | leaf (d : Doc)
  | use (v : Occurrence)
  | bind (site : BindingSite) (v : Occurrence)

namespace Token

def leaves (s : Style) : Token → List Doc
  | leaf d => [d]
  | use v => (s.occurrence v).leaves
  | bind site v => (text (s.target.declaration site v.name v.type)).leaves

def visit? : Token → Option Visit
  | leaf _ => none
  | use v => some (.use v)
  | bind _ v => some (.bind v)

def allLeaves (s : Style) (ts : List Token) : List Doc := ts.flatMap (leaves s)

def visits (ts : List Token) : List Visit := ts.filterMap visit?

def plain (d : Doc) : List Token := d.leaves.map leaf

/-- The tokens write a document, and its variables are those of some visits. -/
structure Spell (s : Style) (ts : List Token) (d : Doc) (vs : List Visit) : Prop where
  leaves : allLeaves s ts = d.leaves
  visits : visits ts = vs

section Lists

variable (s : Style) (ts us : List Token) (d : Doc)

@[simp] theorem allLeaves_nil : allLeaves s [] = [] := rfl

@[simp] theorem allLeaves_cons (t : Token) : allLeaves s (t :: ts) = t.leaves s ++ allLeaves s ts :=
  rfl

@[simp] theorem allLeaves_append : allLeaves s (ts ++ us) = allLeaves s ts ++ allLeaves s us :=
  List.flatMap_append

@[simp] theorem allLeaves_plain : allLeaves s (plain d) = d.leaves := by
  simp [allLeaves, plain, List.flatMap_map, leaves]

@[simp] theorem visits_nil : visits [] = [] := rfl

@[simp] theorem visits_append : visits (ts ++ us) = visits ts ++ visits us := List.filterMap_append

@[simp] theorem visits_plain : visits (plain d) = [] := by
  simp [visits, plain, visit?]

@[simp] theorem visits_leaf : visits (leaf d :: ts) = visits ts := rfl

theorem visits_flatMap {α : Type} (as : List α) (f : α → List Token) :
    visits (as.flatMap f) = as.flatMap fun a => visits (f a) := List.filterMap_flatMap

theorem allLeaves_flatMap {α : Type} (as : List α) (f : α → List Token) :
    allLeaves s (as.flatMap f) = as.flatMap fun a => allLeaves s (f a) := List.flatMap_assoc

end Lists

section Layouts

variable (s : Style)

def enclosed (opening closing : String) (ts : List Token) : List Token :=
  leaf (.word opening) :: ts ++ [leaf (.word closing)]

def parens (ts : List Token) : List Token := enclosed "(" ")" ts

def operand (own : Option Operation) (around : Operation) (associative : Bool)
    (ts : List Token) : List Token :=
  match own with
  | some op =>
    if needsBrackets (s.target.priority op) (s.target.priority around) associative then parens ts
    else ts
  | none => ts

def owner (own : Option Operation) (around : Operation) (ts : List Token) : List Token :=
  operand s own around (s.target.isAssociative around) ts

def continued (ts : List Token) : List Token := plain Doc.line ++ ts

def list : List (List Token) → List Token
  | [] => []
  | ts :: tss => ts ++ tss.flatMap fun us => plain (text "," ++ Doc.softline) ++ us

def arguments (tss : List (List Token)) : List Token := parens (list tss)

def binary (op : BinaryOp) (left right : Option Operation × List Token) : List Token :=
  let operation := Operation.binary op
  let regroups := right.1 = some operation && s.target.isAssociative operation
  operand s left.1 operation true left.2 ++ plain (text (" " ++ s.target.token operation)) ++
    continued (operand s right.1 operation regroups right.2)

def unary (op : Operation) (own : Option Operation) (ts : List Token) : List Token :=
  if s.target.followsOperand op then owner s own op ts ++ plain (text (s.target.token op))
  else plain (text (s.target.token op)) ++ owner s own op ts

def ternary (condition whenTrue whenFalse : List Token) : List Token :=
  let (head, question, colon) := s.lexicon.ternary
  plain (text head) ++ parens condition ++ plain (Doc.line ++ text question) ++ whenTrue ++
    plain (text colon) ++ whenFalse

def cast (type : String) (own : Option Operation) (ts : List Token) : List Token :=
  match s.target.castAffix type with
  | .before head => plain (text head) ++ owner s own .cast ts
  | .after tail => owner s own .cast ts ++ plain (text tail)

def instanceOf (type : String) (inverted : Bool) (own : Option Operation) (ts : List Token) :
    List Token :=
  let test (token : String) :=
    operand s own .instanceOf true ts ++ plain (text (" " ++ token ++ " " ++ type))
  match inverted, s.lexicon.notInstanceOf with
  | false, _ => test s.lexicon.instanceOf
  | true, some token => test token
  | true, none => plain (text (s.target.token (.unary .not))) ++ parens (test s.lexicon.instanceOf)

def compound (op : BinaryOp) (target amount : Option Operation × List Token) : List Token :=
  let operation := Operation.compound op
  operand s target.1 operation true target.2 ++ plain (text (" " ++ s.target.token operation)) ++
    continued (operand s amount.1 operation false amount.2)

/-- The members of the class are written in scopes of their own. -/
def anonymous (cls : AnonymousCode) (tss : List (List Token)) : List Token :=
  let header := match cls.interface with
    | some interface => plain (text (interface ++ s.lexicon.anonymousInterface))
    | none => plain (text (cls.superclass.getD s.lexicon.baseClass)) ++ arguments tss
  plain (text s.lexicon.anonymousKeyword) ++ header ++ plain (text " " ++ cls.members)

def sizedArray (element : String) : List (List Token) → List Token
  | [] => []
  | [size] =>
    let head := match TypeName.primitive? element with
      | some p => p ++ "Array"
      | none => "arrayOfNulls<" ++ TypeName.spell element ++ ">"
    plain (text head) ++ parens size
  | size :: sizes =>
    plain (text "Array") ++ parens size ++ plain (text " \x7b ") ++ sizedArray element sizes ++
      plain (text " \x7d")

def createArray (element : String) (dimensions : List (List Token)) :
    (elements : Option (List (List Token))) → List Token
  | some elements =>
    match s.target with
    | .java =>
      plain (text ("new " ++ element) ++ text "[] ") ++ enclosed "\x7b" "\x7d" (list elements)
    | .kotlin =>
      let head := match TypeName.primitive? element with
        | some p => p.toLower ++ "ArrayOf"
        | none => "arrayOf<" ++ TypeName.spell element ++ ">"
      plain (text head) ++ parens (list elements)
  | none =>
    match s.target with
    | .java => plain (text ("new " ++ element)) ++ dimensions.flatMap (enclosed "[" "]")
    | .kotlin => sizedArray element dimensions

end Layouts

section Spell

variable {s : Style} {ts us ws : List Token} {d e f : Doc} {vs xs ys : List Visit}
  {tss : List (List Token)} {ds : List Doc}

theorem spell_plain (d : Doc) : Spell s (plain d) d [] := ⟨by simp, by simp⟩

theorem Spell.append (h : Spell s ts d vs) (h' : Spell s us e xs) :
    Spell s (ts ++ us) (d ++ e) (vs ++ xs) := by
  constructor
  · simp [h.leaves, h'.leaves]
  · simp [h.visits, h'.visits]

theorem Spell.after (h : Spell s ts d vs) (e : Doc) : Spell s (plain e ++ ts) (e ++ d) vs :=
  (spell_plain e).append h

theorem Spell.before (h : Spell s ts d vs) (e : Doc) : Spell s (ts ++ plain e) (d ++ e) vs := by
  have happend := h.append (spell_plain e)
  rwa [List.append_nil] at happend

theorem Spell.layout (h : Spell s ts d vs) (he : e.leaves = d.leaves) : Spell s ts e vs :=
  ⟨h.leaves.trans he.symm, h.visits⟩

theorem Spell.enclosed (h : Spell s ts d vs) (opening closing : String) :
    Spell s (enclosed opening closing ts) (d.enclosed opening closing) vs := by
  constructor
  · simp [Token.enclosed, Token.leaves, h.leaves]
  · simp [Token.enclosed, h.visits]

theorem Spell.parens (h : Spell s ts d vs) : Spell s (parens ts) d.parens vs := h.enclosed _ _

theorem Spell.operand (h : Spell s ts d vs) (own : Option Operation) (around : Operation)
    (associative : Bool) :
    Spell s (operand s own around associative ts) (s.operand own around associative d) vs := by
  cases own with
  | none => exact h
  | some op =>
    simp only [Token.operand, Style.operand]
    split_ifs
    · exact h.parens
    · exact h

theorem Spell.owner (h : Spell s ts d vs) (own : Option Operation) (around : Operation) :
    Spell s (owner s own around ts) (s.owner own around d) vs := h.operand _ _ _

theorem Spell.continued (h : Spell s ts d vs) : Spell s (continued ts) (s.continued d) vs :=
  (h.after Doc.line).layout (by simp [Style.continued])

structure SpellAll (s : Style) (tss : List (List Token)) (ds : List Doc) (vs : List Visit) :
    Prop where
  leaves : tss.map (allLeaves s) = ds.map Doc.leaves
  visits : tss.flatMap Token.visits = vs

theorem SpellAll.nil : SpellAll s [] [] [] := ⟨rfl, rfl⟩

theorem SpellAll.cons (h : Spell s ts d vs) (hs : SpellAll s tss ds xs) :
    SpellAll s (ts :: tss) (d :: ds) (vs ++ xs) := by
  constructor
  · simp [h.leaves, hs.leaves]
  · simp [h.visits, hs.visits]

theorem SpellAll.grouped (h : SpellAll s tss ds vs) : SpellAll s tss (ds.map Doc.grouped) vs where
  leaves := by simpa [List.map_map, Function.comp_def] using h.leaves
  visits := h.visits

theorem SpellAll.flatMap (h : SpellAll s tss ds vs) (sep : Doc) :
    allLeaves s (tss.flatMap fun us => plain sep ++ us) =
      ds.flatMap fun d => sep.leaves ++ d.leaves := by
  have hleaves := congrArg (List.flatMap (sep.leaves ++ ·)) h.leaves
  simp only [List.flatMap_map] at hleaves
  simpa [allLeaves_flatMap] using hleaves

theorem SpellAll.list (h : SpellAll s tss ds vs) : Spell s (list tss) (s.list ds) vs := by
  obtain ⟨hleaves, rfl⟩ := h
  cases tss with
  | nil =>
    obtain rfl : ds = [] := by simpa using hleaves.symm
    exact ⟨rfl, rfl⟩
  | cons ts tss =>
    obtain ⟨d, ds, rfl⟩ : ∃ d' ds', ds = d' :: ds' := by
      cases ds with
      | nil => cases hleaves
      | cons d ds => exact ⟨d, ds, rfl⟩
    obtain ⟨hhead, htail⟩ := List.cons.inj hleaves
    have hrest := SpellAll.flatMap ⟨htail, rfl⟩ (text "," ++ Doc.softline)
    constructor
    · simp [Token.list, Style.list, hhead, hrest]
    · simp [Token.list, visits_flatMap]

theorem SpellAll.arguments (h : SpellAll s tss ds vs) :
    Spell s (arguments tss) (s.arguments ds) vs := h.grouped.list.parens

theorem Spell.binary (op : BinaryOp) (own own' : Option Operation) (h : Spell s ts d vs)
    (h' : Spell s us e xs) :
    Spell s (binary s op (own, ts) (own', us)) (s.binary op (own, d) (own', e)) (vs ++ xs) :=
  (((h.operand own _ true).before _).append (h'.operand own' _ _).continued).layout
    (by simp [Style.binary])

theorem Spell.compound (op : BinaryOp) (own own' : Option Operation) (h : Spell s ts d vs)
    (h' : Spell s us e xs) :
    Spell s (compound s op (own, ts) (own', us)) (s.compound op (own, d) (own', e)) (vs ++ xs) :=
  (((h.operand own _ true).before _).append (h'.operand own' _ _).continued).layout
    (by simp [Style.compound])

theorem Spell.unary (op : Operation) (own : Option Operation) (h : Spell s ts d vs) :
    Spell s (unary s op own ts) (s.unary op own d) vs := by
  simp only [Token.unary, Style.unary]
  split_ifs
  · exact (h.owner own op).before _
  · exact (h.owner own op).after _

theorem Spell.ternary (h : Spell s ts d vs) (h' : Spell s us e xs) (h'' : Spell s ws f ys) :
    Spell s (ternary s ts us ws) (s.ternary d e f) (vs ++ xs ++ ys) := by
  rcases hternary : s.lexicon.ternary with ⟨head, question, colon⟩
  have hbranches := ((h'.after (Doc.line ++ text question)).before (text colon)).append h''
  have hall := ((h.parens).after (text head)).append hbranches
  simp only [Token.ternary, Style.ternary, hternary]
  refine Spell.layout (d := text head ++ d.parens ++
    (Doc.line ++ text question ++ e ++ text colon ++ f)) ?_ (by simp)
  constructor
  · simpa using hall.leaves
  · simpa using hall.visits

theorem Spell.cast (type : String) (own : Option Operation) (h : Spell s ts d vs) :
    Spell s (cast s type own ts) (s.cast type own d) vs := by
  cases haffix : s.target.castAffix type with
  | before head =>
    simp only [Token.cast, Style.cast, haffix]
    exact (h.owner own .cast).after _
  | after tail =>
    simp only [Token.cast, Style.cast, haffix]
    exact (h.owner own .cast).before _

theorem Spell.instanceOf (type : String) (inverted : Bool) (own : Option Operation)
    (h : Spell s ts d vs) :
    Spell s (instanceOf s type inverted own ts) (s.instanceOf type inverted own d) vs := by
  have htest (token : String) := (h.operand own .instanceOf true).before
    (text (" " ++ token ++ " " ++ type))
  cases inverted with
  | false => exact htest _
  | true =>
    cases hnot : s.lexicon.notInstanceOf with
    | some token =>
      simp only [Token.instanceOf, Style.instanceOf, hnot]
      exact htest _
    | none =>
      simp only [Token.instanceOf, Style.instanceOf, hnot]
      exact (htest _).parens.after _

/-- A class that implements an interface is written without arguments. -/
theorem SpellAll.anonymous {cls : AnonymousCode} (h : SpellAll s tss ds vs)
    (hargs : cls.interface.isSome = true → vs = []) :
    Spell s (anonymous s cls tss) (s.anonymous cls ds) vs := by
  have hmembers {us : List Token} {e : Doc} (h : Spell s us e vs) :=
    ((h.after (text s.lexicon.anonymousKeyword)).before (text " " ++ cls.members)).layout
      (e := text s.lexicon.anonymousKeyword ++ e ++ text " " ++ cls.members) (by simp)
  cases hinterface : cls.interface with
  | some interface =>
    obtain rfl := hargs (by rw [hinterface]; rfl)
    simp only [Token.anonymous, Style.anonymous, hinterface]
    exact hmembers (spell_plain _)
  | none =>
    simp only [Token.anonymous, Style.anonymous, hinterface]
    exact hmembers (h.arguments.after _)

theorem SpellAll.sizedArray (h : SpellAll s tss ds vs) (element : String) :
    Spell s (sizedArray element tss) (Style.sizedArray element ds) vs := by
  induction tss generalizing ds vs with
  | nil =>
    obtain ⟨hleaves, rfl⟩ := h
    obtain rfl : ds = [] := by simpa using hleaves.symm
    exact ⟨rfl, rfl⟩
  | cons ts tss ih =>
    obtain ⟨hleaves, rfl⟩ := h
    obtain ⟨d, ds, rfl⟩ : ∃ d' ds', ds = d' :: ds' := by
      cases ds with
      | nil => cases hleaves
      | cons d ds => exact ⟨d, ds, rfl⟩
    obtain ⟨hhead, htail⟩ := List.cons.inj hleaves
    have hsize : Spell s (parens ts) d.parens (Token.visits ts) := Spell.parens ⟨hhead, rfl⟩
    have hrest := ih ⟨htail, rfl⟩
    cases tss with
    | nil =>
      obtain rfl : ds = [] := by simpa using htail.symm
      rw [List.flatMap_singleton]
      exact hsize.after _
    | cons us tss =>
      obtain ⟨e, ds, rfl⟩ : ∃ d' ds', ds = d' :: ds' := by
        cases ds with
        | nil => cases htail
        | cons d ds => exact ⟨d, ds, rfl⟩
      exact (((hsize.after _).before _).append hrest).before _

theorem allLeaves_brackets (tss : List (List Token)) :
    allLeaves s (tss.flatMap (enclosed "[" "]")) =
      (tss.map (allLeaves s)).flatMap fun l => Doc.word "[" :: l ++ [Doc.word "]"] := by
  simp [allLeaves_flatMap, List.flatMap_map, Token.enclosed, Token.leaves]

theorem leaves_foldl_brackets (ds : List Doc) (d : Doc) :
    (ds.foldl (fun d size => d ++ size.brackets) d).leaves =
      d.leaves ++ (ds.map Doc.leaves).flatMap fun l => Doc.word "[" :: l ++ [Doc.word "]"] := by
  induction ds generalizing d with
  | nil => simp
  | cons e ds ih => simp [ih]

theorem SpellAll.createArray (h : SpellAll s tss ds vs) (element : String) :
    Spell s (Token.createArray s element tss none) (s.createArray element ds none) vs := by
  cases htarget : s.target with
  | java =>
    simp only [Token.createArray, Style.createArray, htarget]
    constructor
    · simp [allLeaves_brackets, leaves_foldl_brackets, h.leaves]
    · simp [visits_flatMap, Token.enclosed, h.visits]
  | kotlin =>
    simp only [Token.createArray, Style.createArray, htarget]
    exact h.sizedArray element

theorem SpellAll.createArray_elements (h : SpellAll s tss ds vs) (element : String) :
    Spell s (Token.createArray s element [] (some tss))
      (s.createArray element [] (some ds)) vs := by
  cases htarget : s.target with
  | java =>
    simp only [Token.createArray, Style.createArray, htarget]
    exact (h.list.enclosed _ _).after _
  | kotlin =>
    simp only [Token.createArray, Style.createArray, htarget]
    exact h.list.parens.after _

end Spell

end Token

namespace Expr

open Token (plain)

mutual

def tokens (s : Style) : ExprCode → List Token
  | const value => plain (text (s.target.literal value))
  | binary op l r => Token.binary s op (l.operation?, l.tokens s) (r.operation?, r.tokens s)
  | unary op e => Token.unary s (.unary op) e.operation? (e.tokens s)
  | ternary e l r =>
    Token.ternary s (e.tokens s) (Token.operand s l.operation? .ternary false (l.tokens s))
      (Token.operand s r.operation? .ternary false (r.tokens s))
  | field owner name =>
    Token.owner s owner.operation? .member (owner.tokens s) ++
      plain (text (s.target.token .member) ++ text name)
  | staticField qualifier name => plain ((staticField qualifier name : ExprCode).doc s)
  | var v => [.use v]
  | call receiver checked function args =>
    Token.owner s receiver.operation? .member (receiver.tokens s) ++
      plain (text (if checked then s.lexicon.checkedMember else s.target.token .member) ++
        text function) ++ Token.arguments (allTokens s args)
  | apply function args => plain (text function) ++ Token.arguments (allTokens s args)
  | create cls args =>
    plain (text (s.lexicon.newKeyword ++ cls)) ++ Token.arguments (allTokens s args)
  | createArray element dimensions none =>
    Token.createArray s element (allTokens s dimensions) none
  | createArray element _ (some elements) =>
    Token.createArray s element [] (some (allTokens s elements))
  | length array =>
    Token.owner s array.operation? .length (array.tokens s) ++ plain (text (s.target.token .length))
  | index array position =>
    let owner := match array with
      | createArray _ _ _ => Token.parens (array.tokens s)
      | _ => Token.owner s array.operation? .index (array.tokens s)
    owner ++ Token.enclosed "[" "]" (position.tokens s)
  | cast type e => Token.cast s type e.operation? (e.tokens s)
  | instanceOf e type inverted => Token.instanceOf s type inverted e.operation? (e.tokens s)
  | stepBefore step target =>
    plain (text (s.target.token (.stepBefore step))) ++
      Token.owner s target.operation? (.stepBefore step) (target.tokens s)
  | stepAfter step target =>
    Token.owner s target.operation? (.stepAfter step) (target.tokens s) ++
      plain (text (s.target.token (.stepAfter step)))
  | compound op target amount =>
    Token.compound s op (target.operation?, target.tokens s) (amount.operation?, amount.tokens s)
  | anonymous cls args => Token.anonymous s cls (allTokens s args)

def allTokens (s : Style) : List ExprCode → List (List Token)
  | [] => []
  | e :: es => e.tokens s :: allTokens s es

end

end Expr

def StmtCode.tokens (s : Style) : StmtCode → List Token
  | plain (.eval e) | plain (.ret (some e) false) => e.tokens s
  | plain (.assign target value) =>
    target.tokens s ++ Token.plain (text (" " ++ s.target.token .assign)) ++
      Token.continued (Token.operand s value.operation? .assign true (value.tokens s))
  | plain (.ret (some e) true) => Token.plain (text "return ") ++ e.tokens s
  | plain (.ret none true) => Token.plain (text "return")
  | plain (.ret none false) => []
  | plain (.throw e) => Token.plain (text "throw") ++ Token.continued (e.tokens s)
  | restated op target again amount =>
    Token.operand s target.operation? (.compound op) true (target.tokens s) ++
      Token.plain (text (" " ++ s.target.token .assign ++ " ")) ++
      Token.binary s op (again.operation?, again.tokens s) (amount.operation?, amount.tokens s)

namespace Part

def tokens (s : Style) : Part → List Token
  | expression code => code.tokens s
  | binding site v => [.bind site v]
  | item (.statement stmt) => stmt.tokens s ++ Token.plain s.terminator
  | clause stmt => stmt.tokens s
  | p => Token.plain (p.doc s)

def visits : Part → List Visit
  | expression code => code.visits
  | binding _ v => [.bind v]
  | item (.statement stmt) | clause stmt => stmt.visits
  | _ => []

end Part

/-- The tokens of a chain, in the order in which they are written. -/
def Code.tokens (s : Style) (sameLine : Bool) (code : Code) : List Token :=
  (Code.parts s sameLine code).flatMap (Part.tokens s)

def visitsOf (ps : List Part) : List Visit := ps.flatMap Part.visits

end Unparse
