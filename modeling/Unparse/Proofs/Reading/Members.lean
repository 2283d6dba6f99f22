import Unparse.Proofs.Reading.Operand

/-! # Names, members and elements

Names are read as they stand. Behind an operand follow its members, and
expressions separated by commas are collected in the frame of their brackets.
-/

namespace Unparse.Reading

variable {t : Target} {e l r : ExprCode} {K : List Frame} {rest : List Token}

/-- Expressions separated by commas, in a frame that collects them. -/
theorem run_commas {f : List Tree → Frame} {g : List Tree → Tree} {tok : Token} {ro : Role}
    (hr : role t tok = ro) (hb : ro.bound t = closingLevel)
    (hf : ∀ xs, (f xs).level? t = none)
    (hcomma : ∀ x xs, act t .comma x (f xs :: K) = some ⟨.operand, f (xs ++ [x]) :: K⟩)
    (hclose : ∀ x xs, act t ro x (f xs :: K) = some ⟨.complete (g (xs ++ [x])), K⟩)
    {e : ExprCode} {es : List ExprCode} (h : ∀ x ∈ e :: es, IsRead t x) (xs : List Tree) :
    run t ⟨.operand, f xs :: K⟩ (commaTokens ((e :: es).map (tokens t)) ++ tok :: rest) =
      run t ⟨.complete (g (xs ++ (e :: es).map (codeTree t))), K⟩ rest := by
  induction es generalizing e xs with
  | nil =>
    have he := h e List.mem_cons_self
    have hread := he (f xs :: K) (tok :: rest) (admits_cons_of_none (hf xs))
      (follows_closing hr hb)
    simp only [commaTokens, List.map_cons, List.map_nil, List.flatMap_nil, List.append_nil]
    rw [hread, run_closing hr (hf xs) (hclose _ xs)]
  | cons e' es ih =>
    have he := h e List.mem_cons_self
    have hread := he (f xs :: K)
      (.symbol "," :: (commaTokens ((e' :: es).map (tokens t)) ++ tok :: rest))
      (admits_cons_of_none (hf xs)) (follows_closing (role_comma t) rfl)
    have htail := ih (fun x hx => h x (List.mem_cons_of_mem e hx)) (xs ++ [codeTree t e])
    have htokens : commaTokens ((e :: e' :: es).map (tokens t)) ++ tok :: rest =
        tokens t e ++ .symbol "," :: (commaTokens ((e' :: es).map (tokens t)) ++ tok :: rest) := by
      simp [commaTokens]
    rw [htokens, hread, run_closing (role_comma t) (hf xs) (hcomma _ xs), htail]
    simp

theorem run_arguments {f : Callee} {args : List ExprCode} (h : ∀ a ∈ args, IsRead t a) :
    run t ⟨.operand, .arguments f [] :: K⟩
        (commaTokens (args.map (tokens t)) ++ .symbol ")" :: rest) =
      run t ⟨.complete (f.apply (args.map (codeTree t))), K⟩ rest := by
  cases args with
  | nil => cases t <;> rfl
  | cons e es =>
    exact run_commas (f := .arguments f) (g := f.apply) (role_closeRound t) rfl (fun _ => rfl)
      (fun _ _ => rfl) (fun _ _ => rfl) h []

theorem role_point (t : Target) : role t (.symbol ".") = .member false := by cases t <;> rfl

theorem run_point {x : Tree} {name : String} :
    run t ⟨.complete x, K⟩ (.symbol "." :: .word name :: rest) =
      run t ⟨.named x false name, K⟩ rest := by
  rw [run_role (role_point t) rfl rfl]
  rfl

theorem isRead_field {name : String} (he : IsRead t e) : IsRead t (.field e name) := by
  intro K rest hK hrest
  have hK : Admits t 1 K := level_member ▸ hK
  rw [tokens, List.append_assoc, run_owner he level_member hK (by simp)]
  exact run_point.trans (run_named (not_round_of_follows hrest))

theorem isRead_length (he : IsRead t e) : IsRead t (.length e) := by
  intro K rest hK hrest
  have hlevel : t.priority .length = 1 := by cases t <;> rfl
  have hK : Admits t 1 K := hlevel ▸ hK
  cases t <;> rw [tokens, List.append_assoc, run_owner he hlevel hK (by simp)] <;>
    exact run_point.trans (run_named (not_round_of_follows hrest))

theorem isRead_call {checked : Bool} {function : String} {args : List ExprCode}
    (he : IsRead t e) (ha : ∀ a ∈ args, IsRead t a) :
    IsRead t (.call e checked function args) := by
  intro K rest hK hrest
  have hK : Admits t 1 K := level_member ▸ hK
  have hmark : run t ⟨.complete (codeTree t e), K⟩
      (.symbol (if checked then t.lexicon.checkedMember else ".") :: .word function ::
        .symbol "(" :: (commaTokens (args.map (tokens t)) ++ .symbol ")" :: rest)) =
      run t ⟨.operand, .arguments (.method (codeTree t e) (checked && t = .kotlin) function) [] :: K⟩
        (commaTokens (args.map (tokens t)) ++ .symbol ")" :: rest) := by
    cases checked with
    | false => exact run_point
    | true =>
      cases t with
      | java => exact run_point
      | kotlin =>
        have hrole : role .kotlin (.symbol "!!.") = .member true := rfl
        exact run_role hrole rfl rfl
  have htree : codeTree t (.call e checked function args) =
      .call (codeTree t e) (checked && t = .kotlin) function (args.map (codeTree t)) := by
    rw [codeTree, tree, treeBy, treesBy_eq_map]
  rw [htree, tokens, List.append_assoc, run_owner he level_member hK (by
    cases checked <;> cases t <;> simp [Target.lexicon])]
  simp only [argumentTokens, allTokens_eq_map, List.cons_append, List.append_assoc,
    List.nil_append]
  rw [hmark, run_arguments ha]
  rfl

theorem begin_name {w : String} (h : isName t w = true) :
    begin? t K (.word w) = some ⟨.word w, K⟩ := by
  simp only [isName, Bool.and_eq_true, Bool.not_eq_true', List.contains_eq_mem,
    decide_eq_false_iff_not] at h
  obtain ⟨-, hw⟩ := h
  simp only [begin?]
  split
  · exact absurd (by decide) hw
  · exact absurd (by decide) hw
  · rfl

theorem run_name {w : String} (h : isName t w = true) :
    run t ⟨.operand, K⟩ (.word w :: rest) = run t ⟨.word w, K⟩ rest :=
  run_begin (begin_name h)

theorem isRead_name {w : String} (h : isName t w = true) (ht : codeTree t e = Tree.name w)
    (hts : tokens t e = [.word w]) : IsRead t e := by
  intro K rest _ hrest
  rw [hts, ht, List.singleton_append, run_name h, run_word (not_round_of_follows hrest)]

theorem isRead_staticField {qualifier name : String}
    (hq : qualifier = "" ∨ isName t qualifier = true) (hn : isName t name = true) :
    IsRead t (.staticField qualifier name) := by
  by_cases he : qualifier = ""
  · subst he
    exact isRead_name hn rfl rfl
  · intro K rest _ hrest
    have htree : codeTree t (.staticField qualifier name) = .field (Tree.name qualifier) name := by
      rw [codeTree, tree, treeBy, if_neg he]
    rw [htree, tokens, if_neg he, List.cons_append, run_name (hq.resolve_left he),
      run_word (by simp)]
    exact run_point.trans (run_named (not_round_of_follows hrest))

theorem run_apply {function : String} {args : List ExprCode} (hf : isName t function = true)
    (ha : ∀ a ∈ args, IsRead t a) :
    run t ⟨.operand, K⟩ (.word function :: argumentTokens (args.map (tokens t)) ++ rest) =
      run t ⟨.complete (.apply function (args.map (codeTree t))), K⟩ rest := by
  rw [List.cons_append, run_name hf]
  simp only [argumentTokens, List.cons_append, List.append_assoc, List.nil_append]
  exact run_arguments (f := .function function) ha

theorem isRead_apply {function : String} {args : List ExprCode} (hf : isName t function = true)
    (ha : ∀ a ∈ args, IsRead t a) : IsRead t (.apply function args) := by
  intro K rest _ _
  have htree : codeTree t (.apply function args) = .apply function (args.map (codeTree t)) := by
    rw [codeTree, tree, treeBy, treesBy_eq_map]
  rw [htree, tokens, allTokens_eq_map]
  exact run_apply hf ha

theorem isRead_create {cls : String} {args : List ExprCode} (hc : isName t cls = true)
    (ha : ∀ a ∈ args, IsRead t a) : IsRead t (.create cls args) := by
  intro K rest _ _
  cases t with
  | java =>
    have htree : codeTree .java (.create cls args) = .create cls (args.map (codeTree .java)) := by
      rw [codeTree, tree, treeBy, treesBy_eq_map]
    rw [htree, tokens, argumentTokens, allTokens_eq_map]
    simp only [List.cons_append, List.append_assoc, List.nil_append]
    exact run_arguments (f := .constructor cls) ha
  | kotlin =>
    have htree : codeTree .kotlin (.create cls args) = .apply cls (args.map (codeTree .kotlin)) := by
      rw [codeTree, tree, treeBy, treesBy_eq_map]
    rw [htree, tokens, allTokens_eq_map]
    exact run_apply hc ha

theorem run_sizes (element : String) (rest : List Token) {dimensions : List ExprCode}
    (h : ∀ d ∈ dimensions, IsRead .java d) (xs : List Tree) :
    run .java ⟨.sized element xs, K⟩
        ((dimensions.map (tokens .java)).flatMap
          (fun ts => .symbol "[" :: ts ++ [.symbol "]"]) ++ rest) =
      run .java ⟨.sized element (xs ++ dimensions.map (codeTree .java)), K⟩ rest := by
  induction dimensions generalizing xs with
  | nil => simp
  | cons d ds ih =>
    have hd := h d List.mem_cons_self (.size element xs :: K)
    have htail := ih (fun x hx => h x (List.mem_cons_of_mem d hx)) (xs ++ [codeTree .java d])
    simp only [List.map_cons, List.flatMap_cons, List.cons_append, List.append_assoc,
      List.nil_append]
    rw [run_cons]
    change run .java ⟨.operand, .size element xs :: K⟩ _ = _
    rw [hd _ (admits_cons_of_none rfl) (follows_closing (role_closeSquare .java) rfl),
      run_closing (role_closeSquare .java) rfl rfl]
    simpa using htail

theorem isRead_createSized {element : String} {dimensions : List ExprCode}
    (he : (TypeName.element? element).isNone = true) (hn : dimensions ≠ [])
    (hd : ∀ d ∈ dimensions, IsRead .java d) :
    IsRead .java (.createArray element dimensions none) := by
  intro K rest _ hrest
  have htree : codeTree .java (.createArray element dimensions none) =
      .createArray element (dimensions.map (codeTree .java)) none := by
    rw [codeTree, tree, treeBy, treesBy_eq_map]
  have hsquare : rest.head? ≠ some (.symbol "[") := fun h => (hrest _ h).2.1 rfl rfl
  have hsizes := run_sizes (K := K) element rest hd []
  have hopen (ts : List Token) :
      run .java ⟨.operand, K⟩ (.word "new" :: .word element :: .symbol "[" :: ts) =
        run .java ⟨.sized element [], K⟩ (.symbol "[" :: ts) := by
    simp only [run_cons, step, begin?, Option.bind_some, he, if_true]
  obtain ⟨d, ds, rfl⟩ := List.exists_cons_of_ne_nil hn
  rw [htree, ← run_sized hsquare, tokens, allTokens_eq_map]
  exact (hopen _).trans hsizes

theorem element?_array (element : String) : TypeName.element? (element ++ "[]") = some element := by
  have htail : TypeName.dropTail? "[]".toList (element ++ "[]").toList = some element.toList := by
    simp [TypeName.dropTail?, TypeName.dropHead?]
  rw [TypeName.element?, htail, Option.map_some, String.ofList_toList]

theorem isRead_createInitialized {element : String} {dimensions elements : List ExprCode}
    (he : ∀ e ∈ elements, IsRead .java e) :
    IsRead .java (.createArray element dimensions (some elements)) := by
  intro K rest _ _
  have htree : codeTree .java (.createArray element dimensions (some elements)) =
      .createArray element [] (some (elements.map (codeTree .java))) := by
    rw [codeTree, tree, treeBy, treesBy_eq_map]
  have hopen (ts : List Token) :
      run .java ⟨.operand, K⟩ (.word "new" :: .word (element ++ "[]") :: .symbol "\x7b" :: ts) =
        run .java ⟨.operand, .elements element [] :: K⟩ ts := by
    simp only [run_cons, step, begin?, Option.bind_some, element?_array, Option.map_some]
  rw [htree, tokens, allTokens_eq_map]
  simp only [List.cons_append, List.append_assoc, List.nil_append]
  rw [hopen]
  cases elements with
  | nil => rfl
  | cons e es =>
    exact run_commas (f := .elements element) (g := fun xs => .createArray element [] (some xs))
      (role_closeCurly .java) rfl (fun _ => rfl) (fun _ _ => rfl) (fun _ _ => rfl) he []

theorem role_square (t : Target) : role t (.symbol "[") = .index := by cases t <;> rfl

theorem run_position {x : Tree} (hl : IsRead t l) :
    run t ⟨.complete x, K⟩ (.symbol "[" :: (tokens t l ++ .symbol "]" :: rest)) =
      run t ⟨.complete (.index x (codeTree t l)), K⟩ rest := by
  rw [run_role (role_square t) rfl rfl,
    hl _ _ (admits_cons_of_none rfl) (follows_closing (role_closeSquare t) rfl),
    run_closing (role_closeSquare t) rfl rfl]

theorem tokens_index (t : Target) (e l : ExprCode) :
    tokens t (.index e l) =
      (if isCreation e then enclosed true (tokens t e)
        else enclosed (encloses t e.operation? .index true) (tokens t e)) ++
          .symbol "[" :: (tokens t l ++ [.symbol "]"]) := by
  cases e <;> simp [tokens, isCreation]

theorem isRead_index (he : IsRead t e) (hl : IsRead t l) : IsRead t (.index e l) := by
  intro K rest hK hrest
  have hlevel : t.priority .index = 1 := by cases t <;> rfl
  have hK : Admits t 1 K := hlevel ▸ hK
  rw [tokens_index]
  simp only [List.append_assoc, List.cons_append, List.nil_append]
  cases hc : isCreation e with
  | false =>
    rw [if_neg Bool.false_ne_true, run_owner he hlevel hK (by simp [hc]), run_position hl]
    rfl
  | true =>
    have hname : isPlainName (codeTree t e) = false := by
      cases e with
      | createArray element ds i => cases i <;> rfl
      | _ => cases hc
    rw [if_pos rfl, run_brackets he (.inl hname), run_position hl]
    rfl

end Unparse.Reading
