import Unparse.Proofs.Arrays.Types

/-! # Spellings of array types

A type may be given in either spelling. The Kotlin spelling of a type is the spelling of
itself, and both spellings of an array have the same elements, so it does not matter in
which of them a parameter that takes any number of arguments gives its type.
-/

namespace Unparse.TypeName

variable {type e p : String} {head tail rest s : List Char}

section Parts

theorem dropHead?_eq_some_iff : dropHead? head s = some rest ↔ s = head ++ rest := by
  induction head generalizing s with
  | nil => simp [dropHead?]
  | cons c head ih =>
    cases s with
    | nil => simp [dropHead?]
    | cons d s =>
      by_cases h : c = d
      · simp [dropHead?, h, ih]
      · simp [dropHead?, h, Ne.symm h]

theorem dropTail?_eq_some_iff : dropTail? tail s = some rest ↔ s = rest ++ tail := by
  simp only [dropTail?, Option.map_eq_some_iff, dropHead?_eq_some_iff]
  constructor
  · rintro ⟨_, h, rfl⟩
    simpa using congrArg List.reverse h
  · rintro rfl
    exact ⟨rest.reverse, by simp, by simp⟩

theorem element?_eq_some_iff : element? type = some e ↔ type = e ++ "[]" := by
  simp only [element?, Option.map_eq_some_iff, dropTail?_eq_some_iff]
  constructor
  · rintro ⟨rest, h, rfl⟩
    exact String.toList_inj.mp (by simpa using h)
  · rintro rfl
    exact ⟨e.toList, by simp, by simp⟩

theorem element?_eq_none {c : Char} (h : type.toList.getLast? = some c) (hc : c ≠ ']') :
    element? type = none := by
  rw [Option.eq_none_iff_forall_ne_some]
  intro e he
  rw [element?_eq_some_iff.mp he] at h
  simp at h
  exact hc h.symm

end Parts

section Primitive

def primitives : List (String × String) :=
  [("int", "Int"), ("long", "Long"), ("short", "Short"), ("byte", "Byte"), ("char", "Char"),
    ("boolean", "Boolean"), ("float", "Float"), ("double", "Double")].flatMap fun q =>
      [q, (q.2, q.2)]

theorem mem_primitives (h : primitive? type = some p) : (type, p) ∈ primitives := by
  unfold primitive? at h
  split at h
  all_goals
    cases h
    try decide

theorem isAlpha_of_primitive {c : Char} (h : primitive? type = some p) (hc : c ∈ type.toList) :
    c.isAlpha = true := by
  have hletters : ∀ q ∈ primitives, q.1.toList.all Char.isAlpha = true := by decide
  exact List.all_eq_true.mp (hletters _ (mem_primitives h)) c hc

theorem element?_of_primitive (h : primitive? type = some p) : element? type = none := by
  rw [Option.eq_none_iff_forall_ne_some]
  intro e he
  have hbracket : '[' ∈ type.toList := by simp [element?_eq_some_iff.mp he]
  exact absurd (isAlpha_of_primitive h hbracket) (by decide)

theorem primitive?_array (e : String) : primitive? ("Array<" ++ e ++ ">") = none := by
  rw [Option.eq_none_iff_forall_ne_some]
  intro p hp
  exact absurd (isAlpha_of_primitive (c := '<') hp (by simp)) (by decide)

theorem element?_array (e : String) : element? ("Array<" ++ e ++ ">") = none :=
  element?_eq_none (List.getLast?_eq_some_iff.mpr ⟨"Array<".toList ++ e.toList, by simp⟩)
    (by decide : '>' ≠ ']')

theorem dropTail?_of_primitive (h : primitive? type = some p) :
    dropTail? "Array".toList type.toList = none := by
  have hnone : ∀ q ∈ primitives, dropTail? "Array".toList q.1.toList = none := by decide
  exact hnone _ (mem_primitives h)

theorem primitive?_primitiveArray (p : String) : primitive? (p ++ "Array") = none := by
  rw [Option.eq_none_iff_forall_ne_some]
  intro q hq
  have hnone := dropTail?_of_primitive hq
  rw [dropTail?_eq_some_iff.mpr (String.toList_append ..)] at hnone
  cases hnone

theorem element?_primitiveArray (p : String) : element? (p ++ "Array") = none :=
  element?_eq_none (List.getLast?_eq_some_iff.mpr ⟨p.toList ++ "Arra".toList, by simp⟩)
    (by decide : 'y' ≠ ']')

end Primitive

section Spelling

theorem countBrackets_pair (e : String) : countBrackets (e ++ "[]").toList.reverse =
    ((countBrackets e.toList.reverse).1 + 1, (countBrackets e.toList.reverse).2) := by
  simp [countBrackets]

theorem countBrackets_of_bare (h : element? type = none) :
    countBrackets type.toList.reverse = (0, type.toList.reverse) := by
  rw [countBrackets]
  intro s hs
  have htype : type = String.ofList s.reverse ++ "[]" := by
    rw [← String.toList_inj, ← List.reverse_inj, hs]
    simp
  rw [element?_eq_some_iff.mpr htype] at h
  cases h

theorem spell_of_bare (h : element? type = none) : spell type = (primitive? type).getD type := by
  simp only [spell, countBrackets_of_bare h, List.reverse_reverse, String.ofList_toList]
  cases primitive? type <;> rfl

theorem spell_of_primitive (h : primitive? type = some p) : spell type = p := by
  rw [spell_of_bare (element?_of_primitive h), h, Option.getD_some]

theorem spell_of_other (h : element? type = none) (hp : primitive? type = none) :
    spell type = type := by
  rw [spell_of_bare h, hp, Option.getD_none]

/-- An array type is spelled from the spelling of its elements. -/
theorem spell_pair (e : String) : spell (e ++ "[]") =
    match primitive? e with
    | some p => p ++ "Array"
    | none => "Array<" ++ spell e ++ ">" := by
  cases hpair : element? e with
  | none =>
    simp only [spell, countBrackets_pair, countBrackets_of_bare hpair, List.reverse_reverse,
      String.ofList_toList]
    cases primitive? e <;> rfl
  | some e' =>
    have hp : primitive? e = none := by
      rw [Option.eq_none_iff_forall_ne_some]
      intro p hp
      rw [element?_of_primitive hp] at hpair
      cases hpair
    have hcount := countBrackets_pair e'
    rw [← element?_eq_some_iff.mp hpair] at hcount
    simp only [spell, countBrackets_pair, hcount, hp]
    cases primitive? (String.ofList (countBrackets e'.toList.reverse).2.reverse) <;> rfl

end Spelling

/-- The Kotlin spelling of a type is the spelling of itself. -/
theorem spell_spell (type : String) : spell (spell type) = spell type := by
  cases hpair : element? type with
  | none =>
    cases hp : primitive? type with
    | none => rw [spell_of_other hpair hp, spell_of_other hpair hp]
    | some p =>
      rw [spell_of_primitive hp, spell_of_primitive (Arrays.Kotlin.primitive?_className hp)]
  | some e =>
    rw [element?_eq_some_iff.mp hpair, spell_pair]
    cases hp : primitive? e with
    | none => exact spell_of_other (element?_array _) (primitive?_array _)
    | some p => exact spell_of_other (element?_primitiveArray p) (primitive?_primitiveArray p)

section Elements

theorem element_pair (e : String) : element (e ++ "[]") = e := by
  rw [element, element?_eq_some_iff.mpr rfl]

theorem element_array (e : String) : element ("Array<" ++ e ++ ">") =
    String.ofList ((dropHead? "out ".toList e.toList).getD e.toList) := by
  have hhead : dropHead? "Array<".toList ("Array<" ++ e ++ ">").toList = some (e.toList ++ ['>']) :=
    dropHead?_eq_some_iff.mpr (by simp)
  have htail : dropTail? ['>'] (e.toList ++ ['>']) = some e.toList := dropTail?_eq_some_iff.mpr rfl
  simp only [element, element?_array, hhead, Option.bind_some, htail]

theorem dropHead?_of_isAlpha (h : ∀ c ∈ s, c.isAlpha = true) :
    dropHead? "Array<".toList s = none := by
  rw [Option.eq_none_iff_forall_ne_some]
  intro rest hrest
  exact absurd (h '<' (by simp [dropHead?_eq_some_iff.mp hrest])) (by decide)

theorem isAlpha_primitiveArray (h : primitive? p = some p) :
    ∀ c ∈ (p ++ "Array").toList, c.isAlpha = true := by
  rw [String.toList_append, List.forall_mem_append]
  exact ⟨fun c => isAlpha_of_primitive h, List.all_eq_true.mp (by decide)⟩

theorem element_primitiveArray (h : primitive? p = some p) : element (p ++ "Array") = p := by
  have hletters := isAlpha_primitiveArray h
  have htail : dropTail? "Array".toList (p ++ "Array").toList = some p.toList :=
    dropTail?_eq_some_iff.mpr (String.toList_append ..)
  simp only [element, element?_primitiveArray, dropHead?_of_isAlpha hletters, Option.bind_none,
    htail, Option.map_some, String.ofList_toList, h, Option.isSome_some, if_true]

theorem element_of_primitive (h : primitive? type = some p) : element type = type := by
  have hhead := dropHead?_of_isAlpha fun c => isAlpha_of_primitive h (c := c)
  simp only [element, element?_of_primitive h, hhead, Option.bind_none,
    dropTail?_of_primitive h, Option.map_none]

theorem spell_cases (type : String) :
    spell type = type ∨ (∃ e, spell type = "Array<" ++ e ++ ">") ∨
      ∀ c ∈ (spell type).toList, c.isAlpha = true := by
  cases hpair : element? type with
  | none =>
    cases hp : primitive? type with
    | none => exact .inl (spell_of_other hpair hp)
    | some p =>
      refine .inr (.inr fun c => ?_)
      rw [spell_of_primitive hp]
      exact isAlpha_of_primitive (Arrays.Kotlin.primitive?_className hp)
  | some e =>
    rw [element?_eq_some_iff.mp hpair, spell_pair]
    cases hp : primitive? e with
    | none => exact .inr (.inl ⟨_, rfl⟩)
    | some p =>
      exact .inr (.inr (isAlpha_primitiveArray (Arrays.Kotlin.primitive?_className hp)))

/-- Only a type that looks like the parameter of an array class is spelled like one. -/
theorem out_prefix_of_spell (h : "out ".toList <+: (spell type).toList) :
    "out ".toList <+: type.toList := by
  rcases spell_cases type with heq | ⟨e, heq⟩ | hletters
  · rwa [heq] at h
  · rw [heq] at h
    simp [List.cons_prefix_cons] at h
  · exact absurd (hletters ' ' (h.subset (by decide))) (by decide)

/-- Both spellings of an array have the same elements, unless these look like the parameter
of an array class. -/
theorem element_spell_pair_iff (e : String) :
    element (spell (e ++ "[]")) = spell e ↔ ¬ "out ".toList <+: (spell e).toList := by
  rw [spell_pair]
  cases hp : primitive? e with
  | some p =>
    have hclass := Arrays.Kotlin.primitive?_className hp
    simp only [element_primitiveArray hclass, spell_of_primitive hp, true_iff]
    intro hout
    exact absurd (isAlpha_of_primitive hclass (hout.subset (by decide : ' ' ∈ "out ".toList)))
      (by decide)
  | none =>
    rw [element_array]
    cases hout : dropHead? "out ".toList (spell e).toList with
    | none =>
      simp only [Option.getD_none, String.ofList_toList, true_iff]
      rintro ⟨rest, hrest⟩
      rw [dropHead?_eq_some_iff.mpr hrest.symm] at hout
      cases hout
    | some rest =>
      have hspell := dropHead?_eq_some_iff.mp hout
      simp only [Option.getD_some, hspell, List.prefix_append, not_true_eq_false, iff_false]
      intro heq
      have hlength := congrArg (·.toList.length) heq
      simp only [hspell, String.toList_ofList, List.length_append] at hlength
      exact absurd hlength (by simp)

theorem element_spell_pair (h : ¬ "out ".toList <+: e.toList) :
    element (spell (e ++ "[]")) = spell e :=
  (element_spell_pair_iff e).mpr fun hout => h (out_prefix_of_spell hout)

end Elements

section Variadic

theorem variadicParameter_spell (name : String)
    (h : ∀ e, type = e ++ "[]" → ¬ "out ".toList <+: e.toList) :
    Target.kotlin.variadicParameter name (spell type) =
      Target.kotlin.variadicParameter name type := by
  have helement : spell (element (spell type)) = spell (element type) := by
    cases hpair : element? type with
    | none =>
      cases hp : primitive? type with
      | none => rw [spell_of_other hpair hp]
      | some p =>
        have hclass := Arrays.Kotlin.primitive?_className hp
        rw [spell_of_primitive hp, element_of_primitive hclass, element_of_primitive hp,
          spell_of_primitive hp, spell_of_primitive hclass]
    | some e =>
      obtain rfl := element?_eq_some_iff.mp hpair
      rw [element_spell_pair (h e rfl), element_pair, spell_spell]
  simp only [Target.variadicParameter, helement]

theorem blank_not_mem_pairs (n : Nat) : ' ' ∉ (Arrays.pairs n).toList := by
  induction n with
  | zero => exact nofun
  | succ n ih => simpa [Arrays.pairs] using ih

/-- An array looks like the parameter of an array class only if its base does. -/
theorem out_prefix_of_arrayType {base : String} {depth : Nat}
    (h : "out ".toList <+: (Arrays.arrayType base depth).toList) :
    "out ".toList <+: base.toList := by
  rw [Arrays.arrayType, String.toList_append] at h
  rcases List.prefix_or_prefix_of_prefix h (List.prefix_append ..) with hbase | ⟨t, ht⟩
  · exact hbase
  rw [← ht, List.prefix_append_right_inj] at h
  rcases eq_or_ne t [] with rfl | hnil
  · exact ⟨[], by rw [← ht, List.append_nil, List.append_nil]⟩
  · have hlast : (base.toList ++ t).getLast? = some ' ' := by rw [ht]; rfl
    rw [List.getLast?_append_of_ne_nil _ hnil] at hlast
    exact absurd (h.subset (List.mem_of_getLast? hlast)) (blank_not_mem_pairs depth)

end Variadic

/-- Spelling a type twice is spelling it once. The elements of a spelled array are spelled
as they are by themselves, and a parameter that takes any number of arguments is the same in
both spellings of its type, unless an element type begins as the parameter of an array class
with a variance. In particular it is the same for an array of any depth. -/
theorem spellings_agree :
    (∀ type, spell (spell type) = spell type) ∧
    (∀ e, ¬ "out ".toList <+: e.toList → element (spell (e ++ "[]")) = spell e) ∧
    (∀ name type, (∀ e, type = e ++ "[]" → ¬ "out ".toList <+: e.toList) →
      Target.kotlin.variadicParameter name (spell type) =
        Target.kotlin.variadicParameter name type) ∧
    ∀ name base depth, ¬ "out ".toList <+: base.toList →
      Target.kotlin.variadicParameter name (spell (Arrays.arrayType base (depth + 1))) =
          "vararg " ++ name ++ ": " ++ spell (Arrays.arrayType base depth) ∧
        Target.kotlin.variadicParameter name (Arrays.arrayType base (depth + 1)) =
          "vararg " ++ name ++ ": " ++ spell (Arrays.arrayType base depth) := by
  refine ⟨spell_spell, fun e h => element_spell_pair h,
    fun name type h => variadicParameter_spell name h, fun name base depth h => ?_⟩
  have hpair : Arrays.arrayType base (depth + 1) = Arrays.arrayType base depth ++ "[]" := by
    rw [Arrays.arrayType, Arrays.Kotlin.pairs_succ, ← String.append_assoc, ← Arrays.arrayType]
  have hvararg : Target.kotlin.variadicParameter name (Arrays.arrayType base (depth + 1)) =
      "vararg " ++ name ++ ": " ++ spell (Arrays.arrayType base depth) := by
    rw [Target.variadicParameter, hpair, element_pair]
  refine ⟨?_, hvararg⟩
  rw [← hvararg]
  refine variadicParameter_spell name fun e he hout => h ?_
  have helement := congrArg element (hpair.symm.trans he)
  rw [element_pair, element_pair] at helement
  rw [← helement] at hout
  exact out_prefix_of_arrayType hout

theorem spellings_agree_lookalike :
    (¬ "out ".toList <+: "intArray".toList ∧
      element (spell ("intArray" ++ "[]")) = spell "intArray" ∧ spell "intArray" = "intArray") ∧
    (∀ e, "intArray" ++ "[]" = e ++ "[]" → ¬ "out ".toList <+: e.toList) ∧
      Target.kotlin.variadicParameter "xs" (spell ("intArray" ++ "[]")) =
        Target.kotlin.variadicParameter "xs" ("intArray" ++ "[]") := by
  have hbase : ¬ "out ".toList <+: "intArray".toList := by decide
  have helement : ∀ e, "intArray" ++ "[]" = e ++ "[]" → ¬ "out ".toList <+: e.toList := by
    intro e he
    have heq := congrArg element he
    rw [element_pair, element_pair] at heq
    rwa [← heq]
  exact ⟨⟨hbase, spellings_agree.2.1 "intArray" hbase, by decide +kernel⟩, helement,
    spellings_agree.2.2.1 "xs" _ helement⟩

end Unparse.TypeName
