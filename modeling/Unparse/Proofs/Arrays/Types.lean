import Unparse.Proofs.Arrays.Written

/-! # Types of created arrays

A creation is read by the grammar of its language. In Java, dimensions with a size stand in
front of those without one, so the text is no creation if the elements are arrays
themselves. In Kotlin, it creates the arrays that were asked for.
-/

namespace Unparse.Arrays

open Template

variable {α : Type}

def pairs : Nat → String
  | 0 => ""
  | n + 1 => "[]" ++ pairs n

def arrayType (base : String) (depth : Nat) : String := base ++ pairs depth

/-- The name of a base in Kotlin, where primitive types have classes. -/
def className (base : String) : String := (TypeName.primitive? base).getD base

section Marks

variable {β : Type} {p : β → Prop} {x y u v : List β} {a b : β}

theorem divide_inj (hx : ∀ c ∈ x, ¬ p c) (hy : ∀ c ∈ y, ¬ p c) (ha : p a) (hb : p b)
    (h : x ++ a :: u = y ++ b :: v) : x = y ∧ a = b ∧ u = v := by
  induction x generalizing y with
  | nil =>
    cases y with
    | nil => exact ⟨rfl, List.cons.inj h⟩
    | cons c y =>
      obtain ⟨rfl, -⟩ := List.cons.inj h
      exact absurd ha (hy a List.mem_cons_self)
  | cons c x ih =>
    cases y with
    | nil =>
      obtain ⟨rfl, -⟩ := List.cons.inj h
      exact absurd hb (hx c List.mem_cons_self)
    | cons d y =>
      obtain ⟨rfl, hrest⟩ := List.cons.inj h
      obtain ⟨rfl, hab, huv⟩ := ih (fun c hc => hx c (List.mem_cons_of_mem _ hc))
        (fun c hc => hy c (List.mem_cons_of_mem _ hc)) hrest
      exact ⟨rfl, hab, huv⟩

end Marks

section Literals

variable {s t : String} {a b : α} {u v : Template α}

theorem lit_append (s t : String) : (lit (s ++ t) : Template α) = lit s ++ lit t := by simp [lit]

theorem lit_inj (h : (lit s : Template α) = lit t) : s = t :=
  String.toList_inj.mp (List.map_injective_iff.mpr (fun _ _ => Sum.inl.inj) h)

theorem call_inj (h : call s a ++ u = call t b ++ v) : s = t ∧ a = b ∧ u = v := by
  have hlit (s : String) : ∀ c ∈ (lit s ++ lit "(" : Template α), ¬ c.isRight = true := by
    rw [← lit_append, lit]
    simp only [List.forall_mem_map]
    exact fun _ _ => nofun
  have hcall (s : String) (a : α) (u : Template α) :
      call s a ++ u = (lit s ++ lit "(") ++ .inr a :: (lit ")" ++ u) := by simp [call, hole]
  rw [hcall, hcall] at h
  obtain ⟨hst, hab, huv⟩ := divide_inj (hlit s) (hlit t) rfl rfl h
  exact ⟨lit_inj (List.append_cancel_right hst), Sum.inr.inj hab, List.append_cancel_left huv⟩

end Literals

namespace Java

/-- An array creation expression: its dimensions with a size, of which there is at least one,
and the number of those without one. -/
structure Creation (α : Type) where
  base : String
  sizes : List α
  unsized : Nat
  bare : '[' ∉ base.toList
  sized : sizes ≠ []

def Creation.spell (c : Creation α) : Template α :=
  lit ("new " ++ c.base) ++ bracketed c.sizes ++ lit (pairs c.unsized)

theorem bracketed_cons (d : α) (ds : List α) :
    bracketed (d :: ds) = .inl '[' :: .inr d :: .inl ']' :: bracketed ds := rfl

theorem lit_pairs_succ (n : Nat) :
    (lit (pairs (n + 1)) : Template α) = .inl '[' :: .inl ']' :: lit (pairs n) := by
  rw [pairs, lit_append]
  rfl

theorem bracketed_inj {ds es : List α} {m : Nat}
    (h : bracketed ds ++ lit (pairs m) = bracketed es) : ds = es ∧ m = 0 := by
  induction ds generalizing es with
  | nil =>
    cases m with
    | zero =>
      cases es with
      | nil => exact ⟨rfl, rfl⟩
      | cons e es => cases h
    | succ m =>
      rw [lit_pairs_succ] at h
      cases es with
      | nil => cases h
      | cons e es => cases h
  | cons d ds ih =>
    cases es with
    | nil => cases h
    | cons e es =>
      rw [bracketed_cons, bracketed_cons] at h
      simp only [List.cons_append, List.cons.injEq, Sum.inr.injEq, true_and] at h
      obtain ⟨rfl, h⟩ := h
      obtain ⟨rfl, rfl⟩ := ih h
      exact ⟨rfl, rfl⟩

/-- A text is a creation only if its elements are no arrays. -/
theorem spell_eq_creation_iff {base : String} (hbase : '[' ∉ base.toList) (depth : Nat) (d : α)
    (ds : List α) (c : Creation α) :
    c.spell = creation .java (arrayType base depth) (d :: ds) ↔
      depth = 0 ∧ c.base = base ∧ c.sizes = d :: ds ∧ c.unsized = 0 := by
  obtain ⟨base', _ | ⟨e, es⟩, unsized, hbare, hsized⟩ := c
  · exact absurd rfl hsized
  have hbracket {base : String} (h : '[' ∉ base.toList) :
      ∀ c ∈ (lit ("new " ++ base) : Template α), ¬ c = .inl '[' := by
    simp only [lit, List.mem_map, String.toList_append, List.mem_append]
    rintro _ ⟨c, hc | hc, rfl⟩ hbracket
    · obtain rfl := Sum.inl.inj hbracket
      exact absurd hc (by decide)
    · obtain rfl := Sum.inl.inj hbracket
      exact h hc
  have hspell : Creation.spell ⟨base', e :: es, unsized, hbare, hsized⟩ =
      lit ("new " ++ base') ++ .inl '[' :: .inr e :: .inl ']' ::
        (bracketed es ++ lit (pairs unsized)) := by
    simp [Creation.spell, bracketed_cons]
  have hcreation : creation .java (arrayType base depth) (d :: ds) =
      lit ("new " ++ base) ++ (lit (pairs depth) ++ bracketed (d :: ds)) := by
    simp [creation, arrayType, lit_append]
  rw [hspell, hcreation]
  constructor
  · intro h
    cases depth with
    | zero =>
      change _ = lit ("new " ++ base) ++ bracketed (d :: ds) at h
      rw [bracketed_cons] at h
      obtain ⟨hlit, -, hsizes⟩ := divide_inj (hbracket hbare) (hbracket hbase) rfl rfl h
      obtain rfl : base' = base := by simpa using lit_inj hlit
      obtain ⟨rfl, hrest⟩ : e = d ∧ bracketed es ++ lit (pairs unsized) = bracketed ds := by
        simpa using hsizes
      obtain ⟨rfl, rfl⟩ := bracketed_inj hrest
      exact ⟨rfl, rfl, rfl, rfl⟩
    | succ depth =>
      rw [lit_pairs_succ] at h
      obtain ⟨-, -, hsizes⟩ := divide_inj (hbracket hbare) (hbracket hbase) rfl rfl h
      cases hsizes
  · rintro ⟨rfl, rfl, hsizes, rfl⟩
    obtain ⟨rfl, rfl⟩ : e = d ∧ es = ds := by simpa using hsizes
    simp [pairs, lit, bracketed_cons]

end Java

namespace Kotlin

abbrev Primitive : Type := {p : String // TypeName.primitive? p = some p}

/-- The expressions that create arrays. -/
inductive Creation (α : Type) where
  | primitive (name : Primitive) (size : α)
  | ofNulls (element : String) (size : α)
  | nested (size : α) (inner : Creation α)

/-- The types that are arrays over a base, of some depth. Only arrays of primitive types
hold their values, so there is no array class of the class of a primitive type. -/
inductive IsType (base : String) : Nat → String → Prop where
  | base (h : TypeName.primitive? base = none) : IsType base 0 base
  | primitive (h : TypeName.primitive? base = some base) : IsType base 1 (base ++ "Array")
  | array {depth : Nat} {type : String} (h : IsType base depth type) :
    IsType base (depth + 1) ("Array<" ++ type ++ ">")

namespace Creation

def spell : Creation α → Template α
  | primitive name size => call (name.val ++ "Array") size
  | ofNulls element size => call ("arrayOfNulls<" ++ element ++ ">") size
  | nested size inner => call "Array" size ++ lit " \x7b " ++ inner.spell ++ lit " \x7d"

def sizes : Creation α → List α
  | primitive _ size | ofNulls _ size => [size]
  | nested size inner => size :: inner.sizes

/-- The base of the array that is created, and the number of dimensions without a size. -/
inductive Creates : Creation α → String → Nat → Prop where
  | primitive (name : Primitive) (size : α) : Creates (primitive name size) name.val 0
  | ofNulls {base type : String} {depth : Nat} (h : IsType base depth type) (size : α) :
    Creates (ofNulls type size) base depth
  | nested {base : String} {depth : Nat} {inner : Creation α} (size : α)
      (h : Creates inner base depth) : Creates (nested size inner) base depth

end Creation

variable {base type : String}

theorem primitive?_className {p : String} (h : TypeName.primitive? base = some p) :
    TypeName.primitive? p = some p := by
  unfold TypeName.primitive? at h
  split at h
  all_goals
    cases h
    try rfl

theorem bare_of_primitive {p : String} (h : TypeName.primitive? base = some p) :
    '[' ∉ base.toList := by
  unfold TypeName.primitive? at h
  split at h
  all_goals
    first
    | decide
    | cases h

theorem IsType.length_eq {depth : Nat} (h : IsType base depth type) :
    type.length + (if TypeName.primitive? base = none then 0 else 2) = base.length + 7 * depth := by
  have harray : "Array".length = 5 := by decide
  have hopening : "Array<".length = 6 := by decide
  have hclosing : ">".length = 1 := by decide
  induction h with
  | base h => simp [h]
  | primitive h => simp [h, harray]
  | array h ih =>
    simp only [String.length_append, hopening, hclosing]
    omega

theorem IsType.depth_unique {m n : Nat} (hm : IsType base m type) (hn : IsType base n type) :
    m = n := by
  have hlength := hm.length_eq.symm.trans hn.length_eq
  omega

theorem pairs_succ (n : Nat) : pairs (n + 1) = pairs n ++ "[]" := by
  induction n with
  | zero => rfl
  | succ n ih => exact (congrArg ("[]" ++ ·) ih).trans (String.append_assoc ..).symm

theorem countBrackets_arrayType (hbase : '[' ∉ base.toList) (depth : Nat) :
    TypeName.countBrackets (arrayType base depth).toList.reverse =
      (depth, base.toList.reverse) := by
  induction depth with
  | zero =>
    rw [arrayType, pairs, String.append_empty]
    unfold TypeName.countBrackets
    split
    · next s h =>
      have hmem : '[' ∈ base.toList.reverse := by simp [h]
      exact absurd (List.mem_reverse.mp hmem) hbase
    · rfl
  | succ depth ih =>
    have hreverse : (arrayType base (depth + 1)).toList.reverse =
        ']' :: '[' :: (arrayType base depth).toList.reverse := by
      simp [arrayType, pairs_succ]
    rw [hreverse, TypeName.countBrackets, ih]

theorem isType_arrayOf {m : Nat} (h : IsType base m type) (n : Nat) :
    IsType base (m + n) (TypeName.arrayOf n type) := by
  induction n with
  | zero => exact h
  | succ n ih => exact .array ih

theorem isType_spell (hbase : '[' ∉ base.toList) {depth : Nat}
    (h : TypeName.primitive? (arrayType base depth) = none) :
    IsType (className base) depth (TypeName.spell (arrayType base depth)) := by
  simp only [TypeName.spell, countBrackets_arrayType hbase, List.reverse_reverse,
    String.ofList_toList, className]
  cases hp : TypeName.primitive? base with
  | none =>
    have harray := isType_arrayOf (.base hp) depth
    rwa [Nat.zero_add] at harray
  | some p =>
    cases depth with
    | zero => simp [arrayType, pairs, hp] at h
    | succ depth =>
      have harray := isType_arrayOf (.primitive (primitive?_className hp)) depth
      rwa [Nat.add_comm] at harray

namespace Creation

theorem spell_inj {c c' : Creation α} (h : c.spell = c'.spell) : c = c' := by
  have hcall {f f' : String} {a a' : α} (h : call f a = call f' a') : f = f' ∧ a = a' := by
    obtain ⟨hf, ha, -⟩ := call_inj (congrArg (· ++ []) h)
    exact ⟨hf, ha⟩
  have hnested {f : String} {a : α} {size : α} {inner : Creation α}
      (h : call f a = (nested size inner).spell) : False := by
    have happend : call f a ++ [] =
        call "Array" size ++ (lit " \x7b " ++ (inner.spell ++ lit " \x7d")) := by
      simpa [spell] using h
    obtain ⟨-, -, hrest⟩ := call_inj happend
    cases hrest
  have hnames {name : Primitive} {element : String} :
      name.val ++ "Array" ≠ "arrayOfNulls<" ++ element ++ ">" := by
    intro h
    have hlast := congrArg (fun s => s.toList.getLast?) h
    rw [String.toList_append, String.toList_append, List.getLast?_append, List.getLast?_append]
      at hlast
    exact absurd hlast (by simp)
  induction c generalizing c' with
  | primitive name size =>
    cases c' with
    | primitive name' size' =>
      obtain ⟨hname, rfl⟩ := hcall h
      obtain rfl : name = name' := Subtype.ext (by simpa using hname)
      rfl
    | ofNulls element' size' => exact absurd (hcall h).1 hnames
    | nested size' inner' => exact (hnested h).elim
  | ofNulls element size =>
    cases c' with
    | primitive name' size' => exact absurd (hcall h).1.symm hnames
    | ofNulls element' size' =>
      obtain ⟨helement, rfl⟩ := hcall h
      obtain rfl : element = element' := by simpa using helement
      rfl
    | nested size' inner' => exact (hnested h).elim
  | nested size inner ih =>
    cases c' with
    | primitive name' size' | ofNulls element' size' => exact (hnested h.symm).elim
    | nested size' inner' =>
      obtain ⟨-, rfl, hrest⟩ := call_inj (u := lit " \x7b " ++ (inner.spell ++ lit " \x7d"))
        (v := lit " \x7b " ++ (inner'.spell ++ lit " \x7d")) (by simpa [spell] using h)
      rw [ih (List.append_cancel_right (List.append_cancel_left hrest))]

/-- Every text is a creation, and of what type depends on the elements only. -/
theorem exists_spell_eq (element : String) (d : α) (ds : List α) :
    ∃ c : Creation α, c.spell = creation .kotlin element (d :: ds) ∧ c.sizes = d :: ds ∧
      ∀ base n, c.Creates base n ↔ match TypeName.primitive? element with
        | some p => base = p ∧ n = 0
        | none => IsType base n (TypeName.spell element) := by
  induction ds generalizing d with
  | nil =>
    cases hp : TypeName.primitive? element with
    | none =>
      refine ⟨.ofNulls (TypeName.spell element) d, ?_, rfl,
        fun base n => ⟨?_, fun h => .ofNulls h d⟩⟩
      · simp only [spell, creation, Arrays.nested, hp]
      · rintro ⟨⟩
        assumption
    | some p =>
      refine ⟨.primitive ⟨p, primitive?_className hp⟩ d, ?_, rfl, fun base n => ⟨?_, ?_⟩⟩
      · simp only [spell, creation, Arrays.nested, hp]
      · rintro ⟨⟩
        exact ⟨rfl, rfl⟩
      · rintro ⟨rfl, rfl⟩
        exact .primitive ⟨base, primitive?_className hp⟩ d
  | cons e ds ih =>
    obtain ⟨c, hc, hsizes, hcreates⟩ := ih e
    refine ⟨.nested d c, ?_, by rw [sizes, hsizes], fun base n => ?_⟩
    · simp only [spell, hc]
      rfl
    · rw [← hcreates base n]
      constructor
      · rintro ⟨⟩
        assumption
      · exact .nested d

/-- Over the class of a bare base, the elements of a creation have their own depth. -/
theorem creates_iff (hbase : '[' ∉ base.toList) (depth n : Nat) :
    (match TypeName.primitive? (arrayType base depth) with
      | some p => className base = p ∧ n = 0
      | none => IsType (className base) n (TypeName.spell (arrayType base depth))) ↔ n = depth := by
  cases hp : TypeName.primitive? (arrayType base depth) with
  | none =>
    refine ⟨fun h => h.depth_unique (isType_spell hbase hp), ?_⟩
    rintro rfl
    exact isType_spell hbase hp
  | some p =>
    obtain rfl : depth = 0 := by
      cases depth with
      | zero => rfl
      | succ depth => exact absurd (bare_of_primitive hp) (by simp [arrayType, pairs])
    rw [arrayType, pairs, String.append_empty] at hp
    simp [className, hp]

end Creation

end Kotlin

/-- Of an element type with a bare base, both languages print the creation of an array, and
each text is read in one way. Kotlin's creates an array over the class of the base, of the
depth asked for and with the sizes asked for. So does Java's if the elements are no arrays
themselves; otherwise it is no creation. -/
theorem created_as_asked {base : String} (hbase : '[' ∉ base.toList) (depth : Nat) (d : α)
    (ds : List α) :
    (∀ (s : Style) (doc : α → Layout.Doc),
      LaidAs doc (s.createArray (arrayType base depth) ((d :: ds).map doc) none)
        (creation s.target (arrayType base depth) (d :: ds))) ∧
    (∀ c : Java.Creation α, c.spell = creation .java (arrayType base depth) (d :: ds) ↔
      depth = 0 ∧ c.base = base ∧ c.sizes = d :: ds ∧ c.unsized = 0) ∧
    ∃ c : Kotlin.Creation α,
      (∀ c' : Kotlin.Creation α,
        c'.spell = creation .kotlin (arrayType base depth) (d :: ds) ↔ c' = c) ∧
      c.sizes = d :: ds ∧ ∀ n, c.Creates (className base) n ↔ n = depth := by
  refine ⟨fun s doc => laidAs_creation s _ doc _,
    Java.spell_eq_creation_iff hbase depth d ds, ?_⟩
  obtain ⟨c, hc, hsizes, hcreates⟩ :=
    Kotlin.Creation.exists_spell_eq (arrayType base depth) d ds
  refine ⟨c, fun c' => ⟨fun h => Kotlin.Creation.spell_inj (h.trans hc.symm), ?_⟩, hsizes,
    fun n => (hcreates _ n).trans (Kotlin.Creation.creates_iff hbase depth n)⟩
  rintro rfl
  exact hc

theorem created_as_asked_cube : '[' ∉ "int".toList ∧ ∃ c : Kotlin.Creation (Fin 2),
    c.spell = creation .kotlin (arrayType "int" 1) [0, 1] ∧ c.sizes = [0, 1] ∧
      c.Creates (className "int") 1 := by
  have hbase : '[' ∉ "int".toList := by decide
  obtain ⟨c, hspell, hsizes, hcreates⟩ := (created_as_asked hbase 1 (0 : Fin 2) [1]).2.2
  exact ⟨hbase, c, (hspell c).mpr rfl, hsizes, (hcreates 1).mpr rfl⟩

/-- A dimension with a size stands behind the one of the elements, which has none. -/
theorem exists_misplaced :
    (Style.createArray ⟨.java, 4⟩ "int[]" [.word "3"] none).render 100 = "new int[][3]" ∧
      ∀ c : Java.Creation Unit, c.spell ≠ creation .java "int[]" [()] := by
  refine ⟨by decide +kernel, fun c h => ?_⟩
  have hdepth := (Java.spell_eq_creation_iff (show '[' ∉ "int".toList by decide) 1 () [] c).mp h
  exact absurd hdepth.1 (by decide)

end Unparse.Arrays
