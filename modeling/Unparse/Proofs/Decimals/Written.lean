import Mathlib
import Unparse.Decimal.Shortest
import Unparse.Proofs.Reading.Literal

/-! # Written decimals

A written decimal has digits in front of a point and behind it, and an exponent.
Its text falls into these parts in one way only, so it has one value. Every numeral
is spelled as a written decimal of its value.
-/

namespace Unparse.Decimal

open Reading (isDigit_of_mem_toDigits isDigit_append isDigit_zeros)

def Numeral.value (d : Numeral) : ℚ := d.digits * 10 ^ d.exponent

/-- The parts of a written decimal. Without digits behind the point there is no
point. -/
structure Written where
  whole : List Char
  fraction : List Char
  exponent : Option Int

namespace Written

def pointed : List Char → List Char
  | [] => []
  | d :: ds => '.' :: d :: ds

def marked : Option Int → List Char
  | none => []
  | some k => 'e' :: (toString k).toList

def text (w : Written) : List Char := w.whole ++ (pointed w.fraction ++ marked w.exponent)

def value (w : Written) : ℚ :=
  Nat.ofDigitChars 10 (w.whole ++ w.fraction) 0 * 10 ^ (w.exponent.getD 0 - w.fraction.length)

/-- The digits of a written decimal are digits. There is one in front of the point,
and a point or an exponent. -/
structure Valid (w : Written) : Prop where
  whole_ne_nil : w.whole ≠ []
  whole : ∀ c ∈ w.whole, c.isDigit = true
  fraction : ∀ c ∈ w.fraction, c.isDigit = true
  marked : w.fraction ≠ [] ∨ w.exponent.isSome = true

/-! ## The parts of a text -/

theorem append_inj_of_digits {a a' b b' : List Char} (ha : ∀ c ∈ a, c.isDigit = true)
    (ha' : ∀ c ∈ a', c.isDigit = true) (hb : ∀ c ∈ b.head?, c.isDigit = false)
    (hb' : ∀ c ∈ b'.head?, c.isDigit = false) (h : a ++ b = a' ++ b') : a = a' ∧ b = b' := by
  have htake {a b : List Char} (ha : ∀ c ∈ a, c.isDigit = true)
      (hb : ∀ c ∈ b.head?, c.isDigit = false) : (a ++ b).takeWhile Char.isDigit = a := by
    rw [List.takeWhile_append_of_pos ha]
    cases b with
    | nil => simp
    | cons c b => simp [hb c rfl]
  have heq : a = a' := by rw [← htake ha hb, h, htake ha' hb']
  subst heq
  exact ⟨rfl, List.append_cancel_left h⟩

theorem isDigit_head?_marked (k : Option Int) : ∀ c ∈ (marked k).head?, c.isDigit = false := by
  cases k with
  | none => nofun
  | some k =>
    rintro c ⟨⟩
    rfl

theorem isDigit_head?_pointed (ds : List Char) (k : Option Int) :
    ∀ c ∈ (pointed ds ++ marked k).head?, c.isDigit = false := by
  cases ds with
  | nil => exact isDigit_head?_marked k
  | cons d ds =>
    rintro c ⟨⟩
    rfl

theorem marked_injective {k k' : Option Int} (h : marked k = marked k') : k = k' := by
  cases k with
  | none => cases k' with
    | none => rfl
    | some k' => cases h
  | some k => cases k' with
    | none => cases h
    | some k' =>
      have htext : toString k = toString k' := String.toList_injective (List.cons.inj h).2
      exact congrArg some (Int.repr_injective htext)

/-- The digits behind the point end in front of the exponent. -/
theorem pointed_append_marked_injective {ds ds' : List Char} {k k' : Option Int}
    (hd : ∀ c ∈ ds, c.isDigit = true) (hd' : ∀ c ∈ ds', c.isDigit = true)
    (h : pointed ds ++ marked k = pointed ds' ++ marked k') : ds = ds' ∧ k = k' := by
  have hpoint (d : Char) (ds : List Char) (k k' : Option Int) :
      marked k ≠ pointed (d :: ds) ++ marked k' := by
    cases k <;> rintro ⟨⟩
  cases ds with
  | nil => cases ds' with
    | nil => exact ⟨rfl, marked_injective h⟩
    | cons d' ds' => exact absurd h (hpoint d' ds' k k')
  | cons d ds => cases ds' with
    | nil => exact absurd h.symm (hpoint d ds k' k)
    | cons d' ds' =>
      obtain ⟨hds, hk⟩ := append_inj_of_digits hd hd' (isDigit_head?_marked k)
        (isDigit_head?_marked k') (List.cons.inj h).2
      exact ⟨hds, marked_injective hk⟩

variable {w w' : Written}

theorem eq_of_text_eq (h : w.Valid) (h' : w'.Valid) (heq : w.text = w'.text) : w = w' := by
  obtain ⟨hwhole, hrest⟩ := append_inj_of_digits h.whole h'.whole
    (isDigit_head?_pointed w.fraction w.exponent) (isDigit_head?_pointed w'.fraction w'.exponent) heq
  obtain ⟨hfraction, hexponent⟩ := pointed_append_marked_injective h.fraction h'.fraction hrest
  cases w
  cases w'
  exact congr (congr (congrArg mk hwhole) hfraction) hexponent

theorem Valid.exists_head (h : w.Valid) : ∃ c cs, w.text = c :: cs ∧ c.isDigit = true := by
  obtain ⟨c, cs, hc⟩ := List.exists_cons_of_ne_nil h.whole_ne_nil
  refine ⟨c, cs ++ (pointed w.fraction ++ Written.marked w.exponent), ?_, h.whole c (by simp [hc])⟩
  rw [text, hc, List.cons_append]

/-! ## The characters of a text -/

theorem mem_toString {k : Int} {c : Char} (h : c ∈ (toString k).toList) :
    c.isDigit = true ∨ c = '-' := by
  rw [Reading.spell_int, Nat.toList_repr] at h
  rcases List.mem_append.mp h with h | h
  · right
    split at h
    · exact List.mem_singleton.mp h
    · cases h
  · exact .inl (isDigit_of_mem_toDigits h)

theorem Valid.mem_text (h : w.Valid) {c : Char} (hc : c ∈ w.text) :
    c.isDigit = true ∨ c ∈ ['.', 'e', '-'] := by
  rw [text, List.mem_append, List.mem_append] at hc
  rcases hc with hc | hc | hc
  · exact .inl (h.whole c hc)
  · have hdigits := h.fraction
    rcases hf : w.fraction with _ | ⟨d, ds⟩
    · rw [hf] at hc
      cases hc
    · rw [hf] at hc hdigits
      rcases List.mem_cons.mp hc with rfl | hc
      · exact .inr (by decide)
      · exact .inl (hdigits c hc)
  · rcases hk : w.exponent with _ | k
    · rw [hk] at hc
      cases hc
    · rw [hk] at hc
      rcases List.mem_cons.mp hc with rfl | hc
      · exact .inr (by decide)
      · exact (mem_toString hc).imp_right fun h => by simp [h]

theorem Valid.point_or_mark (h : w.Valid) : '.' ∈ w.text ∨ 'e' ∈ w.text := by
  simp only [text, List.mem_append]
  rcases h.marked with hf | hk
  · obtain ⟨d, ds, hd⟩ := List.exists_cons_of_ne_nil hf
    exact .inl (.inr (.inl (by simp [hd, pointed])))
  · obtain ⟨k, hk⟩ := Option.isSome_iff_exists.mp hk
    exact .inr (.inr (.inr (by simp [hk, Written.marked])))

end Written

/-! ## Numerals -/

namespace Written

variable {ds : List Char} {n : Nat} {k : Int}

theorem pointed_of_ne_nil (h : ds ≠ []) : pointed ds = '.' :: ds := by
  cases ds with
  | nil => exact absurd rfl h
  | cons d ds => rfl

theorem value_eq {w : Written} (j : Nat)
    (hn : Nat.ofDigitChars 10 (w.whole ++ w.fraction) 0 = n * 10 ^ j)
    (hk : j + (w.exponent.getD 0 - w.fraction.length) = k) : w.value = n * 10 ^ k := by
  rw [value, hn, ← hk, zpow_add₀ (by norm_num), zpow_natCast]
  push_cast
  ring

theorem exists_written (whole fraction : List Char) (hwn : whole ≠ [])
    (hw : ∀ c ∈ whole, c.isDigit = true) (hfn : fraction ≠ [])
    (hf : ∀ c ∈ fraction, c.isDigit = true) (j : Nat)
    (hn : Nat.ofDigitChars 10 (whole ++ fraction) 0 = n * 10 ^ j)
    (hk : (j : Int) - fraction.length = k) :
    ∃ w : Written, w.Valid ∧ whole ++ '.' :: fraction = w.text ∧ w.value = n * 10 ^ k := by
  refine ⟨⟨whole, fraction, none⟩, ⟨hwn, hw, hf, .inl hfn⟩, ?_, value_eq j hn ?_⟩
  · simp [text, marked, pointed_of_ne_nil hfn]
  · simp only [Option.getD_none, ← hk]
    omega

theorem exists_written_marked {whole fraction : List Char} (hwn : whole ≠ [])
    (hw : ∀ c ∈ whole, c.isDigit = true) (hf : ∀ c ∈ fraction, c.isDigit = true) (p : Int)
    (hn : Nat.ofDigitChars 10 (whole ++ fraction) 0 = n) (hk : p - fraction.length = k) :
    ∃ w : Written, w.Valid ∧ whole ++ pointed fraction ++ 'e' :: (toString p).toList = w.text ∧
      w.value = n * 10 ^ k := by
  refine ⟨⟨whole, fraction, some p⟩, ⟨hwn, hw, hf, .inr rfl⟩, ?_, value_eq 0 ?_ ?_⟩
  · simp [text, marked]
  · rw [hn, pow_zero, mul_one]
  · simp only [Option.getD_some, ← hk]
    omega

end Written

open Written (pointed exists_written exists_written_marked)

/-- A numeral is spelled as a written decimal of its value. -/
theorem Numeral.exists_written_spell (d : Numeral) :
    ∃ w : Written, w.Valid ∧ d.spell.toList = w.text ∧ w.value = d.value := by
  have hn : Nat.toDigits 10 d.digits ≠ [] := Nat.toDigits_ne_nil
  have hd : ∀ c ∈ Nat.toDigits 10 d.digits, c.isDigit = true := fun _ => isDigit_of_mem_toDigits
  have hv : Nat.ofDigitChars 10 (Nat.toDigits 10 d.digits) 0 = d.digits :=
    Nat.ofDigitChars_ten_toDigits
  unfold Numeral.spell Numeral.value
  dsimp only
  generalize Nat.toDigits 10 d.digits = ds at hn hd hv
  split
  · split
    · rw [String.toList_ofList]
      refine exists_written ['0'] _ (by simp) (isDigit_zeros 1) (by simp [hn])
        (isDigit_append (isDigit_zeros _) hd) 0 ?_ ?_
      · simp [Nat.ofDigitChars_cons, Nat.ofDigitChars_append, hv]
      · rw [List.length_append, List.length_replicate]
        omega
    · split
      · rw [String.toList_ofList]
        refine exists_written _ _ ?_ (fun c hc => hd c (List.mem_of_mem_take hc)) ?_
          (fun c hc => hd c (List.mem_of_mem_drop hc)) 0 ?_ ?_
        · simp only [ne_eq, List.take_eq_nil_iff, hn, or_false]
          omega
        · simp only [ne_eq, List.drop_eq_nil_iff]
          omega
        · simp [hv]
        · rw [List.length_drop]
          omega
      · rw [String.toList_ofList]
        refine exists_written (ds ++ List.replicate _ '0') ['0'] (by simp [hn])
          (isDigit_append hd (isDigit_zeros _)) (by simp) (isDigit_zeros 1)
          ((d.exponent + ds.length).toNat - ds.length + 1) ?_ ?_
        · simp [Nat.ofDigitChars_cons, Nat.ofDigitChars_append, hv]
          ring
        · rw [List.length_singleton]
          omega
  · obtain ⟨first, rest, rfl⟩ := List.exists_cons_of_ne_nil hn
    have hfirst : ∀ c ∈ [first], c.isDigit = true := by simpa using hd first (by simp)
    have hrest : ∀ c ∈ rest, c.isDigit = true := fun c hc => hd c (List.mem_cons_of_mem first hc)
    have hpoint : d.exponent + (first :: rest).length - 1 - rest.length = d.exponent := by
      rw [List.length_cons]
      omega
    obtain ⟨w, hw, htext, hvalue⟩ := exists_written_marked (by simp) hfirst hrest _ hv hpoint
    refine ⟨w, hw, ?_, hvalue⟩
    rw [String.toList_append, String.toList_append, String.toList_ofList, ← htext]
    cases rest <;> simp [pointed]

end Unparse.Decimal
