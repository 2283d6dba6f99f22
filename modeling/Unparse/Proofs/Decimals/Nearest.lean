import Unparse.Proofs.Decimals.Written

/-! # Shortest decimals lie in their interval

The comparisons of the search are those of rational numbers. Whatever the search
finds is a number of the interval: a multiple of a power of ten that was found to
be in it, or the centre itself.
-/

namespace Unparse.Decimal

theorem zpow_eq_div {b : ℚ} (hb : b ≠ 0) (k : Int) : b ^ k = b ^ k.toNat / b ^ (-k).toNat := by
  rw [← zpow_natCast, ← zpow_natCast, ← zpow_sub₀ hb, Int.toNat_sub_toNat_neg]

namespace Interval

/-- The numbers of an interval. -/
def Holds (i : Interval) (x : ℚ) : Prop :=
  if i.closed then i.low * 2 ^ i.exponent ≤ x ∧ x ≤ i.high * 2 ^ i.exponent
  else i.low * 2 ^ i.exponent < x ∧ x < i.high * 2 ^ i.exponent

def middle (i : Interval) : ℚ := i.center * 2 ^ i.exponent

variable {i : Interval} {x : ℚ}

theorem Holds.bounds (h : i.Holds x) :
    i.low * 2 ^ i.exponent ≤ x ∧ x ≤ i.high * 2 ^ i.exponent := by
  rw [Holds] at h
  split at h
  · exact h
  · exact ⟨h.1.le, h.2.le⟩

theorem Holds.strict (h : i.Holds x) (hopen : i.closed = false) :
    i.low * 2 ^ i.exponent < x ∧ x < i.high * 2 ^ i.exponent := by
  simpa [Holds, hopen] using h

theorem exists_unit (i : Interval) (k : Int) :
    ∃ u : ℚ, 0 < u ∧ 10 ^ k = (i.scales k).1 * u ∧ 2 ^ i.exponent = (i.scales k).2 * u := by
  refine ⟨1 / (2 ^ (-i.exponent).toNat * 10 ^ (-k).toNat), by positivity, ?_, ?_⟩
  · rw [zpow_eq_div (by norm_num)]
    simp only [scales, Nat.pow_eq, Nat.cast_mul, Nat.cast_pow, Nat.cast_ofNat]
    field_simp
  · rw [zpow_eq_div (by norm_num)]
    simp only [scales, Nat.pow_eq, Nat.cast_mul, Nat.cast_pow, Nat.cast_ofNat]
    field_simp

theorem admits_iff (i : Interval) (d : Nat) (k : Int) :
    i.admits d k = true ↔ i.Holds (Numeral.value ⟨d, k⟩) := by
  obtain ⟨u, hu, hten, hplace⟩ := i.exists_unit k
  have hle (a b c e : Nat) : a * b ≤ c * e ↔ (a : ℚ) * (b * u) ≤ c * (e * u) := by
    rw [← mul_assoc, ← mul_assoc, mul_le_mul_iff_left₀ hu]
    exact_mod_cast Iff.rfl
  have hlt (a b c e : Nat) : a * b < c * e ↔ (a : ℚ) * (b * u) < c * (e * u) := by
    rw [← mul_assoc, ← mul_assoc, mul_lt_mul_iff_left₀ hu]
    exact_mod_cast Iff.rfl
  rw [admits, Holds, Numeral.value, hten, hplace]
  rcases i.scales k with ⟨ten, place⟩
  dsimp only
  split <;> simp only [Bool.and_eq_true, decide_eq_true_eq, hle, hlt]

theorem value_of_nearest? {k : Int} {d : Numeral} (h : i.nearest? k = some d) :
    i.Holds d.value := by
  unfold nearest? at h
  dsimp only at h
  split at h
  · next hbelow habove =>
    cases h
    split
    · exact (admits_iff ..).mp habove
    · exact (admits_iff ..).mp hbelow
  · next hbelow _ =>
    cases h
    exact (admits_iff ..).mp hbelow
  · next _ habove =>
    cases h
    exact (admits_iff ..).mp habove
  · cases h

theorem scales_finest_dvd (i : Interval) : (i.scales i.finest).1 ∣ (i.scales i.finest).2 := by
  simp only [scales, finest, Nat.pow_eq]
  rcases le_total 0 i.exponent with h | h
  · have hnone : (-i.exponent).toNat = 0 := by omega
    simp [min_eq_right h, hnone]
  · have hnone : i.exponent.toNat = 0 := by omega
    have hten : 2 ^ (-i.exponent).toNat ∣ 10 ^ (-i.exponent).toNat :=
      pow_dvd_pow_of_dvd (by decide) _
    simpa [min_eq_left h, hnone] using hten

theorem value_finest (i : Interval) : Numeral.value ⟨i.below i.finest, i.finest⟩ = i.middle := by
  obtain ⟨u, hu, hten, hplace⟩ := i.exists_unit i.finest
  obtain ⟨q, hq⟩ := i.scales_finest_dvd
  have hpos : 0 < (i.scales i.finest).1 := by
    have hten' : (0 : ℚ) < 10 ^ i.finest := by positivity
    rw [hten] at hten'
    exact_mod_cast pos_of_mul_pos_left hten' hu.le
  have hbelow : i.below i.finest = i.center * q := by
    change i.center * (i.scales i.finest).2 / (i.scales i.finest).1 = _
    rw [hq, Nat.mul_left_comm, Nat.mul_div_cancel_left _ hpos]
  rw [Numeral.value, middle, hten, hplace, hq, hbelow]
  push_cast
  ring

theorem holds_search (h : i.Holds i.middle) (n : Nat) : i.Holds (i.search n).value := by
  induction n with
  | zero =>
    rw [search, value_finest]
    exact h
  | succ n ih =>
    rw [search]
    split
    · next d hd => exact value_of_nearest? hd
    · exact ih

/-! ## The interval of a binary number -/

section OfFinite

variable {f : BinaryFormat} {m : Nat} {e : Int}

theorem low_lt (hm : 0 < m) : 0 < (ofFinite f m e).low ∧ (ofFinite f m e).low < 4 * m := by
  simp only [ofFinite]
  split <;> omega

theorem holds_middle (hm : 0 < m) : (ofFinite f m e).Holds (ofFinite f m e).middle := by
  have hlow : ((ofFinite f m e).low : ℚ) < (ofFinite f m e).center := by
    exact_mod_cast (low_lt hm).2
  have hhigh : ((ofFinite f m e).center : ℚ) < (ofFinite f m e).high := by
    have hlt : 4 * m < 4 * m + 2 := by omega
    exact_mod_cast hlt
  have hunit : (0 : ℚ) < 2 ^ (ofFinite f m e).exponent := by positivity
  have hleft := mul_lt_mul_of_pos_right hlow hunit
  have hright := mul_lt_mul_of_pos_right hhigh hunit
  rw [Holds, middle]
  split
  · exact ⟨hleft.le, hright.le⟩
  · exact ⟨hleft, hright⟩

/-- The shortest decimal of a number is read as that number. -/
theorem holds_shortest (hm : 0 < m) :
    (ofFinite f m e).Holds (ofFinite f m e).shortest.value :=
  holds_search (holds_middle hm) _

theorem Holds.pos (hm : 0 < m) (h : (ofFinite f m e).Holds x) : 0 < x := by
  have hlow : (0 : ℚ) < (ofFinite f m e).low * 2 ^ (ofFinite f m e).exponent := by
    have hlow : (0 : ℚ) < (ofFinite f m e).low := by exact_mod_cast (low_lt hm).1
    positivity
  exact hlow.trans_le h.bounds.1

end OfFinite

end Interval

end Unparse.Decimal
