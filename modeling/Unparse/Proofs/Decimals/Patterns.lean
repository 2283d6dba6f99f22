import Unparse.Proofs.Decimals.Nearest

/-! # Bit patterns and their numbers

A bit pattern that is a number is determined by it. The intervals of two numbers of
one format have no decimal in common: where they meet, at most one of them includes
its end.
-/

namespace Unparse.Decimal

variable {f : BinaryFormat} {m m' : Nat} {e e' : Int}

namespace BinaryFormat

def least (f : BinaryFormat) : Int := 1 - f.bias - f.fractionBits

/-- Mantissas and exponents of the numbers of a format. A short mantissa has the
least exponent. -/
structure Represents (f : BinaryFormat) (m : Nat) (e : Int) : Prop where
  mantissa_lt : m < 2 * 2 ^ f.fractionBits
  least_le : f.least ≤ e
  short : m < 2 ^ f.fractionBits → e = f.least

def width (f : BinaryFormat) : Nat := f.fractionBits + f.exponentBits + 1

structure Fields where
  fraction : Nat
  exponent : Nat
  negative : Bool

def fields (f : BinaryFormat) (bits : Nat) : Fields where
  fraction := bits % 2 ^ f.fractionBits
  exponent := bits / 2 ^ f.fractionBits % 2 ^ f.exponentBits
  negative := bits / 2 ^ (f.fractionBits + f.exponentBits) % 2 == 1

/-- What the fields of a bit pattern stand for. -/
def ofFields (f : BinaryFormat) (x : Fields) : BinaryValue :=
  if x.exponent = 2 ^ f.exponentBits - 1 then
    if x.fraction = 0 then .infinite x.negative else .nan
  else if x.exponent = 0 then .finite x.negative x.fraction f.least
  else
    .finite x.negative (2 ^ f.fractionBits + x.fraction) (x.exponent - f.bias - f.fractionBits)

theorem decode_eq_ofFields (f : BinaryFormat) (bits : Nat) :
    f.decode bits = f.ofFields (f.fields bits) := rfl

theorem fraction_lt (f : BinaryFormat) (bits : Nat) :
    (f.fields bits).fraction < 2 ^ f.fractionBits := Nat.mod_lt _ (by positivity)

theorem eq_of_fields_eq {a b : Nat} (ha : a < 2 ^ f.width) (hb : b < 2 ^ f.width)
    (h : f.fields a = f.fields b) : a = b := by
  have hparts (n : Nat) : n = n % 2 ^ f.fractionBits + 2 ^ f.fractionBits *
      (n / 2 ^ f.fractionBits % 2 ^ f.exponentBits +
        2 ^ f.exponentBits * (n / 2 ^ (f.fractionBits + f.exponentBits))) := by
    rw [pow_add, ← Nat.div_div_eq_div_mul, Nat.mod_add_div, Nat.mod_add_div]
  have hsign {n : Nat} (hn : n < 2 ^ f.width) :
      n / 2 ^ (f.fractionBits + f.exponentBits) < 2 :=
    Nat.div_lt_of_lt_mul (by rwa [width, pow_succ] at hn)
  obtain ⟨hfraction, hexponent, hnegative⟩ := Fields.mk.inj h
  have hsigns : a / 2 ^ (f.fractionBits + f.exponentBits) =
      b / 2 ^ (f.fractionBits + f.exponentBits) := by
    rw [Bool.eq_iff_iff, beq_iff_eq, beq_iff_eq] at hnegative
    have hsa := hsign ha
    have hsb := hsign hb
    generalize a / 2 ^ (f.fractionBits + f.exponentBits) = x at hnegative hsa ⊢
    generalize b / 2 ^ (f.fractionBits + f.exponentBits) = y at hnegative hsb ⊢
    omega
  rw [hparts a, hparts b, hfraction, hexponent, hsigns]

theorem represents_of_decode {bits : Nat} {n : Bool} (h : f.decode bits = .finite n m e) :
    f.Represents m e := by
  have hlt := f.fraction_lt bits
  rw [decode_eq_ofFields, ofFields] at h
  split_ifs at h with _ _ hzero
  · cases h
    exact ⟨by omega, le_rfl, fun _ => rfl⟩
  · cases h
    refine ⟨by omega, ?_, fun hshort => by omega⟩
    rw [least]
    omega

theorem ofFields_injective {x y : Fields} (hx : x.fraction < 2 ^ f.fractionBits)
    (hy : y.fraction < 2 ^ f.fractionBits) (h : f.ofFields x = f.ofFields y)
    (hn : f.ofFields x ≠ .nan) : x = y := by
  obtain ⟨fraction, exponent, negative⟩ := x
  obtain ⟨fraction', exponent', negative'⟩ := y
  simp only [ofFields] at h hn hx hy
  split_ifs at h hn <;> grind

/-- A bit pattern that is a number is determined by it. -/
theorem decode_injective {a b : Nat} (ha : a < 2 ^ f.width) (hb : b < 2 ^ f.width)
    (h : f.decode a = f.decode b) (hn : f.decode a ≠ .nan) : a = b :=
  eq_of_fields_eq ha hb (ofFields_injective (f.fraction_lt a) (f.fraction_lt b) h hn)

end BinaryFormat

namespace Interval

open BinaryFormat (Represents)

/-- The interval of a number ends where that of a larger one starts, or before. One
that includes its end ends before one that includes its start. -/
theorem high_le_low (h : f.Represents m e) (h' : f.Represents m' e')
    (hlt : e < e' ∨ e = e' ∧ m < m') :
    ∃ c : Nat, (c : ℚ) * 2 ^ (e - 2) ≤ 2 ^ (e' - 2) ∧
      4 * m + 2 ≤ c * (ofFinite f m' e').low ∧
      (m % 2 = 0 → m' % 2 = 0 → 4 * m + 2 < c * (ofFinite f m' e').low) := by
  have hlow : 4 * m' - 2 ≤ (ofFinite f m' e').low ∧
      (m' = 2 ^ f.fractionBits → (ofFinite f m' e').low = 4 * m' - 1) := by
    simp only [ofFinite, Nat.pow_eq]
    split <;> omega
  rcases hlt with hlt | ⟨rfl, hlt⟩
  · have hlong : 2 ^ f.fractionBits ≤ m' := by
      by_contra hshort
      have hleast := h'.short (by omega)
      have hle := h.least_le
      omega
    have hm := h.mantissa_lt
    refine ⟨2, ?_, by omega, by omega⟩
    calc ((2 : Nat) : ℚ) * 2 ^ (e - 2) = 2 ^ (e - 2 + 1) := by
          rw [zpow_add_one₀ (by norm_num), Nat.cast_ofNat, mul_comm]
      _ ≤ 2 ^ (e' - 2) := zpow_le_zpow_right₀ (by norm_num) (by omega)
  · exact ⟨1, by simp, by omega, by omega⟩

/-- Intervals of different numbers lie apart. -/
theorem lt_of_holds (h : f.Represents m e) (h' : f.Represents m' e')
    (hlt : e < e' ∨ e = e' ∧ m < m') {x y : ℚ} (hx : (ofFinite f m e).Holds x)
    (hy : (ofFinite f m' e').Holds y) : x < y := by
  obtain ⟨c, hunit, hle, hstrict⟩ := high_le_low h h' hlt
  have hpos : (0 : ℚ) < 2 ^ (e - 2) := by positivity
  have hends : (ofFinite f m' e').low * ((c : ℚ) * 2 ^ (e - 2)) ≤
      (ofFinite f m' e').low * 2 ^ (e' - 2) := mul_le_mul_of_nonneg_left hunit (by positivity)
  have hstart : (ofFinite f m' e').low * ((c : ℚ) * 2 ^ (e - 2)) =
      ((c * (ofFinite f m' e').low : Nat) : ℚ) * 2 ^ (e - 2) := by
    push_cast
    ring
  rw [hstart] at hends
  have hx' : x ≤ ((4 * m + 2 : Nat) : ℚ) * 2 ^ (e - 2) := hx.bounds.2
  have hy' : (ofFinite f m' e').low * 2 ^ (e' - 2) ≤ y := hy.bounds.1
  have hmiddle : ((4 * m + 2 : Nat) : ℚ) * 2 ^ (e - 2) ≤
      ((c * (ofFinite f m' e').low : Nat) : ℚ) * 2 ^ (e - 2) := by
    exact mul_le_mul_of_nonneg_right (by exact_mod_cast hle) hpos.le
  rcases hm : (ofFinite f m e).closed with _ | _
  · exact (hx.strict hm).2.trans_le (hmiddle.trans (hends.trans hy'))
  rcases hm' : (ofFinite f m' e').closed with _ | _
  · exact (hx'.trans (hmiddle.trans hends)).trans_lt (hy.strict hm').1
  have hgap := hstrict (by simpa [ofFinite] using hm) (by simpa [ofFinite] using hm')
  calc x ≤ ((4 * m + 2 : Nat) : ℚ) * 2 ^ (e - 2) := hx'
    _ < ((c * (ofFinite f m' e').low : Nat) : ℚ) * 2 ^ (e - 2) :=
      mul_lt_mul_of_pos_right (by exact_mod_cast hgap) hpos
    _ ≤ y := hends.trans hy'

theorem eq_of_holds (h : f.Represents m e) (h' : f.Represents m' e') {x : ℚ}
    (hx : (ofFinite f m e).Holds x) (hx' : (ofFinite f m' e').Holds x) : m = m' ∧ e = e' := by
  by_contra hne
  have hcases : (e < e' ∨ e = e' ∧ m < m') ∨ (e' < e ∨ e' = e ∧ m' < m) := by omega
  rcases hcases with hlt | hlt
  · exact lt_irrefl x (lt_of_holds h h' hlt hx hx')
  · exact lt_irrefl x (lt_of_holds h' h hlt hx' hx)

end Interval

end Unparse.Decimal
