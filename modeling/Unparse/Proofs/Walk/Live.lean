import Mathlib.Data.Finset.Card
import Mathlib.Tactic.Common
import Unparse.Arena.Basic

/-! # Sets of live keys

A key set is a set as long as its keys are live ones of a single arena, since
no two of these share a slot. It grows by every live key that it lacks, so the
number of live keys outside of it bounds how often that may happen.
-/

namespace Unparse

variable {α : Type} {a : Arena α} {k l : Key} {v w : α} {s : KeySet}

namespace Arena

/-- Live keys do not share a slot. -/
theorem eq_of_slot_eq (hk : a.get? k = some v) (hl : a.get? l = some w) (h : k.slot = l.slot) :
    k = l := by
  obtain ⟨-, -, hk⟩ := get?_eq_some_iff.mp hk
  obtain ⟨-, -, hl⟩ := get?_eq_some_iff.mp hl
  rw [h, hl] at hk
  cases k
  cases l
  simp_all

def keys (a : Arena α) : Finset Key := (a.toList.map Prod.fst).toFinset

theorem mem_keys (h : a.get? k = some v) : k ∈ a.keys := by
  obtain ⟨hpos, -, hslot⟩ := get?_eq_some_iff.mp h
  have hmem : ((⟨k.version, some v⟩ : Slot α), k.slot - 1) ∈ a.slots.zipIdx :=
    List.mk_mem_zipIdx_iff_getElem?.mpr hslot
  have hkey : (⟨k.slot - 1 + 1, k.version⟩ : Key) = k := by rw [Nat.sub_add_cancel hpos]
  simp only [keys, toList, List.mem_toFinset, List.mem_map, List.mem_filterMap]
  exact ⟨(k, v), ⟨_, hmem, by simp [hkey]⟩, rfl⟩

theorem card_keys_le (a : Arena α) : a.keys.card ≤ a.size := by
  calc a.keys.card ≤ a.toList.length := by
        simpa [keys] using List.toFinset_card_le (a.toList.map Prod.fst)
    _ = a.slots.zipIdx.countP (fun p => p.1.value.isSome) := by
        simp [toList, List.length_filterMap_eq_countP]
    _ = (a.slots.zipIdx.map Prod.fst).countP (·.value.isSome) := by
        rw [List.countP_map]
        rfl
    _ = a.size := by rw [List.zipIdx_map_fst, size]

end Arena

namespace KeySet

/-- All keys that count are live. -/
def LiveIn (s : KeySet) (a : Arena α) : Prop :=
  ∀ slot l, s.holder? slot = some l → a.contains l = true

theorem liveIn_empty (a : Arena α) : LiveIn {} a := by
  intro slot l h
  cases h

theorem LiveIn.eq_of_holder? (hs : s.LiveIn a) (hk : a.get? k = some v)
    (h : s.holder? k.slot = some l) : l = k := by
  obtain ⟨w, hl⟩ := Arena.contains_iff.mp (hs _ _ h)
  exact Arena.eq_of_slot_eq hl hk (slot_of_holder? h)

theorem isNull_of_get? (hk : a.get? k = some v) : k.isNull = false :=
  (Arena.get?_eq_some_iff.mp hk).2.1

theorem insert_fst_of_live (s : KeySet) (hk : a.get? k = some v) :
    (s.insert k).1 = !s.contains k := by
  rw [insert_fst, isNull_of_get? hk, Bool.false_or]

theorem LiveIn.contains_insert (hs : s.LiveIn a) (hk : a.get? k = some v) (l : Key) :
    (s.insert k).2.contains l = (l == k || s.contains l) :=
  KeySet.contains_insert (isNull_of_get? hk) (fun _ => hs.eq_of_holder? hk) l

theorem LiveIn.insert (hs : s.LiveIn a) (hk : a.get? k = some v) : (s.insert k).2.LiveIn a := by
  intro slot l hl
  have hcontains : (s.insert k).2.contains l = true := by
    rw [contains_iff, slot_of_holder? hl, hl]
  rw [hs.contains_insert hk, Bool.or_eq_true, beq_iff_eq] at hcontains
  rcases hcontains with rfl | hl
  · exact Arena.contains_iff.mpr ⟨v, hk⟩
  · exact hs _ _ (contains_iff.mp hl)

/-- The number of live keys outside of a set. -/
def missing (s : KeySet) (a : Arena α) : Nat := (a.keys.filter fun k => s.contains k = false).card

theorem missing_le_size (s : KeySet) (a : Arena α) : s.missing a ≤ a.size :=
  (Finset.card_filter_le _ _).trans a.card_keys_le

theorem LiveIn.missing_insert_lt (hs : s.LiveIn a) (hk : a.get? k = some v)
    (hc : s.contains k = false) : (s.insert k).2.missing a < s.missing a := by
  refine Finset.card_lt_card (Finset.ssubset_iff_subset_ne.mpr ⟨?_, fun heq => ?_⟩)
  · intro l hl
    simp only [Finset.mem_filter, hs.contains_insert hk, Bool.or_eq_false_iff] at hl ⊢
    exact ⟨hl.1, hl.2.2⟩
  · have hmem : k ∈ a.keys.filter fun k => s.contains k = false :=
      Finset.mem_filter.mpr ⟨Arena.mem_keys hk, hc⟩
    rw [← heq, Finset.mem_filter, hs.contains_insert hk] at hmem
    simp at hmem

end KeySet

end Unparse
