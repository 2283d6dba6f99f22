/-! # Keys

A key names one occupant of a slot: occupants of one slot follow each other
with growing versions, so a key outlives what it named without ever naming
something else. One slot number is kept for the null key.

A `KeySet` remembers at most one key per slot and prefers the newer version.
On keys of one arena, where no slot has two occupants at a time, it is a set.
-/

namespace Unparse

structure Key where
  slot : Nat
  version : Nat
deriving DecidableEq, Repr, Inhabited

namespace Key

def nullSlot : Nat := 0xFFFFFFFF

def isNull (k : Key) : Bool := k.slot == nullSlot

def spell (k : Key) : String :=
  if k.isNull then "null" else toString k.slot ++ "v" ++ toString k.version

/-- Versions are 32-bit words compared along the shorter way round. -/
def isOlder (k l : Key) : Bool :=
  ((k.version : Int) - l.version).bmod 0x100000000 < 0

end Key

/-- At most one key for each slot: the first one in the list counts. -/
structure KeySet where
  keys : List Key := []
deriving DecidableEq, Repr, Inhabited

namespace KeySet

def empty : KeySet := {}

def holder? (s : KeySet) (slot : Nat) : Option Key := s.keys.find? (·.slot == slot)

def contains (s : KeySet) (k : Key) : Bool := s.holder? k.slot == some k

/-- Record a key and tell whether it was missing. The null key is never
recorded, and an older version never displaces a newer one. -/
def insert (s : KeySet) (k : Key) : Bool × KeySet :=
  if k.isNull then (true, s)
  else match s.holder? k.slot with
    | none => (true, ⟨k :: s.keys⟩)
    | some l =>
      if l = k then (false, s)
      else if k.isOlder l then (true, s)
      else (true, ⟨k :: s.keys⟩)

theorem contains_iff {s : KeySet} {k : Key} :
    s.contains k = true ↔ s.holder? k.slot = some k := by
  simp [contains]

theorem slot_of_holder? {s : KeySet} {k : Key} {slot : Nat} (h : s.holder? slot = some k) :
    k.slot = slot := by
  have hfound := List.find?_some h
  simpa using hfound

@[simp] theorem contains_empty (k : Key) : empty.contains k = false := rfl

theorem insert_fst (s : KeySet) (k : Key) : (s.insert k).1 = (k.isNull || !s.contains k) := by
  unfold insert
  split
  · next h => simp [h]
  · next h =>
    have h : k.isNull = false := by simpa using h
    cases hl : s.holder? k.slot with
    | none => simp [contains, hl, h]
    | some l =>
      by_cases hlk : l = k
      · simp [contains, hl, hlk, h]
      · have hb : (l == k) = false := beq_eq_false_iff_ne.2 hlk
        cases ho : k.isOlder l <;> simp [contains, hl, hlk, h, hb, ho]

theorem insert_of_contains {s : KeySet} {k : Key} (h : s.contains k = true) :
    (s.insert k).2 = s := by
  rw [contains_iff] at h
  unfold insert
  split
  · rfl
  · simp [h]

/-- Among keys that share no slot, a set of keys grows by the recorded one. -/
theorem contains_insert {s : KeySet} {k : Key} (hk : k.isNull = false)
    (hs : ∀ l, s.holder? k.slot = some l → l = k) (l : Key) :
    (s.insert k).2.contains l = (l == k || s.contains l) := by
  cases hl : s.holder? k.slot with
  | none =>
    have hi : (s.insert k).2 = ⟨k :: s.keys⟩ := by simp [insert, hk, hl]
    by_cases hlk : l.slot = k.slot
    · have hn : s.contains l = false := by simp [contains, hlk, hl]
      rw [hi, hn, Bool.or_false, Bool.eq_iff_iff, contains_iff, beq_iff_eq]
      simp [holder?, hlk, eq_comm]
    · have hne : (l == k) = false := beq_eq_false_iff_ne.2 fun h => hlk (h ▸ rfl)
      have hkl : (k.slot == l.slot) = false := beq_eq_false_iff_ne.2 (Ne.symm hlk)
      rw [hi, hne, Bool.false_or]
      simp [contains, holder?, hkl]
  | some m =>
    obtain rfl := hs m hl
    have hi : (s.insert m).2 = s := by simp [insert, hk, hl]
    rw [hi]
    by_cases hlm : l = m
    · simp [hlm, contains, hl]
    · simp [hlm]

end KeySet

end Unparse
