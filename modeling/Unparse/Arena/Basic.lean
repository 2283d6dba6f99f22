import Unparse.Arena.Key

/-! # Arenas

An arena stores values in numbered slots and hands out a key for each of them.
A slot freed last is filled first, under a newer version, so a key of a removed
value never finds its successor.
-/

namespace Unparse

/-- A slot: the version of its present or next occupant, and the occupant. -/
structure Slot (α : Type) where
  version : Nat
  value : Option α
deriving Repr

/-- Slots numbered from one, and the numbers of the free ones, freed last
first. -/
structure Arena (α : Type) where
  slots : List (Slot α) := []
  free : List Nat := []
deriving Repr

namespace Arena

variable {α : Type}

instance : Inhabited (Arena α) := ⟨{}⟩

/-- The value a key points at: that of its slot, if the slot is in use under the
key's version. The null key points at nothing. -/
def get? (a : Arena α) (k : Key) : Option α :=
  if k.slot = 0 || k.isNull then none
  else match a.slots[k.slot - 1]? with
    | some s => if s.version = k.version then s.value else none
    | none => none

def contains (a : Arena α) (k : Key) : Bool := (a.get? k).isSome

def insert (a : Arena α) (v : α) : Key × Arena α :=
  match a.free with
  | [] => (⟨a.slots.length + 1, 1⟩, { a with slots := a.slots ++ [⟨1, some v⟩] })
  | i :: free =>
    let version := ((a.slots[i - 1]?).map Slot.version).getD 1
    (⟨i, version⟩, ⟨a.slots.set (i - 1) ⟨version, some v⟩, free⟩)

def modify (a : Arena α) (k : Key) (f : α → α) : Arena α :=
  if a.contains k then
    { a with slots := a.slots.modify (k.slot - 1) fun s => { s with value := s.value.map f } }
  else a

def erase (a : Arena α) (k : Key) : Arena α :=
  if a.contains k then
    ⟨a.slots.modify (k.slot - 1) fun s => ⟨s.version + 2, none⟩, k.slot :: a.free⟩
  else a

def toList (a : Arena α) : List (Key × α) :=
  a.slots.zipIdx.filterMap fun (s, i) => s.value.map fun v => (⟨i + 1, s.version⟩, v)

def size (a : Arena α) : Nat := a.slots.countP (·.value.isSome)

theorem contains_iff {a : Arena α} {k : Key} : a.contains k = true ↔ ∃ v, a.get? k = some v :=
  Option.isSome_iff_exists

/-- A key that points at something names a slot in use under its version. -/
theorem get?_eq_some_iff {a : Arena α} {k : Key} {v : α} :
    a.get? k = some v ↔
      0 < k.slot ∧ k.isNull = false ∧ a.slots[k.slot - 1]? = some ⟨k.version, some v⟩ := by
  unfold get?
  by_cases h : k.slot = 0 || k.isNull
  · simp only [h]
    grind
  · simp only [h]
    split <;> grind [Slot]

theorem get?_modify (a : Arena α) (k l : Key) (f : α → α) :
    (a.modify k f).get? l = if l = k then (a.get? k).map f else a.get? l := by
  unfold modify
  split
  · next h =>
    obtain ⟨v, hv⟩ := contains_iff.1 h
    obtain ⟨hk, hn, hs⟩ := get?_eq_some_iff.1 hv
    rw [hv]
    apply Option.ext
    intro w
    by_cases hl : l = k
    · subst hl
      rw [get?_eq_some_iff]
      grind
    · rw [if_neg hl, get?_eq_some_iff, get?_eq_some_iff, List.getElem?_modify]
      cases l
      cases k
      grind
  · next h =>
    have hk : a.get? k = none := by simpa [contains] using h
    grind

theorem get?_erase (a : Arena α) (k l : Key) :
    (a.erase k).get? l = if l = k then none else a.get? l := by
  unfold erase
  split
  · next h =>
    obtain ⟨v, hv⟩ := contains_iff.1 h
    obtain ⟨hk, hn, hs⟩ := get?_eq_some_iff.1 hv
    apply Option.ext
    intro w
    rw [get?_eq_some_iff, List.getElem?_modify]
    by_cases hl : l = k
    · subst hl
      grind
    · rw [if_neg hl, get?_eq_some_iff]
      cases l
      cases k
      grind
  · next h =>
    have hk : a.get? k = none := by simpa [contains] using h
    grind

end Arena

end Unparse
