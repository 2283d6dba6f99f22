import Mathlib.Data.Finset.Max
import Unparse.Arena.Key

/-! # Calls on a set of keys

A set of keys is asked to record keys and whether it holds one. It never claims
to hold a key that was not recorded. A recorded key is held as long as nothing
displaces it: the null key is never held, and of the keys of one slot only the
newest is. So the answers are those of a set exactly on keys that are not null
and share no slot.
-/

namespace Unparse.KeySet

inductive Call where
  | insert (k : Key)
  | contains (k : Key)
deriving DecidableEq, Repr

def Call.key : Call → Key
  | insert k | contains k => k

/-- The answers to a sequence of calls. -/
def answers (s : KeySet) : List Call → List Bool
  | [] => []
  | .insert k :: calls => (s.insert k).1 :: answers (s.insert k).2 calls
  | .contains k :: calls => s.contains k :: answers s calls

/-- The answers of a set that has recorded the keys of a list: a key is missing
until it is recorded, and recorded from then on. -/
def setAnswers (earlier : List Key) : List Call → List Bool
  | [] => []
  | .insert k :: calls => (!earlier.contains k) :: setAnswers (earlier ++ [k]) calls
  | .contains k :: calls => earlier.contains k :: setAnswers earlier calls

def inserted (calls : List Call) : List Key :=
  calls.filterMap fun
    | .insert k => some k
    | .contains _ => none

/-- What is left of keys recorded one after the other. -/
def recorded (keys : List Key) : KeySet :=
  keys.foldl (fun s k => (s.insert k).2) empty

/-- Versions so close to each other that comparing them never wraps around. -/
def Close (keys : List Key) (slot : Nat) : Prop :=
  ∀ k ∈ keys, ∀ l ∈ keys, k.slot = slot → l.slot = slot → k.version < l.version + 0x80000000

variable {s : KeySet} {k l : Key} {keys : List Key}

/-! ## Recording one key -/

theorem isOlder_self (k : Key) : k.isOlder k = false := by simp [Key.isOlder]

theorem isOlder_iff (h : k.version < l.version + 0x80000000)
    (h' : l.version < k.version + 0x80000000) : k.isOlder l = true ↔ k.version < l.version := by
  unfold Key.isOlder
  rw [Int.bmod_eq_of_le (by omega) (by omega), decide_eq_true_iff]
  omega

theorem holder?_cons (s : KeySet) (k : Key) (slot : Nat) :
    (⟨k :: s.keys⟩ : KeySet).holder? slot = if k.slot = slot then some k else s.holder? slot := by
  by_cases h : k.slot = slot <;> simp [holder?, h]

/-- A recorded key takes its slot unless it is null or older than the holder. -/
theorem holder?_insert (s : KeySet) (k : Key) (slot : Nat) : (s.insert k).2.holder? slot =
    if k.slot = slot ∧ k.isNull = false ∧ ∀ l, s.holder? slot = some l → k.isOlder l = false
    then some k else s.holder? slot := by
  by_cases hs : k.slot = slot
  · subst hs
    unfold insert
    cases hn : k.isNull with
    | true => simp
    | false =>
      cases hh : s.holder? k.slot with
      | none => simp [holder?_cons]
      | some l =>
        by_cases hl : l = k
        · subst hl
          simp [hh, isOlder_self]
        · cases ho : k.isOlder l <;> simp [hl, hh, ho, holder?_cons]
  · rw [if_neg (fun h => hs h.1)]
    unfold insert
    split
    · rfl
    · split
      · simp [holder?_cons, hs]
      · split
        · rfl
        · split <;> simp [holder?_cons, hs]

theorem isNull_eq_of_slot (h : k.slot = l.slot) : k.isNull = l.isNull := by
  simp [Key.isNull, h]

/-- After a key was recorded, it is held unless it is null or older than one
that was held, and another key is still held unless it was displaced. -/
theorem contains_insert_iff (hs : ∀ k, s.contains k = true → k.isNull = false) :
    (s.insert l).2.contains k = true ↔
      (k = l ∧ l.isNull = false ∧
        ∀ h, s.contains h = true → h.slot = l.slot → l.isOlder h = false) ∨
      (s.contains k = true ∧ (l.slot = k.slot → l = k ∨ l.isOlder k = true)) := by
  simp only [contains_iff] at hs ⊢
  rw [holder?_insert]
  split
  · next h =>
    obtain ⟨hslot, hnull, hall⟩ := h
    constructor
    · intro hk
      obtain rfl := Option.some_inj.1 hk
      refine .inl ⟨rfl, hnull, fun h hh hslot => hall h ?_⟩
      rw [← hh, hslot]
    · rintro (⟨rfl, -⟩ | ⟨hk, hold⟩)
      · rfl
      · rcases hold hslot with rfl | hold
        · rfl
        · simp [hall k hk] at hold
  · next h =>
    constructor
    · intro hk
      refine .inr ⟨hk, fun hslot => .inr ?_⟩
      have hnull : l.isNull = false := (isNull_eq_of_slot hslot).trans (hs k hk)
      by_contra hold
      rw [Bool.not_eq_true] at hold
      refine h ⟨hslot, hnull, fun m hm => ?_⟩
      obtain rfl := Option.some_inj.1 (hk.symm.trans hm)
      exact hold
    · rintro (⟨rfl, hnull, hall⟩ | ⟨hk, -⟩)
      · refine absurd ⟨rfl, hnull, fun m hm => ?_⟩ h
        have hslot := slot_of_holder? hm
        exact hall m (hslot ▸ hm) hslot
      · exact hk

/-! ## Recording one key after the other -/

@[simp] theorem recorded_nil : recorded [] = empty := rfl

@[simp] theorem recorded_concat (keys : List Key) (k : Key) :
    recorded (keys ++ [k]) = ((recorded keys).insert k).2 := by
  simp [recorded]

theorem isNull_of_contains_recorded (keys : List Key) :
    ∀ k, (recorded keys).contains k = true → k.isNull = false := by
  induction keys using List.reverseRecOn with
  | nil => simp
  | append_singleton keys l ih =>
    intro k hk
    rw [recorded_concat, contains_insert_iff ih] at hk
    rcases hk with ⟨rfl, hnull, -⟩ | ⟨hk, -⟩
    · exact hnull
    · exact ih k hk

/-- A key is held exactly if it took its slot at some point and was not
displaced since. -/
theorem contains_recorded_iff : (recorded keys).contains k = true ↔ k.isNull = false ∧
    ∃ before after, keys = before ++ k :: after ∧
      (∀ h, (recorded before).contains h = true → h.slot = k.slot → k.isOlder h = false) ∧
      ∀ l ∈ after, l.slot = k.slot → l = k ∨ l.isOlder k = true := by
  induction keys using List.reverseRecOn with
  | nil => simp
  | append_singleton keys l ih =>
    rw [recorded_concat, contains_insert_iff (isNull_of_contains_recorded keys), ih]
    constructor
    · rintro (⟨rfl, hnull, hall⟩ | ⟨⟨hnull, before, after, rfl, hall, hafter⟩, hl⟩)
      · exact ⟨hnull, keys, [], rfl, hall, by simp⟩
      · refine ⟨hnull, before, after ++ [l], by simp, hall, ?_⟩
        intro m hm
        rcases List.mem_append.1 hm with hm | hm
        · exact hafter m hm
        · obtain rfl := List.mem_singleton.1 hm
          exact hl
    · rintro ⟨hnull, before, after, hkeys, hall, hafter⟩
      rcases List.eq_nil_or_concat after with rfl | ⟨after, m, rfl⟩
      · obtain ⟨rfl, hkl⟩ := List.append_inj' hkeys rfl
        obtain rfl : l = k := by simpa using hkl
        exact .inl ⟨rfl, hnull, hall⟩
      · rw [List.concat_eq_append] at hkeys hafter
        rw [← List.cons_append, ← List.append_assoc] at hkeys
        obtain ⟨rfl, hml⟩ := List.append_inj' hkeys rfl
        obtain rfl : l = m := by simpa using hml
        refine .inr ⟨⟨hnull, before, after, rfl, hall, ?_⟩, hafter l (by simp)⟩
        intro n hn
        exact hafter n (by simp [hn])

theorem mem_of_contains_recorded (h : (recorded keys).contains k = true) : k ∈ keys := by
  obtain ⟨-, before, after, rfl, -⟩ := contains_recorded_iff.1 h
  simp

theorem exists_newest (hk : k ∈ keys) :
    ∃ l ∈ keys, l.slot = k.slot ∧ ∀ m ∈ keys, m.slot = k.slot → m.version ≤ l.version := by
  obtain ⟨l, hl, hmax⟩ := (keys.filter (·.slot = k.slot)).toFinset.exists_max_image Key.version
    ⟨k, by simp [hk]⟩
  simp only [List.mem_toFinset, List.mem_filter, decide_eq_true_eq] at hl hmax
  exact ⟨l, hl.1, hl.2, fun m hm hslot => hmax m ⟨hm, hslot⟩⟩

theorem contains_recorded_iff_newest (hclose : Close keys k.slot) :
    (recorded keys).contains k = true ↔ k.isNull = false ∧ k ∈ keys ∧
      ∀ l ∈ keys, l.slot = k.slot → l.version ≤ k.version := by
  induction keys using List.reverseRecOn generalizing k with
  | nil => simp
  | append_singleton keys l ih =>
    have hkeys : ∀ {slot}, Close (keys ++ [l]) slot → Close keys slot :=
      fun h m hm n hn => h m (List.mem_append_left _ hm) n (List.mem_append_left _ hn)
    rw [recorded_concat, contains_insert_iff (isNull_of_contains_recorded keys),
      ih (hkeys hclose)]
    have holder : ∀ {m n : Key}, m ∈ keys ++ [l] → n ∈ keys ++ [l] → m.slot = k.slot →
        n.slot = k.slot → (m.isOlder n = true ↔ m.version < n.version) := fun hm hn hmk hnk =>
      isOlder_iff (hclose _ hm _ hn hmk hnk) (hclose _ hn _ hm hnk hmk)
    have hl : l ∈ keys ++ [l] := by simp
    constructor
    · rintro (⟨rfl, hnull, hall⟩ | ⟨⟨hnull, hk, hmax⟩, hold⟩)
      · refine ⟨hnull, hl, ?_⟩
        intro m hm hslot
        rcases List.mem_append.1 hm with hm | hm
        · obtain ⟨n, hn, hnk, hmax⟩ := exists_newest hm
          have hheld : (recorded keys).contains n = true := by
            rw [ih (hnk.trans hslot ▸ hkeys hclose)]
            refine ⟨?_, hn, fun o ho hon => hmax o ho (hon.trans hnk)⟩
            rw [isNull_eq_of_slot (hnk.trans hslot), hnull]
          have hnot := hall n hheld (hnk.trans hslot)
          have := mt (holder hl (List.mem_append_left _ hn) rfl (hnk.trans hslot)).2
            (by simpa using hnot)
          have := hmax m hm rfl
          omega
        · obtain rfl := List.mem_singleton.1 hm
          exact le_rfl
      · refine ⟨hnull, List.mem_append_left _ hk, ?_⟩
        intro m hm hslot
        rcases List.mem_append.1 hm with hm | hm
        · exact hmax m hm hslot
        · obtain rfl := List.mem_singleton.1 hm
          rcases hold hslot with rfl | hold
          · exact le_rfl
          · exact ((holder hl (List.mem_append_left _ hk) hslot rfl).1 hold).le
    · rintro ⟨hnull, hk, hmax⟩
      by_cases hkl : k = l
      · subst hkl
        refine .inl ⟨rfl, hnull, ?_⟩
        intro m hm hslot
        have hmem := List.mem_append_left [k] (mem_of_contains_recorded hm)
        rw [← Bool.not_eq_true, holder hl hmem rfl hslot]
        exact not_lt.2 (hmax m hmem hslot)
      · have hk : k ∈ keys := by simpa [hkl] using hk
        refine .inr ⟨⟨hnull, hk, fun m hm => hmax m (List.mem_append_left _ hm)⟩, ?_⟩
        intro hslot
        refine .inr ((holder hl (List.mem_append_left _ hk) hslot rfl).2 ?_)
        refine lt_of_le_of_ne (hmax l hl hslot) fun hversion => hkl ?_
        cases k
        cases l
        simp_all

theorem contains_recorded_of_unique (hnull : k.isNull = false)
    (hslots : ∀ l ∈ keys, l.slot = k.slot → l = k) :
    (recorded keys).contains k = true ↔ k ∈ keys := by
  constructor
  · exact mem_of_contains_recorded
  · intro hk
    obtain ⟨before, after, rfl⟩ := List.append_of_mem hk
    refine contains_recorded_iff.2 ⟨hnull, before, after, rfl, ?_, ?_⟩
    · intro h hh hslot
      obtain rfl := hslots h (List.mem_append_left _ (mem_of_contains_recorded hh)) hslot
      exact isOlder_self h
    · intro l hl hslot
      exact .inl (hslots l (by simp [hl]) hslot)

/-! ## Sequences of calls -/

theorem answers_append (calls calls' : List Call) : ∀ s : KeySet,
    s.answers (calls ++ calls') = s.answers calls ++
      ((inserted calls).foldl (fun s k => (s.insert k).2) s).answers calls' := by
  induction calls with
  | nil => simp [answers, inserted]
  | cons call calls ih => cases call <;> simp [answers, inserted, ih]

theorem answers_concat (calls : List Call) (call : Call) :
    empty.answers (calls ++ [call]) = empty.answers calls ++
      (recorded (inserted calls)).answers [call] :=
  answers_append calls [call] empty

theorem answers_eq_setAnswers {K : Key → Prop} (hnull : ∀ k, K k → k.isNull = false)
    (hslots : ∀ k l, K k → K l → k.slot = l.slot → k = l) (calls : List Call) :
    ∀ earlier : List Key, (∀ k ∈ earlier, K k) → (∀ call ∈ calls, K call.key) →
      (recorded earlier).answers calls = setAnswers earlier calls := by
  induction calls with
  | nil => intros; rfl
  | cons call calls ih =>
    intro earlier hearlier hcalls
    obtain ⟨hcall, hrest⟩ := List.forall_mem_cons.1 hcalls
    have hheld : (recorded earlier).contains call.key = earlier.contains call.key := by
      rw [Bool.eq_iff_iff, contains_recorded_of_unique (hnull _ hcall) fun l hl =>
        hslots l _ (hearlier l hl) hcall, List.contains_iff_mem]
    cases call with
    | insert k =>
      have hk : ∀ l ∈ earlier ++ [k], K l := by
        simpa [or_imp, forall_and] using ⟨hearlier, hcall⟩
      rw [answers, setAnswers, ← ih _ hk hrest, recorded_concat, insert_fst, hnull k hcall]
      simpa [Call.key] using hheld
    | contains k =>
      rw [answers, setAnswers, ih _ hearlier hrest]
      exact congrArg (· :: _) hheld

/-- How calls about a key are answered after others. -/
structure Answered (before : List Call) (k : Key) (held : Bool) : Prop where
  contains : empty.answers (before ++ [.contains k]) = empty.answers before ++ [held]
  insert : empty.answers (before ++ [.insert k]) = empty.answers before ++ [!held]
  sound : held = true → k ∈ inserted before
  held_iff : held = true ↔ k.isNull = false ∧ ∃ first last, inserted before = first ++ k :: last ∧
    (∀ h, (recorded first).contains h = true → h.slot = k.slot → k.isOlder h = false) ∧
    ∀ l ∈ last, l.slot = k.slot → l = k ∨ l.isOlder k = true
  newest : Close (inserted before) k.slot → (held = true ↔ k.isNull = false ∧
    k ∈ inserted before ∧ ∀ l ∈ inserted before, l.slot = k.slot → l.version ≤ k.version)

theorem answered (before : List Call) (k : Key) :
    Answered before k ((recorded (inserted before)).contains k) where
  contains := by simp [answers_concat, answers]
  insert := by
    have hnull := isNull_of_contains_recorded (inserted before) k
    rw [answers_concat, answers, answers, insert_fst]
    cases hk : (recorded (inserted before)).contains k <;> simp_all
  sound := mem_of_contains_recorded
  held_iff := contains_recorded_iff
  newest := contains_recorded_iff_newest

/-- After any calls, a key is held from when it takes its slot to when it is
displaced. So the calls about keys of some kind are answered as by a set exactly
if the null key is not of that kind and no two of them share a slot. -/
theorem answered_and_set_iff (before : List Call) (k : Key) (K : Key → Prop) :
    (∃ held, Answered before k held) ∧
      ((∀ calls : List Call, (∀ call ∈ calls, K call.key) →
        empty.answers calls = setAnswers [] calls) ↔
      (∀ k, K k → k.isNull = false) ∧ ∀ k l, K k → K l → k.slot = l.slot → k = l) := by
  refine ⟨⟨_, answered before k⟩, fun h => ⟨?_, ?_⟩, ?_⟩
  · intro k hk
    have hanswers := h [.insert k, .contains k] (by simp [Call.key, hk])
    simp only [answers, setAnswers, List.cons.injEq] at hanswers
    exact isNull_of_contains_recorded [k] k (hanswers.2.1.trans (by simp))
  · intro k l hk hl hslot
    have hanswers := h [.insert k, .insert l, .contains k, .contains l] (by simp [Call.key, hk, hl])
    simp only [answers, setAnswers, List.cons.injEq] at hanswers
    have hholder := contains_iff.1 (hanswers.2.2.1.trans (by simp))
    rw [hslot, contains_iff.1 (hanswers.2.2.2.1.trans (by simp))] at hholder
    exact (Option.some_inj.1 hholder).symm
  · rintro ⟨hnull, hslots⟩ calls hcalls
    exact answers_eq_setAnswers hnull hslots calls [] (by simp) hcalls

/-- A key older than the one recorded for its slot stays missing. -/
theorem exists_misanswered : ∃ calls, empty.answers calls ≠ setAnswers [] calls :=
  ⟨[.insert ⟨1, 3⟩, .insert ⟨1, 1⟩, .contains ⟨1, 1⟩], by decide⟩

end Unparse.KeySet
