import Mathlib.Data.List.Nodup
import Mathlib.Tactic.Common
import Unparse.Print.Header

/-! # The order of modifiers

A declaration starts with the words of its modifiers, each once. Annotations come first, in
the order in which they are given, and then the keywords, in an order of their own. So the
words depend on the order in which modifiers are given by their annotations only.
-/

namespace Unparse

open Layout.Doc (text)
open scoped List

variable {t : Target} {m n : Modifier} {ms ms' : List Modifier} {w : String}

section Words

def isMarked (w : String) : Bool := w.toList.head? == some '@'

/-- Whether a language spells a modifier as an annotation. -/
def Target.annotates (t : Target) (m : Modifier) : Bool := (t.modifierKeyword? m).any isMarked

theorem modifierKeyword?_inj (hm : t.modifierKeyword? m = some w)
    (hn : t.modifierKeyword? n = some w) : m = n := by
  revert hn
  cases t <;> cases m <;> cases hm <;> cases n <;> decide

theorem blank_not_mem_keyword (h : t.modifierKeyword? m = some w) : ' ' ∉ w.toList := by
  cases t <;> cases m <;> cases h <;> decide

theorem modifierRank_of_annotates (h : t.annotates m = true) : t.modifierRank m = 0 := by
  revert h
  cases t <;> cases m <;> decide

theorem modifierRank_of_not_annotates (h : t.annotates m = false) :
    t.modifierRank m = m.rank + if t = .java then 0 else 1 := by
  revert h
  cases t <;> cases m <;> decide

theorem annotates_java (m : Modifier) : Target.java.annotates m = false := by
  cases m <;> decide

theorem rank_inj (h : m.rank = n.rank) : m = n := by
  revert h
  cases m <;> cases n <;> decide

theorem filter_isMarked (t : Target) (ms : List Modifier) :
    (ms.filterMap t.modifierKeyword?).filter isMarked =
        (ms.filter t.annotates).filterMap t.modifierKeyword? ∧
      (ms.filterMap t.modifierKeyword?).filter (fun w => !isMarked w) =
        (ms.filter fun m => !t.annotates m).filterMap t.modifierKeyword? := by
  simp only [List.filter_filterMap, List.filterMap_filter]
  constructor <;> congr 1 <;> funext m <;> cases h : t.modifierKeyword? m <;>
    simp [Target.annotates, h, Option.filter]

end Words

section Lists

variable {α : Type}

theorem nodup_eraseDups [BEq α] [LawfulBEq α] (l : List α) : l.eraseDups.Nodup := by
  induction hn : l.length using Nat.strongRecOn generalizing l with
  | ind n ih =>
    cases l with
    | nil => simp
    | cons a l =>
      rw [List.eraseDups_cons, List.nodup_cons, List.mem_eraseDups]
      have hlength := List.length_filter_le (fun b => !b == a) l
      exact ⟨by simp, ih _ (by simp_all; omega) _ rfl⟩

theorem eq_filter_append_filter {p : α → Bool} {r : α → α → Prop} {l : List α}
    (h : l.Pairwise r) (hr : ∀ a b, r a b → p b = true → p a = true) :
    l = l.filter p ++ l.filter fun a => !p a := by
  induction h with
  | nil => rfl
  | @cons a l ha _ ih =>
    cases hp : p a with
    | true => simpa [hp] using ih
    | false =>
      have hnone : ∀ b ∈ l, p b = false := by
        intro b hb
        rw [Bool.eq_false_iff]
        intro hpb
        rw [hr a b (ha b hb) hpb] at hp
        cases hp
      have hpos : (a :: l).filter p = [] := by
        rw [List.filter_eq_nil_iff, List.forall_mem_cons]
        simpa [hp] using hnone
      have hneg : ((a :: l).filter fun a => !p a) = a :: l := by
        rw [List.filter_eq_self, List.forall_mem_cons]
        simpa [hp] using hnone
      rw [hpos, hneg, List.nil_append]

end Lists

section Order

def Target.ranked (t : Target) (ms : List Modifier) : List Modifier :=
  ms.eraseDups.mergeSort fun m n => t.modifierRank m ≤ t.modifierRank n

theorem mem_ranked : m ∈ t.ranked ms ↔ m ∈ ms := by
  rw [Target.ranked, List.mem_mergeSort, List.mem_eraseDups]

theorem nodup_ranked (t : Target) (ms : List Modifier) : (t.ranked ms).Nodup :=
  (List.mergeSort_perm _ _).nodup_iff.mpr (nodup_eraseDups ms)

theorem le_trans_rank (t : Target) (m n k : Modifier)
    (hmn : decide (t.modifierRank m ≤ t.modifierRank n) = true)
    (hnk : decide (t.modifierRank n ≤ t.modifierRank k) = true) :
    decide (t.modifierRank m ≤ t.modifierRank k) = true := by
  simp only [decide_eq_true_eq] at hmn hnk ⊢
  exact Nat.le_trans hmn hnk

theorem le_total_rank (t : Target) (m n : Modifier) :
    (decide (t.modifierRank m ≤ t.modifierRank n) ||
      decide (t.modifierRank n ≤ t.modifierRank m)) = true := by
  simpa using Nat.le_total _ _

theorem pairwise_ranked (t : Target) (ms : List Modifier) :
    (t.ranked ms).Pairwise fun m n => t.modifierRank m ≤ t.modifierRank n := by
  simpa [Target.ranked] using
    List.pairwise_mergeSort (le_trans_rank t) (le_total_rank t) ms.eraseDups

theorem annotates_of_le (h : t.modifierRank m ≤ t.modifierRank n) (hn : t.annotates n = true) :
    t.annotates m = true := by
  cases t with
  | java =>
    rw [annotates_java] at hn
    cases hn
  | kotlin =>
    rw [← Bool.not_eq_false]
    intro hm
    rw [modifierRank_of_annotates hn, modifierRank_of_not_annotates hm] at h
    exact absurd h (by simp)

theorem ranked_eq_append (t : Target) (ms : List Modifier) :
    t.ranked ms =
      (t.ranked ms).filter t.annotates ++ (t.ranked ms).filter fun m => !t.annotates m :=
  eq_filter_append_filter (pairwise_ranked t ms) fun _ _ => annotates_of_le

theorem annotations_ranked (t : Target) (ms : List Modifier) :
    (t.ranked ms).filter t.annotates = ms.eraseDups.filter t.annotates := by
  have hpairwise : (ms.eraseDups.filter t.annotates).Pairwise fun m n =>
      decide (t.modifierRank m ≤ t.modifierRank n) = true := by
    refine List.pairwise_of_forall_mem_list fun m hm n _ => ?_
    rw [modifierRank_of_annotates (List.mem_filter.mp hm).2, decide_eq_true_eq]
    exact Nat.zero_le _
  have hsublist : ms.eraseDups.filter t.annotates <+ t.ranked ms :=
    List.sublist_mergeSort (le_trans_rank t) (le_total_rank t) hpairwise List.filter_sublist
  have hfilter := hsublist.filter t.annotates
  simp only [List.filter_filter, Bool.and_self] at hfilter
  exact (hfilter.eq_of_length ((List.mergeSort_perm _ _).filter _).length_eq.symm).symm

/-- Every keyword has a rank of its own, so their order is that of their ranks. -/
theorem keywords_ranked (h : ∀ m, m ∈ ms ↔ m ∈ ms') :
    (t.ranked ms).filter (fun m => !t.annotates m) =
      (t.ranked ms').filter fun m => !t.annotates m := by
  have hperm : t.ranked ms ~ t.ranked ms' :=
    (List.perm_ext_iff_of_nodup (nodup_ranked t ms) (nodup_ranked t ms')).mpr fun m => by
      rw [mem_ranked, mem_ranked, h]
  refine List.Perm.eq_of_pairwise ?_ ((pairwise_ranked t ms).filter _)
    ((pairwise_ranked t ms').filter _) (hperm.filter _)
  intro m n hm hn hmn hnm
  have hrank (k : Modifier) (l : List Modifier)
      (hk : k ∈ l.filter fun m => !t.annotates m) :
      t.modifierRank k = k.rank + if t = .java then 0 else 1 :=
    modifierRank_of_not_annotates (by simpa using (List.mem_filter.mp hk).2)
  rw [hrank m _ hm, hrank n _ hn] at hmn hnm
  exact rank_inj (by omega)

end Order

section Text

theorem join_words (vs : List String) :
    (String.join (vs.map (· ++ " "))).toList = [' '].intercalate (vs.map String.toList ++ [[]]) := by
  rw [String.toList_join, List.flatMap_map]
  induction vs with
  | nil => rfl
  | cons v vs ih =>
    rw [List.flatMap_cons, ih]
    cases vs <;> simp [List.intercalate_cons_cons]

theorem join_words_inj {vs ws : List String} (hvs : ∀ v ∈ vs, ' ' ∉ v.toList)
    (hws : ∀ w ∈ ws, ' ' ∉ w.toList)
    (h : String.join (vs.map (· ++ " ")) = String.join (ws.map (· ++ " "))) : vs = ws := by
  have hsplit {vs : List String} (hvs : ∀ v ∈ vs, ' ' ∉ v.toList) :
      List.splitOn ' ' (String.join (vs.map (· ++ " "))).toList = vs.map String.toList ++ [[]] := by
    rw [join_words]
    refine List.splitOn_intercalate ' ' ?_ (by simp)
    rw [List.forall_mem_append, List.forall_mem_map]
    exact ⟨hvs, by simp⟩
  have hwords := hsplit hvs
  rw [h, hsplit hws] at hwords
  have hinj : Function.Injective String.toList := fun _ _ => String.toList_inj.mp
  exact (List.map_injective_iff.mpr hinj (List.append_cancel_right hwords)).symm

theorem text_inj {v w : String} (h : text v = text w) : v = w := by
  unfold text at h
  split at h <;> split at h <;> simp_all

end Text

def Target.annotationWords (t : Target) (ms : List Modifier) : List String :=
  (ms.eraseDups.filter t.annotates).filterMap t.modifierKeyword?

/-- The words of a set of modifiers: annotations and then keywords, one for each modifier
that the language spells. -/
structure WordsOf (t : Target) (ms : List Modifier) (annotations keywords : List String) :
    Prop where
  marked : ∀ w ∈ annotations, isMarked w = true
  unmarked : ∀ w ∈ keywords, isMarked w = false
  once : ∀ m w, t.modifierKeyword? m = some w →
    (annotations ++ keywords).count w = if m ∈ ms then 1 else 0
  spelled : ∀ w ∈ annotations ++ keywords, ∃ m ∈ ms, t.modifierKeyword? m = some w

theorem WordsOf.blank_not_mem {annotations keywords : List String}
    (h : WordsOf t ms annotations keywords) : ∀ w ∈ annotations ++ keywords, ' ' ∉ w.toList := by
  intro w hw
  obtain ⟨m, -, hm⟩ := h.spelled w hw
  exact blank_not_mem_keyword hm

theorem count_modifierWords (h : t.modifierKeyword? m = some w) :
    (Style.modifierWords t ms).count w = if m ∈ ms then 1 else 0 := by
  have hnodup : (Style.modifierWords t ms).Nodup :=
    (nodup_ranked t ms).filterMap fun m n w hm hn => modifierKeyword?_inj hm hn
  split
  · next hmem =>
    exact List.count_eq_one_of_mem hnodup (List.mem_filterMap.mpr ⟨m, mem_ranked.mpr hmem, h⟩)
  · next hmem =>
    refine List.count_eq_zero.mpr fun hw => hmem ?_
    obtain ⟨n, hn, hnw⟩ := List.mem_filterMap.mp hw
    rw [modifierKeyword?_inj h hnw]
    exact mem_ranked.mp hn

/-- The words of modifiers are their annotations, in the order in which these first occur,
and keywords that do not depend on the order of modifiers. -/
theorem modifierWords_eq (t : Target) (ms : List Modifier) :
    Style.modifierWords t ms =
      t.annotationWords ms ++
        ((t.ranked ms).filter fun m => !t.annotates m).filterMap t.modifierKeyword? := by
  rw [Target.annotationWords, ← annotations_ranked, ← List.filterMap_append, ← ranked_eq_append]
  rfl

theorem wordsOf_modifierWords (t : Target) (ms : List Modifier) :
    WordsOf t ms (t.annotationWords ms)
      (((t.ranked ms).filter fun m => !t.annotates m).filterMap t.modifierKeyword?) where
  marked w hw := by
    rw [Target.annotationWords, ← (filter_isMarked t _).1] at hw
    exact (List.mem_filter.mp hw).2
  unmarked w hw := by
    rw [← (filter_isMarked t _).2] at hw
    simpa using (List.mem_filter.mp hw).2
  once m w h := by rw [← modifierWords_eq, count_modifierWords h]
  spelled w hw := by
    rw [← modifierWords_eq] at hw
    obtain ⟨m, hm, hmw⟩ := List.mem_filterMap.mp hw
    exact ⟨m, mem_ranked.mp hm, hmw⟩

theorem annotationWords_java (ms : List Modifier) : Target.java.annotationWords ms = [] := by
  simp [Target.annotationWords, annotates_java]

theorem modifiers_eq_iff (s : Style) (h : ∀ m, m ∈ ms ↔ m ∈ ms') :
    s.modifiers ms = s.modifiers ms' ↔
      s.target.annotationWords ms = s.target.annotationWords ms' := by
  have hblank := (wordsOf_modifierWords s.target ms).blank_not_mem
  have hblank' := (wordsOf_modifierWords s.target ms').blank_not_mem
  rw [Style.modifiers, Style.modifiers, modifierWords_eq, modifierWords_eq]
  rw [keywords_ranked h] at hblank ⊢
  constructor
  · intro heq
    exact List.append_cancel_right (join_words_inj hblank hblank' (text_inj heq))
  · intro heq
    rw [heq]

/-- Of two lists of the same modifiers the same words are written, each once and with a blank
behind it: annotations first, and then the same keywords in the same order. The texts are the
same if and only if the annotations first occur in the same order, as they do in Java, which
has none. -/
theorem modifiers_alike_iff (s : Style) (h : ∀ m, m ∈ ms ↔ m ∈ ms') :
    (∃ keywords, ∀ l ∈ [ms, ms'],
      WordsOf s.target l (s.target.annotationWords l) keywords ∧
      s.modifiers l =
        text (String.join ((s.target.annotationWords l ++ keywords).map (· ++ " ")))) ∧
    (s.modifiers ms = s.modifiers ms' ↔
      s.target.annotationWords ms = s.target.annotationWords ms') ∧
    (s.target = .java → s.modifiers ms = s.modifiers ms') := by
  have hiff := modifiers_eq_iff s h
  refine ⟨⟨((s.target.ranked ms').filter fun m => !s.target.annotates m).filterMap
    s.target.modifierKeyword?, ?_⟩, hiff, fun hjava => hiff.mpr ?_⟩
  · have hwords := wordsOf_modifierWords s.target ms
    rw [keywords_ranked h] at hwords
    simp only [List.forall_mem_cons]
    refine ⟨⟨hwords, ?_⟩, ⟨wordsOf_modifierWords s.target ms', ?_⟩, nofun⟩
    · rw [Style.modifiers, modifierWords_eq, keywords_ranked h]
    · rw [Style.modifiers, modifierWords_eq]
  · rw [hjava, annotationWords_java, annotationWords_java]

theorem modifiers_alike_iff_field :
    (∀ m : Modifier, m ∈ [.final, .volatile, .private] ↔ m ∈ [.private, .final, .volatile]) ∧
      Style.modifiers ⟨.kotlin, 4⟩ [.final, .volatile, .private] =
        Style.modifiers ⟨.kotlin, 4⟩ [.private, .final, .volatile] := by
  have hset : ∀ m : Modifier,
      m ∈ [.final, .volatile, .private] ↔ m ∈ [.private, .final, .volatile] := by
    intro m
    cases m <;> decide
  exact ⟨hset, (modifiers_alike_iff ⟨.kotlin, 4⟩ hset).2.1.mpr (by decide)⟩

/-- Two annotations stay in the order in which they are given. -/
theorem exists_reordered :
    ¬ ∀ (s : Style) (ms ms' : List Modifier), (∀ m, m ∈ ms ↔ m ∈ ms') →
      s.modifiers ms = s.modifiers ms' := by
  intro h
  have hset : ∀ m : Modifier, m ∈ [.transient, .volatile] ↔ m ∈ [.volatile, .transient] := by
    intro m
    cases m <;> decide
  exact absurd ((modifiers_eq_iff ⟨.kotlin, 4⟩ hset).mp (h _ _ _ hset)) (by decide)

end Unparse
