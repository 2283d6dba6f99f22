import Unparse.Proofs.Layout.Leaves

/-! # Words in finished texts

A word without a line break and with no blank at its end survives the tidying of
the text that it is written in.
-/

namespace Unparse.Text

variable {w : List Char} {c : Char}

theorem lines_word_append (hw : w ≠ []) (hbreak : '\n' ∉ w) (t : List Char) :
    lines (w ++ t) = (w ++ (lines t).headD []) :: (lines t).tail := by
  induction w with
  | nil => exact absurd rfl hw
  | cons c w ih =>
    obtain ⟨hc, hbreak⟩ : '\n' ≠ c ∧ '\n' ∉ w := by simpa using hbreak
    by_cases hnil : w = []
    · subst hnil
      cases ht : lines t <;> simp [consLine, hc.symm, ht]
    · simp [consLine, hc.symm, ih hnil hbreak]

theorem exists_lines_append (s : List Char) :
    ∃ ls l, '\n' ∉ l ∧ ∀ t, lines (s ++ t) = ls ++ lines (l ++ t) := by
  induction s with
  | nil => exact ⟨[], [], by simp, fun _ => rfl⟩
  | cons c s ih =>
    obtain ⟨ls, l, hl, hlines⟩ := ih
    by_cases hc : c = '\n'
    · refine ⟨[] :: ls, l, hl, fun t => ?_⟩
      simp [hlines, consLine, hc]
    by_cases hnil : ls = []
    · refine ⟨[], c :: l, by simp [hl, Ne.symm hc], fun t => ?_⟩
      simp [hlines, hnil]
    · refine ⟨consLine c ls, l, hl, fun t => ?_⟩
      rw [List.cons_append, lines_cons, hlines, consLine_append c hnil]

theorem trimEnd_append (hc : isBlank c = false) (p q : List Char) :
    trimEnd (p ++ [c] ++ q) = p ++ [c] ++ trimEnd q := by
  have hdrop : (q.reverse ++ (p ++ [c]).reverse).dropWhile isBlank =
      q.reverse.dropWhile isBlank ++ (p ++ [c]).reverse := by
    rw [List.dropWhile_append]
    split
    · next hempty => simp_all
    · rfl
  rw [trimEnd, List.reverse_append, hdrop, List.reverse_append, List.reverse_reverse, trimEnd]

theorem exists_intercalate (sep : List Char) (ls ms : List (List Char)) :
    ∃ x y, ∀ l, sep.intercalate (ls ++ l :: ms) = x ++ l ++ y := by
  induction ls with
  | nil =>
    cases ms with
    | nil => exact ⟨[], [], by simp⟩
    | cons m ms => exact ⟨[], sep ++ sep.intercalate (m :: ms), by simp⟩
  | cons first ls ih =>
    obtain ⟨x, y, h⟩ := ih
    refine ⟨first ++ sep ++ x, y, fun l => ?_⟩
    cases ls <;> simp_all [List.intercalate_cons_cons]

/-- Tidying a text copies a word in it, if the word has no line break and no
blank at its end. What becomes of the rest does not depend on the word. -/
theorem exists_tidy (before after : List Char) :
    ∃ x y, ∀ (s : String) (w : List Char) (c : Char), s.toList = before ++ w ++ after →
      '\n' ∉ w → w.getLast? = some c → isBlank c = false → (tidy s).toList = x ++ w ++ y := by
  obtain ⟨ls, l, hl, hlines⟩ := exists_lines_append before
  obtain ⟨x, y, hjoin⟩ := exists_intercalate ['\n'] (ls.map trimEnd)
    ((lines after).tail.map trimEnd)
  refine ⟨x ++ l, trimEnd ((lines after).headD []) ++ y, fun s w c hs hw hlast hc => ?_⟩
  obtain ⟨init, rfl⟩ := List.getLast?_eq_some_iff.mp hlast
  have hword : lines (l ++ (init ++ [c]) ++ after) =
      (l ++ (init ++ [c]) ++ (lines after).headD []) :: (lines after).tail :=
    lines_word_append (by simp) (by simp_all) after
  have htrim : trimEnd (l ++ (init ++ [c]) ++ (lines after).headD []) =
      l ++ (init ++ [c]) ++ trimEnd ((lines after).headD []) := by
    simpa using trimEnd_append hc (l ++ init) ((lines after).headD [])
  calc (tidy s).toList
    _ = ['\n'].intercalate ((lines s.toList).map trimEnd) := by
      simp [tidy, String.toList_intercalate, Function.comp_def]
    _ = ['\n'].intercalate (ls.map trimEnd ++
          (l ++ (init ++ [c]) ++ trimEnd ((lines after).headD [])) ::
            (lines after).tail.map trimEnd) := by
      rw [hs, List.append_assoc, hlines, ← List.append_assoc, hword, List.map_append,
        List.map_cons, htrim]
    _ = x ++ l ++ (init ++ [c]) ++ (trimEnd ((lines after).headD []) ++ y) := by
      rw [hjoin]
      simp

/-- A word without a line break and with no blank at its end survives tidying. -/
theorem infix_tidy {s : String} (hw : '\n' ∉ w) (hlast : w.getLast? = some c)
    (hc : isBlank c = false) (h : w <:+: s.toList) : w <:+: (tidy s).toList := by
  obtain ⟨before, after, hs⟩ := h
  obtain ⟨x, y, htidy⟩ := exists_tidy before after
  exact ⟨x, y, (htidy s w c hs.symm hw hlast hc).symm⟩

end Unparse.Text

namespace Unparse.Layout

theorem Doc.infix_render {d : Doc} {s : String} {c : Char} (h : word s ∈ d.leaves)
    (hs : '\n' ∉ s.toList) (hlast : s.toList.getLast? = some c) (hc : Text.isBlank c = false)
    (width : Nat) : s.toList <:+: (d.render width).toList := by
  refine Text.infix_tidy hs hlast hc ?_
  rw [String.toList_join]
  refine List.infix_of_mem_flatten ?_
  rw [List.map_map, List.mem_map]
  exact ⟨_, text_mem_layout h width, rfl⟩

end Unparse.Layout
