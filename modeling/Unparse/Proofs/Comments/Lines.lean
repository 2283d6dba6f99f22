import Mathlib.Data.List.Induction
import Mathlib.Data.List.TakeWhile
import Unparse.Proofs.Layout.Alike
import Unparse.Proofs.Layout.Stretches
import Unparse.Proofs.Layout.Words

/-! # Lines of code

A line is a comment if nothing but its indentation stands in front of the comment mark,
and a line of code otherwise. Where documents differ only in words that stay inside
comments, their texts have the same lines of code.
-/

namespace Unparse.Text

/-- Both line feeds and carriage returns end a line, and with it a comment. -/
def endsLine (c : Char) : Bool := c = '\n' || c = '\r'

def isComment (line : List Char) : Bool :=
  ['/', '/'].isPrefixOf (line.dropWhile fun c => c = ' ' || c = '\t')

/-- The lines of a text that are no comments. -/
def codeLines (s : List Char) : List (List Char) :=
  (s.splitOnP endsLine).filter fun line => !isComment line

/-- A comment that leaves no line of code once it is tidied. The letter stands for
whatever follows it on its last line. -/
structure IsCovered (comment : List Char) : Prop where
  marked : ['/', '/'] <+: comment
  covered : codeLines (tidied (comment ++ ['x'])) = []

/-- Nothing but indentation is on the last line of a text. -/
def AtMargin (s : List Char) : Prop :=
  ∃ n, s = List.replicate n ' ' ∨ ∃ above, s = above ++ '\n' :: List.replicate n ' '

variable {s t u : List Char} {c : Char}

section Comments

theorem isComment_iff : isComment s = true ↔
    ∃ blanks t, s = blanks ++ '/' :: '/' :: t ∧ ∀ c ∈ blanks, c = ' ' ∨ c = '\t' := by
  have hcomment : isComment s = true ↔
      ∃ t, '/' :: '/' :: t = s.dropWhile fun c => c = ' ' || c = '\t' :=
    List.isPrefixOf_iff_prefix
  rw [hcomment]
  constructor
  · rintro ⟨t, ht⟩
    refine ⟨s.takeWhile fun c => c = ' ' || c = '\t', t, ?_, fun c hc => ?_⟩
    · rw [ht, List.takeWhile_append_dropWhile]
    · simpa using List.mem_takeWhile_imp hc
  · rintro ⟨blanks, t, rfl, hblanks⟩
    refine ⟨t, ?_⟩
    rw [List.dropWhile_append_of_pos (by simpa using hblanks)]
    rfl

theorem isComment_append (h : isComment s = true) (t : List Char) : isComment (s ++ t) = true := by
  obtain ⟨blanks, u, rfl, hblanks⟩ := isComment_iff.mp h
  exact isComment_iff.mpr ⟨blanks, u ++ t, by simp, hblanks⟩

theorem isComment_of_concat (h : isComment (s ++ [c]) = true) (hc : c ≠ '/') :
    isComment s = true := by
  obtain ⟨blanks, u, hs, hblanks⟩ := isComment_iff.mp h
  rcases List.eq_nil_or_concat u with rfl | ⟨u, d, rfl⟩
  · obtain ⟨-, hlast⟩ := List.append_inj' (hs.trans (List.append_cons blanks '/' ['/'])) rfl
    exact absurd (List.singleton_inj.mp hlast) hc
  · have hs' : s ++ [c] = (blanks ++ '/' :: '/' :: u) ++ [d] := by simpa using hs
    exact isComment_iff.mpr ⟨blanks, u, (List.append_inj' hs' rfl).1, hblanks⟩

theorem isComment_of_append_letter (h : isComment (s ++ 'x' :: t) = true) : isComment s = true := by
  unfold isComment at h ⊢
  rw [List.dropWhile_append] at h
  split at h
  · cases h
  · next hnil =>
    rcases hs : s.dropWhile (fun c => c = ' ' || c = '\t') with _ | ⟨c, _ | ⟨d, s⟩⟩
    · simp [hs] at hnil
    · simp [hs] at h
    · simpa [hs] using h

@[simp] theorem codeLines_nil : codeLines [] = [[]] := rfl

/-- What ends a line separates the lines in front of it from those behind it. -/
theorem codeLines_append_break (hc : endsLine c = true) (s t : List Char) :
    codeLines (s ++ c :: t) = codeLines s ++ codeLines t := by
  rw [codeLines, List.splitOnP_append_cons s t hc, List.filter_append]
  rfl

theorem codeLines_line (h : ∀ c ∈ s, endsLine c = false) :
    codeLines s = if isComment s then [] else [s] := by
  rw [codeLines, List.splitOnP_eq_singleton fun c hc => by simpa using h c hc]
  cases hs : isComment s <;> simp [hs]

theorem exists_codeLines_append (s : List Char) :
    ∃ ls l, ∀ t, (∀ c ∈ t, endsLine c = false) →
      codeLines (s ++ t) = ls ++ if isComment (l ++ t) then [] else [l ++ t] := by
  induction s using List.reverseRecOn with
  | nil => exact ⟨[], [], fun t ht => codeLines_line ht⟩
  | append_singleton s d ih =>
    cases hd : endsLine d with
    | true =>
      refine ⟨codeLines s, [], fun t ht => ?_⟩
      rw [List.append_assoc, List.singleton_append, codeLines_append_break hd, codeLines_line ht]
      rfl
    | false =>
      obtain ⟨ls, l, hls⟩ := ih
      refine ⟨ls, l ++ [d], fun t ht => ?_⟩
      simpa using hls (d :: t) (by simpa [hd] using ht)

theorem codeLines_concat_eq_nil (hc : endsLine c = false) (h : codeLines s = []) :
    codeLines (s ++ [c]) = [] := by
  obtain ⟨ls, l, hls⟩ := exists_codeLines_append s
  have hs := hls [] (by simp)
  rw [List.append_nil, h, List.append_nil] at hs
  rw [hls [c] (by simpa using hc)]
  cases hl : isComment l with
  | false => simp [hl] at hs
  | true =>
    obtain rfl : ls = [] := by simpa [hl] using hs.symm
    rw [isComment_append hl [c]]
    rfl

theorem codeLines_eq_nil_of_concat (hslash : c ≠ '/') (h : codeLines (s ++ [c]) = []) :
    codeLines s = [] := by
  cases hc : endsLine c with
  | true =>
    rw [codeLines_append_break hc] at h
    exact (List.append_eq_nil_iff.mp h).1
  | false =>
    obtain ⟨ls, l, hls⟩ := exists_codeLines_append s
    have hs := hls [] (by simp)
    rw [hls [c] (by simpa using hc)] at h
    rw [List.append_nil, List.append_nil] at hs
    rw [hs]
    cases hl : isComment (l ++ [c]) with
    | false => simp [hl] at h
    | true => simp_all [isComment_of_concat hl hslash]

theorem codeLines_eq_nil_of_append_letter (h : codeLines (s ++ 'x' :: t) = []) :
    codeLines (s ++ ['x']) = [] := by
  obtain ⟨ls, l, hls⟩ := exists_codeLines_append s
  have hline (u : List Char) (hu : ∀ c ∈ u, endsLine c = false)
      (h : codeLines (s ++ 'x' :: u) = []) : codeLines (s ++ ['x']) = [] := by
    rw [hls ('x' :: u) (by simpa [endsLine] using hu)] at h
    rw [hls ['x'] (List.forall_mem_singleton.mpr rfl)]
    cases hl : isComment (l ++ 'x' :: u) with
    | false => simp [hl] at h
    | true => simp_all [isComment_append (isComment_of_append_letter hl) ['x']]
  -- By induction on what follows, up to the end of the line.
  have hgoes (u t : List Char) (hu : ∀ c ∈ u, endsLine c = false)
      (h : codeLines (s ++ 'x' :: u ++ t) = []) : codeLines (s ++ ['x']) = [] := by
    induction t generalizing u with
    | nil => exact hline u hu (by simpa using h)
    | cons c t ih =>
      cases hc : endsLine c with
      | true =>
        rw [codeLines_append_break hc] at h
        exact hline u hu (List.append_eq_nil_iff.mp h).1
      | false => exact ih (u ++ [c]) (by simpa [or_imp, forall_and, hc] using hu) (by simpa using h)
  exact hgoes [] t (by simp) (by simpa using h)

theorem codeLines_append_congr (hs : codeLines s = []) (ht : codeLines t = []) (u : List Char) :
    codeLines (s ++ u) = codeLines (t ++ u) := by
  induction u generalizing s t with
  | nil => rw [List.append_nil, List.append_nil, hs, ht]
  | cons c u ih =>
    cases hc : endsLine c with
    | true => rw [codeLines_append_break hc, codeLines_append_break hc, hs, ht]
    | false =>
      rw [List.append_cons s, List.append_cons t]
      exact ih (codeLines_concat_eq_nil hc hs) (codeLines_concat_eq_nil hc ht)

theorem codeLines_intercalate {ls : List (List Char)} (h : ls ≠ []) :
    codeLines (['\n'].intercalate ls) = ls.flatMap codeLines := by
  induction ls with
  | nil => exact absurd rfl h
  | cons l ls ih =>
    by_cases hnil : ls = []
    · simp [hnil]
    · rw [List.intercalate_cons_of_ne_nil hnil, List.append_assoc, List.singleton_append,
        codeLines_append_break rfl, ih hnil, List.flatMap_cons]

end Comments

section Tidied

theorem trimEnd_concat (s : List Char) (c : Char) :
    trimEnd (s ++ [c]) = if isBlank c then trimEnd s else s ++ [c] := by
  cases h : isBlank c <;> simp [trimEnd, h]

theorem codeLines_trimEnd_eq_nil (h : codeLines s = []) : codeLines (trimEnd s) = [] := by
  induction s using List.reverseRecOn with
  | nil => exact h
  | append_singleton s c ih =>
    rw [trimEnd_concat]
    split
    · next hblank =>
      refine ih (codeLines_eq_nil_of_concat ?_ h)
      rintro rfl
      exact absurd hblank (by decide)
    · exact h

theorem codeLines_trimEnd_append_congr (hs : codeLines s = []) (ht : codeLines t = [])
    (u : List Char) : codeLines (trimEnd (s ++ u)) = codeLines (trimEnd (t ++ u)) := by
  induction u using List.reverseRecOn with
  | nil =>
    rw [List.append_nil, List.append_nil, codeLines_trimEnd_eq_nil hs, codeLines_trimEnd_eq_nil ht]
  | append_singleton u c ih =>
    rw [← List.append_assoc, ← List.append_assoc, trimEnd_concat, trimEnd_concat]
    split
    · exact ih
    · rw [List.append_assoc, List.append_assoc]
      exact codeLines_append_congr hs ht _

theorem codeLines_tidied_break (s : List Char) (ht : t ≠ []) :
    codeLines (tidied (s ++ '\n' :: t)) =
      codeLines (tidied (s ++ ['\n'])) ++ codeLines (tidied t) := by
  rw [tidied_append_break s ht, List.append_assoc, List.singleton_append,
    codeLines_append_break rfl]

theorem codeLines_tidied_of_append_letter (h : codeLines (tidied (s ++ 'x' :: t)) = []) :
    codeLines (tidied (s ++ ['x'])) = [] := by
  obtain ⟨ls, l, hbreak, hls⟩ := exists_lines_append s
  have htidied (t : List Char) : codeLines (tidied (s ++ 'x' :: t)) =
      (ls.map trimEnd).flatMap codeLines ++
        (codeLines (l ++ 'x' :: trimEnd ((lines t).headD [])) ++
          ((lines t).tail.map trimEnd).flatMap codeLines) := by
    have hline : lines (l ++ 'x' :: t) = (l ++ 'x' :: (lines t).headD []) :: (lines t).tail := by
      have hword : '\n' ∉ l ++ ['x'] := by simpa using hbreak
      simpa using lines_word_append (by simp) hword t
    have htrim (u : List Char) : trimEnd (l ++ 'x' :: u) = l ++ 'x' :: trimEnd u := by
      simpa using trimEnd_append (by decide : isBlank 'x' = false) l u
    rw [tidied, hls, hline, List.map_append, List.map_cons, htrim,
      codeLines_intercalate (by simp), List.flatMap_append, List.flatMap_cons]
  rw [htidied] at h ⊢
  obtain ⟨habove, hline, -⟩ := by simpa only [List.append_eq_nil_iff] using h
  simp only [habove, lines_nil, List.headD_nil, List.tail_nil, List.map_nil, List.flatMap_nil,
    List.append_nil, List.nil_append]
  exact codeLines_eq_nil_of_append_letter hline

theorem codeLines_tidied_append_congr (hs : codeLines s = []) (ht : codeLines t = [])
    (hsbreak : '\n' ∉ s) (htbreak : '\n' ∉ t) (u : List Char) :
    codeLines (tidied (s ++ u)) = codeLines (tidied (t ++ u)) := by
  have hne {s : List Char} (hs : codeLines s = []) : s ≠ [] := by
    rintro rfl
    cases hs
  have htidied {s : List Char} (hs : s ≠ []) (hbreak : '\n' ∉ s) :
      codeLines (tidied (s ++ u)) = codeLines (trimEnd (s ++ (lines u).headD [])) ++
        ((lines u).tail.map trimEnd).flatMap codeLines := by
    have hlines := congrArg (List.map trimEnd) (lines_word_append hs hbreak u)
    rw [tidied, hlines, List.map_cons, codeLines_intercalate (List.cons_ne_nil _ _),
      List.flatMap_cons]
  rw [htidied (hne hs) hsbreak, htidied (hne ht) htbreak,
    codeLines_trimEnd_append_congr hs ht]

/-- Behind lines that are comments however the last one goes on, a text goes on as behind
an empty comment. -/
theorem codeLines_tidied_append (h : codeLines (tidied (s ++ ['x'])) = []) (u : List Char) :
    codeLines (tidied (s ++ u)) = codeLines (tidied (['/', '/'] ++ u)) := by
  induction hn : s.length using Nat.strong_induction_on generalizing s
  next n ih =>
  by_cases hbreak : '\n' ∈ s
  · obtain ⟨a, b, rfl, -⟩ := List.eq_append_cons_of_mem hbreak
    rw [List.append_assoc, List.cons_append, codeLines_tidied_break a (by simp)] at h
    obtain ⟨ha, hb⟩ := List.append_eq_nil_iff.mp h
    have hne : b ≠ [] := by
      rintro rfl
      exact absurd hb (by decide)
    rw [List.append_assoc, List.cons_append, codeLines_tidied_break a (by simp [hne]), ha,
      List.nil_append]
    exact ih b.length (by simp [← hn]; omega) hb rfl
  · have hlines : lines (s ++ ['x']) = [s ++ ['x']] := by
      have hbreak' : '\n' ∉ s ++ ['x'] := by simpa using hbreak
      simpa using lines_word_append (by simp) hbreak' []
    have htidied : tidied (s ++ ['x']) = s ++ ['x'] := by
      rw [tidied, hlines, List.map_singleton, List.intercalate_singleton, trimEnd_concat]
      rfl
    rw [htidied] at h
    exact codeLines_tidied_append_congr (codeLines_eq_nil_of_concat (by decide) h) rfl hbreak
      (by decide) u

theorem codeLines_tidied_indented (n : Nat) (u : List Char) :
    codeLines (tidied (List.replicate n ' ' ++ '/' :: '/' :: u)) =
      codeLines (tidied ('/' :: '/' :: u)) := by
  have hmark : codeLines (List.replicate n ' ' ++ ['/', '/']) = [] := by
    have hcomment : isComment (List.replicate n ' ' ++ ['/', '/']) = true :=
      isComment_iff.mpr ⟨_, [], rfl, by simp +contextual [List.mem_replicate]⟩
    rw [codeLines_line, if_pos hcomment]
    simp +contextual [List.mem_replicate, or_imp, endsLine]
  simpa using codeLines_tidied_append_congr hmark (t := ['/', '/']) rfl
    (by simp [List.mem_replicate]) (by decide) u

/-- On a line that is blank so far, any covered comment may be written. -/
theorem IsCovered.codeLines_eq (hs : IsCovered s) (ht : IsCovered t) {before : List Char}
    (hbefore : AtMargin before) (u : List Char) :
    codeLines (tidied (before ++ s ++ u)) = codeLines (tidied (before ++ t ++ u)) := by
  have hgoes := codeLines_tidied_append hs.covered u
  rw [← codeLines_tidied_append ht.covered u] at hgoes
  obtain ⟨v, rfl⟩ := hs.marked
  obtain ⟨w, rfl⟩ := ht.marked
  obtain ⟨n, rfl | ⟨above, rfl⟩⟩ := hbefore
  · simpa [codeLines_tidied_indented] using hgoes
  · have hne (s : List Char) : List.replicate n ' ' ++ '/' :: '/' :: s ≠ [] := by simp
    simpa [codeLines_tidied_break above (hne _), codeLines_tidied_indented] using hgoes

end Tidied

end Unparse.Text

namespace Unparse.Layout

open Text (AtMargin IsCovered codeLines tidied)

variable {p q : Position} {ps ps' : List Piece}

def BothCovered (s s' : String) : Prop := IsCovered s.toList ∧ IsCovered s'.toList

theorem Piece.chars_reverse_cons (piece : Piece) (ps : List Piece) :
    Piece.chars (piece :: ps).reverse = Piece.chars ps.reverse ++ piece.spell.toList := by
  simp [Piece.chars]

theorem Written.atMargin (h : Written BothCovered p ps ps') (hp : p = .fresh) :
    AtMargin (Piece.chars ps.reverse) := by
  induction h with
  | nil => exact ⟨0, .inl rfl⟩
  | @newline _ ps _ indent =>
    rw [Piece.chars_reverse_cons]
    refine ⟨indent, .inr ⟨Piece.chars ps.reverse, ?_⟩⟩
    rw [Piece.spell, String.toList_ofList]
  | sub _ hle ih =>
    subst hp
    cases hle
    all_goals exact ih rfl
  | _ => cases hp

/-- By induction on what has been written, both texts go on with the same lines of code. -/
theorem Written.codeLines_eq (h : Written BothCovered p ps ps') (u : List Char) :
    codeLines (tidied (Piece.chars ps.reverse ++ u)) =
      codeLines (tidied (Piece.chars ps'.reverse ++ u)) := by
  induction h generalizing u with
  | nil => rfl
  | word s _ ih | behind s _ ih | newline _ _ ih =>
    rw [Piece.chars_reverse_cons, Piece.chars_reverse_cons, List.append_assoc, List.append_assoc]
    exact ih _
  | @comment ps ps' s s' h hs ih =>
    rw [Piece.chars_reverse_cons, Piece.chars_reverse_cons]
    calc codeLines (tidied (Piece.chars ps.reverse ++ s.toList ++ u))
      _ = codeLines (tidied (Piece.chars ps.reverse ++ s'.toList ++ u)) :=
        hs.1.codeLines_eq hs.2 (h.atMargin rfl) u
      _ = codeLines (tidied (Piece.chars ps'.reverse ++ s'.toList ++ u)) := by
        rw [List.append_assoc, List.append_assoc]
        exact ih _
  | sub _ _ ih => exact ih u

theorem Doc.Alike.codeLines_eq {d d' : Doc} (h : Doc.Alike BothCovered .fresh d d' q)
    (width : Nat) : codeLines (d.render width).toList = codeLines (d'.render width).toList := by
  have hchars (d : Doc) : (d.render width).toList =
      tidied (Piece.chars (d.layout width).reverse.reverse ++ []) := by
    rw [Doc.render, Text.toList_tidy, String.toList_join, List.flatMap_map, List.reverse_reverse,
      List.append_nil]
    rfl
  rw [hchars, hchars]
  exact (h.written width).codeLines_eq []

end Unparse.Layout
