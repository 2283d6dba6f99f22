import Unparse.Proofs.Layout.Words
import Unparse.Proofs.Quoted.Spelling

/-! # Spelled constants

The spelling of a character or string constant is read as the constant. It ends
at the first quote that no backslash escapes, and it goes over no end of a line,
so it stands in a finished text as it was spelled.
-/

namespace Unparse.Quoted

open Layout (Doc)
open Reading (escapeDollar literal_kotlin_string)
open Text (escapeChar escape isControl hexDigits isBlank tidy)

def spelling (t : Target) (q : Constant) (c : Char) : List Char :=
  match t, q with
  | .kotlin, .string _ => (escapeChar '"' c).flatMap escapeDollar
  | _, q => escapeChar q.mark c

def inner (t : Target) (q : Constant) : List Char := q.chars.flatMap (spelling t q)

theorem toList_literal (t : Target) (q : Constant) :
    (t.literal q.literal).toList = q.mark :: inner t q ++ [q.mark] := by
  cases q with
  | char c => cases t <;> exact String.toList_ofList
  | string s =>
    cases t with
    | java => exact String.toList_ofList
    | kotlin =>
      rw [Constant.literal, literal_kotlin_string, escape, List.flatMap_assoc]
      exact String.toList_ofList

theorem mark_or (q : Constant) : q.mark = '"' ∨ q.mark = '\'' := by
  cases q with
  | char c => exact .inr rfl
  | string s => exact .inl rfl

/-! ## Characters of a spelling -/

variable {mark x c : Char} {cs : List Char}

/-- The characters that spell others. -/
def alphabet : List Char := "\\\"'nrtbu0123456789abcdef".toList

theorem mem_of_spells (hm : mark = '"' ∨ mark = '\'') (h : Spells mark c cs) (hx : x ∈ cs) :
    isControl x = false ∧ (x = c ∨ x ∈ alphabet) := by
  have hall (x : Char) (hx : x ∈ alphabet) : isControl x = false := by
    have hprintable : alphabet.all (!isControl ·) = true := by decide
    simpa using List.all_eq_true.mp hprintable x hx
  cases h with
  | bare _ _ hc =>
    obtain rfl := List.mem_singleton.mp hx
    exact ⟨hc, .inl rfl⟩
  | @letter d h =>
    have hletters : ∀ p ∈ letters mark, p.1 ∈ alphabet := by rcases hm with rfl | rfl <;> decide
    have hmem : x ∈ alphabet := by
      rcases List.mem_pair.mp hx with rfl | rfl
      · decide
      · exact hletters _ h
    exact ⟨hall x hmem, .inr hmem⟩
  | code h =>
    obtain ⟨high, hhigh, low, hlow, -, hdigits⟩ := hexDigits_of_isControl h
    have hdigit : ∀ d < 16, Nat.digitChar d ∈ alphabet := by decide
    have hmem : x ∈ alphabet := by
      simp only [hdigits, List.mem_cons, List.not_mem_nil, or_false] at hx
      rcases hx with rfl | rfl | rfl | rfl | rfl | rfl
      · decide
      · decide
      · exact hdigit 0 (by decide)
      · exact hdigit 0 (by decide)
      · exact hdigit high hhigh
      · exact hdigit low hlow
    exact ⟨hall x hmem, .inr hmem⟩

theorem flatMap_escapeDollar (h : '$' ∉ cs) : cs.flatMap escapeDollar = cs := by
  induction cs with
  | nil => rfl
  | cons c cs ih =>
    obtain ⟨hc, hcs⟩ : '$' ≠ c ∧ '$' ∉ cs := by simpa using h
    rw [List.flatMap_cons, ih hcs, escapeDollar, if_neg hc.symm]
    rfl

/-- Kotlin spells a dollar sign with a backslash, and everything else as it is
spelled without regard to templates. -/
theorem escapeDollar_of_spells (h : Spells '"' c cs) :
    c = '$' ∧ cs.flatMap escapeDollar = ['\\', '$'] ∨
      c ≠ '$' ∧ cs.flatMap escapeDollar = cs := by
  by_cases hc : c = '$'
  · left
    subst hc
    cases h with
    | bare => exact ⟨rfl, rfl⟩
    | letter h => simp [letters] at h
    | code h => cases h
  · right
    refine ⟨hc, flatMap_escapeDollar fun hmem => ?_⟩
    rcases (mem_of_spells (.inl rfl) h hmem).2 with hself | halphabet
    · exact hc hself.symm
    · revert halphabet
      decide

/-! ## Reading a spelled constant -/

theorem java_stands (q : Constant) : Java.Stands q.mark (inner .java q) q.chars := by
  apply Java.Stands.flatMap
  intro c
  exact Java.stands_of_spells (mark_or q) (spells_escapeChar q.mark c)

theorem kotlin_reads_spelling (q : Constant) (c : Char) :
    Reads (Kotlin.step q.mark) .plain (spelling .kotlin q c) [c] := by
  cases q with
  | char d =>
    have hmark : ¬ (c = '$' ∧ '\'' = '"') := by simp
    exact Kotlin.reads_of_spells (.inr rfl) (spells_escapeChar '\'' c) hmark
  | string s =>
    have hspells := spells_escapeChar '"' c
    rcases escapeDollar_of_spells hspells with ⟨rfl, hdollar⟩ | ⟨hc, hdollar⟩
    · rw [spelling, hdollar]
      exact Kotlin.reads_escape (.inl rfl) (by decide) rfl
    · rw [spelling, hdollar]
      exact Kotlin.reads_of_spells (.inl rfl) hspells fun h => hc h.1

theorem kotlin_reads (q : Constant) :
    Reads (Kotlin.step q.mark) .plain (inner .kotlin q) q.chars := by
  apply Reads.flatMap
  exact kotlin_reads_spelling q

theorem exists_source (t : Target) (q : Constant) :
    ∃ cs, source t (t.literal q.literal).toList = some (q.mark :: cs) ∧
      contents t q.mark cs = some (q.chars, []) := by
  have hmark : q.mark ≠ '\\' := by rcases mark_or q with h | h <;> rw [h] <;> decide
  rw [toList_literal]
  cases t with
  | java =>
    obtain ⟨ds, htranslates, hreads⟩ := java_stands q
    have hquotes : Java.Translates (q.mark :: inner .java q ++ [q.mark])
        (q.mark :: ds ++ [q.mark]) :=
      ((Java.translates_bare hmark).append htranslates).append (Java.translates_bare hmark)
    have hclose : Java.step q.mark .plain q.mark = some (.close []) := by
      rw [Java.step, Java.plain, if_pos rfl]
    refine ⟨ds ++ [q.mark], ?_, hreads.close hclose []⟩
    simpa [source, Java.translate] using hquotes []
  | kotlin =>
    have hclose : Kotlin.step q.mark .plain q.mark = some (.close []) := by
      rw [Kotlin.step, if_pos rfl]
    exact ⟨inner .kotlin q ++ [q.mark], rfl, (kotlin_reads q).close hclose []⟩

theorem readConstant_literal (t : Target) (q : Constant) :
    readConstant t (t.literal q.literal) = some q := by
  obtain ⟨cs, hsource, hcontents⟩ := exists_source t q
  rw [readConstant, hsource]
  cases q with
  | char c => simp_all [Constant.mark, Constant.chars]
  | string s => simp_all [Constant.mark, Constant.chars]

/-! ## Escaped characters -/

/-- The characters that no backslash escapes. The flag tells whether a backslash
escapes the first one. -/
def unescaped : Bool → List Char → List Char
  | _, [] => []
  | true, _ :: cs => unescaped false cs
  | false, c :: cs => if c = '\\' then unescaped true cs else c :: unescaped false cs

/-- A part of a quoted text where a character does not stand unescaped, whatever
follows. -/
def Hides (x : Char) (cs : List Char) : Prop :=
  ∀ t, x ∈ unescaped false (cs ++ t) → x ∈ unescaped false t

theorem Hides.flatMap {s : List Char} {f : Char → List Char} (h : ∀ c, Hides x (f c)) :
    Hides x (s.flatMap f) := by
  induction s with
  | nil => exact fun _ hx => hx
  | cons c s ih =>
    intro t hx
    rw [List.flatMap_cons, List.append_assoc] at hx
    exact ih t (h c _ hx)

theorem hides_pair (x d : Char) : Hides x ['\\', d] := by
  intro t hx
  simpa [unescaped] using hx

theorem hides_of_not_mem (hx : x ∉ cs) (hslash : '\\' ∉ cs) : Hides x cs := by
  induction cs with
  | nil => exact fun _ h => h
  | cons c cs ih =>
    obtain ⟨hxc, hxcs⟩ : x ≠ c ∧ x ∉ cs := by simpa using hx
    obtain ⟨hc, hcs⟩ : '\\' ≠ c ∧ '\\' ∉ cs := by simpa using hslash
    intro t h
    rw [List.cons_append, unescaped, if_neg hc.symm] at h
    exact ih hxcs hcs t (List.mem_of_ne_of_mem hxc h)

theorem hides_of_spells (hx : x = '"' ∨ x = '\'' ∨ x = '$') (h : Spells mark c cs)
    (hbare : x = mark ∨ x ≠ c) : Hides x cs := by
  cases h with
  | bare hslash hmark =>
    have hxc : x ≠ c := by
      rcases hbare with rfl | hxc
      · exact hmark.symm
      · exact hxc
    apply hides_of_not_mem
    · simpa using hxc
    · simpa using hslash.symm
  | letter => exact hides_pair x _
  | code h =>
    obtain ⟨high, hhigh, low, hlow, -, hdigits⟩ := hexDigits_of_isControl h
    have hnot {y : Char} (hy : ∀ d < 16, Nat.digitChar d ≠ y) : y ∉ hexDigits c.toNat := by
      have hdigit (d : Nat) (hd : d < 16) : y ≠ Nat.digitChar d := (hy d hd).symm
      simp [hdigits, hdigit, hhigh, hlow]
    have hhides : Hides x (hexDigits c.toNat) := by
      apply hides_of_not_mem
      · exact hnot (by rcases hx with rfl | rfl | rfl <;> decide)
      · exact hnot (by decide)
    intro t ht
    exact hhides t (hides_pair x 'u' _ ht)

theorem hides_mark (t : Target) (q : Constant) (c : Char) :
    Hides q.mark (spelling t q c) := by
  have hquote : q.mark = '"' ∨ q.mark = '\'' ∨ q.mark = '$' :=
    (mark_or q).imp_right .inl
  have hplain : Hides q.mark (escapeChar q.mark c) :=
    hides_of_spells hquote (spells_escapeChar q.mark c) (.inl rfl)
  cases t with
  | java => exact hplain
  | kotlin =>
    cases q with
    | char d => exact hplain
    | string s =>
      rcases escapeDollar_of_spells (spells_escapeChar '"' c) with ⟨-, h⟩ | ⟨-, h⟩
      · rw [spelling, h]
        exact hides_pair _ '$'
      · rw [spelling, h]
        exact hplain

theorem hides_dollar (s : String) (c : Char) : Hides '$' (spelling .kotlin (.string s) c) := by
  have hspells := spells_escapeChar '"' c
  rcases escapeDollar_of_spells hspells with ⟨-, h⟩ | ⟨hc, h⟩
  · rw [spelling, h]
    exact hides_pair _ '$'
  · rw [spelling, h]
    exact hides_of_spells (.inr (.inr rfl)) hspells (.inr hc.symm)

/-! ## Lines -/

theorem isControl_of_mem_spelling {t : Target} {q : Constant} (hx : x ∈ spelling t q c) :
    isControl x = false := by
  have hplain (hx : x ∈ escapeChar q.mark c) : isControl x = false :=
    (mem_of_spells (mark_or q) (spells_escapeChar q.mark c) hx).1
  cases t with
  | java => exact hplain hx
  | kotlin =>
    cases q with
    | char d => exact hplain hx
    | string s =>
      rcases escapeDollar_of_spells (spells_escapeChar '"' c) with ⟨-, h⟩ | ⟨-, h⟩
      · rw [spelling, h] at hx
        rcases List.mem_pair.mp hx with rfl | rfl <;> decide
      · rw [spelling, h] at hx
        exact hplain hx

/-- No control character is left in a spelling, and so no line break. -/
theorem isControl_of_mem_literal {t : Target} {q : Constant}
    (hx : x ∈ (t.literal q.literal).toList) : isControl x = false := by
  have hmark : isControl q.mark = false := by
    rcases mark_or q with h | h <;> rw [h] <;> decide
  rw [toList_literal] at hx
  simp only [List.cons_append, List.mem_cons, List.mem_append, List.not_mem_nil, or_false] at hx
  rcases hx with rfl | hx | rfl
  · exact hmark
  · obtain ⟨c, -, hx⟩ := List.mem_flatMap.mp hx
    exact isControl_of_mem_spelling hx
  · exact hmark

theorem not_mem_literal (t : Target) (q : Constant) (hx : isControl x = true) :
    x ∉ (t.literal q.literal).toList := by
  intro hmem
  rw [isControl_of_mem_literal hmem] at hx
  cases hx

theorem getLast?_literal (t : Target) (q : Constant) :
    (t.literal q.literal).toList.getLast? = some q.mark := by
  rw [toList_literal]
  exact List.getLast?_concat ..

theorem isBlank_mark (q : Constant) : isBlank q.mark = false := by
  rcases mark_or q with h | h <;> rw [h] <;> decide

theorem exists_tidy_literal (before after : String) :
    ∃ x y, ∀ (t : Target) (q : Constant),
      tidy (before ++ t.literal q.literal ++ after) = x ++ t.literal q.literal ++ y := by
  obtain ⟨x, y, htidy⟩ := Text.exists_tidy before.toList after.toList
  refine ⟨String.ofList x, String.ofList y, fun t q => ?_⟩
  apply String.toList_inj.mp
  simpa using htidy _ _ q.mark (by simp) (not_mem_literal t q (by decide))
    (getLast?_literal t q) (isBlank_mark q)

/-! ## Constants in a text -/

/-- The spelling of a constant is read as the constant. Its contents hold no
closing quote and, in a string of Kotlin, no start of a template but behind a
backslash. It has no line break, so tidying a text copies it, whatever stands
around it, and so does the layout of a document. -/
theorem spelled_constants :
    (∀ (t : Target) (q : Constant), readConstant t (t.literal q.literal) = some q ∧
      (t.literal q.literal).toList = q.mark :: inner t q ++ [q.mark] ∧
      q.mark ∉ unescaped false (inner t q) ∧
      '\n' ∉ (t.literal q.literal).toList ∧ '\r' ∉ (t.literal q.literal).toList) ∧
    (∀ s, '$' ∉ unescaped false (inner .kotlin (.string s))) ∧
    (∀ before after, ∃ x y, ∀ (t : Target) (q : Constant),
      tidy (before ++ t.literal q.literal ++ after) = x ++ t.literal q.literal ++ y) ∧
    ∀ (t : Target) (q : Constant) (d : Doc) (width : Nat),
      Doc.word (t.literal q.literal) ∈ d.leaves →
        (t.literal q.literal).toList <:+: (d.render width).toList := by
  have hhidden {x : Char} {cs : List Char} (h : Hides x cs) : x ∉ unescaped false cs := by
    intro hx
    have hnil := h [] (by rwa [List.append_nil])
    cases hnil
  refine ⟨fun t q => ⟨?_, ?_, ?_, ?_, ?_⟩, ?_, ?_, ?_⟩
  · exact readConstant_literal t q
  · exact toList_literal t q
  · exact hhidden (.flatMap (hides_mark t q))
  · exact not_mem_literal t q (by decide)
  · exact not_mem_literal t q (by decide)
  · exact fun s => hhidden (.flatMap (hides_dollar s))
  · exact exists_tidy_literal
  · intro t q d width hleaf
    exact Doc.infix_render hleaf (not_mem_literal t q (by decide)) (getLast?_literal t q)
      (isBlank_mark q) width

theorem spelled_constants_word :
    (Target.kotlin.literal (.string "$a")).toList <:+:
      ((Doc.word (Target.kotlin.literal (.string "$a"))).render 80).toList :=
  spelled_constants.2.2.2 .kotlin (.string "$a") _ 80 (by simp [Doc.leaves, Constant.literal])

end Unparse.Quoted
