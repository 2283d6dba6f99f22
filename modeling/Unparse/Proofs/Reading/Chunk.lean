import Mathlib.Data.List.Basic
import Unparse.Proofs.Reading.Token

/-! # Chunks of a text

A text is put together from chunks that are read as tokens of their own
wherever they stand. What may follow a chunk, what it starts and what it ends
with is all that chunks have to know of each other.
-/

namespace Unparse.Reading

/-- A chunk that is read as tokens of its own before anything. -/
structure Covers (cs : List Char) (ts : List Token) : Prop where
  reads : ∀ rest, lex .blank (cs ++ rest) = ts ++ lex .blank rest
  line : '\n' ∉ cs

/-- Whether a character may start an operand. A sign that stands before a tight
operand does not extend into it. -/
def mayStart (tight : Bool) (c : Char) : Bool :=
  c != ']' && (!tight || !(['-', '=', '!'].contains c))

/-- A chunk that is read as tokens of its own before what stands apart from
them. It has no blank at its end. -/
structure Spells (tight : Bool) (cs : List Char) (ts : List Token) : Prop where
  reads : ∀ rest, Apart rest → lex .blank (cs ++ rest) = ts ++ lex .blank rest
  line : '\n' ∉ cs
  first : ∃ c, cs.head? = some c ∧ mayStart tight c = true
  last : ∃ c, cs.getLast? = some c ∧ Text.isBlank c = false

theorem mayStart_mono {tight : Bool} {c : Char} (h : mayStart true c = true) :
    mayStart tight c = true := by
  cases tight
  · simp only [mayStart, Bool.and_eq_true] at h ⊢
    exact ⟨h.1, rfl⟩
  · exact h

variable {a b : List Char} {ts us : List Token} {tight τ : Bool}

namespace Spells

theorem ne_nil (h : Spells tight a ts) : a ≠ [] := by
  obtain ⟨c, hc, -⟩ := h.first
  rintro rfl
  cases hc

theorem head?_append (h : Spells tight a ts) (b : List Char) : (a ++ b).head? = a.head? := by
  obtain ⟨c, hc, -⟩ := h.first
  simp [hc]

theorem weaken (h : Spells true a ts) : Spells tight a ts :=
  { h with first := h.first.imp fun _ ⟨hc, hs⟩ => ⟨hc, mayStart_mono hs⟩ }

theorem append (ha : Spells tight a ts) (hb : Spells τ b us)
    (hr : ∀ rest, Apart rest → Apart (b ++ rest)) : Spells tight (a ++ b) (ts ++ us) where
  reads rest h := by
    rw [List.append_assoc, ha.reads _ (hr rest h), hb.reads rest h, List.append_assoc]
  line := by simp [ha.line, hb.line]
  first := by
    rw [ha.head?_append]
    exact ha.first
  last := by
    rw [List.getLast?_append_of_ne_nil a hb.ne_nil]
    exact hb.last

theorem append_covers (ha : Spells tight a ts) (hb : Covers b us)
    (hr : ∀ rest, Apart (b ++ rest)) (hl : ∃ c, b.getLast? = some c ∧ Text.isBlank c = false) :
    Spells tight (a ++ b) (ts ++ us) where
  reads rest _ := by
    rw [List.append_assoc, ha.reads _ (hr rest), hb.reads rest, List.append_assoc]
  line := by simp [ha.line, hb.line]
  first := by
    rw [ha.head?_append]
    exact ha.first
  last := by
    have hne : b ≠ [] := by
      rintro rfl
      obtain ⟨c, hc, -⟩ := hl
      cases hc
    rw [List.getLast?_append_of_ne_nil a hne]
    exact hl

end Spells

namespace Covers

theorem append (ha : Covers a ts) (hb : Covers b us) : Covers (a ++ b) (ts ++ us) where
  reads rest := by rw [List.append_assoc, ha.reads, hb.reads, List.append_assoc]
  line := by simp [ha.line, hb.line]

theorem append_spells (tight : Bool) (ha : Covers a ts) (hb : Spells τ b us)
    (hf : ∃ c, a.head? = some c ∧ mayStart tight c = true) :
    Spells tight (a ++ b) (ts ++ us) where
  reads rest h := by rw [List.append_assoc, ha.reads, hb.reads rest h, List.append_assoc]
  line := by simp [ha.line, hb.line]
  first := by
    obtain ⟨c, hc, hs⟩ := hf
    exact ⟨c, by simp [hc], hs⟩
  last := by
    rw [List.getLast?_append_of_ne_nil a hb.ne_nil]
    exact hb.last

end Covers

theorem Spells.sign {c : Char} (hc : c = '-' ∨ c = '!') (h : Spells true a ts) :
    Spells false (c :: a) (.symbol (String.ofList [c]) :: ts) where
  reads rest hr := by
    have hsign : lex .blank (c :: (a ++ rest)) = lex (.symbol [c]) (a ++ rest) := by
      rcases hc with rfl | rfl <;> rfl
    have hend : ∀ d ∈ (a ++ rest).head?, String.ofList ([c].reverse ++ [d]) ∉ longSymbols := by
      obtain ⟨d, hd, hs⟩ := h.first
      rw [h.head?_append, hd]
      rintro _ ⟨⟩
      simp only [mayStart, Bool.not_true, Bool.false_or, Bool.and_eq_true, Bool.not_eq_true',
        List.contains_eq_mem, decide_eq_false_iff_not, List.mem_cons, List.not_mem_nil,
        or_false, not_or] at hs
      obtain ⟨-, hm, he, hx⟩ := hs
      have hne : ∀ s ∈ longSymbols, s.toList ≠ [c, d] := by
        rcases hc with rfl | rfl <;> simp [longSymbols, Ne.symm hm, Ne.symm he, Ne.symm hx]
      intro hmem
      exact hne _ hmem (by simp)
    rw [List.cons_append, hsign, lex_symbol [c] hend, h.reads rest hr]
    rfl
  line := by rcases hc with rfl | rfl <;> simpa using h.line
  first := by rcases hc with rfl | rfl <;> exact ⟨_, rfl, rfl⟩
  last := by
    rw [← List.singleton_append, List.getLast?_append_of_ne_nil [c] h.ne_nil]
    exact h.last

namespace Pending

inductive Kind where
  | blank | word | number | quote | symbol
deriving DecidableEq

def kind : Pending → Kind
  | blank => .blank
  | word _ _ | array _ => .word
  | number _ | point _ => .number
  | quote _ _ _ | quoted _ => .quote
  | symbol _ => .symbol

theorem kind_of_extend? {p q : Pending} {c : Char} (h : p.extend? c = some q) :
    q.kind = p.kind := by
  revert h
  fun_cases extend? p c <;> rintro ⟨⟩ <;> rfl

theorem kind_of_extendAll? {p q : Pending} {cs : List Char} (h : p.extendAll? cs = some q) :
    q.kind = p.kind := by
  induction cs generalizing p with
  | nil => cases h; rfl
  | cons c cs ih =>
    obtain ⟨r, hr, hq⟩ := Option.bind_eq_some_iff.mp h
    rw [ih hq, kind_of_extend? hr]

def Clean : Pending → Prop
  | word s depth => '\n' ∉ s ∧ (depth = 0 → ∀ c ∈ s.head?, Text.isBlank c = false)
  | number s => '\n' ∉ s ∧ ∀ c ∈ s.head?, Text.isBlank c = false
  | array s | point s => '\n' ∉ s
  | blank | quote _ _ _ | quoted _ | symbol _ => True

end Pending

theorem isWordChar_of_isDigit {c : Char} (h : c.isDigit = true) : isWordChar c = true := by
  simp [isWordChar, Char.isAlphanum, h]

theorem isBlank_of_isAlphanum {c : Char} (h : c.isAlphanum = true) : Text.isBlank c = false := by
  have hval : c.toNat = c.val.toNat := rfl
  unfold Char.isAlphanum Char.isAlpha Char.isUpper Char.isLower Char.isDigit at h
  simp only [Bool.or_eq_true, Bool.and_eq_true, decide_eq_true_eq, UInt32.le_iff_toNat_le, ge_iff_le,
    UInt32.reduceToNat, Char.reduceVal] at h
  rw [Bool.eq_false_iff]
  simp only [Text.isBlank, ne_eq, Bool.or_eq_true, Bool.and_eq_true, decide_eq_true_eq,
    beq_iff_eq]
  omega

theorem isBlank_of_isWordChar {c : Char} (h : isWordChar c = true) : Text.isBlank c = false := by
  simp only [isWordChar, Bool.or_eq_true, beq_iff_eq, Bool.and_eq_true, Bool.not_eq_true'] at h
  rcases h with ((h | rfl) | rfl) | h
  · exact isBlank_of_isAlphanum h
  · rfl
  · rfl
  · exact h.2

theorem ne_newline_of_not_isBlank {c : Char} (h : Text.isBlank c = false) : '\n' ≠ c := by
  rintro rfl
  cases h

namespace Pending

theorem Clean.extend? {p q : Pending} {c : Char} (hp : p.Clean) (h : p.extend? c = some q) :
    q.Clean := by
  have hword : isWordChar c = true → Text.isBlank c = false := isBlank_of_isWordChar
  have hdigit : c.isDigit = true → isWordChar c = true := isWordChar_of_isDigit
  have hline : Text.isBlank c = false → '\n' ≠ c := ne_newline_of_not_isBlank
  have hclose : Text.isBlank ']' = false ∧ Text.isBlank '>' = false ∧ Text.isBlank '-' = false := by
    decide
  revert h hp
  fun_cases Pending.extend? p c <;> rintro hp ⟨⟩ <;>
    simp only [Clean, List.mem_cons, List.head?_cons] at hp ⊢ <;> grind

theorem Clean.extendAll? {p q : Pending} {cs : List Char} (hp : p.Clean)
    (h : p.extendAll? cs = some q) : q.Clean := by
  induction cs generalizing p with
  | nil => cases h; exact hp
  | cons c cs ih =>
    obtain ⟨r, hr, hq⟩ := Option.bind_eq_some_iff.mp h
    exact ih (hp.extend? hr) hq

theorem clean_ofChar (c : Char) : (ofChar c).Clean := by
  unfold ofChar
  have hline : Text.isBlank c = false → '\n' ≠ c := ne_newline_of_not_isBlank
  split_ifs <;> simp_all [Clean]

end Pending

theorem clean_of_scan? {cs : List Char} {q : Pending} (h : scan? cs = some q) : q.Clean := by
  cases cs with
  | nil => cases h
  | cons c cs => exact (Pending.clean_ofChar c).extendAll? h

theorem kind_of_scan? {cs : List Char} {q : Pending} (h : scan? cs = some q) :
    ∃ c, cs.head? = some c ∧ (Pending.ofChar c).kind = q.kind := by
  cases cs with
  | nil => cases h
  | cons c cs => exact ⟨c, rfl, (Pending.kind_of_extendAll? h).symm⟩

theorem mayStart_of_isWordChar {c : Char} (h : isWordChar c = true) : mayStart true c = true := by
  have hne (d : Char) (hd : isWordChar d = false) : c ≠ d := by
    rintro rfl
    simp [hd] at h
  simp [mayStart, hne ']' (by decide), hne '-' (by decide), hne '=' (by decide),
    hne '!' (by decide)]

theorem mayStart_of_kind {c : Char} {k : Pending.Kind} (hk : (Pending.ofChar c).kind = k)
    (h : k = .word ∨ k = .number) : mayStart true c = true := by
  subst hk
  unfold Pending.ofChar at h
  split_ifs at h with hb hd hq hw
  · simp [Pending.kind] at h
  · exact mayStart_of_isWordChar (isWordChar_of_isDigit hd)
  · simp [Pending.kind] at h
  · exact mayStart_of_isWordChar hw
  · simp [Pending.kind] at h

theorem getLast?_of_head?_reverse {cs : List Char} (hn : cs ≠ [])
    (h : ∀ c ∈ cs.reverse.head?, Text.isBlank c = false) :
    ∃ c, cs.getLast? = some c ∧ Text.isBlank c = false := by
  rw [List.head?_reverse] at h
  exact ⟨cs.getLast hn, List.getLast?_eq_some_getLast hn, h _ (List.getLast?_eq_some_getLast hn)⟩

theorem ne_nil_of_scan? {cs : List Char} {q : Pending} (h : scan? cs = some q) : cs ≠ [] := by
  rintro rfl
  cases h

theorem spells_word {s : String} (h : isWord s) : Spells true s.toList [.word s] := by
  have hs : scan? s.toList = some (.word s.toList.reverse 0) := by simpa [isWord] using h
  obtain ⟨hline, hlast⟩ := clean_of_scan? hs
  obtain ⟨c, hc, hk⟩ := kind_of_scan? hs
  exact
    { reads := fun _ hr => lex_word h hr
      line := by simpa using hline
      first := ⟨c, hc, mayStart_of_kind hk (.inl rfl)⟩
      last := getLast?_of_head?_reverse (ne_nil_of_scan? hs) (hlast rfl) }

theorem covers_symbol {s : String} (hs : scan? s.toList = some (.symbol s.toList.reverse))
    (hn : '\n' ∉ s.toList)
    (hl : ∀ u ∈ longSymbols, u.toList.take s.toList.length = s.toList → u.toList = s.toList) :
    Covers s.toList [.symbol s] where
  reads rest := by
    have hend : ∀ c ∈ rest.head?,
        String.ofList (s.toList.reverse.reverse ++ [c]) ∉ longSymbols := by
      intro c _ hm
      have h := hl _ hm (by simp)
      simp at h
    rw [lex_of_scan? hs, lex_symbol _ hend, List.reverse_reverse, String.ofList_toList]
    rfl
  line := hn

theorem covers_point : Covers ['.'] [.symbol "."] :=
  covers_symbol (s := ".") rfl (by decide) (by decide)

theorem apart_point {s : String} (h : isWord s) (rest : List Char) :
    Apart ('.' :: (s.toList ++ rest)) := by
  have hs : scan? s.toList = some (.word s.toList.reverse 0) := by simpa [isWord] using h
  obtain ⟨c, hc, hk⟩ := kind_of_scan? hs
  refine ⟨by decide, by decide, by simp, fun _ d hd => ?_⟩
  obtain rfl : c = d := by simpa [hc] using hd
  by_contra hdigit
  rw [Bool.not_eq_false] at hdigit
  have hblank : Text.isBlank c = false := isBlank_of_isWordChar (isWordChar_of_isDigit hdigit)
  simp [Pending.ofChar, hblank, hdigit, Pending.kind] at hk

theorem Spells.member (name : String) (h : Spells tight a ts) (hn : isWord name) :
    Spells tight (a ++ '.' :: name.toList) (ts ++ [.symbol ".", .word name]) :=
  h.append (covers_point.append_spells true (spells_word hn) ⟨_, rfl, rfl⟩)
    fun rest _ => apart_point hn rest

theorem Spells.around {c : List Char} {vs : List Token} (ha : Spells tight a ts)
    (hc : Covers c us) (hb : Spells τ b vs)
    (hs : ∃ d, c.head? = some d ∧ mayStart false d = true) (hr : ∀ rest, Apart (c ++ rest)) :
    Spells tight (a ++ (c ++ b)) (ts ++ (us ++ vs)) :=
  ha.append (hc.append_spells false hb hs) fun rest _ => by
    rw [List.append_assoc]
    exact hr _

theorem Covers.around {o c : List Char} {vs : List Token} (ho : Covers o us)
    (ha : Spells τ a ts) (hc : Covers c vs) (hr : ∀ rest, Apart (c ++ rest)) :
    Covers (o ++ (a ++ c)) (us ++ (ts ++ vs)) where
  reads rest := by
    have hac : Unparse.Reading.lex .blank (a ++ (c ++ rest)) =
        ts ++ (vs ++ Unparse.Reading.lex .blank rest) := by
      rw [ha.reads _ (hr rest), hc.reads]
    rw [List.append_assoc, ho.reads, List.append_assoc, hac]
    simp
  line := by simp [ho.line, ha.line, hc.line]

theorem Spells.loosen (h : Spells tight a ts) : Spells false a ts := by
  cases tight with
  | false => exact h
  | true => exact h.weaken

end Unparse.Reading
