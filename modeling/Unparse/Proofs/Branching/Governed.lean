import Unparse.Proofs.Branching.Outline

/-! # What an `else` governs

A text is read with every branch without braces cut off behind its first
statement, and what is cut off moved out. So a text is read as it is meant if
and only if nothing is printed behind that statement.
-/

namespace Unparse.Branching

namespace Reading

@[simp] theorem done_append (r : Reading) : done ++ r = r := rfl

@[simp] theorem label_append (s : List Char) (a r : Reading) :
    label s a ++ r = label s (a ++ r) := rfl

@[simp] theorem text_append (s : List Char) (a r : Reading) : text s a ++ r = text s (a ++ r) := rfl

@[simp] theorem group_append (body a r : Reading) : group body a ++ r = group body (a ++ r) := rfl

@[simp] theorem conditional_append (head : List Char) (body a r : Reading) :
    conditional head body a ++ r = conditional head body (a ++ r) := rfl

@[simp] theorem alternative_append (head : List Char) (body other a r : Reading) :
    alternative head body other a ++ r = alternative head body other (a ++ r) := rfl

@[simp] theorem otherwise_append (body a r : Reading) :
    otherwise body a ++ r = otherwise body (a ++ r) := rfl

@[simp] theorem append_done (a : Reading) : a ++ done = a := by
  induction a <;> simp_all

theorem append_assoc (a b r : Reading) : a ++ b ++ r = a ++ (b ++ r) := by
  induction a <;> simp_all

def length : Reading → Nat
  | done => 0
  | label _ rest | text _ rest | group _ rest | conditional _ _ rest | alternative _ _ _ rest
  | otherwise _ rest => rest.length + 1

@[simp] theorem length_append (a b : Reading) : (a ++ b).length = a.length + b.length := by
  induction a <;> simp_all [length] <;> omega

theorem eq_done_of_length {a : Reading} (h : a.length = 0) : a = done := by
  cases a <;> first | rfl | cases h

/-- No `else` at the start lacks its `if`. -/
def isClosed : Reading → Bool
  | otherwise _ _ => false
  | _ => true

theorem statement?_append {r governed moved : Reading}
    (h : r.statement? = some (governed, moved)) (x : Reading) :
    (r ++ x).statement? = some (governed, moved ++ x) := by
  unfold statement? at h
  split at h <;> cases h <;> rfl

theorem eq_append_of_statement? {r governed moved : Reading}
    (h : r.statement? = some (governed, moved)) : r = governed ++ moved := by
  unfold statement? at h
  split at h <;> cases h <;> rfl

end Reading

open Reading (statement?_append eq_append_of_statement?)

namespace Outline

/-- A text as it is read. What stands behind the first statement of a branch
without braces is moved out of it. -/
def spill : Outline → Reading
  | done => .done
  | line rest => rest.spill
  | label s rest => .label s rest.spill
  | text s rest => .text s rest.spill
  | group body rest => .group body.spill rest.spill
  | conditional head body rest => .conditional head body.spill rest.spill
  | alternative head body true other rest =>
    .alternative head body.spill other.spill rest.spill
  | alternative head body false other rest =>
    match other.spill.statement? with
    | some (governed, moved) => .alternative head body.spill governed (moved ++ rest.spill)
    | none => .alternative head body.spill other.spill rest.spill

def opensIf : Outline → Bool
  | conditional _ _ _ | alternative _ _ _ _ _ | label _ (conditional _ _ _)
  | label _ (alternative _ _ _ _ _) => true
  | _ => false

def isBlank : Outline → Bool
  | done => true
  | line rest => rest.isBlank
  | _ => false

def afterIf : Outline → Outline
  | conditional _ _ rest | alternative _ _ _ _ rest | label _ (conditional _ _ rest)
  | label _ (alternative _ _ _ _ rest) => rest
  | _ => done

def EachUnbraced (P : Outline → Bool) : Outline → Prop
  | done => True
  | line rest | label _ rest | text _ rest => rest.EachUnbraced P
  | group body rest | conditional _ body rest => body.EachUnbraced P ∧ rest.EachUnbraced P
  | alternative _ body braced other rest =>
    body.EachUnbraced P ∧ other.EachUnbraced P ∧ (braced = false → P other = true) ∧
      rest.EachUnbraced P

/-- Every branch without braces starts with an `if` statement. -/
def Shaped (o : Outline) : Prop := o.EachUnbraced opensIf

/-- No branch without braces goes on behind its first statement. -/
def Governed (o : Outline) : Prop := o.EachUnbraced fun other => other.afterIf.isBlank

theorem governed_alternative {head : List Char} {body other rest : Outline} {braced : Bool} :
    (alternative head body braced other rest).Governed ↔
      body.Governed ∧ other.Governed ∧ (braced = false → other.afterIf.isBlank = true) ∧
        rest.Governed := Iff.rfl

variable {o : Outline} {r : Reading} {rs : List Reading}

attribute [local simp] marks meaning spill step readFrom

theorem isClosed_spill (o : Outline) (hr : r.isClosed = true) :
    (o.spill ++ r).isClosed = true := by
  induction o with
  | done => exact hr
  | line rest ih => exact ih
  | alternative head body braced other rest =>
    cases braced with
    | true => rfl
    | false =>
      rw [spill]
      split <;> rfl
  | _ => rfl

theorem spill_alternative (head : List Char) (body : Outline) (braced : Bool)
    (other rest : Outline) : ∃ governed moved,
      (alternative head body braced other rest).spill =
        .alternative head body.spill governed moved := by
  cases braced with
  | true => exact ⟨_, _, rfl⟩
  | false =>
    rw [spill]
    split <;> exact ⟨_, _, rfl⟩

theorem statement?_spill (h : o.opensIf = true) :
    ∃ governed moved, o.spill.statement? = some (governed, moved) := by
  unfold opensIf at h
  split at h
  · exact ⟨_, _, rfl⟩
  · next head body braced other rest =>
    obtain ⟨governed, moved, heq⟩ := spill_alternative head body braced other rest
    rw [heq]
    exact ⟨_, _, rfl⟩
  · exact ⟨_, _, rfl⟩
  · next s head body braced other rest =>
    obtain ⟨governed, moved, heq⟩ := spill_alternative head body braced other rest
    rw [spill, heq]
    exact ⟨_, _, rfl⟩
  · cases h

theorem readFrom_append (ms ms' : List Mark) (rs : List Reading) :
    readFrom (ms ++ ms') rs = (readFrom ms' rs).bind (readFrom ms) := by
  induction ms with
  | nil => simp
  | cons m ms ih => simp [ih, Option.bind_assoc]

theorem step_condition {head : List Char} {body : Reading} (hr : r.isClosed = true) :
    step (.condition head) (.group body r :: rs) = some (.conditional head body r :: rs) := by
  cases r <;> first | rfl | cases hr

theorem step_otherwise {governed moved : Reading} (h : r.statement? = some (governed, moved)) :
    step .otherwise (r :: rs) = some (.otherwise governed moved :: rs) := by
  cases r with
  | group body rest => cases h
  | _ => simp [h]

theorem readFrom_group {body : Outline} {ms : List Mark} {rs rs' : List Reading}
    (hbody : ∀ rs, readFrom body.marks (.done :: rs) = some (body.spill :: rs))
    (hms : readFrom ms rs' = some (r :: rs)) :
    readFrom (.opening :: body.marks ++ .closing :: ms) rs' =
      some (.group body.spill r :: rs) := by
  simp [readFrom_append, hms, hbody]

theorem readFrom_marks (h : o.Shaped) (hr : r.isClosed = true) (rs : List Reading) :
    readFrom o.marks (r :: rs) = some ((o.spill ++ r) :: rs) := by
  induction o generalizing r rs with
  | done => rfl
  | line rest ih => simp [ih h hr]
  | label s rest ih => simp [ih h hr]
  | text s rest ih => simp [ih h hr]
  | group body rest ihb ihr =>
    have hbody (rs : List Reading) : readFrom body.marks (.done :: rs) = some (body.spill :: rs) := by
      simpa using ihb (r := .done) h.1 rfl rs
    rw [marks, readFrom_group hbody (ihr h.2 hr rs)]
    rfl
  | conditional head body rest ihb ihr =>
    have hbody (rs : List Reading) : readFrom body.marks (.done :: rs) = some (body.spill :: rs) := by
      simpa using ihb (r := .done) h.1 rfl rs
    rw [marks, List.cons_append, readFrom, readFrom_group hbody (ihr h.2 hr rs)]
    exact step_condition (isClosed_spill rest hr)
  | alternative head body braced other rest ihb iho ihr =>
    obtain ⟨hb, ho, hopens, hrest⟩ := h
    have hbody (rs : List Reading) : readFrom body.marks (.done :: rs) = some (body.spill :: rs) := by
      simpa using ihb (r := .done) hb rfl rs
    cases braced with
    | true =>
      have hother (rs : List Reading) :
          readFrom other.marks (.done :: rs) = some (other.spill :: rs) := by
        simpa using iho (r := .done) ho rfl rs
      have helse : readFrom (.otherwise :: .opening :: other.marks ++ .closing :: rest.marks)
          (r :: rs) = some (.otherwise other.spill (rest.spill ++ r) :: rs) := by
        rw [List.cons_append, readFrom, readFrom_group hother (ihr hrest hr rs)]
        rfl
      have hmarks : (alternative head body true other rest).marks = .condition head ::
          (.opening :: body.marks ++ .closing ::
            (.otherwise :: .opening :: other.marks ++ .closing :: rest.marks)) := by
        simp
      rw [hmarks, readFrom, readFrom_group hbody helse]
      rfl
    | false =>
      obtain ⟨governed, moved, hstatement⟩ := statement?_spill (hopens rfl)
      have hother : readFrom (other.marks ++ rest.marks) (r :: rs) =
          some ((other.spill ++ (rest.spill ++ r)) :: rs) := by
        rw [readFrom_append, ihr hrest hr rs, Option.bind_some, iho ho (isClosed_spill rest hr) rs]
      have helse : readFrom (.otherwise :: (other.marks ++ rest.marks)) (r :: rs) =
          some (.otherwise governed (moved ++ (rest.spill ++ r)) :: rs) := by
        rw [readFrom, hother]
        exact step_otherwise (statement?_append hstatement _)
      rw [marks, List.cons_append, List.cons_append, readFrom, ← List.cons_append,
        readFrom_group hbody helse, spill, hstatement]
      simp [Reading.append_assoc]

theorem read_marks (h : o.Shaped) : read o.marks = some o.spill := by
  have hread := readFrom_marks (r := .done) h rfl []
  rw [Reading.append_done] at hread
  rw [read, hread]

theorem meaning_eq_done_iff : o.meaning = .done ↔ o.isBlank = true := by
  induction o with
  | line rest ih => exact ih
  | _ => simp [isBlank]

theorem length_meaning_le (o : Outline) : o.meaning.length ≤ o.spill.length := by
  induction o with
  | alternative head body braced other rest _ _ ih =>
    cases braced with
    | true => simpa [Reading.length] using ih
    | false =>
      rw [spill, meaning]
      split
      · simp only [Reading.length, Reading.length_append]
        omega
      · simpa [Reading.length] using ih
  | _ => simp_all [Reading.length]

/-- Behind the `if` statement of a branch that is read as it is meant stands
what is meant to stand there. -/
theorem statement?_meaning (h : o.opensIf = true) :
    ∃ governed, o.meaning.statement? = some (governed, o.afterIf.meaning) := by
  unfold opensIf at h
  split at h
  · exact ⟨_, rfl⟩
  · exact ⟨_, rfl⟩
  · exact ⟨_, rfl⟩
  · exact ⟨_, rfl⟩
  · cases h

/-- A text is read as it is meant if and only if no branch without braces goes
on behind its first statement. -/
theorem spill_eq_meaning_iff (h : o.Shaped) : o.spill = o.meaning ↔ o.Governed := by
  induction o with
  | done => simp [Governed, EachUnbraced]
  | line rest ih => simpa [Governed, EachUnbraced] using ih h
  | label s rest ih => simpa [Governed, EachUnbraced] using ih h
  | text s rest ih => simpa [Governed, EachUnbraced] using ih h
  | group body rest ihb ihr => simp [Governed, EachUnbraced, ihb h.1, ihr h.2]
  | conditional head body rest ihb ihr => simp [Governed, EachUnbraced, ihb h.1, ihr h.2]
  | alternative head body braced other rest ihb iho ihr =>
    obtain ⟨hb, ho, hopens, hrest⟩ := h
    cases braced with
    | true => simp [Governed, EachUnbraced, ihb hb, iho ho, ihr hrest]
    | false =>
      have hopens := hopens rfl
      obtain ⟨governed, moved, hstatement⟩ := statement?_spill hopens
      obtain ⟨governed', hmeant⟩ := statement?_meaning hopens
      have hspill : (alternative head body false other rest).spill =
          .alternative head body.spill governed (moved ++ rest.spill) := by rw [spill, hstatement]
      rw [hspill, meaning, governed_alternative, ← ihb hb, ← iho ho, ← ihr hrest,
        Reading.alternative.injEq]
      constructor
      · rintro ⟨-, hbody, hgoverned, hmoved⟩
        have hlength := length_meaning_le rest
        have hnone : moved = .done := by
          apply Reading.eq_done_of_length
          have hcount := congrArg Reading.length hmoved
          rw [Reading.length_append] at hcount
          omega
        have hother : other.spill = other.meaning := by
          rw [eq_append_of_statement? hstatement, hnone, Reading.append_done, hgoverned]
        refine ⟨hbody, hother, fun _ => ?_, ?_⟩
        · rw [← hother, hstatement] at hmeant
          cases hmeant
          exact meaning_eq_done_iff.mp hnone
        · simpa [hnone] using hmoved
      · rintro ⟨hbody, hother, hblank, hrest⟩
        have hnone := meaning_eq_done_iff.mpr (hblank rfl)
        rw [hother, hmeant, hnone] at hstatement
        cases hstatement
        have hwhole := eq_append_of_statement? hmeant
        rw [hnone, Reading.append_done] at hwhole
        exact ⟨rfl, hbody, hwhole.symm, by simpa using hrest⟩

theorem shaped_expand (o : Outline) : o.expand.Shaped := by
  induction o <;> simp_all [expand, Shaped, EachUnbraced]

theorem spill_expand (o : Outline) : o.expand.spill = o.meaning := by
  induction o <;> simp_all [expand]

theorem read_expand (o : Outline) : read o.expand.marks = some o.meaning := by
  rw [read_marks (shaped_expand o), spill_expand]

/-- What it takes that a text is read as it is meant. -/
theorem read_marks_eq_meaning_iff (h : o.Shaped) :
    read o.marks = some o.meaning ↔ o.Governed := by
  rw [read_marks h, Option.some_inj, spill_eq_meaning_iff h]

section Append

variable (a b : Outline)

@[simp] theorem done_append : done ++ a = a := rfl

@[simp] theorem line_append : line a ++ b = line (a ++ b) := rfl

@[simp] theorem label_append (s : List Char) : label s a ++ b = label s (a ++ b) := rfl

@[simp] theorem text_append (s : List Char) : text s a ++ b = text s (a ++ b) := rfl

@[simp] theorem group_append (body : Outline) : group body a ++ b = group body (a ++ b) := rfl

@[simp] theorem conditional_append (head : List Char) (body : Outline) :
    conditional head body a ++ b = conditional head body (a ++ b) := rfl

@[simp] theorem alternative_append (head : List Char) (body : Outline) (braced : Bool)
    (other : Outline) :
    alternative head body braced other a ++ b = alternative head body braced other (a ++ b) := rfl

@[simp] theorem marks_append : (a ++ b).marks = a.marks ++ b.marks := by
  induction a with
  | alternative head body braced other rest _ _ ih => cases braced <;> simp_all
  | _ => simp_all

@[simp] theorem spell_append : (a ++ b).spell = a.spell ++ b.spell := by simp [spell]

@[simp] theorem eachUnbraced_append {P : Outline → Bool} :
    (a ++ b).EachUnbraced P ↔ a.EachUnbraced P ∧ b.EachUnbraced P := by
  induction a <;> simp_all [EachUnbraced, and_assoc]

@[simp] theorem isBlank_append : (a ++ b).isBlank = (a.isBlank && b.isBlank) := by
  induction a <;> simp_all [isBlank]

end Append

end Outline

end Unparse.Branching
