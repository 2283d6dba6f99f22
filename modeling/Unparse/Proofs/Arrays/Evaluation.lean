import Unparse.Proofs.Arrays.Types

/-! # Evaluation of dimensions

Java evaluates the dimensions of a creation from left to right and creates the arrays
afterwards. In Kotlin, every element of an outer array is created on its own, so an inner
dimension is evaluated once for each of them.
-/

namespace Unparse.Arrays

open Template

variable {α σ β : Type}

/-- Nested arrays, down to the elements that are not created. -/
inductive Shape where
  | leaf
  | array (elements : List Shape)

def rectangle : List Nat → Shape
  | [] => .leaf
  | n :: ns => .array (List.replicate n (rectangle ns))

def times (w : StateT σ Option β) : Nat → StateT σ Option (List β)
  | 0 => pure []
  | n + 1 => do
    let x ← w
    let xs ← times w n
    return x :: xs

section Runs

variable (eval : α → StateT σ Option Nat)

/-- Java has all sizes before it creates an array. -/
def Java.Creation.run (c : Java.Creation α) : StateT σ Option Shape :=
  rectangle <$> c.sizes.mapM eval

/-- A call evaluates its argument once, and then the elements are created one by one. -/
def Kotlin.Creation.run : Kotlin.Creation α → StateT σ Option Shape
  | primitive _ size | ofNulls _ size => do
    let n ← eval size
    return .array (List.replicate n .leaf)
  | nested size inner => do
    let n ← eval size
    return .array (← times inner.run n)

def logged (d : α × Nat) : StateT (σ × List Nat) Option Nat := fun (s, log) =>
  (eval d.1 s).map fun (n, s) => (n, s, log ++ [d.2])

end Runs

section Times

variable {w : StateT σ Option β} {s t : σ} {n : Nat} {xs : List β}

theorem times_zero : (times w 0).run s = some ([], s) := rfl

theorem times_succ_eq_some_iff : (times w (n + 1)).run s = some (xs, t) ↔
    ∃ x t' xs', w.run s = some (x, t') ∧ (times w n).run t' = some (xs', t) ∧ xs = x :: xs' := by
  simp only [times, StateT.run_bind, StateT.run_pure, Option.bind_eq_bind, Option.bind_eq_some_iff,
    Option.pure_def, Option.some.injEq, Prod.mk.injEq, Prod.exists]
  constructor
  · rintro ⟨x, t', hx, xs', t'', hxs, rfl, rfl⟩
    exact ⟨x, t', xs', hx, hxs, rfl⟩
  · rintro ⟨x, t', xs', hx, hxs, rfl⟩
    exact ⟨x, t', hx, xs', t, hxs, rfl, rfl⟩

theorem times_of_fixed {x : β} (h : w.run s = some (x, s)) (n : Nat) :
    (times w n).run s = some (List.replicate n x, s) := by
  induction n with
  | zero => rfl
  | succ n ih => exact times_succ_eq_some_iff.mpr ⟨x, s, _, h, ih, rfl⟩

theorem count_times {w : StateT (σ × List Nat) Option β} {k m : Nat}
    (hw : ∀ s log x t, w.run (s, log) = some (x, t) → t.2.count k = log.count k + m)
    {log : List Nat} {t : σ × List Nat} (h : (times w n).run (s, log) = some (xs, t)) :
    t.2.count k = log.count k + n * m := by
  induction n generalizing s log xs with
  | zero =>
    cases h
    simp
  | succ n ih =>
    obtain ⟨x, ⟨t', log'⟩, xs', hx, hxs, rfl⟩ := times_succ_eq_some_iff.mp h
    have hfirst := hw _ _ _ _ hx
    simp only at hfirst
    rw [ih hxs, hfirst, Nat.succ_mul]
    omega

end Times

/-- The run of nested creations, which depends on their sizes only. -/
def inside (eval : α → StateT σ Option Nat) : List α → StateT σ Option Shape
  | [] => pure .leaf
  | d :: ds => do
    let n ← eval d
    return .array (← times (inside eval ds) n)

theorem Kotlin.Creation.run_eq (eval : α → StateT σ Option Nat) (c : Kotlin.Creation α) :
    c.run eval = inside eval c.sizes := by
  have hleaves (n : Nat) : times (pure .leaf : StateT σ Option Shape) n =
      pure (List.replicate n .leaf) := funext fun _ => times_of_fixed rfl n
  induction c with
  | primitive name size | ofNulls element size =>
    simp only [run, sizes, inside, hleaves, pure_bind]
  | nested size inner ih => rw [run, ih, sizes, inside]

section Nested

variable {eval : α → StateT σ Option Nat} {d : α} {ds : List α} {s t u : σ} {n : Nat}
  {ns log : List Nat} {x : Shape}

theorem mapM_cons_eq_some_iff : ((d :: ds).mapM eval).run s = some (ns, u) ↔
    ∃ n t ms, (eval d).run s = some (n, t) ∧ (ds.mapM eval).run t = some (ms, u) ∧
      ns = n :: ms := by
  simp only [List.mapM_cons, StateT.run_bind, StateT.run_pure, Option.bind_eq_bind,
    Option.bind_eq_some_iff, Option.pure_def, Option.some.injEq, Prod.mk.injEq, Prod.exists]
  constructor
  · rintro ⟨n, t, hn, ms, t', hms, rfl, rfl⟩
    exact ⟨n, t, ms, hn, hms, rfl⟩
  · rintro ⟨n, t, ms, hn, hms, rfl⟩
    exact ⟨n, t, hn, ms, u, hms, rfl, rfl⟩

theorem inside_cons_eq_some_iff : (inside eval (d :: ds)).run s = some (x, u) ↔
    ∃ n t xs, (eval d).run s = some (n, t) ∧ (times (inside eval ds) n).run t = some (xs, u) ∧
      x = .array xs := by
  simp only [inside, StateT.run_bind, StateT.run_pure, Option.bind_eq_bind, Option.bind_eq_some_iff,
    Option.pure_def, Option.some.injEq, Prod.mk.injEq, Prod.exists]
  constructor
  · rintro ⟨n, t, hn, xs, t', hxs, rfl, rfl⟩
    exact ⟨n, t, xs, hn, hxs, rfl⟩
  · rintro ⟨n, t, xs, hn, hxs, rfl⟩
    exact ⟨n, t, hn, xs, u, hxs, rfl, rfl⟩

theorem logged_eq_some_iff {i : Nat} {t : σ × List Nat} :
    (logged eval (d, i)).run (s, log) = some (n, t) ↔
      (eval d).run s = some (n, t.1) ∧ t.2 = log ++ [i] := by
  obtain ⟨t, log'⟩ := t
  change ((eval d s).map fun (n, s) => (n, s, log ++ [i])) = _ ↔ eval d s = _ ∧ _
  simp only [Option.map_eq_some_iff, Prod.exists, Prod.mk.injEq]
  constructor
  · rintro ⟨n, t, h, rfl, rfl, rfl⟩
    exact ⟨h, rfl⟩
  · rintro ⟨h, rfl⟩
    exact ⟨n, t, h, rfl, rfl, rfl⟩

/-- From left to right, each dimension is evaluated once. -/
theorem mapM_logged (h : (ds.mapM eval).run s = some (ns, t)) (i : Nat) (log : List Nat) :
    ((ds.zipIdx i).mapM (logged eval)).run (s, log) =
      some (ns, t, log ++ List.range' i ds.length) := by
  induction ds generalizing s ns i log with
  | nil =>
    obtain ⟨rfl, rfl⟩ : [] = ns ∧ s = t := by simpa using h
    simp
  | cons d ds ih =>
    obtain ⟨n, t', ms, hd, hds, rfl⟩ := mapM_cons_eq_some_iff.mp h
    refine mapM_cons_eq_some_iff.mpr
      ⟨n, (t', log ++ [i]), ms, logged_eq_some_iff.mpr ⟨hd, rfl⟩, ?_, rfl⟩
    rw [ih hds]
    simp [List.range'_succ]

theorem count_inside {i k : Nat} (hk : k ≤ i) {t : σ × List Nat}
    (h : (inside (logged eval) (ds.zipIdx i)).run (s, log) = some (x, t)) :
    t.2.count k = log.count k + if k = i ∧ ds ≠ [] then 1 else 0 := by
  induction ds generalizing s log i x t with
  | nil =>
    cases h
    simp
  | cons d ds ih =>
    obtain ⟨n, ⟨t', log'⟩, xs, hd, hxs, -⟩ := inside_cons_eq_some_iff.mp h
    obtain ⟨-, hlog⟩ := logged_eq_some_iff.mp hd
    obtain rfl : log' = log ++ [i] := hlog
    have hinner := count_times (m := 0)
      (fun s log x t ht => (ih (Nat.le_succ_of_le hk) ht).trans (by simp; omega)) hxs
    rw [hinner, List.count_append, List.count_singleton]
    by_cases hki : k = i
    · simp [hki]
    · simp [hki, Ne.symm hki]

/-- Nested creations evaluate each dimension once exactly if all sizes but the last one
are one. -/
theorem inside_logged_iff (h : (ds.mapM eval).run s = some (ns, t)) (i : Nat) (log : List Nat) :
    (inside (logged eval) (ds.zipIdx i)).run (s, log) =
        some (rectangle ns, t, log ++ List.range' i ds.length) ↔ ∀ n ∈ ns.dropLast, n = 1 := by
  induction ds generalizing s ns i log with
  | nil =>
    obtain ⟨rfl, rfl⟩ : [] = ns ∧ s = t := by simpa using h
    simp [inside, rectangle]
  | cons d ds ih =>
    obtain ⟨n, t', ms, hd, hds, rfl⟩ := mapM_cons_eq_some_iff.mp h
    have hlogged : (logged eval (d, i)).run (s, log) = some (n, t', log ++ [i]) :=
      logged_eq_some_iff.mpr ⟨hd, rfl⟩
    have hlog : log ++ List.range' i (d :: ds).length =
        log ++ [i] ++ List.range' (i + 1) ds.length := by simp [List.range'_succ]
    rw [hlog]
    cases ds with
    | nil =>
      obtain ⟨rfl, rfl⟩ : [] = ms ∧ t' = t := by simpa using hds
      refine iff_of_true (inside_cons_eq_some_iff.mpr ⟨n, _, _, hlogged, ?_, rfl⟩) (by simp)
      simpa [rectangle] using times_of_fixed (w := inside (logged eval) []) rfl n
    | cons e ds =>
      have hms : ms ≠ [] := by
        obtain ⟨-, -, -, -, -, rfl⟩ := mapM_cons_eq_some_iff.mp hds
        exact List.cons_ne_nil _ _
      rw [List.dropLast_cons_of_ne_nil hms, List.forall_mem_cons,
        ← ih hds (i + 1) (log ++ [i])]
      constructor
      · intro h
        obtain ⟨n', t'', xs, hd', hxs, harray⟩ := inside_cons_eq_some_iff.mp h
        obtain ⟨rfl, rfl⟩ : n = n' ∧ (t', log ++ [i]) = t'' := by simpa [hlogged] using hd'
        have hcount := count_times (k := i + 1) (m := 1)
          (fun s log x t ht => (count_inside (Nat.le_refl _) ht).trans (by simp)) hxs
        have hrest : (List.range' (i + 1) (e :: ds).length).count (i + 1) = 1 := by
          rw [List.length_cons, List.range'_succ, List.count_cons_self,
            List.count_eq_zero_of_not_mem fun hmem => ?_]
          obtain ⟨_, _, h⟩ := List.mem_range'.mp hmem
          omega
        obtain rfl : n = 1 := by
          rw [List.count_append, hrest] at hcount
          omega
        obtain ⟨x, t'', xs', hx, hxs', rfl⟩ := times_succ_eq_some_iff.mp hxs
        obtain ⟨rfl, rfl⟩ := Prod.mk.inj (Option.some.inj (times_zero.symm.trans hxs'))
        obtain rfl : rectangle ms = x := by simpa [rectangle] using harray
        exact ⟨rfl, hx⟩
      · rintro ⟨rfl, hinner⟩
        refine inside_cons_eq_some_iff.mpr ⟨1, _, [rectangle ms], hlogged, ?_, rfl⟩
        exact times_succ_eq_some_iff.mpr ⟨_, _, [], hinner, rfl, rfl⟩

/-- Dimensions that have fixed sizes and leave the state may be evaluated at any time. -/
theorem inside_of_fixed (h : (ds.mapM eval).run s = some (ns, t))
    (hfixed : ∀ e ∈ ds, ∃ n, (eval e).run s = some (n, s)) :
    (inside eval ds).run s = some (rectangle ns, s) ∧ t = s := by
  induction ds generalizing ns with
  | nil =>
    obtain ⟨rfl, rfl⟩ : [] = ns ∧ s = t := by simpa using h
    exact ⟨rfl, rfl⟩
  | cons d ds ih =>
    obtain ⟨n, t', ms, hd, hds, rfl⟩ := mapM_cons_eq_some_iff.mp h
    obtain ⟨n', hd'⟩ := hfixed d List.mem_cons_self
    obtain ⟨rfl, rfl⟩ : n = n' ∧ t' = s := by simpa [hd] using hd'
    obtain ⟨hinside, rfl⟩ := ih hds fun e he => hfixed e (List.mem_cons_of_mem _ he)
    exact ⟨inside_cons_eq_some_iff.mpr ⟨n, _, _, hd, times_of_fixed hinside n, rfl⟩, rfl⟩

end Nested

/-- Java's creation evaluates each dimension once, from left to right. Kotlin's does the
same exactly if all sizes but the last one are one. If all dimensions but the first one have
fixed sizes and leave the state, the arrays and the state are those of Java's all the same. -/
theorem evaluates_once_iff (element : String) (d : α) (ds : List α) (eval : α → StateT σ Option Nat)
    {s t : σ} {ns : List Nat} (h : ((d :: ds).mapM eval).run s = some (ns, t)) :
    (∀ (s : Style) (doc : α → Layout.Doc),
      LaidAs doc (s.createArray element ((d :: ds).map doc) none)
        (creation s.target element (d :: ds))) ∧
    (∀ c : Java.Creation (α × Nat), c.sizes = (d :: ds).zipIdx →
      (c.run (logged eval)).run (s, []) =
        some (rectangle ns, t, List.range (d :: ds).length)) ∧
    (∃ c : Kotlin.Creation (α × Nat),
      (∀ c' : Kotlin.Creation (α × Nat),
        c'.spell = creation .kotlin element (d :: ds).zipIdx ↔ c' = c) ∧
      ((c.run (logged eval)).run (s, []) =
          some (rectangle ns, t, List.range (d :: ds).length) ↔ ∀ n ∈ ns.dropLast, n = 1)) ∧
    ∃ c : Kotlin.Creation α,
      (∀ c' : Kotlin.Creation α, c'.spell = creation .kotlin element (d :: ds) ↔ c' = c) ∧
      ((∀ n u, (eval d).run s = some (n, u) → ∀ e ∈ ds, ∃ m, (eval e).run u = some (m, u)) →
        (c.run eval).run s = some (rectangle ns, t)) := by
  have hreading {β : Type} (b : β) (bs : List β) : ∃ c : Kotlin.Creation β,
      (∀ c' : Kotlin.Creation β, c'.spell = creation .kotlin element (b :: bs) ↔ c' = c) ∧
        c.sizes = b :: bs := by
    obtain ⟨c, hc, hsizes, -⟩ := Kotlin.Creation.exists_spell_eq element b bs
    refine ⟨c, fun c' => ⟨fun h => Kotlin.Creation.spell_inj (h.trans hc.symm), ?_⟩, hsizes⟩
    rintro rfl
    exact hc
  have hlog : List.range (d :: ds).length = [] ++ List.range' 0 (d :: ds).length :=
    List.range_eq_range'
  refine ⟨fun s doc => laidAs_creation s element doc _, fun c hc => ?_, ?_, ?_⟩
  · have hmap := congrArg (Option.map fun (ns, t) => (rectangle ns, t)) (mapM_logged h 0 [])
    rw [Java.Creation.run, hc, hlog, StateT.run_map]
    exact hmap
  · obtain ⟨c, hc, hsizes⟩ := hreading (d, 0) (ds.zipIdx 1)
    refine ⟨c, hc, ?_⟩
    rw [Kotlin.Creation.run_eq, hsizes, hlog]
    exact inside_logged_iff h 0 []
  · obtain ⟨c, hc, hsizes⟩ := hreading d ds
    refine ⟨c, hc, fun hfixed => ?_⟩
    obtain ⟨n, u, ms, hd, hds, rfl⟩ := mapM_cons_eq_some_iff.mp h
    obtain ⟨hinside, rfl⟩ := inside_of_fixed hds (hfixed n u hd)
    rw [Kotlin.Creation.run_eq, hsizes]
    exact inside_cons_eq_some_iff.mpr ⟨n, _, _, hd, times_of_fixed hinside n, rfl⟩

def counted : Unit → StateT Nat Option Nat := fun _ s => some (2, s + 1)

theorem evaluates_once_iff_row : ([(), ()].mapM fun _ => (pure 1 : StateT Nat Option Nat)).run 0 =
    some ([1, 1], 0) ∧ ∃ c : Kotlin.Creation (Unit × Nat),
      c.spell = creation .kotlin "int" [((), 0), ((), 1)] ∧
      (c.run (logged fun _ => pure 1)).run (0, []) = some (rectangle [1, 1], 0, [0, 1]) := by
  have hrun : ([(), ()].mapM fun _ => (pure 1 : StateT Nat Option Nat)).run 0 =
    some ([1, 1], 0) := rfl
  obtain ⟨-, -, ⟨c, hspell, honce⟩, -⟩ := evaluates_once_iff "int" () [()] _ hrun
  exact ⟨hrun, c, (hspell c).mpr rfl, honce.mpr (by decide)⟩

/-- The inner dimension is evaluated once for each row. -/
theorem exists_evaluated_again :
    ([(), ()].mapM counted).run 0 = some ([2, 2], 2) ∧
      ∃ c : Kotlin.Creation Unit, c.spell = creation .kotlin "int" [(), ()] ∧
        (c.run counted).run 0 = some (rectangle [2, 2], 3) :=
  ⟨rfl, .nested () (.primitive ⟨"Int", rfl⟩ ()), rfl, rfl⟩

end Unparse.Arrays
