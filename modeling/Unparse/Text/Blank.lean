/-! # Blanks and lines

White space is the Unicode property `White_Space`. A finished text is tidied
line by line: blanks at the end of a line are dropped, and a final line break
starts no line.
-/

namespace Unparse.Text

/-- Decide the Unicode property `White_Space`. -/
def isBlank (c : Char) : Bool :=
  let n := c.toNat
  (9 ≤ n && n ≤ 13) || n == 0x20 || n == 0x85 || n == 0xA0 || n == 0x1680 ||
    (0x2000 ≤ n && n ≤ 0x200A) || n == 0x2028 || n == 0x2029 || n == 0x202F ||
    n == 0x205F || n == 0x3000

def trimEnd (s : List Char) : List Char :=
  (s.reverse.dropWhile isBlank).reverse

def consLine (c : Char) (ls : List (List Char)) : List (List Char) :=
  if c = '\n' then [] :: ls
  else match ls with
    | [] => [[c]]
    | l :: ls => (c :: l) :: ls

/-- The lines of a text. A line break ends a line and starts none by itself. -/
def lines (s : List Char) : List (List Char) := s.foldr consLine []

/-- Trim every line and drop the final line break. -/
def tidy (s : String) : String :=
  "\n".intercalate ((lines s.toList).map fun l => String.ofList (trimEnd l))

theorem consLine_ne_nil (c : Char) (ls : List (List Char)) : consLine c ls ≠ [] := by
  cases ls <;> simp only [consLine] <;> split <;> simp

theorem consLine_append {ls : List (List Char)} (c : Char) (h : ls ≠ [])
    (ms : List (List Char)) : consLine c (ls ++ ms) = consLine c ls ++ ms := by
  cases ls with
  | nil => exact absurd rfl h
  | cons l ls => by_cases hc : c = '\n' <;> simp [consLine, hc]

@[simp] theorem lines_nil : lines [] = [] := rfl

@[simp] theorem lines_cons (c : Char) (s : List Char) :
    lines (c :: s) = consLine c (lines s) := rfl

theorem lines_append_break (s t : List Char) :
    lines (s ++ '\n' :: t) = lines (s ++ ['\n']) ++ lines t := by
  induction s with
  | nil => simp [consLine]
  | cons c s ih =>
    have h : lines (s ++ ['\n']) ≠ [] := by
      cases s with
      | nil => exact consLine_ne_nil '\n' []
      | cons d s => exact consLine_ne_nil d _
    simp only [List.cons_append, lines_cons, ih, consLine_append c h]

end Unparse.Text
