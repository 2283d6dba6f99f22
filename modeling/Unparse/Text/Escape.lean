/-! # Escapes in quoted text

Character and string literals escape the backslash, the quote that delimits
them and every control character, the common ones by a letter and the others
by four hexadecimal digits.
-/

namespace Unparse.Text

def isControl (c : Char) : Bool :=
  c.toNat < 0x20 || (0x7F ≤ c.toNat && c.toNat ≤ 0x9F)

/-- Lower-case hexadecimal digits, at least four of them. -/
def hexDigits (n : Nat) : List Char :=
  let ds := Nat.toDigits 16 n
  List.replicate (4 - ds.length) '0' ++ ds

/-- One character between the given quotes. -/
def escapeChar (quote c : Char) : List Char :=
  if c = '\\' then ['\\', '\\']
  else if c = '\n' then ['\\', 'n']
  else if c = '\r' then ['\\', 'r']
  else if c = '\t' then ['\\', 't']
  else if c = '\x08' then ['\\', 'b']
  else if c = quote then ['\\', c]
  else if isControl c then '\\' :: 'u' :: hexDigits c.toNat
  else [c]

def escape (quote : Char) (s : List Char) : List Char :=
  s.flatMap (escapeChar quote)

def quoted (quote : Char) (s : List Char) : String :=
  String.ofList (quote :: escape quote s ++ [quote])

@[simp] theorem escape_nil (quote : Char) : escape quote [] = [] := rfl

@[simp] theorem escape_cons (quote c : Char) (s : List Char) :
    escape quote (c :: s) = escapeChar quote c ++ escape quote s := rfl

@[simp] theorem escape_append (quote : Char) (s t : List Char) :
    escape quote (s ++ t) = escape quote s ++ escape quote t := by
  simp [escape]

end Unparse.Text
