import Unparse.Text.CharWidth

/-! # Ligatures

Letters that take fewer columns together than one by one, in the scripts where
that is the rule. A text is read from its end, so a ligature is found at its
last letter.
-/

namespace Unparse.Text

def isAlef (c : Char) : Bool :=
  inRanges c.toNat [(0x622, 0x623), (0x625, 0x625), (0x627, 0x627), (0x671, 0x673),
    (0x675, 0x675), (0x773, 0x774), (0x870, 0x882)]

def isLam (c : Char) : Bool :=
  inRanges c.toNat [(0x644, 0x644), (0x6B5, 0x6B8), (0x76A, 0x76A), (0x8A6, 0x8A6),
    (0x8C7, 0x8C7)]

def joiningBarriers : List (Nat × Nat) :=
  [(0x605, 0x605), (0x890, 0x896), (0x8E2, 0x8E2), (0x9BE, 0x9BE), (0x9D7, 0x9DB), (0xB3E, 0xB3E),
   (0xB57, 0xB5B), (0xBBE, 0xBBE), (0xBD7, 0xBE5), (0xCC0, 0xCC5), (0xCC7, 0xCCB), (0xCD5, 0xCDB),
   (0xD3E, 0xD3E), (0xD4E, 0xD57), (0xDCF, 0xDCF), (0xDDF, 0xDE5), (0x1160, 0x135C),
   (0x1715, 0x171E), (0x1734, 0x1734), (0x180E, 0x180E), (0x1B35, 0x1B35), (0x1B3B, 0x1B3B),
   (0x1B3D, 0x1B3D), (0x1B43, 0x1B44), (0x1BAA, 0x1BAA), (0x1BF2, 0x1BFB), (0x200C, 0x200D),
   (0x2065, 0x2069), (0x302E, 0x302F), (0x3164, 0x3164), (0xA8FA, 0xA8FA), (0xA953, 0xA95E),
   (0xA9C0, 0xA9C0), (0xD7B0, 0xD7FF), (0xFFA0, 0xFFF8), (0x111C0, 0x111C3), (0x11235, 0x11235),
   (0x1133E, 0x1133E), (0x1134D, 0x11365), (0x113B8, 0x113B8), (0x113C2, 0x113C9),
   (0x113CF, 0x113CF), (0x113D1, 0x113D1), (0x114B0, 0x114B0), (0x114BD, 0x114BD),
   (0x115AF, 0x115AF), (0x116B6, 0x116B6), (0x11930, 0x1193A), (0x1193D, 0x1193D),
   (0x1193F, 0x11941), (0x11A3A, 0x11A3A), (0x11A84, 0x11A89), (0x11D46, 0x11D46),
   (0x11F02, 0x11F02), (0x11F41, 0x11F41), (0x16FF0, 0x16FF1), (0x1D165, 0x1D166),
   (0x1D16D, 0x1D172), (0xE0000, 0xE0000), (0xE0002, 0xE001F), (0xE0080, 0xE00FF),
   (0xE01F0, 0xE0FFF)]

def isTransparent (c : Char) : Bool :=
  charWidth c = 0 && !inRanges c.toNat joiningBarriers

def isJoiner (c : Char) : Bool := c.toNat = 0x200D

/-- Marks that are never shown, which no ligature is broken by. -/
def isInvisibleMark (c : Char) : Bool :=
  inRanges c.toNat [(0x34F, 0x34F), (0x17B4, 0x17B5), (0x180B, 0x180D), (0x180F, 0x180F),
    (0xFE00, 0xFE0F), (0xE0100, 0xE01EF)]

def isTifinagh (c : Char) : Bool := inRanges c.toNat [(0x2D31, 0x2D65), (0x2D6F, 0x2D6F)]

def isSubscriptLetter (c : Char) : Bool :=
  inRanges c.toNat [(0x1780, 0x1782), (0x1784, 0x1787), (0x1789, 0x178C), (0x178E, 0x1793),
    (0x1795, 0x1798), (0x179B, 0x179D), (0x17A0, 0x17A0), (0x17A2, 0x17A2), (0x17A7, 0x17A7),
    (0x17AB, 0x17AC), (0x17AF, 0x17AF)]

/-- The end of a ligature, as far as it has been read. -/
inductive Ligature where
  | lamed
  | ya
  | signAndYa
  | tifinagh
  | tifinaghJoined
  | tone
  | orkhonI
  | subscriptLetter
deriving DecidableEq, Repr

namespace Ligature

def ofChar? (c : Char) : Option Ligature :=
  match c.toNat with
  | 0x5DC => some lamed
  | 0x1A10 => some ya
  | 0xA4FC | 0xA4FD => some tone
  | 0x10C03 => some orkhonI
  | _ =>
    if isTifinagh c then some tifinagh
    else if isSubscriptLetter c then some subscriptLetter
    else none

/-- The columns that a character adds in front of what has been read of a
ligature, and what has been read then if that is still no whole ligature. Some
letters are joined only if a joiner stands between them. -/
def push? (l : Ligature) (joined : Bool) (c : Char) : Option (Int × Option Ligature) :=
  match l, c.toNat with
  | lamed, 0x5D0 => if joined then some (0, none) else none
  | ya, 0x1A17 => if joined then some (0, some signAndYa) else none
  | signAndYa, 0x1A15 => some (0, none)
  | tifinagh, 0x2D7F => some (1, some tifinaghJoined)
  | tifinagh, _ => if joined && isTifinagh c then some (0, none) else none
  | tifinaghJoined, _ => if isTifinagh c then some (-1, none) else none
  | tone, n => if 0xA4F8 ≤ n && n ≤ 0xA4FB then some (0, none) else none
  | orkhonI, 0x10C32 => if joined then some (0, none) else none
  | subscriptLetter, 0x17D2 => some (-1, none)
  | _, _ => none

end Ligature

end Unparse.Text
