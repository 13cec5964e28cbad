/-!
# Digits and blanks beyond ASCII

A decimal reader of text accepts any character of the Unicode class Nd (decimal digit) as the
digit it stands for, and treats a Unicode blank as a space, before it reads the text as ASCII.
Every Nd digit lies in a run of ten consecutive code points from its zero to its nine, so the class
is the list of those zeros (`decimalZeros`, Unicode 15.1). The blanks are the characters of the
bidirectional classes WS, B and S and of the general category Zs.
-/

namespace Exploration

namespace Glyph

/-- The code points of the zeros of the runs of Nd digits, in increasing order. -/
def decimalZeros : List Nat :=
  [0x0030, 0x0660, 0x06F0, 0x07C0, 0x0966, 0x09E6, 0x0A66, 0x0AE6, 0x0B66, 0x0BE6, 0x0C66,
   0x0CE6, 0x0D66, 0x0DE6, 0x0E50, 0x0ED0, 0x0F20, 0x1040, 0x1090, 0x17E0, 0x1810, 0x1946,
   0x19D0, 0x1A80, 0x1A90, 0x1B50, 0x1BB0, 0x1C40, 0x1C50, 0xA620, 0xA8D0, 0xA900, 0xA9D0,
   0xA9F0, 0xAA50, 0xABF0, 0xFF10, 0x104A0, 0x10D30, 0x11066, 0x110F0, 0x11136, 0x111D0,
   0x112F0, 0x11450, 0x114D0, 0x11650, 0x116C0, 0x11730, 0x118E0, 0x11950, 0x11C50, 0x11D50,
   0x11DA0, 0x11F50, 0x16A60, 0x16AC0, 0x16B50, 0x1D7CE, 0x1D7D8, 0x1D7E2, 0x1D7EC, 0x1D7F6,
   0x1E140, 0x1E2F0, 0x1E4F0, 0x1E950, 0x1FBF0]

/-- The value of a decimal digit of any script. -/
def decimalValue? (c : Char) : Option Nat :=
  let n := c.toNat
  (decimalZeros.find? fun z => z ≤ n ∧ n < z + 10).map (n - ·)

/-- Whether a character is a Unicode blank. -/
def isSpace (c : Char) : Bool :=
  let n := c.toNat
  (9 ≤ n ∧ n ≤ 13) || (0x1C ≤ n ∧ n ≤ 0x20) || n == 0x85 || n == 0xA0 || n == 0x1680 ||
    (0x2000 ≤ n ∧ n ≤ 0x200A) || n == 0x2028 || n == 0x2029 || n == 0x202F || n == 0x205F ||
    n == 0x3000

/-- The text a number reader sees: ASCII characters stay, a blank beyond ASCII becomes a space,
a digit of another script becomes its ASCII digit, and any other character makes the text
unreadable. -/
def toAscii (s : String) : Option String :=
  (s.toList.mapM fun c =>
    if c.toNat < 127 then some c
    else if isSpace c then some ' '
    else (decimalValue? c).map fun d => Char.ofNat ('0'.toNat + d)).map String.ofList

theorem decimalValue?_zero : decimalValue? '0' = some 0 := by decide

end Glyph

end Exploration
