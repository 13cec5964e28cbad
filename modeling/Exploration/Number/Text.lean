import Exploration.Number.Shortest

/-!
# Text of a double

Two ways of writing a double, each a fixed choice of this library:

* `Float.toText`: the shortest digits that read back (`Decimal.shortest`), written
  positionally when the decimal exponent is between `-4` and `15` (`0.0001`, `123.5`, `1e+16`),
  otherwise as one digit, the rest after a point, and a signed exponent of at least two digits
  (`1e-05`, `1.5e+300`). A whole number keeps `.0`. Zero is `0.0` with its sign; the specials
  are `inf`, `-inf` and `nan`.
* `Float.toFixed n`: exactly `n` places after the point, the value rounded to the nearest such
  decimal with a half going to the even neighbour; the sign of a negative value (and of `-0.0`)
  stays even when the digits are all zero.
-/

namespace Exploration

/-- `n` copies of a character. -/
def String.replicateChar (n : Nat) (c : Char) : String :=
  String.ofList (List.replicate n c)

/-- Pads a text on the left with blanks to at least `width` characters. -/
def String.padLeft (width : Nat) (s : String) : String :=
  String.replicateChar (width - s.length) ' ' ++ s

/-- Pads a text on the right with blanks to at least `width` characters. -/
def String.padRight (width : Nat) (s : String) : String :=
  s ++ String.replicateChar (width - s.length) ' '

/-- Whether the sign bit of a double is set (also for `-0.0`). -/
def Float.signBit (x : Float) : Bool := (Binary.fields x).1

namespace Decimal

/-- The digits of a decimal written positionally or with an exponent, as `Float.toText`
describes. -/
def render (d : Decimal) : String :=
  let ds := (digitString d.digits).toList
  let len := ds.length
  let sci : Int := (len : Int) - 1 + d.exp
  if -4 ≤ sci ∧ sci < 16 then
    let pos : Int := (len : Int) + d.exp
    if pos ≤ 0 then "0." ++ String.replicateChar (-pos).toNat '0' ++ String.ofList ds
    else if pos ≥ len then
      String.ofList ds ++ String.replicateChar (pos.toNat - len) '0' ++ ".0"
    else String.ofList (ds.take pos.toNat) ++ "." ++ String.ofList (ds.drop pos.toNat)
  else
    let mantissa :=
      match ds with
      | [] => "0"
      | [c] => String.singleton c
      | c :: rest => String.singleton c ++ "." ++ String.ofList rest
    let expDigits := digitString sci.natAbs
    let expText := if expDigits.length < 2 then "0" ++ expDigits else expDigits
    mantissa ++ "e" ++ (if sci < 0 then "-" else "+") ++ expText

end Decimal

/-- The shortest text that reads back as the double (see the module comment). -/
def Float.toText (x : Float) : String :=
  if x.isNaN then "nan"
  else if x.isInf then (if x < 0 then "-inf" else "inf")
  else
    let sign := if Float.signBit x then "-" else ""
    if x == 0 then sign ++ "0.0" else sign ++ (Decimal.shortest x).render

/-- The double with exactly `places` digits after the point (see the module comment). -/
def Float.toFixed (places : Nat) (x : Float) : String :=
  if x.isNaN then "nan"
  else if x.isInf then (if x < 0 then "-inf" else "inf")
  else
    let sign := if Float.signBit x then "-" else ""
    let (m, e) := Binary.magnitude x
    let scaled := m * Nat.pow 10 places
    let q := if e ≥ 0 then scaled * Nat.pow 2 e.toNat else Binary.shiftRound scaled (-e).toNat
    let ds := Decimal.digitString q
    let ds := String.replicateChar (places + 1 - ds.length) '0' ++ ds
    let whole := ds.length - places
    if places = 0 then sign ++ ds
    else sign ++ String.ofList (ds.toList.take whole) ++ "." ++ String.ofList (ds.toList.drop whole)

end Exploration
