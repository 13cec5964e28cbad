/-!
# Exact binary fractions

Every finite double is exactly `mant * 2 ^ exp` for integers `mant` and `exp`. This module
reads that pair off the bit pattern (`Binary.ofFloat?`), rounds any such pair back to the
nearest double with ties to an even significand (`Binary.toFloat`), and joins the two into a
fused multiply-add `Float.fusedMulAdd a b c`, which rounds `a * b + c` once, and into the whole
doubles next to a double (`Binary.floor`, `Binary.ceil`).

The rounding is the one of IEEE 754 binary64: a significand of 53 bits, the least exponent of
the last place `-1074` (below it the numbers are subnormal), and a value too large for the
greatest exponent becomes an infinity.
-/

namespace Exploration

/-- An exact binary fraction `mant * 2 ^ exp`. -/
structure Binary where
  mant : Int
  exp : Int
  deriving Repr, DecidableEq, Inhabited

namespace Binary

/-- The sign bit, the biased exponent field (11 bits) and the fraction field (52 bits). -/
def fields (x : Float) : Bool × Nat × Nat :=
  let b := x.toBits.toNat
  (b / Nat.pow 2 63 % 2 == 1, b / Nat.pow 2 52 % Nat.pow 2 11, b % Nat.pow 2 52)

/-- The significand and exponent of the magnitude of a finite double: `|x| = m * 2 ^ e`. -/
def magnitude (x : Float) : Nat × Int :=
  let (_, e, f) := fields x
  if e = 0 then (f, -1074) else (f + Nat.pow 2 52, (e : Int) - 1075)

/-- The exact value of a finite double, or `none` for an infinity or a NaN. The sign of a
zero is lost: both zeros give `⟨0, -1074⟩`. -/
def ofFloat? (x : Float) : Option Binary :=
  let (s, e, _) := fields x
  if e = 2047 then none
  else
    let (m, q) := magnitude x
    some ⟨if s then -(m : Int) else m, q⟩

/-- Sum, exact: both terms are brought to the smaller exponent. -/
def add (a b : Binary) : Binary :=
  let e := min a.exp b.exp
  ⟨a.mant * Int.pow 2 (a.exp - e).toNat + b.mant * Int.pow 2 (b.exp - e).toNat, e⟩

/-- Product, exact. -/
def mul (a b : Binary) : Binary := ⟨a.mant * b.mant, a.exp + b.exp⟩

/-- `n / 2 ^ k` rounded to the nearest integer, a half going to the even neighbour. -/
def shiftRound (n k : Nat) : Nat :=
  if k = 0 then n
  else
    let q := n / Nat.pow 2 k
    let r := n % Nat.pow 2 k
    let half := Nat.pow 2 (k - 1)
    if r > half ∨ (r = half ∧ q % 2 = 1) then q + 1 else q

/-- The bit pattern of the double `s * 2 ^ u` for a significand `s < 2 ^ 53` that is
already rounded to the place `2 ^ u`; `u ≥ -1074`. -/
def pack (neg : Bool) (s : Nat) (u : Int) : Float :=
  let signBit := if neg then Nat.pow 2 63 else 0
  if s < Nat.pow 2 52 then
    -- subnormal or zero: the exponent field is zero and `u = -1074`
    Float.ofBits (UInt64.ofNat (signBit + s))
  else
    let biased := u + 1075
    if biased ≥ 2047 then Float.ofBits (UInt64.ofNat (signBit + 2047 * Nat.pow 2 52))
    else Float.ofBits (UInt64.ofNat (signBit + biased.toNat * Nat.pow 2 52 + (s - Nat.pow 2 52)))

/-- The double nearest to `n * 2 ^ e` for a natural `n`, with the given sign; a half goes to
the even significand, and a value past the largest double becomes an infinity. -/
def roundMagnitude (neg : Bool) (n : Nat) (e : Int) : Float :=
  if n = 0 then pack neg 0 (-1074)
  else
    -- the leading bit of `n * 2 ^ e` stands at `2 ^ top`
    let top := e + n.log2
    let u := max (top - 52) (-1074)
    if u ≤ e then pack neg (n * Nat.pow 2 (e - u).toNat) u
    else
      let s := shiftRound n (u - e).toNat
      if s = Nat.pow 2 53 then pack neg (Nat.pow 2 52) (u + 1) else pack neg s u

/-- The double nearest to the fraction (ties to an even significand). A zero fraction gives
`+0.0`. -/
def toFloat (b : Binary) : Float :=
  roundMagnitude (b.mant < 0) b.mant.natAbs b.exp

/-- The greatest whole double not above `x`. NaN, the infinities, the zeros and whole doubles are
their own; any other double is below `2 ^ 52` in size, and its floor, taken on its exact value,
is a double exactly. -/
def floor (x : Float) : Float :=
  match ofFloat? x with
  | none => x
  | some b =>
    if b.exp ≥ 0 || x == 0 then x
    else toFloat ⟨b.mant.fdiv (Int.pow 2 (-b.exp).toNat), 0⟩

/-- The least whole double not below `x`: the floor of `-x`, negated, so that a value between
`-1` and `0` goes to `-0.0`. -/
def ceil (x : Float) : Float := -floor (-x)

end Binary

/-- `a * b + c` rounded once, as a fused multiply-add does. A zero product leaves the plain
sum, which is exact and carries the sign rules of zeros; an exact sum of zero is `+0.0`;
any infinite or NaN operand gives the plain `a * b + c`, whose special cases agree. -/
def Float.fusedMulAdd (a b c : Float) : Float :=
  match Binary.ofFloat? a, Binary.ofFloat? b, Binary.ofFloat? c with
  | some x, some y, some z =>
    if x.mant = 0 ∨ y.mant = 0 then a * b + c
    else ((x.mul y).add z).toFloat
  | _, _, _ => a * b + c

end Exploration
