import Exploration.Number.Binary

/-!
# Shortest decimal of a double

`Decimal.shortest x` is the decimal `digits * 10 ^ exp` with the fewest significant digits
that reads back as the positive finite double `x`, and of those the nearest to `x`; an exact
tie between two nearest goes to the even digit string.

A decimal reads back as `x = m * 2 ^ e` when it lies in the rounding interval of `x`: from
halfway to the double below to halfway to the double above, both ends included when `m` is
even. For each count of digits `n = 1, 2, …, 17` only the two neighbours of `x` on the grid
`10 ^ (p - n + 1)` can lie in it (`p` the decimal exponent of `x`); the first count with a
neighbour inside wins. Seventeen digits always succeed. All comparisons are exact, on natural
numbers.
-/

namespace Exploration

/-- A decimal `digits * 10 ^ exp`. -/
structure Decimal where
  digits : Nat
  exp : Int
  deriving Repr, DecidableEq, Inhabited

namespace Decimal

/-- Compares `c * 10 ^ k` with `x * 2 ^ e`. -/
def cmpScaled (c : Nat) (k : Int) (x : Nat) (e : Int) : Ordering :=
  compare (c * Nat.pow 10 k.toNat * Nat.pow 2 (-e).toNat) (x * Nat.pow 2 e.toNat * Nat.pow 10 (-k).toNat)

/-- `⌊x * 2 ^ e / 10 ^ k⌋`. -/
def floorScaled (x : Nat) (e : Int) (k : Int) : Nat :=
  (x * Nat.pow 2 e.toNat * Nat.pow 10 (-k).toNat) / (Nat.pow 2 (-e).toNat * Nat.pow 10 k.toNat)

/-- The decimal exponent `p` of `x * 2 ^ e > 0`: `10 ^ p ≤ x * 2 ^ e < 10 ^ (p + 1)`.
The first guess from the binary exponent is off by at most one; a few corrections settle it. -/
def exponent10 (x : Nat) (e : Int) : Int :=
  let guess := Int.fdiv (((x.log2 : Int) + e) * 30103) 100000
  let down := fun (p : Int) => if cmpScaled 1 p x e == .gt then p - 1 else p
  let up := fun (p : Int) => if cmpScaled 1 (p + 1) x e == .gt then p else p + 1
  up (up (down (down guess)))

/-- Drops the trailing zeros of the digits, raising the exponent. -/
def trim (d : Decimal) : Decimal :=
  go d.digits d.exp d.digits
where
  /-- `fuel` bounds the number of zeros removed; the digits themselves are a bound. -/
  go (n : Nat) (k : Int) : Nat → Decimal
    | 0 => ⟨n, k⟩
    | fuel + 1 => if n ≠ 0 ∧ n % 10 = 0 then go (n / 10) (k + 1) fuel else ⟨n, k⟩

/-- The choice on the grid `10 ^ k` for `v = 4m * 2 ^ (e - 2)` with the rounding interval
`[lo, hi] * 2 ^ (e - 2)`: the neighbour inside the interval, the nearer of two inside, or none. -/
def onGrid (v lo hi : Nat) (e : Int) (inclusive : Bool) (k : Int) : Option Nat :=
  let q := floorScaled v e k
  let inLow : Nat → Bool := fun c =>
    match cmpScaled c k lo e with
    | .gt => true
    | .eq => inclusive
    | .lt => false
  let inHigh : Nat → Bool := fun c =>
    match cmpScaled c k hi e with
    | .lt => true
    | .eq => inclusive
    | .gt => false
  let below := q != 0 && inLow q
  let above := inHigh (q + 1)
  match below, above with
  | true, true =>
    -- the nearer one: compare `v` with the midpoint `(2q + 1) / 2 * 10 ^ k`
    match cmpScaled (2 * q + 1) k (2 * v) e with
    | .gt => some q
    | .lt => some (q + 1)
    | .eq => some (if q % 2 = 0 then q else q + 1)
  | true, false => some q
  | false, true => some (q + 1)
  | false, false => none

/-- The shortest decimal that reads back as `m * 2 ^ e` (`m > 0`, a double's significand and
exponent); `boundary` marks a significand `2 ^ 52` above the least exponent, whose gap below
is half the gap above. -/
def shortestOf (m : Nat) (e : Int) (boundary : Bool) : Decimal :=
  let v := 4 * m
  let lo := if boundary then 4 * m - 1 else 4 * m - 2
  let hi := 4 * m + 2
  let e2 := e - 2
  let p := exponent10 m e
  let inclusive := m % 2 == 0
  let rec search : Nat → Nat → Decimal
    | 0, _ => ⟨floorScaled v e2 (p - 16), p - 16⟩
    | fuel + 1, n =>
      let k := p - (n : Int) + 1
      match onGrid v lo hi e2 inclusive k with
      | some c => ⟨c, k⟩
      | none => search fuel (n + 1)
  trim (search 17 1)

/-- The shortest decimal that reads back as `|x|`, for a finite nonzero double `x`. -/
def shortest (x : Float) : Decimal :=
  let (_, be, f) := Binary.fields x
  let (m, e) := Binary.magnitude x
  shortestOf m e (f == 0 && be > 1)

/-- The decimal digits of a natural number, most significant first. -/
def digitString (n : Nat) : String :=
  String.ofList (Nat.toDigits 10 n)

end Decimal

end Exploration
