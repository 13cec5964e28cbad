import Exploration.Json.Value
import Exploration.Error
import Exploration.Number.Glyph

/-!
# Loose reading of values

A setting may arrive as any JSON value, and is read the way a loosely typed language reads it:

* as a double (`Value.toReal`): integers round to nearest, `true` and `false` are `1.0` and
  `0.0`, and a text is read as a decimal (blanks around it, a sign, digits with single
  underscores between them, an optional point and exponent, or `inf`, `infinity`, `nan` in any
  case), after its Unicode blanks and digits are made ASCII (`Glyph.toAscii`);
* as an integer (`Value.toInteger`): a double is cut toward zero, a text must be a signed run
  of digits;
* by size (`Value.size`): the characters of a text, the items of a list, the members of an
  object;
* by order (`Value.lessThan`): numbers of either kind compare by exact value (a NaN is neither
  below nor above anything), texts by code points; other pairs have no order;
* as text (`Value.describe`): `None`, `True`, `False`, integers in decimal, doubles by
  `Float.toText`, a text as itself, and lists and objects with their items quoted.

A value of the wrong kind is `Error.wrongType`; a text that does not read is `Error.badValue`.
-/

namespace Exploration

namespace Loose

/-- Whether a character is a blank that surrounds a number in a text. -/
def isBlank (c : Char) : Bool :=
  c == ' ' || c == '\t' || c == '\n' || c == '\r' || c.toNat == 11 || c.toNat == 12

/-- A text without its surrounding blanks. -/
def strip (cs : List Char) : List Char :=
  ((cs.dropWhile isBlank).reverse.dropWhile isBlank).reverse

/-- A leading sign: whether it is minus, and the rest. -/
def sign : List Char → Bool × List Char
  | '-' :: rest => (true, rest)
  | '+' :: rest => (false, rest)
  | cs => (false, cs)

/-- A run of digits with single underscores between digits: the digits and the rest, or
`none` for a misplaced underscore. The run may be empty. -/
def digitRun (cs : List Char) : Option (List Char × List Char) :=
  go cs [] false
where
  /-- `afterUnderscore` is set right after an underscore, which must be followed by a digit. -/
  go : List Char → List Char → Bool → Option (List Char × List Char)
    | c :: rest, acc, afterUnderscore =>
      if c.isDigit then go rest (c :: acc) false
      else if c == '_' then (if afterUnderscore || acc.isEmpty then none else go rest acc true)
      else if afterUnderscore then none
      else some (acc.reverse, c :: rest)
    | [], acc, afterUnderscore => if afterUnderscore then none else some (acc.reverse, [])

/-- The natural number of decimal digits. -/
def natOf (ds : List Char) : Nat := ds.foldl (fun n c => 10 * n + (c.toNat - '0'.toNat)) 0

/-- Lower case of an ASCII letter. -/
def lower (c : Char) : Char := if 'A' ≤ c ∧ c ≤ 'Z' then Char.ofNat (c.toNat + 32) else c

/-- The decimal read off a text, if it is one. -/
def readReal (s : String) : Option Float := do
  let s ← Glyph.toAscii s
  let (neg, cs) := sign (strip s.toList)
  let word := String.ofList (cs.map lower)
  let signed := fun (x : Float) => if neg then -x else x
  if word == "inf" || word == "infinity" then some (signed (1.0 / 0.0))
  else if word == "nan" then some (signed (0.0 / 0.0))
  else
    match digitRun cs with
    | none => none
    | some (whole, rest) =>
      let frac? : Option (List Char × List Char) :=
        match rest with
        | '.' :: r => digitRun r
        | r => some ([], r)
      match frac? with
      | none => none
      | some (frac, rest) =>
        if whole.isEmpty ∧ frac.isEmpty then none
        else
          let expo? : Option Int :=
            match rest with
            | [] => some 0
            | c :: r =>
              if c == 'e' || c == 'E' then
                let (eneg, r) := sign r
                match digitRun r with
                | some (ed, []) => if ed.isEmpty then none else some (if eneg then -(natOf ed : Int) else natOf ed)
                | _ => none
              else none
          match expo? with
          | none => none
          | some expo =>
            let m := natOf (whole ++ frac)
            let e : Int := expo - frac.length
            some (signed (if e ≥ 0 then Float.ofScientific m false e.toNat
              else Float.ofScientific m true (-e).toNat))

/-- The integer read off a text, if it is a signed run of digits. -/
def readInt (s : String) : Option Int := do
  let s ← Glyph.toAscii s
  let (neg, cs) := sign (strip s.toList)
  match digitRun cs with
  | some (ds, []) => if ds.isEmpty then none else some (if neg then -(natOf ds : Int) else natOf ds)
  | _ => none

/-- Compares an integer with a finite double by exact value. -/
def cmpIntBinary (n : Int) (b : Binary) : Ordering :=
  if b.exp ≥ 0 then compare n (b.mant * Int.pow 2 b.exp.toNat)
  else compare (n * Int.pow 2 (-b.exp).toNat) b.mant

/-- Compares an integer with a double by exact value; `none` when the double is a NaN. -/
def cmpIntFloat (n : Int) (x : Float) : Option Ordering :=
  if x.isNaN then none
  else match Binary.ofFloat? x with
    | some b => some (cmpIntBinary n b)
    | none => some (if x > 0 then .lt else .gt)

/-- The double nearest to an integer. -/
def intToFloat (n : Int) : Float := (Binary.mk n 0).toFloat

/-- A quoted text, with the quote that needs no escaping when it can. -/
def quoteText (s : String) : String :=
  let q := if s.any (· == '\'') && !s.any (· == '"') then '"' else '\''
  let esc := fun (c : Char) =>
    if c == q then "\\" ++ String.singleton c
    else if c == '\\' then "\\\\"
    else if c == '\n' then "\\n"
    else if c == '\r' then "\\r"
    else if c == '\t' then "\\t"
    else String.singleton c
  String.singleton q ++ String.join (s.toList.map esc) ++ String.singleton q

end Loose

namespace Value

/-- A value as a double (see the module comment). -/
def toReal : Value → Except Error Float
  | .num x => .ok x
  | .int n =>
    let x := Loose.intToFloat n
    if x.isInf then .error .overflow else .ok x
  | .bool b => .ok (if b then 1.0 else 0.0)
  | .str s => match Loose.readReal s with
    | some x => .ok x
    | none => .error .badValue
  | _ => .error .wrongType

/-- A number as a double, for arithmetic with doubles: an integer (too large ones overflow), a
double or a truth value; a text or any other value is the wrong kind. -/
def toNumber : Value → Except Error Float
  | .num x => .ok x
  | .int n => toReal (.int n)
  | .bool b => .ok (if b then 1.0 else 0.0)
  | _ => .error .wrongType

/-- A double cut toward zero to an integer; a NaN has none and an infinity is too large. -/
def truncate (x : Float) : Except Error Int :=
  if x.isNaN then .error .badValue
  else match Binary.ofFloat? x with
    | none => .error .overflow
    | some b =>
      if b.exp ≥ 0 then .ok (b.mant * Int.pow 2 b.exp.toNat)
      else .ok (b.mant.tdiv (Int.pow 2 (-b.exp).toNat))

/-- A value as an integer (see the module comment). -/
def toInteger : Value → Except Error Int
  | .int n => .ok n
  | .bool b => .ok (if b then 1 else 0)
  | .num x => truncate x
  | .str s => match Loose.readInt s with
    | some n => .ok n
    | none => .error .badValue
  | _ => .error .wrongType

/-- The size of a text, list or object. -/
def size : Value → Except Error Nat
  | .str s => .ok s.length
  | .list xs => .ok xs.length
  | .dict kvs => .ok kvs.length
  | _ => .error .wrongType

/-- A value read as a truth value: `false`, `null`, zero, and empty texts, lists and objects are
false, all else true. -/
def truthy : Value → Bool
  | .null => false
  | .bool b => b
  | .int n => n != 0
  | .num x => x != 0.0
  | .str s => !s.isEmpty
  | .list xs => !xs.isEmpty
  | .dict kvs => !kvs.isEmpty

/-- The items a value yields when walked over: the items of a list, the characters of a text
(each a text of one character), the keys of an object. Other values cannot be walked. -/
def iter : Value → Except Error (List Value)
  | .list xs => .ok xs
  | .str s => .ok (s.toList.map fun c => .str (String.singleton c))
  | .dict kvs => .ok (kvs.map fun (k, _) => .str k)
  | _ => .error .wrongType

/-- Whether a text is among what a value holds: a key of an object, an item of a list equal to
the text, a piece of a text. Other values hold nothing to ask about. -/
def mentions (v : Value) (key : String) : Except Error Bool :=
  match v with
  | .dict kvs => .ok (kvs.any (·.1 == key))
  | .list xs => .ok (xs.any fun
    | .str t => t == key
    | _ => false)
  | .str s => .ok (key.isEmpty || (s.splitOn key).length > 1)
  | _ => .error .wrongType

/-- The member of an object under a key: its absence is `Error.missingKey`, and a value that is
not an object cannot be looked up by a text. -/
def member (v : Value) (key : String) : Except Error Value :=
  match v with
  | .dict _ => match v.get? key with
    | some x => .ok x
    | none => .error .missingKey
  | _ => .error .wrongType

/-- A number of either kind, with `true` and `false` as one and zero. -/
inductive Numeric where
  | whole (n : Int)
  | real (x : Float)

/-- The number a value stands for in a comparison, if it is one. -/
def numeric? : Value → Option Numeric
  | .int n => some (.whole n)
  | .bool b => some (.whole (if b then 1 else 0))
  | .num x => some (.real x)
  | _ => none

/-- The order of two numbers by exact value; `none` when a NaN takes part. -/
def Numeric.compare? : Numeric → Numeric → Option Ordering
  | .whole a, .whole b => some (compare a b)
  | .whole a, .real y => Loose.cmpIntFloat a y
  | .real x, .whole b => (Loose.cmpIntFloat b x).map Ordering.swap
  | .real x, .real y => if x < y then some .lt else if y < x then some .gt
    else if x == y then some .eq else none

/-- Whether `a < b` (see the module comment). -/
def lessThan (a b : Value) : Except Error Bool :=
  match numeric? a, numeric? b with
  | some x, some y => .ok (x.compare? y == some .lt)
  | _, _ =>
    match a, b with
    | .str s, .str t => .ok (decide (s < t))
    | _, _ => .error .wrongType

/-- Whether `a ≤ b`. -/
def atMost (a b : Value) : Except Error Bool :=
  match numeric? a, numeric? b with
  | some x, some y => .ok (x.compare? y == some .lt || x.compare? y == some .eq)
  | _, _ =>
    match a, b with
    | .str s, .str t => .ok (decide (s ≤ t))
    | _, _ => .error .wrongType

mutual

/-- The text of a value (see the module comment). -/
def describe : Value → String
  | .null => "None"
  | .bool b => if b then "True" else "False"
  | .int n => toString n
  | .num x => Float.toText x
  | .str s => s
  | .list xs => "[" ++ quotedItems xs ++ "]"
  | .dict kvs => "\x7b" ++ quotedMembers kvs ++ "\x7d"

/-- The text of a value inside a list or object: texts are quoted. -/
def quoted : Value → String
  | .str s => Loose.quoteText s
  | v => describe v

/-- The items of a list, quoted and separated by commas. -/
def quotedItems : List Value → String
  | [] => ""
  | [x] => quoted x
  | x :: xs => quoted x ++ ", " ++ quotedItems xs

/-- The members of an object, quoted and separated by commas. -/
def quotedMembers : List (String × Value) → String
  | [] => ""
  | [(k, x)] => Loose.quoteText k ++ ": " ++ quoted x
  | (k, x) :: kvs => Loose.quoteText k ++ ": " ++ quoted x ++ ", " ++ quotedMembers kvs

end

end Value

end Exploration
