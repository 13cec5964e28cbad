import Exploration.Json.Value

/-!
# Reading JSON text

`Value.parse` reads one JSON value, with blanks around it, into a `Value`.

* A number with a fraction or an exponent is a double, rounded to nearest; any other number is
  an integer of any size.
* The words `NaN`, `Infinity` and `-Infinity` stand for the doubles of those names, and so does
  an object whose only member is `"$float"` with the text `"nan"`, `"inf"` or `"-inf"`: JSON
  has no literal for them.
* In an object a repeated key keeps its first place and takes its last value.
* `\u` escapes join surrogate pairs; a lone surrogate reads as U+FFFD.

Every step of the reader consumes at least one character, so the length of the text bounds
the depth of the recursion; it is passed as fuel.
-/

namespace Exploration

namespace Json

/-- What is left to read. -/
abbrev Input := List Char

/-- A reader of a prefix: the value and the rest, or a description of the fault. -/
abbrev Reader (α : Type) := Input → Except String (α × Input)

/-- Skips blanks. -/
def skipBlank : Input → Input
  | c :: rest => if c == ' ' || c == '\t' || c == '\n' || c == '\r' then skipBlank rest else c :: rest
  | [] => []

/-- The value of a hexadecimal digit. -/
def hexDigit? (c : Char) : Option Nat :=
  if '0' ≤ c ∧ c ≤ '9' then some (c.toNat - '0'.toNat)
  else if 'a' ≤ c ∧ c ≤ 'f' then some (c.toNat - 'a'.toNat + 10)
  else if 'A' ≤ c ∧ c ≤ 'F' then some (c.toNat - 'A'.toNat + 10)
  else none

/-- Four hexadecimal digits. -/
def hex4 : Reader Nat
  | a :: b :: c :: d :: rest =>
    match hexDigit? a, hexDigit? b, hexDigit? c, hexDigit? d with
    | some w, some x, some y, some z => .ok (((w * 16 + x) * 16 + y) * 16 + z, rest)
    | _, _, _, _ => .error "bad \\u escape"
  | _ => .error "bad \\u escape"

/-- The character of a code point, U+FFFD for a surrogate or a value past the last. -/
def charOf (n : Nat) : Char :=
  if n < 0xD800 ∨ (0xDFFF < n ∧ n < 0x110000) then Char.ofNat n else Char.ofNat 0xFFFD

/-- The escape after a backslash; `\u` joins a high and a low surrogate. -/
def escape : Reader Char
  | '"' :: rest => .ok ('"', rest)
  | '\\' :: rest => .ok ('\\', rest)
  | '/' :: rest => .ok ('/', rest)
  | 'b' :: rest => .ok (Char.ofNat 8, rest)
  | 'f' :: rest => .ok (Char.ofNat 12, rest)
  | 'n' :: rest => .ok ('\n', rest)
  | 'r' :: rest => .ok ('\r', rest)
  | 't' :: rest => .ok ('\t', rest)
  | 'u' :: rest => do
    let (hi, rest) ← hex4 rest
    if 0xD800 ≤ hi ∧ hi < 0xDC00 then
      match rest with
      | '\\' :: 'u' :: rest2 =>
        match hex4 rest2 with
        | .ok (lo, rest3) =>
          if 0xDC00 ≤ lo ∧ lo < 0xE000 then
            .ok (charOf (0x10000 + (hi - 0xD800) * 0x400 + (lo - 0xDC00)), rest3)
          else .ok (charOf hi, rest)
        | .error _ => .ok (charOf hi, rest)
      | _ => .ok (charOf hi, rest)
    else .ok (charOf hi, rest)
  | _ => .error "bad escape"

/-- The characters of a string up to its closing quote (the opening one already read). -/
def stringBody : Input → List Char → Except String (String × Input)
  | [], _ => .error "unterminated string"
  | '"' :: rest, acc => .ok (String.ofList acc.reverse, rest)
  | '\\' :: rest, acc =>
    match escape rest with
    | .ok (c, rest') =>
      -- the escape consumed at least one character
      if rest'.length < rest.length then stringBody rest' (c :: acc) else .error "bad escape"
    | .error e => .error e
  | c :: rest, acc => stringBody rest (c :: acc)
termination_by input => input.length

/-- The leading decimal digits. -/
def digits (cs : Input) : List Char × Input := (cs.takeWhile Char.isDigit, cs.dropWhile Char.isDigit)

/-- The natural number of a list of decimal digits. -/
def natOfDigits (ds : List Char) : Nat := ds.foldl (fun n c => 10 * n + (c.toNat - '0'.toNat)) 0

/-- A number: an integer when it has neither fraction nor exponent, else a double. -/
def number : Reader Value := fun cs =>
  let (neg, cs) := match cs with
    | '-' :: rest => (true, rest)
    | _ => (false, cs)
  let (whole, cs) := digits cs
  if whole.isEmpty then .error "bad number"
  else
    let (frac, hasFrac, cs) := match cs with
      | '.' :: rest => let (f, r) := digits rest; (f, true, r)
      | _ => ([], false, cs)
    if hasFrac ∧ frac.isEmpty then .error "bad number"
    else
      let (expo, hasExp, ok, cs) := match cs with
        | c :: rest =>
          if c == 'e' || c == 'E' then
            let (eneg, rest) := match rest with
              | '-' :: r => (true, r)
              | '+' :: r => (false, r)
              | r => (false, r)
            let (ed, r) := digits rest
            ((if eneg then -(natOfDigits ed : Int) else natOfDigits ed), true, !ed.isEmpty, r)
          else (0, false, true, cs)
        | [] => (0, false, true, cs)
      if !ok then .error "bad number"
      else if !hasFrac ∧ !hasExp then
        let n : Int := natOfDigits whole
        .ok (.int (if neg then -n else n), cs)
      else
        let m := natOfDigits (whole ++ frac)
        let e : Int := expo - frac.length
        let x := if e ≥ 0 then Float.ofScientific m false e.toNat else Float.ofScientific m true (-e).toNat
        .ok (.num (if neg then -x else x), cs)

/-- An object `{"$float": "inf" | "-inf" | "nan"}` stands for that double. -/
def tagged (kvs : List (String × Value)) : Value :=
  match kvs with
  | [("$float", .str "inf")] => .num (1.0 / 0.0)
  | [("$float", .str "-inf")] => .num (-1.0 / 0.0)
  | [("$float", .str "nan")] => .num (0.0 / 0.0)
  | _ => .dict kvs

mutual

/-- A value after blanks. -/
def value : Nat → Reader Value
  | 0, _ => .error "too deep"
  | fuel + 1, cs =>
    match skipBlank cs with
    | 'n' :: 'u' :: 'l' :: 'l' :: rest => .ok (.null, rest)
    | 't' :: 'r' :: 'u' :: 'e' :: rest => .ok (.bool true, rest)
    | 'f' :: 'a' :: 'l' :: 's' :: 'e' :: rest => .ok (.bool false, rest)
    | 'N' :: 'a' :: 'N' :: rest => .ok (.num (0.0 / 0.0), rest)
    | 'I' :: 'n' :: 'f' :: 'i' :: 'n' :: 'i' :: 't' :: 'y' :: rest => .ok (.num (1.0 / 0.0), rest)
    | '-' :: 'I' :: 'n' :: 'f' :: 'i' :: 'n' :: 'i' :: 't' :: 'y' :: rest =>
      .ok (.num (-1.0 / 0.0), rest)
    | '"' :: rest => (stringBody rest []).map fun (s, r) => (.str s, r)
    | '[' :: rest =>
      match skipBlank rest with
      | ']' :: rest' => .ok (.list [], rest')
      | _ => (items fuel rest []).map fun (xs, r) => (.list xs, r)
    | '{' :: rest =>
      match skipBlank rest with
      | '}' :: rest' => .ok (.dict [], rest')
      | _ => (members fuel rest []).map fun (kvs, r) => (tagged kvs, r)
    | cs' => number cs'

/-- The items of a list after its first bracket, each followed by a comma or the closing
bracket. -/
def items : Nat → Input → List Value → Except String (List Value × Input)
  | 0, _, _ => .error "too deep"
  | fuel + 1, cs, acc => do
    let (x, rest) ← value fuel cs
    match skipBlank rest with
    | ',' :: rest' => items fuel rest' (x :: acc)
    | ']' :: rest' => .ok ((x :: acc).reverse, rest')
    | _ => .error "expected , or ]"

/-- The members of an object after its first brace. -/
def members : Nat → Input → List (String × Value) → Except String (List (String × Value) × Input)
  | 0, _, _ => .error "too deep"
  | fuel + 1, cs, acc =>
    match skipBlank cs with
    | '"' :: rest => do
      let (k, rest) ← stringBody rest []
      match skipBlank rest with
      | ':' :: rest => do
        let (x, rest) ← value fuel rest
        let acc := Value.set acc k x
        match skipBlank rest with
        | ',' :: rest' => members fuel rest' acc
        | '}' :: rest' => .ok (acc, rest')
        | _ => .error "expected , or \x7d"
      | _ => .error "expected :"
    | _ => .error "expected a key"

end

end Json

/-- Reads a whole text as one JSON value. -/
def Value.parse (s : String) : Except String Value := do
  let cs := s.toList
  let (v, rest) ← Json.value (cs.length + 1) cs
  if (Json.skipBlank rest).isEmpty then .ok v else .error "extra data"

end Exploration
