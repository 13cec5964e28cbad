import Exploration.Json.Value

/-!
# Writing JSON text

`Value.render` writes a value on one line. A finite double is written by `Float.toText`
(`1.0`, `1e-05`, `-0.0`), which is a JSON number that reads back as the same double; a
non-finite double is written as the object `{"$float": "inf"}`, `"-inf"` or `"nan"`, the form
that `Value.parse` reads back. Strings escape the quote, the backslash and the control
characters; other characters are written as they are.
-/

namespace Exploration

namespace Json

/-- Four lowercase hexadecimal digits of a number below `2 ^ 16`. -/
def hexText (n : Nat) : String :=
  let d := fun (k : Nat) => "0123456789abcdef".toList.getD (n / Nat.pow 16 k % 16) '0'
  String.ofList [d 3, d 2, d 1, d 0]

/-- A character inside a quoted string. -/
def escapeChar (c : Char) : String :=
  if c == '"' then "\\\""
  else if c == '\\' then "\\\\"
  else if c == '\n' then "\\n"
  else if c == '\r' then "\\r"
  else if c == '\t' then "\\t"
  else if c.toNat < 0x20 then "\\u" ++ hexText c.toNat
  else String.singleton c

/-- A quoted string. -/
def quote (s : String) : String :=
  "\"" ++ String.join (s.toList.map escapeChar) ++ "\""

/-- A double: its shortest text, or the tagged object for the non-finite ones. -/
def numberText (x : Float) : String :=
  if x.isNaN then "\x7b\"$float\": \"nan\"\x7d"
  else if x.isInf then (if x < 0 then "\x7b\"$float\": \"-inf\"\x7d" else "\x7b\"$float\": \"inf\"\x7d")
  else Float.toText x

end Json

mutual

/-- The JSON text of a value on one line. -/
def Value.render : Value → String
  | .null => "null"
  | .bool b => if b then "true" else "false"
  | .int n => toString n
  | .num x => Json.numberText x
  | .str s => Json.quote s
  | .list xs => "[" ++ Value.renderItems xs ++ "]"
  | .dict kvs => "\x7b" ++ Value.renderMembers kvs ++ "\x7d"

/-- The items of a list, separated by commas. -/
def Value.renderItems : List Value → String
  | [] => ""
  | [x] => x.render
  | x :: xs => x.render ++ ", " ++ Value.renderItems xs

/-- The members of an object, separated by commas. -/
def Value.renderMembers : List (String × Value) → String
  | [] => ""
  | [(k, x)] => Json.quote k ++ ": " ++ x.render
  | (k, x) :: kvs => Json.quote k ++ ": " ++ x.render ++ ", " ++ Value.renderMembers kvs

end

end Exploration
