/-!
JSON documents whose objects keep their members in the order written. The persisted form of a
contract is JSON whose maps (functions, blocks, structs) are ordered by insertion, so the order
of members is part of the value. `render` is the compact text and `pretty` the indented one;
both escape strings the same way.
-/

namespace ContractCfg

/-- A JSON document; object members keep their order and may repeat a key. -/
inductive Json where
  | null
  | bool (b : Bool)
  | num (n : Int)
  | frac (text : String)
  | str (s : String)
  | arr (items : List Json)
  | obj (members : List (String × Json))
  deriving Inhabited, BEq, Repr

namespace Json

/-- The lowercase hexadecimal digit of `n < 16`. -/
def hexDigit (n : Nat) : Char :=
  if n < 10 then Char.ofNat (48 + n) else Char.ofNat (87 + n)

/-- The escaped form of one character inside a string: quote, backslash and control
characters are escaped, everything else stands as it is. -/
def escapeChar (c : Char) : String :=
  if c = '"' then "\\\""
  else if c = '\\' then "\\\\"
  else if c = '\n' then "\\n"
  else if c = '\r' then "\\r"
  else if c = '\t' then "\\t"
  else if c.toNat = 8 then "\\b"
  else if c.toNat = 12 then "\\f"
  else if c.toNat < 32 then
    String.ofList ['\\', 'u', '0', '0', hexDigit (c.toNat / 16), hexDigit (c.toNat % 16)]
  else String.singleton c

/-- A string literal. -/
def quote (s : String) : String :=
  (s.foldl (fun acc c => acc ++ escapeChar c) "\"").push '"'

/-- The body of the string literal for `s`: its characters escaped, without the quotes. -/
def escaped (s : String) : String := s.foldl (fun acc c => acc ++ escapeChar c) ""

mutual
/-- The compact text: no whitespace between tokens. -/
def render : Json → String
  | .null => "null"
  | .bool b => if b then "true" else "false"
  | .num n => toString n
  | .frac t => t
  | .str s => quote s
  | .arr xs => "[" ++ renderItems xs ++ "]"
  | .obj ms => "\x7b" ++ renderMembers ms ++ "\x7d"

/-- Array items of the compact text, comma separated. -/
def renderItems : List Json → String
  | [] => ""
  | [x] => render x
  | x :: xs => render x ++ "," ++ renderItems xs

/-- Object members of the compact text, comma separated. -/
def renderMembers : List (String × Json) → String
  | [] => ""
  | [(k, v)] => quote k ++ ":" ++ render v
  | (k, v) :: ms => quote k ++ ":" ++ render v ++ "," ++ renderMembers ms
end

/-- Two spaces per level of nesting. -/
def indent (depth : Nat) : String := String.ofList (List.replicate (2 * depth) ' ')

mutual
/-- The indented text: one item or member per line, two spaces per level, and `[]` or the
empty object for empty containers. -/
def pretty (depth : Nat) : Json → String
  | .arr [] => "[]"
  | .obj [] => "\x7b\x7d"
  | .arr xs => "[\n" ++ prettyItems (depth + 1) xs ++ "\n" ++ indent depth ++ "]"
  | .obj ms => "\x7b\n" ++ prettyMembers (depth + 1) ms ++ "\n" ++ indent depth ++ "\x7d"
  | j => render j

/-- Array items of the indented text at `depth`. -/
def prettyItems (depth : Nat) : List Json → String
  | [] => ""
  | [x] => indent depth ++ pretty depth x
  | x :: xs => indent depth ++ pretty depth x ++ ",\n" ++ prettyItems depth xs

/-- Object members of the indented text at `depth`. -/
def prettyMembers (depth : Nat) : List (String × Json) → String
  | [] => ""
  | [(k, v)] => indent depth ++ quote k ++ ": " ++ pretty depth v
  | (k, v) :: ms => indent depth ++ quote k ++ ": " ++ pretty depth v ++ ",\n" ++ prettyMembers depth ms
end

mutual
/-- The number of arrays and objects nested at the deepest point. -/
def depth : Json → Nat
  | .arr xs => itemsDepth xs + 1
  | .obj ms => membersDepth ms + 1
  | _ => 0

/-- The largest depth of the items. -/
def itemsDepth : List Json → Nat
  | [] => 0
  | x :: xs => max (depth x) (itemsDepth xs)

/-- The largest depth of the members' values. -/
def membersDepth : List (String × Json) → Nat
  | [] => 0
  | (_, v) :: ms => max (depth v) (membersDepth ms)
end

/-- The value of the first member named `key`, if this is an object that has one. -/
def get? (j : Json) (key : String) : Option Json :=
  match j with
  | .obj ms => ms.lookup key
  | _ => none

/-- An object built from members. -/
def mkObj (ms : List (String × Json)) : Json := .obj ms

/-- A list of strings. -/
def strs (xs : List String) : Json := .arr (xs.map .str)

/-- A string, or `null` for none. -/
def optStr : Option String → Json
  | some s => .str s
  | none => .null

/-- Whether an integer is held by a JSON number as an integer: it fits a 64-bit word, signed
or unsigned. -/
def fitsWord (n : Int) : Bool :=
  decide (-((Nat.pow 2 63 : Nat) : Int) ≤ n) && decide (n < ((Nat.pow 2 64 : Nat) : Int))

/-- A big integer written as a string of decimal digits. -/
def bigNum (n : Int) : Json := .str (toString n)

end Json

end ContractCfg
