import ContractCfg.Json.Basic

/-!
Reading JSON text strictly: whitespace is space, tab, line feed and carriage return; numbers
have no leading zeros; strings admit the standard escapes, join surrogate pairs, and refuse raw
control characters; nothing but whitespace may follow the value. Integers are read exactly;
a number with a fraction or an exponent keeps its text.

A document may also be read as written: its strings and keys keep their escapes, which are
checked only for their form, so a reader decodes just the text it reads (see `unescape`), and
text it skips may hold unpaired surrogates.
-/

namespace ContractCfg.Json

/-- Drops leading whitespace. -/
def skipWs : List Char → List Char
  | ' ' :: r => skipWs r
  | '\t' :: r => skipWs r
  | '\n' :: r => skipWs r
  | '\r' :: r => skipWs r
  | cs => cs

/-- The value of a hexadecimal digit. -/
def hexValue (c : Char) : Option Nat :=
  if '0' ≤ c ∧ c ≤ '9' then some (c.toNat - 48)
  else if 'a' ≤ c ∧ c ≤ 'f' then some (c.toNat - 87)
  else if 'A' ≤ c ∧ c ≤ 'F' then some (c.toNat - 55)
  else none

/-- The code unit written by four hexadecimal digits. -/
def hex4 (a b c d : Char) : Option Nat := do
  pure ((((← hexValue a) * 16 + (← hexValue b)) * 16 + (← hexValue c)) * 16 + (← hexValue d))

/-- Reads the rest of a string literal after its opening quote. -/
def readString : List Char → String → Except String (String × List Char)
  | [], _ => .error "unterminated string"
  | '"' :: r, acc => .ok (acc, r)
  | '\\' :: 'u' :: a :: b :: c :: d :: r, acc =>
    match hex4 a b c d with
    | none => .error "invalid unicode escape"
    | some u =>
      if 0xD800 ≤ u ∧ u < 0xDC00 then
        match r with
        | '\\' :: 'u' :: e :: f :: g :: h :: r' =>
          match hex4 e f g h with
          | some w =>
            if 0xDC00 ≤ w ∧ w < 0xE000 then
              readString r' (acc.push (Char.ofNat (0x10000 + (u - 0xD800) * 0x400 + (w - 0xDC00))))
            else .error "lone leading surrogate"
          | none => .error "invalid unicode escape"
        | _ => .error "lone leading surrogate"
      else if 0xDC00 ≤ u ∧ u < 0xE000 then .error "lone trailing surrogate"
      else readString r (acc.push (Char.ofNat u))
  | '\\' :: e :: r, acc =>
    match e with
    | '"' => readString r (acc.push '"')
    | '\\' => readString r (acc.push '\\')
    | '/' => readString r (acc.push '/')
    | 'b' => readString r (acc.push (Char.ofNat 8))
    | 'f' => readString r (acc.push (Char.ofNat 12))
    | 'n' => readString r (acc.push '\n')
    | 'r' => readString r (acc.push '\r')
    | 't' => readString r (acc.push '\t')
    | _ => .error "invalid escape"
  | c :: r, acc =>
    if c.toNat < 32 then .error "control character in string" else readString r (acc.push c)

/-- Reads the rest of a string literal after its opening quote as written, escapes included,
checking only their form: a backslash is followed by one of the standard escape letters, or by
`u` and four hexadecimal digits. -/
def scanString : List Char → String → Except String (String × List Char)
  | [], _ => .error "unterminated string"
  | '"' :: r, acc => .ok (acc, r)
  | '\\' :: 'u' :: a :: b :: c :: d :: r, acc =>
    if (hex4 a b c d).isSome then scanString r (acc ++ String.ofList ['\\', 'u', a, b, c, d])
    else .error "invalid unicode escape"
  | '\\' :: e :: r, acc =>
    if e ∈ ['"', '\\', '/', 'b', 'f', 'n', 'r', 't'] then scanString r ((acc.push '\\').push e)
    else .error "invalid escape"
  | c :: r, acc =>
    if c.toNat < 32 then .error "control character in string" else scanString r (acc.push c)

/-- The text that the body of a string literal writes, when its escapes decode: every
surrogate escape must be part of a pair. -/
def unescape (raw : String) : Option String :=
  match readString (raw.toList ++ ['"']) "" with
  | .ok (s, []) => some s
  | _ => none

/-- Reads the rest of a string literal: decoded, or as written when `asWritten`. -/
def readText (asWritten : Bool) (cs : List Char) : Except String (String × List Char) :=
  if asWritten then scanString cs "" else readString cs ""

/-- Splits off the leading decimal digits. -/
def digits (cs : List Char) : List Char × List Char :=
  (cs.takeWhile Char.isDigit, cs.dropWhile Char.isDigit)

/-- The number a list of decimal digits writes. -/
def digitsValue (ds : List Char) : Nat :=
  ds.foldl (fun acc d => acc * 10 + (d.toNat - 48)) 0

/-- Reads a number: an optional minus, an integer part without leading zeros, then an
optional fraction and exponent. Only an integer that fits a 64-bit word and is not a negative
zero is read as an integer; every other number is kept as its text. -/
def readNumber (cs : List Char) : Except String (Json × List Char) :=
  let (neg, r) := match cs with
    | '-' :: r => (true, r)
    | r => (false, r)
  let (intPart, r) := digits r
  if intPart.isEmpty then .error "invalid number"
  else if intPart.length > 1 ∧ intPart.head? = some '0' then .error "invalid number"
  else
    let (fracPart, r) := match r with
      | '.' :: r' => let (ds, r'') := digits r'; (some ds, r'')
      | _ => (none, r)
    let (expPart, r) := match r with
      | e :: r' =>
        if e = 'e' ∨ e = 'E' then
          let (sign, r'') := match r' with
            | '+' :: t => (['+'], t)
            | '-' :: t => (['-'], t)
            | t => ([], t)
          let (ds, r''') := digits r''
          (some (e :: sign ++ ds, ds.isEmpty), r''')
        else (none, r)
      | [] => (none, r)
    match fracPart, expPart with
    | none, none =>
      let n : Int := if neg then -(digitsValue intPart : Int) else digitsValue intPart
      -- an integer is one only if it fits a 64-bit word and is not a negative zero
      if (neg && n = 0) || !fitsWord n then .ok (.frac ((if neg then "-" else "") ++ String.ofList intPart), r)
      else .ok (.num n, r)
    | some [], _ => .error "invalid number"
    | _, some (_, true) => .error "invalid number"
    | f, e =>
      let text := (if neg then "-" else "") ++ String.ofList intPart ++
        (match f with | some ds => "." ++ String.ofList ds | none => "") ++
        (match e with | some (es, _) => String.ofList es | none => "")
      .ok (.frac text, r)

mutual
/-- Reads one value, its strings as written when `asWritten`; `fuel` bounds the nesting depth. -/
def readValue (asWritten : Bool) : Nat → List Char → Except String (Json × List Char)
  | 0, _ => .error "nesting too deep"
  | fuel + 1, cs =>
    match skipWs cs with
    | 'n' :: 'u' :: 'l' :: 'l' :: r => .ok (.null, r)
    | 't' :: 'r' :: 'u' :: 'e' :: r => .ok (.bool true, r)
    | 'f' :: 'a' :: 'l' :: 's' :: 'e' :: r => .ok (.bool false, r)
    | '"' :: r => (readText asWritten r).map fun (s, r') => (.str s, r')
    | '[' :: r =>
      match skipWs r with
      | ']' :: r' => .ok (.arr [], r')
      | _ => readItems asWritten fuel r []
    | '\x7b' :: r =>
      match skipWs r with
      | '\x7d' :: r' => .ok (.obj [], r')
      | _ => readMembers asWritten fuel r []
    | c :: r =>
      if c = '-' ∨ c.isDigit then readNumber (c :: r) else .error "expected value"
    | [] => .error "unexpected end of input"

/-- Reads array items after the opening bracket, each followed by a comma or the close. -/
def readItems (asWritten : Bool) : Nat → List Char → List Json → Except String (Json × List Char)
  | 0, _, _ => .error "nesting too deep"
  | fuel + 1, cs, acc => do
    let (v, r) ← readValue asWritten fuel cs
    match skipWs r with
    | ',' :: r' => readItems asWritten fuel r' (v :: acc)
    | ']' :: r' => pure (.arr (v :: acc).reverse, r')
    | _ => .error "expected , or ]"

/-- Reads object members after the opening brace, each followed by a comma or the close. -/
def readMembers (asWritten : Bool) : Nat → List Char → List (String × Json) → Except String (Json × List Char)
  | 0, _, _ => .error "nesting too deep"
  | fuel + 1, cs, acc =>
    match skipWs cs with
    | '"' :: r => do
      let (k, r) ← readText asWritten r
      match skipWs r with
      | ':' :: r => do
        let (v, r) ← readValue asWritten fuel r
        match skipWs r with
        | ',' :: r' => readMembers asWritten fuel r' ((k, v) :: acc)
        | '\x7d' :: r' => pure (.obj ((k, v) :: acc).reverse, r')
        | _ => .error "expected , or end of object"
      | _ => .error "expected :"
    | _ => .error "expected key"
end

/-- Reads a whole document, strings decoded or as written: one value and nothing after it but
whitespace. -/
def parseWith (asWritten : Bool) (s : String) : Except String Json := do
  let cs := s.toList
  let (v, r) ← readValue asWritten (cs.length + 1) cs
  if (skipWs r).isEmpty then pure v else .error "trailing characters"

/-- Reads a whole document with its strings and keys decoded. -/
def parse (s : String) : Except String Json := parseWith false s

/-- Reads a whole document with its strings and keys as written. -/
def parseWritten (s : String) : Except String Json := parseWith true s

end ContractCfg.Json
