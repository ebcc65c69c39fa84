import ContractCfg.Json.Decode

/-!
Integers in JSON documents. Decimal text is an optional sign and then digits, among which
underscores may stand anywhere but first; a JSON number is an integer when it fits a 64-bit
word, signed or unsigned. A big integer may also be written `[sign, digits]`: the sign is `-1`,
`0` or `1` and the digits are 32-bit words, least significant first. Readers name what they read
in their error messages.
-/

namespace ContractCfg.Json

/-- The value of a run of decimal digits in which underscores are skipped. -/
def digitsValue? (cs : List Char) : Option Nat :=
  cs.foldlM (fun acc c =>
    if c = '_' then some acc
    else if c.isDigit then some (10 * acc + (c.toNat - 48))
    else none) 0

/-- Unsigned decimal text: one leading `+` is dropped unless another follows it; what remains
must be nonempty, must not start with an underscore, and holds only digits and underscores. -/
def naturalText? (cs : List Char) : Option Nat :=
  let body := match cs with
    | '+' :: '+' :: _ => cs
    | '+' :: rest => rest
    | _ => cs
  match body with
  | [] => none
  | '_' :: _ => none
  | _ => digitsValue? body

/-- Signed decimal text: a leading `-` negates unsigned text, and a `-` directly followed by a
`+` is refused. -/
def integerText? (s : String) : Option Int :=
  match s.toList with
  | '-' :: '+' :: _ => none
  | '-' :: rest => (naturalText? rest).map fun n => -(n : Int)
  | cs => (naturalText? cs).map Int.ofNat

/-- An integer written as decimal text or as a JSON number of at most 64 bits; the errors name
`what`. -/
def toInteger (what : String) : Json → Except String Int
  | .str s =>
    match integerText? s with
    | some n => .ok n
    | none => .error (what ++ " is not a decimal integer")
  | .num n => if fitsWord n then .ok n else .error (what ++ " is not an integer")
  | _ => .error (what ++ " is not an integer")

/-- The 32-bit digits of `n`, least significant first, without trailing zero digits. -/
def limbs : Nat → List Nat
  | 0 => []
  | n + 1 => ((n + 1) % 4294967296) :: limbs ((n + 1) / 4294967296)
decreasing_by omega

/-- The number whose 32-bit digits, least significant first, are `ds`. -/
def ofLimbs (ds : List Nat) : Nat := ds.foldr (fun d acc => d + Nat.pow 2 32 * acc) 0

/-- A big integer as `[sign, digits]`. -/
def ofBig (n : Int) : Json :=
  .arr [.num (if n < 0 then -1 else if n = 0 then 0 else 1),
    .arr ((limbs n.natAbs).map fun (d : Nat) => Json.num (Int.ofNat d))]

/-- Reads `[sign, digits]`; a zero sign or zero digits read as zero. -/
def toBig (j : Json) : Except String Int := do
  match j with
  | .arr [.num s, ds] =>
    if s < -1 || s > 1 then throw "invalid sign"
    let digits ← (← toList ds).mapM (toNatBelow (Nat.pow 2 32))
    pure (s * (ofLimbs digits : Int))
  | _ => throw "expected big integer"

end ContractCfg.Json
