import ContractCfg.Json.Basic

/-!
Reading typed values out of JSON documents: named members, integers of a given range,
strings, booleans and lists, the names of enumeration variants, and structures written as
objects or as arrays of their fields, with an error message naming what was expected.
-/

namespace ContractCfg.Json

/-- The member `key` of an object; an error if it is missing. -/
def field (j : Json) (key : String) : Except String Json :=
  match j.get? key with
  | some v => .ok v
  | none => .error ("missing field " ++ key)

/-- The member `key` of an object; `none` when missing or `null`. -/
def optField (j : Json) (key : String) : Option Json :=
  match j.get? key with
  | some .null => none
  | v => v

/-- A non-negative integer literal. -/
def toNat : Json → Except String Nat
  | .num n => if 0 ≤ n then .ok n.toNat else .error "expected unsigned integer"
  | _ => .error "expected unsigned integer"

/-- A non-negative integer literal below `bound`. -/
def toNatBelow (bound : Nat) (j : Json) : Except String Nat := do
  let n ← toNat j
  if n < bound then pure n else .error "integer out of range"

/-- A string. -/
def toStr : Json → Except String String
  | .str s => .ok s
  | _ => .error "expected string"

/-- A boolean. -/
def toBool : Json → Except String Bool
  | .bool b => .ok b
  | _ => .error "expected boolean"

/-- The items of an array. -/
def toList : Json → Except String (List Json)
  | .arr xs => .ok xs
  | _ => .error "expected array"

/-- A structure with the given member names: an object, or an array that holds every member
in that order. -/
def structOf (names : List String) : Json → Except String Json
  | .obj ms => .ok (.obj ms)
  | .arr xs => if xs.length = names.length then .ok (.obj (names.zip xs)) else .error "wrong number of members"
  | _ => .error "expected structure"

/-- The name of a variant without data: the name itself, or a one-member object whose value is
`null`. -/
def unitName? : Json → Option String
  | .str s => some s
  | .obj [(k, .null)] => some k
  | _ => none

/-- The name of a variant without data. -/
def toName (j : Json) : Except String String :=
  match unitName? j with
  | some s => .ok s
  | none => .error "expected variant name"

/-- The single member of a one-member object, as an enum variant with data is written. -/
def variant : Json → Except String (String × Json)
  | .obj [(k, v)] => .ok (k, v)
  | _ => .error "expected enum variant"

/-- `null` as none, anything else through `f`. -/
def toOption (f : Json → Except String α) : Json → Except String (Option α)
  | .null => .ok none
  | j => (f j).map some

/-- The optional member `key` of an object through `f`: missing or `null` is none. -/
def optionField (j : Json) (key : String) (f : Json → Except String α) : Except String (Option α) :=
  match optField j key with
  | some v => (f v).map some
  | none => .ok none

end ContractCfg.Json
