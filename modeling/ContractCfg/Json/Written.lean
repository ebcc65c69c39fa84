import ContractCfg.Json.Parse
import ContractCfg.Json.Decode

/-!
Reading typed values out of a document read as written (`parseWritten`), where strings and
keys still hold their escapes. A reader decodes exactly the text it reads: a string value it
takes, and every key of an object it takes as a structure, a map or a variant. Text it skips is
never decoded, so it may hold escapes that decode to nothing, such as an unpaired surrogate.
`asWritten` turns a decoded document back into one as written, so the same readers serve both.
-/

namespace ContractCfg.Json

mutual
/-- The document as written: every string and key replaced by its escaped body. -/
def asWritten : Json → Json
  | .str s => .str (escaped s)
  | .arr xs => .arr (itemsAsWritten xs)
  | .obj ms => .obj (membersAsWritten ms)
  | j => j

/-- Array items as written. -/
def itemsAsWritten : List Json → List Json
  | [] => []
  | x :: xs => asWritten x :: itemsAsWritten xs

/-- Object members as written. -/
def membersAsWritten : List (String × Json) → List (String × Json)
  | [] => []
  | (k, v) :: ms => (escaped k, asWritten v) :: membersAsWritten ms
end

/-- A key or string body decoded; an error when its escapes do not decode. -/
def decodeText (raw : String) : Except String String :=
  match unescape raw with
  | some s => .ok s
  | none => .error "invalid escape in string"

/-- A string, decoded. -/
def writtenText : Json → Except String String
  | .str raw => decodeText raw
  | _ => .error "expected string"

/-- Object members with every key decoded. -/
def writtenKeys (ms : List (String × Json)) : Except String (List (String × Json)) :=
  ms.mapM fun (k, v) => do pure (← decodeText k, v)

/-- The fields of a structure with the given field names: the members of an object, keys
decoded, or the items of an array that holds every field in order. -/
def writtenFields (names : List String) : Json → Except String (List (String × Json))
  | .obj ms => writtenKeys ms
  | .arr xs => if xs.length = names.length then .ok (names.zip xs) else .error "wrong number of members"
  | _ => .error "expected structure"

/-- The name of a variant without data: the name itself, or a one-member object whose value is
`null`; none when it is neither or its text does not decode. -/
def writtenName? : Json → Option String
  | .str raw => unescape raw
  | .obj [(k, .null)] => unescape k
  | _ => none

/-- The single member of a one-member object, its key decoded, as an enum variant with data is
written. -/
def writtenVariant : Json → Except String (String × Json)
  | .obj [(k, v)] => do pure (← decodeText k, v)
  | _ => .error "expected enum variant"

end ContractCfg.Json
