import ContractCfg.IR.Contract

/-!
The text form of a contract: a `contract Name {` block with an optional storage table, then each
function as a block of labelled basic blocks, one instruction or terminator per line. With
colors, headers, block labels, the storage comment and reverting terminators are wrapped in
ANSI color codes; indentation stays outside the codes.
-/

namespace ContractCfg.IR

/-- Switches of the text form. -/
structure TextStyle where
  useColors : Bool := false
  indentWidth : Nat := 4
  showStorageLayout : Bool := true
  showTypes : Bool := true
  deriving Inhabited

/-- The default style with colors on. -/
def TextStyle.colored : TextStyle := { useColors := true }

/-- Line colors. -/
inductive Tint where
  | plain | header | label | comment | exit

/-- The escape code that starts the tint; plain text has none. -/
def Tint.code : Tint → String
  | .plain => ""
  | .header => "\x1b[1;94m"
  | .label => "\x1b[33m"
  | .comment => "\x1b[32m"
  | .exit => "\x1b[31m"

/-- The characters with `code` put back after every reset code among them. -/
def reapplyAfterResets (code : List Char) : List Char → List Char
  | '\x1b' :: '[' :: '0' :: 'm' :: rest => '\x1b' :: '[' :: '0' :: 'm' :: (code ++ reapplyAfterResets code rest)
  | c :: rest => c :: reapplyAfterResets code rest
  | [] => []

/-- Wraps `s` in the escape codes of the tint. A reset inside `s` is followed by the tint's code
again, so that the tint lasts to the end of `s`. -/
def Tint.wrap : Tint → String → String
  | .plain, s => s
  | t, s => t.code ++ String.ofList (reapplyAfterResets t.code.toList s.toList) ++ "\x1b[0m"

/-- Operands joined by commas. -/
def joinValues (vs : List Value) : String := ", ".intercalate (vs.map Value.display)

/-- A type as written in text: registered structs by name. -/
def TypeRegistry.typeText (reg : TypeRegistry) : Ty → String
  | .struct id => match reg.get? id with
    | some d => "struct " ++ d.name
    | none => (Ty.struct id).display
  | .array e (some n) => reg.typeText e ++ "[" ++ toString n ++ "]"
  | .array e none => reg.typeText e ++ "[]"
  | .mapping k v => "mapping(" ++ reg.typeText k ++ " => " ++ reg.typeText v ++ ")"
  | t => t.display

namespace TextStyle

/-- One instruction: its results, `=`, then the operation. -/
def instrText (st : TextStyle) (reg : TypeRegistry) (i : Instr) : String :=
  let typed (t : Ty) := if st.showTypes then " : " ++ reg.typeText t else ""
  let v := Value.display
  let body := match i with
    | .assign _ x => v x
    | .binary _ op l r => op.mnemonic ++ " " ++ v l ++ ", " ++ v r
    | .unary _ op x => op.mnemonic ++ " " ++ v x
    | .truncate _ x bits => "trunc." ++ toString bits ++ " " ++ v x
    | .signExtend _ x bits => "sext." ++ toString bits ++ " " ++ v x
    | .memoryLoad _ a => "mload " ++ v a
    | .memoryStore a x => "mstore " ++ v a ++ ", " ++ v x
    | .allocate _ s => "alloc " ++ v s
    | .storageLoad _ s => "sload " ++ v s
    | .storageStore s x => "sstore " ++ v s ++ ", " ++ v x
    | .mappingSlot _ b k => "mapslot " ++ v b ++ ", " ++ v k
    | .arrayDataSlot _ b => "dataslot " ++ v b
    | .copyStorageToStorage d s t => "copy.s2s " ++ v d ++ ", " ++ v s ++ typed t
    | .copyMemoryToStorage d s t => "copy.m2s " ++ v d ++ ", " ++ v s ++ typed t
    | .copyStorageToMemory _ s t => "copy.s2m " ++ v s ++ typed t
    | .call _ f args => "call @\"" ++ f ++ "\"(" ++ joinValues args ++ ")"
    | .callExternal _ _ a f args value gas =>
      "call " ++ v a ++ ".@\"" ++ f ++ "\"(" ++ joinValues args ++ ") value " ++ v value ++ " gas " ++ v gas
    | .create _ _ c args value => "create @" ++ c ++ "(" ++ joinValues args ++ ") value " ++ v value
    | .builtin _ f args => f.name ++ "(" ++ joinValues args ++ ")"
    | .getContext _ x => x.name
  match i.results with
  | [] => body
  | rs => joinValues rs ++ " = " ++ body

end TextStyle

/-- A terminator as written in text. -/
def Terminator.text : Terminator → String
  | .jump t => "br " ++ blockName t
  | .branch c t e => "br " ++ c.display ++ ", " ++ blockName t ++ ", " ++ blockName e
  | .ret [] => "ret void"
  | .ret vs => "ret " ++ joinValues vs
  | .revert s => "revert " ++ s.display
  | .abort => "invalid"
  | .invalid => "<unterminated>"

namespace TextStyle

/-- A line at indentation `depth`, colored by `tint` when colors are on. -/
def line (st : TextStyle) (depth : Nat) (tint : Tint) (text : String) : String :=
  String.ofList (List.replicate (st.indentWidth * depth) ' ') ++
    (if st.useColors then tint.wrap text else text) ++ "\n"

/-- The header line of a function, without the opening brace. -/
def functionHeader (st : TextStyle) (reg : TypeRegistry) (f : Function) : String :=
  let params := ", ".intercalate (f.sig.params.map fun p =>
    if st.showTypes then "%" ++ p.name ++ ": " ++ reg.typeText p.ty else "%" ++ p.name)
  let returns := ", ".intercalate (f.sig.returns.map reg.typeText)
  let head := f.visibility.keyword ++ " function @\"" ++ f.name ++ "\"(" ++ params ++ ")"
  let head := if returns.isEmpty then head else head ++ " -> (" ++ returns ++ ")"
  match f.mutability with
  | .payable => head ++ " payable"
  | .view => head ++ " view"
  | .pure => head ++ " pure"
  | .nonPayable => head

/-- The lines of one block at indentation `depth`. -/
def blockText (st : TextStyle) (reg : TypeRegistry) (depth : Nat) (b : Block) : String :=
  st.line depth .label (blockName b.id ++ " (" ++ b.label ++ "):") ++
    String.join (b.instrs.toList.map fun i => st.line (depth + 1) .plain (st.instrText reg i)) ++
    st.line (depth + 1) (if b.term.isRevert then .exit else .plain) b.term.text

/-- A function as a braced block at indentation `depth`. -/
def functionText (st : TextStyle) (reg : TypeRegistry) (depth : Nat) (f : Function) : String :=
  st.line depth .header (st.functionHeader reg f ++ " \x7b") ++
    String.join (f.body.blocks.values.map (st.blockText reg (depth + 1))) ++
    st.line depth .plain "\x7d"

/-- The whole text of a contract. -/
def render (st : TextStyle) (c : Contract) : String :=
  let storage :=
    if st.showStorageLayout && !c.storage.isEmpty then
      st.line 1 .comment "// storage" ++ String.join (c.storage.map fun s =>
        st.line 1 .plain ("slot " ++ toString s.slot ++ ": " ++ s.name ++ " " ++ c.types.typeText s.ty))
    else ""
  st.line 0 .header ("contract " ++ c.name ++ " \x7b") ++ storage ++
    String.join (c.functions.values.map fun f => "\n" ++ st.functionText c.types 1 f) ++
    st.line 0 .plain "\x7d"

end TextStyle

end ContractCfg.IR
