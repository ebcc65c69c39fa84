import ContractCfg.Source.Syntax
import ContractCfg.Json.Integer

/-!
The JSON form of a source unit. Structures are objects, or arrays of their members in order;
enumerations are written as their variant name, or as a one-member object for a variant with
data (a variant without data may also be a one-member object holding `null`); an absent option
is `null` or left out; literal numbers are decimal strings or `[sign, digits]`. Reading takes a nesting bound (`fuel`) because members are looked
up by name.
-/

namespace ContractCfg.Source

open ContractCfg.Json (field optField optionField toNat toNatBelow toStr toBool toList variant
  toOption toName unitName? integerText? toBig structOf)

/-- Variant names of contract kinds. -/
def ContractKind.ofName : String → Except String ContractKind
  | "Contract" => .ok .contract
  | "Interface" => .ok .interface
  | "Library" => .ok .library
  | _ => .error "unknown contract kind"

/-- Variant names of function kinds. -/
def FunctionKind.ofName : String → Except String FunctionKind
  | "Function" => .ok .function
  | "Constructor" => .ok .constructor
  | "Fallback" => .ok .fallback
  | _ => .error "unknown function kind"

/-- Variant names of visibilities. -/
def Visibility.ofName : String → Except String Visibility
  | "Public" => .ok .pub
  | "External" => .ok .external
  | "Internal" => .ok .internal
  | "Private" => .ok .priv
  | _ => .error "unknown visibility"

/-- Variant names of mutabilities. -/
def Mutability.ofName : String → Except String Mutability
  | "Pure" => .ok .pure
  | "View" => .ok .view
  | "NonPayable" => .ok .nonPayable
  | "Payable" => .ok .payable
  | _ => .error "unknown mutability"

/-- Variant names of locations. -/
def Location.ofName : String → Except String Location
  | "Storage" => .ok .storage
  | "StoragePointer" => .ok .storagePointer
  | "Memory" => .ok .memory
  | _ => .error "unknown location"

/-- Variant names of magic identifiers. -/
def Magic.ofName : String → Except String Magic
  | "Msg" => .ok .msg
  | "Block" => .ok .block
  | "Tx" => .ok .tx
  | "This" => .ok .this
  | "Super" => .ok .super
  | "Now" => .ok .now
  | _ => .error "unknown magic variable"

/-- Variant names of builtins. -/
def Builtin.ofName : String → Except String Builtin
  | "Require" => .ok .require
  | "Assert" => .ok .assert
  | "Revert" => .ok .revert
  | "Keccak256" => .ok .keccak256
  | "AddMod" => .ok .addMod
  | "MulMod" => .ok .mulMod
  | "BlockHash" => .ok .blockHash
  | "SelfDestruct" => .ok .selfDestruct
  | "GasLeft" => .ok .gasLeft
  | _ => .error "unknown builtin"

/-- Variant names of unary operators. -/
def UnaryOp.ofName : String → Except String UnaryOp
  | "Not" => .ok .not
  | "BitNot" => .ok .bitNot
  | "Neg" => .ok .neg
  | "Inc" => .ok .inc
  | "Dec" => .ok .dec
  | "Delete" => .ok .delete
  | _ => .error "unknown unary operator"

/-- Variant names of binary operators. -/
def BinaryOp.ofName : String → Except String BinaryOp
  | "Add" => .ok .add
  | "Sub" => .ok .sub
  | "Mul" => .ok .mul
  | "Div" => .ok .div
  | "Mod" => .ok .mod
  | "Exp" => .ok .exp
  | "BitAnd" => .ok .bitAnd
  | "BitOr" => .ok .bitOr
  | "BitXor" => .ok .bitXor
  | "Shl" => .ok .shl
  | "Shr" => .ok .shr
  | "Eq" => .ok .eq
  | "Ne" => .ok .ne
  | "Lt" => .ok .lt
  | "Gt" => .ok .gt
  | "Le" => .ok .le
  | "Ge" => .ok .ge
  | "And" => .ok .and
  | "Or" => .ok .or
  | _ => .error "unknown binary operator"

/-- Variant names of call kinds. -/
def CallKind.ofName : String → Except String CallKind
  | "Regular" => .ok .regular
  | "TypeConversion" => .ok .typeConversion
  | "StructConstructor" => .ok .structConstructor
  | _ => .error "unknown call kind"

/-- The variant name of a contract kind. -/
def ContractKind.name : ContractKind → String
  | .contract => "Contract" | .interface => "Interface" | .library => "Library"

/-- The variant name of a function kind. -/
def FunctionKind.name : FunctionKind → String
  | .function => "Function" | .constructor => "Constructor" | .fallback => "Fallback"

/-- The variant name of a visibility. -/
def Visibility.name : Visibility → String
  | .pub => "Public" | .external => "External" | .internal => "Internal" | .priv => "Private"

/-- The variant name of a mutability. -/
def Mutability.name : Mutability → String
  | .pure => "Pure" | .view => "View" | .nonPayable => "NonPayable" | .payable => "Payable"

/-- The variant name of a location. -/
def Location.name : Location → String
  | .storage => "Storage" | .storagePointer => "StoragePointer" | .memory => "Memory"

/-- The variant name of a magic identifier. -/
def Magic.name : Magic → String
  | .msg => "Msg" | .block => "Block" | .tx => "Tx" | .this => "This" | .super => "Super"
  | .now => "Now"

/-- The variant name of a builtin. -/
def Builtin.name : Builtin → String
  | .require => "Require" | .assert => "Assert" | .revert => "Revert"
  | .keccak256 => "Keccak256" | .addMod => "AddMod" | .mulMod => "MulMod"
  | .blockHash => "BlockHash" | .selfDestruct => "SelfDestruct" | .gasLeft => "GasLeft"

/-- The variant name of a unary operator. -/
def UnaryOp.name : UnaryOp → String
  | .not => "Not" | .bitNot => "BitNot" | .neg => "Neg" | .inc => "Inc" | .dec => "Dec"
  | .delete => "Delete"

/-- The variant name of a binary operator. -/
def BinaryOp.name : BinaryOp → String
  | .add => "Add" | .sub => "Sub" | .mul => "Mul" | .div => "Div" | .mod => "Mod"
  | .exp => "Exp" | .bitAnd => "BitAnd" | .bitOr => "BitOr" | .bitXor => "BitXor"
  | .shl => "Shl" | .shr => "Shr" | .eq => "Eq" | .ne => "Ne" | .lt => "Lt" | .gt => "Gt"
  | .le => "Le" | .ge => "Ge" | .and => "And" | .or => "Or"

/-- The variant name of a call kind. -/
def CallKind.name : CallKind → String
  | .regular => "Regular" | .typeConversion => "TypeConversion"
  | .structConstructor => "StructConstructor"

/-- Reads the name of a variant without data. -/
def ofNameJson (f : String → Except String α) (j : Json) : Except String α := do
  f (← toName j)

/-- An arena index or node id: an unsigned 32-bit number. -/
def indexOfJson (j : Json) : Except String Nat := toNatBelow (Nat.pow 2 32) j

/-- Reads a type; `fuel` bounds the nesting. -/
def TypeName.ofJson : Nat → Json → Except String TypeName
  | 0, _ => .error "nesting too deep"
  | fuel + 1, j =>
    match unitName? j with
    | some "Bool" => .ok .bool
    | some "Address" => .ok .address
    | some "Void" => .ok .void
    | _ => do
      let (tag, v) ← variant j
      match tag with
      | "Uint" => return .uint (← toNatBelow 65536 v)
      | "Int" => return .int (← toNatBelow 65536 v)
      | "FixedBytes" => return .fixedBytes (← toNatBelow 256 v)
      | "Array" =>
        return .array (← TypeName.ofJson fuel (← field v "base"))
          (← optionField v "length" (toNatBelow (Nat.pow 2 64)))
          (← ofNameJson Location.ofName (← field v "location"))
      | "Mapping" =>
        return .mapping (← TypeName.ofJson fuel (← field v "key"))
          (← TypeName.ofJson fuel (← field v "value"))
      | "Struct" =>
        return .struct (← indexOfJson (← field v "id")) (← ofNameJson Location.ofName (← field v "location"))
      | "Contract" => return .contract (← indexOfJson v)
      | "Tuple" => return .tuple (← (← toList v).mapM (TypeName.ofJson fuel))
      | _ => .error "unknown type"

/-- Reads a declaration reference. -/
def Declaration.ofJson (j : Json) : Except String Declaration := do
  let (tag, v) ← variant j
  match tag with
  | "Variable" => return .variable (← indexOfJson v)
  | "Function" => return .function (← indexOfJson v)
  | "Modifier" => return .modifier (← indexOfJson v)
  | "Contract" => return .contract (← indexOfJson v)
  | "Struct" => return .struct (← indexOfJson v)
  | "Magic" => return .magic (← ofNameJson Magic.ofName v)
  | "Builtin" => return .builtin (← ofNameJson Builtin.ofName v)
  | _ => .error "unknown declaration"

/-- Reads a literal; a number is decimal text or `[sign, digits]`. -/
def Literal.ofJson (j : Json) : Except String Literal := do
  let (tag, v) ← variant j
  match tag with
  | "Bool" => return .bool (← toBool v)
  | "Number" =>
    match v with
    | .str s =>
      match integerText? s with
      | some n => return .number n
      | none => .error "invalid number"
    | _ => return .number (← toBig v)
  | _ => .error "unknown literal"

/-- Reads an expression; `fuel` bounds the nesting. -/
def Expr.ofJson : Nat → Json → Except String Expr
  | 0, _ => .error "nesting too deep"
  | fuel + 1, j => do
    let j ← structOf ["id", "kind", "ty"] j
    let id ← indexOfJson (← field j "id")
    let ty ← TypeName.ofJson fuel (← field j "ty")
    let kj ← field j "kind"
    let sub := Expr.ofJson fuel
    let optSub := toOption sub
    let kind ← match unitName? kj with
      | some "TypeExpression" => pure ExprKind.typeExpr
      | _ => do
        let (tag, v) ← variant kj
        match tag with
        | "Literal" => pure (.literal (← Literal.ofJson v))
        | "Identifier" =>
          pure (.ident (← toStr (← field v "name")) (← Declaration.ofJson (← field v "declaration")))
        | "Unary" =>
          pure (.unary (← ofNameJson UnaryOp.ofName (← field v "op")) (← toBool (← field v "prefix"))
            (← sub (← field v "operand")))
        | "Binary" =>
          pure (.binary (← ofNameJson BinaryOp.ofName (← field v "op")) (← sub (← field v "left"))
            (← sub (← field v "right")))
        | "Assignment" =>
          pure (.assign (← optionField v "op" (ofNameJson BinaryOp.ofName))
            (← sub (← field v "left")) (← sub (← field v "right")))
        | "Conditional" =>
          pure (.conditional (← sub (← field v "condition")) (← sub (← field v "true_expr"))
            (← sub (← field v "false_expr")))
        | "Tuple" => pure (.tuple (← (← toList v).mapM optSub))
        | "FunctionCall" =>
          let opts ← structOf ["value", "gas"] (← field v "options")
          pure (.call (← sub (← field v "callee")) (← (← toList (← field v "arguments")).mapM sub)
            (← ofNameJson CallKind.ofName (← field v "kind"))
            (← optionField opts "value" sub) (← optionField opts "gas" sub))
        | "New" =>
          let (t, w) ← variant v
          match t with
          | "Contract" => pure (.new (.contract (← indexOfJson w)))
          | "Array" => pure (.new (.array (← TypeName.ofJson fuel w)))
          | _ => .error "unknown new target"
        | "MemberAccess" =>
          pure (.member (← sub (← field v "expression")) (← toStr (← field v "member"))
            (← optionField v "referenced" Declaration.ofJson))
        | "IndexAccess" =>
          pure (.index (← sub (← field v "base")) (← optionField v "index" sub))
        | _ => .error "unknown expression"
    pure (.mk id kind ty)

mutual
/-- Reads a statement; `fuel` bounds the nesting. -/
def Stmt.ofJson : Nat → Json → Except String Stmt
  | 0, _ => .error "nesting too deep"
  | fuel + 1, j => do
    let j ← structOf ["id", "kind"] j
    let id ← indexOfJson (← field j "id")
    let kj ← field j "kind"
    let expr := Expr.ofJson fuel
    let stmt := Stmt.ofJson fuel
    let kind ← match unitName? kj with
      | some "Continue" => pure StmtKind.continueLoop
      | some "Break" => pure .breakLoop
      | some "Throw" => pure .throwStmt
      | some "Placeholder" => pure .placeholder
      | some "InlineAssembly" => pure .inlineAssembly
      | _ => do
        let (tag, v) ← variant kj
        match tag with
        | "Block" => pure (.block (← Block.ofJson fuel v))
        | "VariableDeclaration" =>
          pure (.declare (← (← toList (← field v "declarations")).mapM (toOption indexOfJson))
            (← optionField v "initial_value" expr))
        | "Expression" => pure (.expr (← expr v))
        | "If" =>
          pure (.ifThen (← expr (← field v "condition")) (← stmt (← field v "true_body"))
            (← optionField v "false_body" stmt))
        | "While" =>
          pure (.whileLoop (← expr (← field v "condition")) (← stmt (← field v "body"))
            (← toBool (← field v "is_do_while")))
        | "For" =>
          pure (.forLoop (← optionField v "init" stmt) (← optionField v "condition" expr)
            (← optionField v "update" expr) (← stmt (← field v "body")))
        | "Return" => pure (.returnWith (← toOption expr v))
        | _ => .error "unknown statement"
    pure (.mk id kind)

/-- Reads a block; `fuel` bounds the nesting. -/
def Block.ofJson : Nat → Json → Except String Block
  | 0, _ => .error "nesting too deep"
  | fuel + 1, j => do
    let j ← structOf ["id", "statements"] j
    pure (.mk (← indexOfJson (← field j "id")) (← (← toList (← field j "statements")).mapM (Stmt.ofJson fuel)))
end

/-- Nesting bound used when reading a unit. -/
def readDepth : Nat := 100000

/-- Reads a list of arena indices. -/
def indicesOfJson (j : Json) : Except String (List Nat) := do
  (← toList j).mapM indexOfJson

/-- Reads a contract definition. -/
def ContractDef.ofJson (j : Json) : Except String ContractDef := do
  let j ← structOf ["id", "name", "kind", "bases", "state_variables", "functions", "modifiers", "structs"] j
  pure {
    id := ← indexOfJson (← field j "id")
    name := ← toStr (← field j "name")
    kind := ← ofNameJson ContractKind.ofName (← field j "kind")
    bases := ← indicesOfJson (← field j "bases")
    stateVariables := ← indicesOfJson (← field j "state_variables")
    functions := ← indicesOfJson (← field j "functions")
    modifiers := ← indicesOfJson (← field j "modifiers")
    structs := ← indicesOfJson (← field j "structs") }

/-- Reads a modifier use. -/
def ModifierUse.ofJson (j : Json) : Except String ModifierUse := do
  let j ← structOf ["id", "name", "arguments"] j
  pure {
    id := ← indexOfJson (← field j "id")
    name := ← toStr (← field j "name")
    args := ← (← toList (← field j "arguments")).mapM (Expr.ofJson readDepth) }

/-- Reads a function definition. -/
def FunctionDef.ofJson (j : Json) : Except String FunctionDef := do
  let j ← structOf ["id", "name", "contract", "kind", "visibility", "mutability", "parameters", "returns",
    "modifiers", "body"] j
  pure {
    id := ← indexOfJson (← field j "id")
    name := ← toStr (← field j "name")
    contract := ← indexOfJson (← field j "contract")
    kind := ← ofNameJson FunctionKind.ofName (← field j "kind")
    visibility := ← ofNameJson Visibility.ofName (← field j "visibility")
    mutability := ← ofNameJson Mutability.ofName (← field j "mutability")
    params := ← indicesOfJson (← field j "parameters")
    returns := ← indicesOfJson (← field j "returns")
    modifiers := ← (← toList (← field j "modifiers")).mapM ModifierUse.ofJson
    body := ← optionField j "body" (Block.ofJson readDepth) }

/-- Reads a modifier definition. -/
def ModifierDef.ofJson (j : Json) : Except String ModifierDef := do
  let j ← structOf ["id", "name", "contract", "parameters", "body"] j
  pure {
    id := ← indexOfJson (← field j "id")
    name := ← toStr (← field j "name")
    contract := ← indexOfJson (← field j "contract")
    params := ← indicesOfJson (← field j "parameters")
    body := ← Block.ofJson readDepth (← field j "body") }

/-- Reads a variable scope. -/
def VariableScope.ofJson (j : Json) : Except String VariableScope :=
  match unitName? j with
  | some "Local" => .ok .local
  | some "Parameter" => .ok .parameter
  | some "Return" => .ok .returnValue
  | _ => do
    let (tag, v) ← variant j
    if tag = "State" then return .state (← indexOfJson v) else .error "unknown scope"

/-- Reads a variable declaration. -/
def VariableDecl.ofJson (j : Json) : Except String VariableDecl := do
  let j ← structOf ["id", "name", "ty", "scope", "visibility", "is_constant", "value"] j
  pure {
    id := ← indexOfJson (← field j "id")
    name := ← toStr (← field j "name")
    ty := ← TypeName.ofJson readDepth (← field j "ty")
    scope := ← VariableScope.ofJson (← field j "scope")
    visibility := ← ofNameJson Visibility.ofName (← field j "visibility")
    isConstant := ← toBool (← field j "is_constant")
    value := ← optionField j "value" (Expr.ofJson readDepth) }

/-- Reads a struct definition. -/
def StructDef.ofJson (j : Json) : Except String StructDef := do
  let j ← structOf ["id", "name", "contract", "members"] j
  let members ← (← toList (← field j "members")).mapM fun m => do
    let m ← structOf ["name", "ty"] m
    pure ({ name := ← toStr (← field m "name"), ty := ← TypeName.ofJson readDepth (← field m "ty") } : StructMember)
  pure {
    id := ← indexOfJson (← field j "id")
    name := ← toStr (← field j "name")
    contract := ← indexOfJson (← field j "contract")
    members := members }

/-- Reads a whole source unit. -/
def SourceUnit.ofJson (j : Json) : Except String SourceUnit := do
  let j ← structOf ["contracts", "functions", "modifiers", "variables", "structs"] j
  pure {
    contracts := (← (← toList (← field j "contracts")).mapM ContractDef.ofJson).toArray
    functions := (← (← toList (← field j "functions")).mapM FunctionDef.ofJson).toArray
    modifiers := (← (← toList (← field j "modifiers")).mapM ModifierDef.ofJson).toArray
    vars := (← (← toList (← field j "variables")).mapM VariableDecl.ofJson).toArray
    structs := (← (← toList (← field j "structs")).mapM StructDef.ofJson).toArray }

mutual
/-- Whether every object whose only member is named `Number` and holds text, anywhere in a
document, holds decimal text there. -/
def numberTextsValid : Json → Bool
  | .obj [("Number", .str s)] => (integerText? s).isSome
  | .obj ms => memberNumberTextsValid ms
  | .arr xs => itemNumberTextsValid xs
  | _ => true

/-- `numberTextsValid` of every item. -/
def itemNumberTextsValid : List Json → Bool
  | [] => true
  | x :: xs => numberTextsValid x && itemNumberTextsValid xs

/-- `numberTextsValid` of every member's value. -/
def memberNumberTextsValid : List (String × Json) → Bool
  | [] => true
  | (_, v) :: ms => numberTextsValid v && memberNumberTextsValid ms
end

/-- Reads a source unit sent with a request: literal numbers written as text are checked
first, and any other fault makes the whole unit invalid. -/
def SourceUnit.ofRequest (j : Json) : Except String SourceUnit :=
  if numberTextsValid j then (SourceUnit.ofJson j).mapError fun _ => "invalid source unit"
  else .error "literal number is not a decimal integer"

mutual
/-- The JSON form of a type. -/
def TypeName.toJson : TypeName → Json
  | .bool => .str "Bool"
  | .uint b => .obj [("Uint", .num b)]
  | .int b => .obj [("Int", .num b)]
  | .address => .str "Address"
  | .fixedBytes n => .obj [("FixedBytes", .num n)]
  | .array base len loc =>
    .obj [("Array", .obj [("base", TypeName.toJson base),
      ("length", match len with | some n => .num n | none => .null),
      ("location", .str loc.name)])]
  | .mapping k v => .obj [("Mapping", .obj [("key", TypeName.toJson k), ("value", TypeName.toJson v)])]
  | .struct id loc => .obj [("Struct", .obj [("id", .num id), ("location", .str loc.name)])]
  | .contract id => .obj [("Contract", .num id)]
  | .tuple items => .obj [("Tuple", .arr (TypeName.listToJson items))]
  | .void => .str "Void"

/-- The JSON forms of a list of types. -/
def TypeName.listToJson : List TypeName → List Json
  | [] => []
  | t :: ts => TypeName.toJson t :: TypeName.listToJson ts
end

/-- The JSON form of a declaration reference. -/
def Declaration.toJson : Declaration → Json
  | .variable i => .obj [("Variable", .num i)]
  | .function i => .obj [("Function", .num i)]
  | .modifier i => .obj [("Modifier", .num i)]
  | .contract i => .obj [("Contract", .num i)]
  | .struct i => .obj [("Struct", .num i)]
  | .magic m => .obj [("Magic", .str m.name)]
  | .builtin b => .obj [("Builtin", .str b.name)]

/-- The JSON form of a literal. -/
def Literal.toJson : Literal → Json
  | .bool b => .obj [("Bool", .bool b)]
  | .number n => .obj [("Number", .str (toString n))]

mutual
/-- The JSON form of an expression. -/
def Expr.toJson : Expr → Json
  | .mk id kind ty => .obj [("id", .num id), ("kind", ExprKind.toJson kind), ("ty", ty.toJson)]

/-- The JSON form of an expression's form. -/
def ExprKind.toJson : ExprKind → Json
  | .literal l => .obj [("Literal", l.toJson)]
  | .ident name decl => .obj [("Identifier", .obj [("name", .str name), ("declaration", decl.toJson)])]
  | .unary op pre e => .obj [("Unary", .obj [("op", .str op.name), ("prefix", .bool pre),
      ("operand", Expr.toJson e)])]
  | .binary op l r => .obj [("Binary", .obj [("op", .str op.name), ("left", Expr.toJson l),
      ("right", Expr.toJson r)])]
  | .assign op l r => .obj [("Assignment", .obj [("op", match op with | some o => .str o.name | none => .null),
      ("left", Expr.toJson l), ("right", Expr.toJson r)])]
  | .conditional c t f => .obj [("Conditional", .obj [("condition", Expr.toJson c),
      ("true_expr", Expr.toJson t), ("false_expr", Expr.toJson f)])]
  | .tuple items => .obj [("Tuple", .arr (Expr.optListToJson items))]
  | .call callee args kind value gas => .obj [("FunctionCall", .obj [("callee", Expr.toJson callee),
      ("arguments", .arr (Expr.listToJson args)), ("kind", .str kind.name),
      ("options", .obj [("value", Expr.optToJson value), ("gas", Expr.optToJson gas)])])]
  | .new (.contract c) => .obj [("New", .obj [("Contract", .num c)])]
  | .new (.array t) => .obj [("New", .obj [("Array", t.toJson)])]
  | .typeExpr => .str "TypeExpression"
  | .member base name ref => .obj [("MemberAccess", .obj [("expression", Expr.toJson base),
      ("member", .str name), ("referenced", match ref with | some d => d.toJson | none => .null)])]
  | .index base idx => .obj [("IndexAccess", .obj [("base", Expr.toJson base),
      ("index", Expr.optToJson idx)])]

/-- The JSON form of an optional expression. -/
def Expr.optToJson : Option Expr → Json
  | some e => Expr.toJson e
  | none => .null

/-- The JSON forms of a list of expressions. -/
def Expr.listToJson : List Expr → List Json
  | [] => []
  | e :: es => Expr.toJson e :: Expr.listToJson es

/-- The JSON forms of a list of optional expressions. -/
def Expr.optListToJson : List (Option Expr) → List Json
  | [] => []
  | e :: es => Expr.optToJson e :: Expr.optListToJson es
end

mutual
/-- The JSON form of a statement. -/
def Stmt.toJson : Stmt → Json
  | .mk id kind => .obj [("id", .num id), ("kind", StmtKind.toJson kind)]

/-- The JSON form of a block. -/
def Block.toJson : Block → Json
  | .mk id stmts => .obj [("id", .num id), ("statements", .arr (Stmt.listToJson stmts))]

/-- The JSON form of a statement's form. -/
def StmtKind.toJson : StmtKind → Json
  | .block b => .obj [("Block", Block.toJson b)]
  | .declare vars init => .obj [("VariableDeclaration", .obj [
      ("declarations", .arr (vars.map fun v => match v with | some i => .num i | none => .null)),
      ("initial_value", Expr.optToJson init)])]
  | .expr e => .obj [("Expression", e.toJson)]
  | .ifThen c t f => .obj [("If", .obj [("condition", c.toJson), ("true_body", Stmt.toJson t),
      ("false_body", Stmt.optToJson f)])]
  | .whileLoop c b d => .obj [("While", .obj [("condition", c.toJson), ("body", Stmt.toJson b),
      ("is_do_while", .bool d)])]
  | .forLoop i c u b => .obj [("For", .obj [("init", Stmt.optToJson i), ("condition", Expr.optToJson c),
      ("update", Expr.optToJson u), ("body", Stmt.toJson b)])]
  | .continueLoop => .str "Continue"
  | .breakLoop => .str "Break"
  | .returnWith v => .obj [("Return", Expr.optToJson v)]
  | .throwStmt => .str "Throw"
  | .placeholder => .str "Placeholder"
  | .inlineAssembly => .str "InlineAssembly"

/-- The JSON form of an optional statement. -/
def Stmt.optToJson : Option Stmt → Json
  | some s => Stmt.toJson s
  | none => .null

/-- The JSON forms of a list of statements. -/
def Stmt.listToJson : List Stmt → List Json
  | [] => []
  | s :: ss => Stmt.toJson s :: Stmt.listToJson ss
end

/-- The JSON form of a list of indices. -/
def indicesToJson (xs : List Nat) : Json := .arr (xs.map fun (i : Nat) => Json.num (Int.ofNat i))

/-- The JSON form of a source unit. -/
def SourceUnit.toJson (u : SourceUnit) : Json :=
  .obj [
    ("contracts", .arr (u.contracts.toList.map fun c => .obj [("id", .num c.id), ("name", .str c.name),
      ("kind", .str c.kind.name), ("bases", indicesToJson c.bases),
      ("state_variables", indicesToJson c.stateVariables), ("functions", indicesToJson c.functions),
      ("modifiers", indicesToJson c.modifiers), ("structs", indicesToJson c.structs)])),
    ("functions", .arr (u.functions.toList.map fun f => .obj [("id", .num f.id), ("name", .str f.name),
      ("contract", .num f.contract), ("kind", .str f.kind.name),
      ("visibility", .str f.visibility.name), ("mutability", .str f.mutability.name),
      ("parameters", indicesToJson f.params), ("returns", indicesToJson f.returns),
      ("modifiers", .arr (f.modifiers.map fun m => .obj [("id", .num m.id), ("name", .str m.name),
        ("arguments", .arr (m.args.map Expr.toJson))])),
      ("body", match f.body with | some b => b.toJson | none => .null)])),
    ("modifiers", .arr (u.modifiers.toList.map fun m => .obj [("id", .num m.id), ("name", .str m.name),
      ("contract", .num m.contract), ("parameters", indicesToJson m.params), ("body", m.body.toJson)])),
    ("variables", .arr (u.vars.toList.map fun v => .obj [("id", .num v.id), ("name", .str v.name),
      ("ty", v.ty.toJson),
      ("scope", match v.scope with
        | .state c => .obj [("State", .num c)]
        | .local => .str "Local"
        | .parameter => .str "Parameter"
        | .returnValue => .str "Return"),
      ("visibility", .str v.visibility.name), ("is_constant", .bool v.isConstant),
      ("value", Expr.optToJson v.value)])),
    ("structs", .arr (u.structs.toList.map fun s => .obj [("id", .num s.id), ("name", .str s.name),
      ("contract", .num s.contract),
      ("members", .arr (s.members.map fun m => .obj [("name", .str m.name), ("ty", m.ty.toJson)]))]))]

end ContractCfg.Source
