import ContractCfg.IR.Function

/-!
A compiled contract: its functions by name in insertion order, its storage layout, the struct
registry, the contracts it creates, and facts about it. Adding a function records whether the
function calls out and whether it changes state.
-/

namespace ContractCfg.IR

/-- A state variable's place in storage. -/
structure Slot where
  slot : Nat
  size : Nat
  ty : Ty
  name : String
  deriving Inhabited

/-- Facts about a contract recorded for its readers. -/
structure ContractMeta where
  linearization : List String := []
  isAbstract : Bool := false
  hasExternalCalls : Bool := false
  hasSelfdestruct : Bool := false
  deriving Inhabited

/-- A compiled contract. -/
structure Contract where
  name : String
  functions : OrderedMap String Function := {}
  storage : List Slot := []
  types : TypeRegistry := {}
  dependencies : List String := []
  info : ContractMeta := {}
  deriving Inhabited

namespace Contract

/-- Adds `f` under its name, with its call and state facts recomputed. A name added again
keeps its place and takes the new function. -/
def addFunction (c : Contract) (f : Function) : Contract :=
  { c with functions := c.functions.insert f.name f.analyze }

/-- The function called `name`. -/
def function? (c : Contract) (name : String) : Option Function := c.functions.get? name

/-- The first function marked as constructor. -/
def constructor? (c : Contract) : Option Function :=
  c.functions.values.find? (·.info.isConstructor)

/-- The number of blocks of all functions. -/
def blockCount (c : Contract) : Nat :=
  c.functions.values.foldl (fun n f => n + f.body.blocks.size) 0

/-- The first slot after every state variable: the largest end of an entry, each end a 64-bit
word. -/
def nextFreeSlot (c : Contract) : Nat :=
  c.storage.foldl (fun m s => max m ((s.slot + s.size) % slotModulus)) 0

/-- The storage entry of the variable called `name`. -/
def slotNamed? (c : Contract) (name : String) : Option Slot :=
  c.storage.find? (·.name == name)

end Contract

/-- Errors of building and checking the intermediate representation. -/
inductive IrError where
  | typeError (message : String)
  | invalidInstruction (message : String)
  | builderError (message : String)
  | functionNotFound (name : String)
  | verification (function message : String)
  deriving Inhabited, DecidableEq

namespace IrError

/-- The variant name. -/
def kind : IrError → String
  | .typeError _ => "TypeError"
  | .invalidInstruction _ => "InvalidInstruction"
  | .builderError _ => "BuilderError"
  | .functionNotFound _ => "FunctionNotFound"
  | .verification .. => "Verification"

/-- The message. -/
def message : IrError → String
  | .typeError m => "Type error: " ++ m
  | .invalidInstruction m => "Invalid instruction: " ++ m
  | .builderError m => "Builder error: " ++ m
  | .functionNotFound n => "Function not found: " ++ n
  | .verification f m => "Verification failed in " ++ f ++ ": " ++ m

end IrError

/-- The name of block `id`: `block` and the number. -/
def blockName (id : Nat) : String := "block" ++ toString id

end ContractCfg.IR
