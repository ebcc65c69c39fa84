import ContractCfg.IR.Instr

/-!
Basic blocks, function bodies and functions. A body keeps its blocks in creation order under
their ids and starts at `entry`; a fresh body holds only the entry block `0`, labelled `entry`.
-/

namespace ContractCfg.IR

/-- A block: straight-line instructions and one terminator. -/
structure Block where
  id : Nat
  label : String
  instrs : Array Instr := #[]
  term : Terminator := .invalid
  deriving Inhabited

/-- Whether the block has its terminator. -/
def Block.isTerminated (b : Block) : Bool := b.term != .invalid

/-- The blocks of a function. -/
structure Body where
  entry : Nat := 0
  blocks : OrderedMap Nat Block := ⟨#[(0, { id := 0, label := "entry" })]⟩
  nextId : Nat := 1
  deriving Inhabited

/-- Who may call a function. -/
inductive Visibility where
  | pub | external | internal | priv
  deriving DecidableEq, Repr, Inhabited

/-- The keyword of a visibility. -/
def Visibility.keyword : Visibility → String
  | .pub => "public" | .external => "external" | .internal => "internal" | .priv => "private"

/-- Whether callers outside the contract may call. -/
def Visibility.isExternallyCallable : Visibility → Bool
  | .pub | .external => true
  | _ => false

/-- What a function may do to state. -/
inductive Mutability where
  | pure | view | nonPayable | payable
  deriving DecidableEq, Repr, Inhabited

/-- The keyword of a mutability. -/
def Mutability.keyword : Mutability → String
  | .pure => "pure" | .view => "view" | .nonPayable => "nonpayable" | .payable => "payable"

/-- A named, typed parameter. -/
structure Param where
  name : String
  ty : Ty
  deriving Inhabited, DecidableEq

/-- Name, parameters and return types. -/
structure Signature where
  name : String
  params : List Param := []
  returns : List Ty := []
  deriving Inhabited

/-- Facts about a function recorded for its readers. -/
structure FunctionMeta where
  isConstructor : Bool := false
  isFallback : Bool := false
  isAccessor : Bool := false
  callsExternal : Bool := false
  modifiesState : Bool := false
  sourceName : Option String := none
  definedIn : Option String := none
  deriving Inhabited

/-- A function of the intermediate representation. -/
structure Function where
  sig : Signature
  visibility : Visibility := .priv
  mutability : Mutability := .nonPayable
  body : Body := {}
  info : FunctionMeta := {}
  deriving Inhabited

namespace Function

/-- The function's name. -/
def name (f : Function) : String := f.sig.name

/-- All instructions, block by block. -/
def instrs (f : Function) : List Instr :=
  f.body.blocks.values.flatMap (·.instrs.toList)

/-- The number of instructions. -/
def instrCount (f : Function) : Nat :=
  f.body.blocks.values.foldl (fun n b => n + b.instrs.size) 0

/-- Records whether the function calls out and whether it changes state. -/
def analyze (f : Function) : Function :=
  { f with info := { f.info with
      callsExternal := f.instrs.any Instr.isExternalCall
      modifiesState := f.instrs.any Instr.isStateChanging } }

end Function

end ContractCfg.IR
