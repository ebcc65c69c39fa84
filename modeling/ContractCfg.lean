import ContractCfg.Hash.Keccak
import ContractCfg.Hash.Sha256
import ContractCfg.IR.Builder
import ContractCfg.IR.Contract
import ContractCfg.IR.Directory
import ContractCfg.IR.Function
import ContractCfg.IR.Graph
import ContractCfg.IR.Instr
import ContractCfg.IR.Json
import ContractCfg.IR.Query
import ContractCfg.IR.Report
import ContractCfg.IR.Script
import ContractCfg.IR.Text
import ContractCfg.IR.Type
import ContractCfg.IR.Value
import ContractCfg.IR.Verify
import ContractCfg.Json.Basic
import ContractCfg.Json.Decode
import ContractCfg.Json.Integer
import ContractCfg.Json.Parse
import ContractCfg.Json.Written
import ContractCfg.Lower.Contract
import ContractCfg.Lower.Dispatch
import ContractCfg.Lower.Error
import ContractCfg.Lower.Expr
import ContractCfg.Lower.Gen
import ContractCfg.Lower.Linearize
import ContractCfg.Lower.Operators
import ContractCfg.Lower.Place
import ContractCfg.Lower.Stmt
import ContractCfg.Lower.Types
import ContractCfg.Lower.Unit
import ContractCfg.Machine.Copy
import ContractCfg.Machine.Exec
import ContractCfg.Machine.State
import ContractCfg.OrderedMap
import ContractCfg.Source.Builder
import ContractCfg.Source.Creates
import ContractCfg.Source.Json
import ContractCfg.Source.Size
import ContractCfg.Source.Syntax
import ContractCfg.Source.Types
import ContractCfg.Word
import ContractCfg.Proofs.OrderedMap
import ContractCfg.Proofs.Machine.Resume
import ContractCfg.Proofs.IR.Builder
import ContractCfg.Proofs.Lower.Names
import ContractCfg.Proofs.IR.Available
import ContractCfg.Proofs.Lower.Run
import ContractCfg.Proofs.Lower.Reference
import ContractCfg.Proofs.Lower.Simulation
import ContractCfg.Proofs.Lower.Frame
import ContractCfg.Proofs.Lower.Yields
import ContractCfg.Proofs.IR.Close
import ContractCfg.Proofs.Lower.Checks
import ContractCfg.Proofs.Lower.Operators
import ContractCfg.Proofs.Lower.Expressions
import ContractCfg.Proofs.Lower.Branches
import ContractCfg.Proofs.Lower.Forks
import ContractCfg.Proofs.IR.Reach
import ContractCfg.Proofs.Lower.Linearization
import ContractCfg.Proofs.Cursor.Shape
import ContractCfg.Proofs.Cursor.Steps
import ContractCfg.Proofs.Cursor.Queries
import ContractCfg.Proofs.Cursor.Values
import ContractCfg.Proofs.Cursor.Expressions
import ContractCfg.Proofs.Cursor.Statements
import ContractCfg.Proofs.Cursor.Functions
import ContractCfg.Proofs.IR.Assigned
import ContractCfg.Source.Scope
import ContractCfg.Proofs.Machine.Verified
import ContractCfg.Proofs.IR.Verifies
import ContractCfg.Proofs.Lower.Entry
import ContractCfg.Proofs.Lower.Refinement
import ContractCfg.Proofs.IR.WellFormed
import ContractCfg.Proofs.Machine.Atomic
import ContractCfg.Proofs.Machine.Layout
import ContractCfg.Proofs.Machine.Copies
import ContractCfg.Proofs.Machine.Fresh
import ContractCfg.Proofs.Nesting.Steady
import ContractCfg.Proofs.Nesting.Expressions
import ContractCfg.Proofs.Nesting.Statements
import ContractCfg.Proofs.Lower.Straight
import ContractCfg.Proofs.Machine.Clearing
import ContractCfg.Proofs.Lower.Defaults
import ContractCfg.Proofs.Lower.Delete
import ContractCfg.Proofs.IR.Dominance
import ContractCfg.Proofs.Region.Steps
import ContractCfg.Proofs.Region.Values
import ContractCfg.Proofs.Region.Expressions
import ContractCfg.Proofs.Region.Statements
import ContractCfg.Proofs.Region.Dead
import ContractCfg.Proofs.Region.Unreachable
import ContractCfg.Proofs.Lower.Alignment
import ContractCfg.Proofs.Lower.CreationOrder
import ContractCfg.Proofs.IR.Colors
import ContractCfg.Proofs.Json.Pretty
import ContractCfg.Proofs.IR.Decode
import ContractCfg.Proofs.IR.Persist
import ContractCfg.Proofs.Lower.Ranges
import ContractCfg.Proofs.IR.Sizes
import ContractCfg.Proofs.Balance.Moves
import ContractCfg.Proofs.Balance.Expressions
import ContractCfg.Proofs.Balance.Statements
import ContractCfg.Proofs.Balance.Registers
import ContractCfg.Proofs.Stretch.Calm
import ContractCfg.Proofs.Stretch.Expressions
import ContractCfg.Proofs.Stretch.Order
import ContractCfg.Proofs.Stretch.SourceOrder
