import ContractCfg.Source.Syntax

/-!
The contracts that a piece of code creates with `new`, found by walking every expression of it,
nested ones included. Declarations that an identifier refers to are not entered.
-/

namespace ContractCfg.Source

mutual
/-- The contracts created by `new` in an expression. -/
def Expr.creates : Expr → List Nat
  | .mk _ kind _ => ExprKind.creates kind

/-- The contracts created by `new` in an expression form. -/
def ExprKind.creates : ExprKind → List Nat
  | .new (.contract c) => [c]
  | .unary _ _ e => Expr.creates e
  | .binary _ l r | .assign _ l r => Expr.creates l ++ Expr.creates r
  | .conditional c t f => Expr.creates c ++ Expr.creates t ++ Expr.creates f
  | .tuple items => Expr.createsOpts items
  | .call callee args _ value gas =>
    Expr.creates callee ++ Expr.createsList args ++ Expr.createsOpt value ++ Expr.createsOpt gas
  | .member base _ _ => Expr.creates base
  | .index base idx => Expr.creates base ++ Expr.createsOpt idx
  | _ => []

/-- The contracts created in an optional expression. -/
def Expr.createsOpt : Option Expr → List Nat
  | some e => Expr.creates e
  | none => []

/-- The contracts created in a list of expressions. -/
def Expr.createsList : List Expr → List Nat
  | [] => []
  | e :: es => Expr.creates e ++ Expr.createsList es

/-- The contracts created in a list of optional expressions. -/
def Expr.createsOpts : List (Option Expr) → List Nat
  | [] => []
  | e :: es => Expr.createsOpt e ++ Expr.createsOpts es
end

mutual
/-- The contracts created in a statement. -/
def Stmt.creates : Stmt → List Nat
  | .mk _ kind => StmtKind.creates kind

/-- The contracts created in a block. -/
def Block.creates : Block → List Nat
  | .mk _ stmts => Stmt.createsList stmts

/-- The contracts created in a statement form. -/
def StmtKind.creates : StmtKind → List Nat
  | .block b => Block.creates b
  | .declare _ init => Expr.createsOpt init
  | .expr e => e.creates
  | .ifThen c t f => c.creates ++ Stmt.creates t ++ Stmt.createsOpt f
  | .whileLoop c b _ => c.creates ++ Stmt.creates b
  | .forLoop i c u b => Stmt.createsOpt i ++ Expr.createsOpt c ++ Expr.createsOpt u ++ Stmt.creates b
  | .returnWith v => Expr.createsOpt v
  | _ => []

/-- The contracts created in an optional statement. -/
def Stmt.createsOpt : Option Stmt → List Nat
  | some s => Stmt.creates s
  | none => []

/-- The contracts created in a list of statements. -/
def Stmt.createsList : List Stmt → List Nat
  | [] => []
  | s :: ss => Stmt.creates s ++ Stmt.createsList ss
end

end ContractCfg.Source
