import ContractCfg.Source.Syntax

/-!
Sizes of syntax trees. The nodes of an expression or statement bound how deep lowering
recurses into it, and the nodes of a whole unit bound every chain of constants that lowering
unfolds, as long as no constant is defined through itself.
-/

namespace ContractCfg.Source

mutual
/-- The nodes of an expression. -/
def Expr.nodes : Expr → Nat
  | .mk _ kind _ => ExprKind.nodes kind + 1

/-- The nodes below an expression form. -/
def ExprKind.nodes : ExprKind → Nat
  | .unary _ _ e => Expr.nodes e
  | .binary _ l r | .assign _ l r => Expr.nodes l + Expr.nodes r
  | .conditional c t f => Expr.nodes c + Expr.nodes t + Expr.nodes f
  | .tuple items => Expr.nodesOpts items
  | .call callee args _ value gas =>
    Expr.nodes callee + Expr.nodesList args + Expr.nodesOpt value + Expr.nodesOpt gas
  | .member base _ _ => Expr.nodes base
  | .index base idx => Expr.nodes base + Expr.nodesOpt idx
  | _ => 0

/-- The nodes of an optional expression. -/
def Expr.nodesOpt : Option Expr → Nat
  | some e => Expr.nodes e
  | none => 0

/-- The nodes of a list of expressions. -/
def Expr.nodesList : List Expr → Nat
  | [] => 0
  | e :: es => Expr.nodes e + Expr.nodesList es

/-- The nodes of a list of optional expressions. -/
def Expr.nodesOpts : List (Option Expr) → Nat
  | [] => 0
  | e :: es => Expr.nodesOpt e + Expr.nodesOpts es
end

mutual
/-- The nodes of a statement, its expressions included. -/
def Stmt.nodes : Stmt → Nat
  | .mk _ kind => StmtKind.nodes kind + 1

/-- The nodes of a block. -/
def Block.nodes : Block → Nat
  | .mk _ stmts => Stmt.nodesList stmts + 1

/-- The nodes below a statement form. -/
def StmtKind.nodes : StmtKind → Nat
  | .block b => Block.nodes b
  | .declare _ init => Expr.nodesOpt init
  | .expr e => e.nodes
  | .ifThen c t f => c.nodes + Stmt.nodes t + Stmt.nodesOpt f
  | .whileLoop c b _ => c.nodes + Stmt.nodes b
  | .forLoop i c u b => Stmt.nodesOpt i + Expr.nodesOpt c + Expr.nodesOpt u + Stmt.nodes b
  | .returnWith v => Expr.nodesOpt v
  | _ => 0

/-- The nodes of an optional statement. -/
def Stmt.nodesOpt : Option Stmt → Nat
  | some s => Stmt.nodes s
  | none => 0

/-- The nodes of a list of statements. -/
def Stmt.nodesList : List Stmt → Nat
  | [] => 0
  | s :: ss => Stmt.nodes s + Stmt.nodesList ss
end

/-- The nodes of all code of the unit: function bodies and modifier arguments, modifier
bodies and variable initializers, plus one. -/
def SourceUnit.nodeBound (u : SourceUnit) : Nat :=
  u.functions.foldl (fun n f =>
      n + (f.body.map Block.nodes).getD 0 + (f.modifiers.foldr (fun m k => Expr.nodesList m.args + k) 0)) 0 +
    u.modifiers.foldl (fun n m => n + m.body.nodes) 0 +
    u.vars.foldl (fun n v => n + Expr.nodesOpt v.value) 0 + 1

end ContractCfg.Source
