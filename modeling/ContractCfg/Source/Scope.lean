import ContractCfg.Source.Types

/-!
Scopes of local variables. A local variable is in scope from its declaration to the end of the
smallest enclosing block, where the branches of an `if` and the body of a loop count as blocks
even without braces; the declarations of a `for` initializer stay in scope after the loop. A
function body starts with its parameters and return variables in scope, a modifier body with
the modifier's parameters, and the arguments of a modifier use see the parameters and return
variables of the function. State variables and constants are read without a register and need
no scope. A unit is well scoped when every use is in scope and every variable is declared in one
place (`SourceUnit.WellScoped`); all of it is computed.
-/

namespace ContractCfg.Source

mutual
/-- The variables an expression names, in order and with repeats. -/
def Expr.varRefs : Expr → List Nat
  | .mk _ kind _ => ExprKind.varRefs kind

/-- The variables an expression form names. -/
def ExprKind.varRefs : ExprKind → List Nat
  | .ident _ (.variable v) => [v]
  | .unary _ _ e => Expr.varRefs e
  | .binary _ l r | .assign _ l r => Expr.varRefs l ++ Expr.varRefs r
  | .conditional c t f => Expr.varRefs c ++ Expr.varRefs t ++ Expr.varRefs f
  | .tuple items => Expr.varRefsOpts items
  | .call callee args _ value gas =>
    Expr.varRefs callee ++ Expr.varRefsList args ++ Expr.varRefsOpt value ++ Expr.varRefsOpt gas
  | .member base _ _ => Expr.varRefs base
  | .index base idx => Expr.varRefs base ++ Expr.varRefsOpt idx
  | _ => []

/-- The variables an optional expression names. -/
def Expr.varRefsOpt : Option Expr → List Nat
  | some e => Expr.varRefs e
  | none => []

/-- The variables a list of expressions names. -/
def Expr.varRefsList : List Expr → List Nat
  | [] => []
  | e :: es => Expr.varRefs e ++ Expr.varRefsList es

/-- The variables a list of optional expressions names. -/
def Expr.varRefsOpts : List (Option Expr) → List Nat
  | [] => []
  | e :: es => Expr.varRefsOpt e ++ Expr.varRefsOpts es
end

/-- A state variable or a constant: read from storage or from its initializer, never from a
register. -/
def SourceUnit.isStateOrConstant (u : SourceUnit) (v : Nat) : Bool :=
  match u.var? v with
  | some d => d.isStateVariable || d.isConstant
  | none => false

/-- Every variable that `e` names is in `Γ`, or a state variable or a constant. -/
def Expr.scopedIn (u : SourceUnit) (Γ : List Nat) (e : Expr) : Bool :=
  e.varRefs.all fun v => Γ.contains v || u.isStateOrConstant v

mutual
/-- The variables in scope after statement `s`, started with `Γ` in scope, provided `s` names
only variables in scope and declares only variables not in scope yet. -/
def Stmt.scopeAfter (u : SourceUnit) (Γ : List Nat) : Stmt → Option (List Nat)
  | .mk _ kind => StmtKind.scopeAfter u Γ kind

/-- The variables in scope after a block: those before it. -/
def Block.scopeAfter (u : SourceUnit) (Γ : List Nat) : Block → Option (List Nat)
  | .mk _ stmts => (Stmt.scopeAfterList u Γ stmts).map fun _ => Γ

/-- The variables in scope after a statement form. -/
def StmtKind.scopeAfter (u : SourceUnit) (Γ : List Nat) : StmtKind → Option (List Nat)
  | .block b => Block.scopeAfter u Γ b
  | .declare vars init =>
    if init.all (·.scopedIn u Γ) && (vars.filterMap id).all (!Γ.contains ·) then
      some (vars.filterMap id ++ Γ)
    else none
  | .expr e => if e.scopedIn u Γ then some Γ else none
  | .ifThen c t f =>
    if c.scopedIn u Γ && (Stmt.scopeAfter u Γ t).isSome && (Stmt.scopeAfterOpt u Γ f).isSome then
      some Γ
    else none
  | .whileLoop c b _ => if c.scopedIn u Γ && (Stmt.scopeAfter u Γ b).isSome then some Γ else none
  | .forLoop i c step b => (Stmt.scopeAfterOpt u Γ i).bind fun Γ₁ =>
    if c.all (·.scopedIn u Γ₁) && step.all (·.scopedIn u Γ₁) && (Stmt.scopeAfter u Γ₁ b).isSome then
      some Γ₁
    else none
  | .returnWith v => if v.all (·.scopedIn u Γ) then some Γ else none
  | _ => some Γ

/-- The variables in scope after an optional statement. -/
def Stmt.scopeAfterOpt (u : SourceUnit) (Γ : List Nat) : Option Stmt → Option (List Nat)
  | some s => Stmt.scopeAfter u Γ s
  | none => some Γ

/-- The variables in scope after a list of statements, one after the other. -/
def Stmt.scopeAfterList (u : SourceUnit) (Γ : List Nat) : List Stmt → Option (List Nat)
  | [] => some Γ
  | s :: ss => (Stmt.scopeAfter u Γ s).bind fun Γ₁ => Stmt.scopeAfterList u Γ₁ ss
end

mutual
/-- The variables a statement declares, nested statements included. -/
def Stmt.declared : Stmt → List Nat
  | .mk _ kind => StmtKind.declared kind

/-- The variables a block declares. -/
def Block.declared : Block → List Nat
  | .mk _ stmts => Stmt.declaredList stmts

/-- The variables a statement form declares. -/
def StmtKind.declared : StmtKind → List Nat
  | .block b => Block.declared b
  | .declare vars _ => vars.filterMap id
  | .ifThen _ t f => Stmt.declared t ++ Stmt.declaredOpt f
  | .whileLoop _ b _ => Stmt.declared b
  | .forLoop i _ _ b => Stmt.declaredOpt i ++ Stmt.declared b
  | _ => []

/-- The variables an optional statement declares. -/
def Stmt.declaredOpt : Option Stmt → List Nat
  | some s => Stmt.declared s
  | none => []

/-- The variables a list of statements declares. -/
def Stmt.declaredList : List Stmt → List Nat
  | [] => []
  | s :: ss => Stmt.declared s ++ Stmt.declaredList ss
end

/-- The variables the unit declares, one entry per declaration: the parameters and return
variables of each function and what its body declares, then the parameters of each modifier and
what its body declares. -/
def SourceUnit.declarations (u : SourceUnit) : List Nat :=
  u.functions.toList.flatMap (fun f => f.params ++ f.returns ++ (f.body.map Block.declared).getD []) ++
    u.modifiers.toList.flatMap fun m => m.params ++ m.body.declared

/-- Every use of a local variable lies in its scope and each variable is declared once: function
bodies start with the parameters and return variables, the arguments of modifier uses see
those, modifier bodies start with the modifier's parameters, and initializers of variables see
no local variable. -/
structure SourceUnit.WellScoped (u : SourceUnit) : Prop where
  bodies : ∀ f ∈ u.functions.toList, f.body.all fun b => (b.scopeAfter u (f.params ++ f.returns)).isSome
  arguments : ∀ f ∈ u.functions.toList, ∀ m ∈ f.modifiers, ∀ a ∈ m.args, a.scopedIn u (f.params ++ f.returns)
  modifiers : ∀ m ∈ u.modifiers.toList, (m.body.scopeAfter u m.params).isSome
  initializers : ∀ d ∈ u.vars.toList, d.value.all (·.scopedIn u [])
  declaredOnce : u.declarations.Nodup

instance (u : SourceUnit) : Decidable u.WellScoped :=
  decidable_of_iff
    ((∀ f ∈ u.functions.toList, f.body.all fun b => (b.scopeAfter u (f.params ++ f.returns)).isSome) ∧
      (∀ f ∈ u.functions.toList, ∀ m ∈ f.modifiers, ∀ a ∈ m.args, a.scopedIn u (f.params ++ f.returns)) ∧
      (∀ m ∈ u.modifiers.toList, (m.body.scopeAfter u m.params).isSome) ∧
      (∀ d ∈ u.vars.toList, d.value.all (·.scopedIn u [])) ∧ u.declarations.Nodup)
    ⟨fun ⟨h₁, h₂, h₃, h₄, h₅⟩ => ⟨h₁, h₂, h₃, h₄, h₅⟩, fun h => ⟨h.1, h.2, h.3, h.4, h.5⟩⟩

end ContractCfg.Source
