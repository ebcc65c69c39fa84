import ContractCfg.Lower.Dispatch
import ContractCfg.Proofs.Cursor.Steps
import ContractCfg.Proofs.Lower.Linearization

/-!
Questions about the program, asked while lowering, fail only with errors of the program
(a missing declaration, an unresolved name, an unbounded type), never with an error of the
builder. Each query of `Env` is `Clean`, and so is the linearization.
-/

namespace ContractCfg.Lower

open ContractCfg.Source

section Combinators

variable {α β : Type}

theorem Clean.throw {e : LowerError} (he : e.NotBuilder) : Clean (throw e : Except LowerError α) :=
  Clean.error he

theorem Clean.ite {c : Prop} {h : Decidable c} {x y : Except LowerError α} (hx : Clean x) (hy : Clean y) :
    Clean (if c then x else y) := by
  split
  · exact hx
  · exact hy

theorem Clean.mapM {xs : List α} {f : α → Except LowerError β} (hf : ∀ x, Clean (f x)) :
    Clean (xs.mapM f) := by
  induction xs with
  | nil => exact Clean.ok _
  | cons x xs ih =>
    rw [List.mapM_cons]
    exact (hf x).bind fun _ => ih.bind fun _ => Clean.ok _

theorem Clean.anyM {xs : List α} {f : α → Except LowerError Bool} (hf : ∀ x, Clean (f x)) :
    Clean (xs.anyM f) := by
  induction xs with
  | nil => exact Clean.ok _
  | cons x xs ih =>
    rw [List.anyM_cons]
    refine (hf x).bind fun b => ?_
    cases b
    · exact ih
    · exact Clean.ok _

theorem Clean.findM? {xs : List α} {f : α → Except LowerError Bool} (hf : ∀ x, Clean (f x)) :
    Clean (xs.findM? f) := by
  induction xs with
  | nil => exact Clean.ok _
  | cons x xs ih =>
    simp only [List.findM?]
    refine (hf x).bind fun b => ?_
    cases b
    · exact ih
    · exact Clean.ok _

theorem Clean.forIn {xs : List α} {f : α → β → Except LowerError (ForInStep β)}
    (hf : ∀ x b, Clean (f x b)) (init : β) : Clean (forIn xs init f) := by
  induction xs generalizing init with
  | nil => exact Clean.ok _
  | cons x xs ih =>
    rw [List.forIn_cons]
    refine (hf x init).bind fun step => ?_
    cases step with
    | done b => exact Clean.ok b
    | yield b => exact ih b

end Combinators

namespace Env

variable (env : Env)

theorem clean_contractDef (i : Nat) : Clean (env.contractDef i) := clean_need _

theorem clean_functionDef (i : Nat) : Clean (env.functionDef i) := clean_need _

theorem clean_canonicalName (t : TypeName) : Clean (env.canonicalName t) := by
  unfold canonicalName
  split
  · exact Clean.ok _
  · exact Clean.error rfl

theorem clean_signature (f : Nat) : Clean (env.signature f) := by
  unfold signature
  refine (env.clean_functionDef f).bind fun d => ?_
  exact (Clean.mapM fun _ => (clean_need _).bind fun (v : VariableDecl) =>
    env.clean_canonicalName v.ty).bind fun _ => Clean.ok _

theorem clean_findImplementation (kind : FunctionKind) (sig : String) (cs : List Nat) :
    Clean (env.findImplementation kind sig cs) := by
  induction cs with
  | nil => exact Clean.ok _
  | cons c cs ih =>
    unfold findImplementation
    refine (env.clean_contractDef c).bind fun d => ?_
    refine (Clean.findM? fun g => (env.clean_functionDef g).bind fun gd => ?_).bind fun found => ?_
    · exact Clean.ite ((env.clean_signature g).bind fun _ => Clean.ok _) (Clean.ok _)
    · cases found
      · exact ih
      · exact Clean.ok _

theorem clean_resolve (f : Nat) (after : Option Nat) (node : Nat) :
    Clean (env.resolve f after node) := by
  unfold resolve
  refine (env.clean_functionDef f).bind fun d => ?_
  extract_lets start search
  -- the search along the linearization, reached from both branches
  have hsearch : ∀ u, Clean (search u) := fun _ =>
    (env.clean_signature f).bind fun _ => (env.clean_findImplementation _ _ _).bind fun found => by
      cases found
      · exact Clean.throw (by rfl)
      · exact Clean.ok _
  exact Clean.ite (Clean.ite (Clean.ok _) ((Clean.throw (by rfl)).bind hsearch)) (hsearch ())

theorem clean_resolve? (f node : Nat) : Clean (env.resolve? f node) := by
  unfold resolve?
  have h := env.clean_resolve f none node
  split
  · exact Clean.ok _
  · exact Clean.ok _
  · rename_i e _ he
    exact Clean.error (h e he)

theorem clean_isMostDerived (f : Nat) : Clean (env.isMostDerived f) :=
  (env.clean_functionDef f).bind fun d => (env.clean_resolve? f d.id).bind fun _ => Clean.ok _

theorem clean_isForeignLibrary (d : FunctionDef) : Clean (env.isForeignLibrary d) :=
  (env.clean_contractDef _).bind fun _ => Clean.ok _

theorem clean_isEntryPoint (f : Nat) : Clean (env.isEntryPoint f) := by
  unfold isEntryPoint
  exact (env.clean_functionDef f).bind fun d => (env.clean_isForeignLibrary d).bind fun _ =>
    Clean.ite (env.clean_isMostDerived f) (Clean.ok _)

theorem clean_rejectsValue (f : Nat) : Clean (env.rejectsValue f) :=
  (env.clean_functionDef f).bind fun _ => (env.clean_contractDef _).bind fun _ =>
    (env.clean_isEntryPoint f).bind fun _ => Clean.ok _

theorem clean_qualifiedName (f : Nat) : Clean (env.qualifiedName f) := by
  unfold qualifiedName
  refine (env.clean_functionDef f).bind fun d => (env.clean_contractDef _).bind fun _ => ?_
  cases d.kind
  all_goals first | exact Clean.ok _ | exact (env.clean_signature f).bind fun _ => Clean.ok _

theorem clean_functionName (f : Nat) : Clean (env.functionName f) := by
  unfold functionName
  refine (env.clean_functionDef f).bind fun d => ?_
  refine Clean.ite (Clean.ok _) ((env.clean_isEntryPoint f).bind fun _ =>
    Clean.ite (env.clean_qualifiedName f) ?_)
  cases d.kind
  all_goals first | exact Clean.ok _ | exact env.clean_signature f

theorem clean_resolveModifier (name : String) (node : Nat) :
    Clean (env.resolveModifier name node) := by
  unfold resolveModifier
  dsimp only
  -- the search for the modifier, then the search for a base of that name
  refine (Clean.forIn (fun c _ => (env.clean_contractDef c).bind fun _ =>
    (Clean.forIn (fun m _ => (clean_need _).bind fun _ => Clean.ite (Clean.ok _) (Clean.ok _)) _).bind
      fun r => ?_) _).bind fun r => ?_
  · cases r.1 <;> exact Clean.ok _
  · cases r.1
    · exact (Clean.forIn (fun c _ => (env.clean_contractDef c).bind fun _ =>
        Clean.ite ((Clean.throw (by rfl)).bind fun _ => Clean.ok _) (Clean.ok _)) _).bind
          fun _ => Clean.throw (by rfl)
    · exact Clean.ok _

theorem clean_constructorOf (c : Nat) : Clean (env.constructorOf c) :=
  (env.clean_contractDef c).bind fun _ =>
    Clean.findM? fun f => (env.clean_functionDef f).bind fun _ => Clean.ok _

theorem clean_isAbstract : Clean env.isAbstract := by
  unfold isAbstract
  refine Clean.anyM fun c => (env.clean_contractDef c).bind fun _ =>
    Clean.anyM fun f => (env.clean_functionDef f).bind fun d => ?_
  split
  · exact (env.clean_resolve? f d.id).bind fun _ => Clean.ok _
  · exact Clean.ok _

end Env

theorem clean_linearize (u : SourceUnit) (c : Nat) : Clean (linearize u c) := by
  intro e he
  rcases c3_error_kind he with ⟨n, name, rfl⟩ | rfl | ⟨rfl, -⟩ <;> rfl

end ContractCfg.Lower
