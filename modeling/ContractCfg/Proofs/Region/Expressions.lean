import ContractCfg.Proofs.Cursor.Expressions
import ContractCfg.Proofs.Region.Values

/-!
Lowering an expression keeps every sealed region sealed, whatever the expression. The routines
that make blocks (`&&`, `||` and `?:`) branch from the current block into blocks of their own,
which lie outside every sealed region, and meet again in a join block of their own. The
evaluator is then shown to confine itself at every fuel, by induction.
-/

namespace ContractCfg.Lower

open ContractCfg.Source
open ContractCfg.IR (Value Instr Terminator)

namespace Gen

theorem confines_variablePlace (e : Expr) (name : String) (v : Nat) : Confines (variablePlace e name v) := by
  unfold variablePlace
  refine (Confines.of_fnFixed (fnFixed_varDecl _)).bind fun d => ?_
  extract_lets register slot
  -- a register of the layers, or else the slot of a state variable
  have hregister : ∀ u, Confines (register u) := fun _ =>
    (Confines.of_fnFixed (fnFixed_lookupVar _)).bind fun x => by
      split
      · exact Confines.pure _
      · exact Confines.throw
  have hslot : ∀ u, Confines (slot u) := fun _ =>
    Confines.ite ((Confines.of_fnFixed fnFixed_get).bind fun _ => by
      split
      · exact Confines.pure _
      · exact Confines.throw_bind _) (hregister ())
  exact Confines.ite (Confines.throw_bind _) (hslot ())

section Routines

variable {ev : Eval} (hev : EvalConfines ev)
include hev

theorem confines_shortCircuit (isAnd : Bool) (l r : Expr) : Confines (shortCircuit ev isAnd l r) := by
  intro w
  unfold shortCircuit
  refine (confines_freshLocal _ w).bind fun result => (hev.single l w).bind fun lv =>
    (confines_emitUnit _ w).bind fun _ => (createBlock_ensures _).bind fun rhs =>
      Ensures.of_fact fun hr => ?_
  obtain ⟨hrs, hrk⟩ := hr
  refine (createBlock_ensures _).bind fun join => Ensures.of_fact fun hj => ?_
  obtain ⟨hjs, hjk⟩ := hj
  -- the branch leaves for the two fresh blocks; the right operand runs in the first
  have hts : ∀ c, ∀ x ∈ (Terminator.branch c rhs join).successors, x ∉ w.sealed := by
    simp [Terminator.successors, hrs, hjs]
  have hfs : ∀ c, ∀ x ∈ (Terminator.branch c join rhs).successors, x ∉ w.sealed := by
    simp [Terminator.successors, hrs, hjs]
  refine Ensures.ite_bind (terminate_ensures (by exact hts lv)) (terminate_ensures (by exact hfs lv))
    fun _ => (switchTo_ensures (by exact hrk) (by exact .inr (.inl rfl))).bind fun _ => (hev.single r _).bind fun rv =>
      (confines_emitUnit _ _).bind fun _ => (confinesAt_jumpIfOpen join _ (by exact hjs)).bind fun _ =>
        (switchTo_ensures (by exact hjk) (by exact .inl rfl)).bind fun _ => Ensures.pure fun _ h => h.forget ?_
  exact fun _ hx => .inr (.inr hx)

theorem confines_conditional (e c a b : Expr) : Confines (conditional ev e c a b) := by
  unfold conditional
  extract_lets rest
  refine Confines.ite (Confines.throw_bind _) ?_
  intro w
  dsimp only [rest]
  refine (hev.single c w).bind fun cv => (confines_freshLocal _ w).bind fun result =>
    (createBlock_ensures _).bind fun tb => Ensures.of_fact fun ht => ?_
  obtain ⟨hts, htk⟩ := ht
  refine (createBlock_ensures _).bind fun fb => Ensures.of_fact fun hf => ?_
  obtain ⟨hfs, hfk⟩ := hf
  refine (createBlock_ensures _).bind fun join => Ensures.of_fact fun hj => ?_
  obtain ⟨hjs, hjk⟩ := hj
  have hbr : ∀ x ∈ (Terminator.branch cv tb fb).successors, x ∉ w.sealed := by
    simp [Terminator.successors, hts, hfs]
  -- the two arms, each in its own block and on to the join, then the join
  simp only [List.forIn_cons, List.forIn_nil, bind_assoc, pure_bind]
  refine (terminate_ensures (by exact hbr)).bind fun _ =>
    (switchTo_ensures (by exact htk) (by exact .inr (.inr (.inl rfl)))).bind fun _ => (hev.single a _).bind fun v =>
    (confines_prepareValue _ _ _ _ _).bind fun v => (confines_emitUnit _ _).bind fun _ =>
    (confinesAt_jumpIfOpen join _ (by exact hjs)).bind fun _ =>
    (switchTo_ensures (by exact hfk) (by exact .inr (.inl rfl))).bind fun _ => (hev.single b _).bind fun v =>
    (confines_prepareValue _ _ _ _ _).bind fun v => (confines_emitUnit _ _).bind fun _ =>
    (confinesAt_jumpIfOpen join _ (by exact hjs)).bind fun _ =>
    (switchTo_ensures (by exact hjk) (by exact .inl rfl)).bind fun _ => Ensures.pure fun _ h => h.forget ?_
  exact fun _ hx => .inr (.inr (.inr hx))

theorem confines_tupleAssignment (e : Expr) (items : List (Option Expr)) (right : Expr) :
    Confines (tupleAssignment ev e items right) := by
  unfold tupleAssignment
  refine (hev.values _).bind fun values =>
    Confines.lift.bind fun pairing => ?_
  refine (Confines.forIn (fun ⟨item, source⟩ _ => ?_) _).bind fun targets =>
    (Confines.forInArray (fun ⟨_, _⟩ _ => (confines_store _ _ _ _).bind fun _ => Confines.pure _) _).bind
      fun _ => Confines.pure _
  dsimp only
  split
  · exact (hev.place _).bind fun _ => Confines.pure _
  · exact Confines.pure _

theorem confines_assignment (e : Expr) (op : Option BinaryOp) (left right : Expr) :
    Confines (assignment ev e op left right) := by
  unfold assignment
  split
  · exact (hev.single _).bind fun _ => (hev.place _).bind fun _ =>
      (confines_update _ _ _ _ _).bind fun ⟨_, _⟩ => Confines.pure _
  · extract_lets plain
    have hplain : ∀ u, Confines (plain u) := fun _ =>
      (hev.single _).bind fun _ => (hev.place _).bind fun _ =>
        Confines.ite ((confines_convert _ _ _).bind fun _ => (confines_store _ _ _ _).bind fun _ => Confines.pure _)
          ((confines_store _ _ _ _).bind fun _ => (confines_load _).bind fun _ => Confines.pure _)
    split
    · exact Confines.ite (confines_tupleAssignment hev _ _ _) (hplain ())
    · exact hplain ()

theorem confines_call (e callee : Expr) (args : List Expr) (kind : CallKind) (value gas : Option Expr) :
    Confines (call ev e callee args kind value gas) := by
  unfold call
  split
  · exact (confines_expectArgs _ _ _).bind fun _ => (hev.single _).bind fun _ =>
      (confines_convert _ _ _).bind fun _ => Confines.pure _
  · split
    · exact (confines_constructStruct hev _ _ _).bind fun _ => Confines.pure _
    · exact Confines.throw
  -- a regular call, by what the callee names
  split
  · exact confines_builtinCall hev _ _ _
  · exact confines_ask.bind fun _ => confines_internalCall hev _ _ _
  · split
    · exact (Confines.of_fnFixed fnFixed_get).bind fun _ =>
        confines_ask.bind fun _ => confines_internalCall hev _ _ _
    · exact confines_staticCall hev _ _ _ _
    · exact confines_externalCall hev _ _ _ _ _ _
  · split
    case h_1 =>
      exact Confines.ite ((confines_expectArgs _ _ _).bind fun _ => confines_push hev _ _ _) (Confines.throw)
    case h_2 | h_3 | h_4 | h_5 =>
      exact (confines_expectArgs _ _ _).bind fun _ => confines_transfer hev _ _ _
    case h_6 => exact Confines.throw
  · exact confines_create hev _ _ _ _
  · exact (confines_expectArgs _ _ _).bind fun _ => (confines_newMemoryArray hev _ _).bind fun _ => Confines.pure _
  · exact Confines.throw

theorem confines_memberValue (e base : Expr) (member : String) : Confines (memberValue ev e base member) := by
  unfold memberValue
  split
  case h_1 | h_2 => exact (hev.single _).bind fun _ => (confines_emit _).bind fun _ => Confines.pure _
  case h_3 => exact Confines.pure _
  case h_4 =>
    exact (hev.single _).bind fun _ =>
      Confines.ite ((confines_emit _).bind fun _ => Confines.pure _) ((confines_emit _).bind fun _ => Confines.pure _)
  case h_5 => exact (hev.place _).bind fun _ => (confines_load _).bind fun _ => Confines.pure _
  case h_6 => exact Confines.throw

theorem confines_unaryOp (e : Expr) (op : UnaryOp) (isPrefix : Bool) (operand : Expr) :
    Confines (unaryOp ev e op isPrefix operand) := by
  unfold unaryOp
  split
  case h_1 => exact (hev.single _).bind fun _ => (confines_unary _ _).bind fun _ => Confines.pure _
  case h_2 =>
    exact (hev.single _).bind fun _ => (confines_unary _ _).bind fun _ =>
      (confines_mask _ _).bind fun _ => Confines.pure _
  case h_3 =>
    refine (hev.single _).bind fun v => ?_
    extract_lets masked
    have hmasked : ∀ v, Confines (masked v) := fun _ => (confines_mask _ _).bind fun _ => Confines.pure _
    split
    · exact (Confines.pure _).bind hmasked
    · exact (confines_binary _ _ _).bind hmasked
  case h_4 | h_5 => exact (hev.place _).bind fun _ => (confines_update _ _ _ _ _).bind fun _ => Confines.pure _
  case h_6 => exact (hev.place _).bind fun _ => (confines_delete _ _).bind fun _ => Confines.pure _

theorem confines_binaryOp (e : Expr) (op : BinaryOp) (l r : Expr) : Confines (binaryOp ev e op l r) := by
  refine (hev.single _).bind fun _ => (confines_convert _ _ _).bind fun _ => (hev.single _).bind fun _ => ?_
  extract_lets operate
  have hoperate : ∀ v, Confines (operate v) := fun _ =>
    (confines_binaryOperation _ _ _ _ _).bind fun _ => Confines.pure _
  exact Confines.ite ((Confines.pure _).bind hoperate) ((confines_convert _ _ _).bind hoperate)

theorem confines_indexPlace (e base : Expr) (index : Option Expr) : Confines (indexPlace ev e base index) := by
  unfold indexPlace
  split
  · split
    · exact (hev.single _).bind fun _ => (hev.single _).bind fun _ => (confines_convert _ _ _).bind fun _ =>
        (confines_emit _).bind fun _ => Confines.pure _
    · exact Confines.ite ((hev.single _).bind fun _ => (hev.single _).bind fun _ =>
          (confines_storageElementSlot _ _ _ _).bind fun _ => Confines.pure _)
        ((hev.single _).bind fun _ => (hev.single _).bind fun _ =>
          (confines_memoryElementAddress _ _).bind fun _ => Confines.pure _)
    · exact Confines.throw
    · exact Confines.throw
  · exact Confines.throw

theorem confines_memberPlace (e base : Expr) (member : String) : Confines (memberPlace ev e base member) := by
  unfold memberPlace
  split
  · exact (Confines.of_fnFixed (fnFixed_memberIndex _ _ _)).bind fun _ =>
      (Confines.of_fnFixed (fnFixed_memberType _ _)).bind fun _ => (hev.single _).bind fun _ =>
        Confines.ite ((confines_offset _ _).bind fun _ => Confines.pure _)
          ((Confines.of_fnFixed (fnFixed_storageFieldOffset _ _ _)).bind fun _ =>
            (confines_offset _ _).bind fun _ => Confines.pure _)
  · exact Confines.ite ((hev.single _).bind fun _ => Confines.pure _) (Confines.throw)
  · exact Confines.throw

end Routines

section Step

variable {fuel : Nat} (ih : EvalConfines ⟨values fuel, single fuel, place fuel⟩)
include ih

theorem confines_values_succ (e : Expr) : Confines (values (fuel + 1) e) := by
  unfold values
  split
  case h_1 | h_2 => exact Confines.pure _
  case h_3 =>
    extract_lets ev viaPlace
    -- a constant is its initializer; any other variable is read from its place
    have hplace : ∀ u, Confines (viaPlace u) := fun _ =>
      (ih.place _).bind fun _ => (confines_load _).bind fun _ => Confines.pure _
    refine (Confines.of_fnFixed (fnFixed_varDecl _)).bind fun d => Confines.ite ?_ (hplace ())
    split
    · exact (ih.single _).bind fun _ => (confines_convert _ _ _).bind fun _ => Confines.pure _
    · exact Confines.throw_bind _
  case h_4 | h_5 => exact (confines_context _).bind fun _ => Confines.pure _
  case h_6 | h_15 | h_16 => exact Confines.throw
  case h_7 => exact confines_unaryOp ih _ _ _ _
  case h_8 => exact Confines.ite ((confines_shortCircuit ih _ _ _).bind fun _ => Confines.pure _) (confines_binaryOp ih _ _ _ _)
  case h_9 => exact confines_assignment ih _ _ _ _
  case h_10 => exact (confines_conditional ih _ _ _ _).bind fun _ => Confines.pure _
  case h_11 =>
    refine Confines.mapM fun item => ?_
    cases item with
    | some _ => exact ih.single _
    | none => exact Confines.throw
  case h_12 => exact confines_call ih _ _ _ _ _ _
  case h_13 =>
    extract_lets ev rest
    have hrest : ∀ u, Confines (rest u) := by
      intro u
      dsimp -zeta only [rest]
      split
      · exact (Confines.of_fnFixed (fnFixed_varDecl _)).bind fun _ => ih.values _
      · exact confines_memberValue ih _ _ _
    split
    · split
      · exact (confines_context _).bind fun _ => Confines.pure _
      · exact hrest ()
    · exact hrest ()
  case h_14 => exact (ih.place _).bind fun _ => (confines_load _).bind fun _ => Confines.pure _

theorem confines_single_succ (e : Expr) : Confines (single (fuel + 1) e) := by
  unfold single
  refine (ih.values e).bind fun vs => ?_
  split
  · exact Confines.pure _
  · exact Confines.throw

theorem confines_place_succ (e : Expr) : Confines (place (fuel + 1) e) := by
  unfold place
  split
  · exact confines_variablePlace _ _ _
  · exact confines_indexPlace ih _ _ _
  · exact confines_memberPlace ih _ _ _
  · exact ih.place _
  · exact Confines.throw
  · exact Confines.throw

end Step

theorem evalConfines (fuel : Nat) : EvalConfines ⟨values fuel, single fuel, place fuel⟩ := by
  induction fuel with
  | zero =>
    refine ⟨fun _ => ?_, fun _ => ?_, fun _ => ?_⟩
    · unfold values
      exact Confines.throw
    · unfold single
      exact Confines.throw
    · unfold place
      exact Confines.throw
  | succ fuel ih => exact ⟨confines_values_succ ih, confines_single_succ ih, confines_place_succ ih⟩

theorem confines_eval_bind {α : Type} {f : Eval → Gen α} (hf : ∀ ev, EvalConfines ev → Confines (f ev)) :
    Confines (eval >>= f) := by
  unfold eval
  rw [bind_assoc]
  exact (Confines.of_fnFixed fnFixed_exprFuel).bind fun fuel => by
    rw [pure_bind]
    exact hf _ (evalConfines fuel)

end Gen

end ContractCfg.Lower
