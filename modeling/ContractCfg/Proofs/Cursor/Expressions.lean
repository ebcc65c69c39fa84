import ContractCfg.Proofs.Cursor.Values

/-!
Lowering an expression keeps the cursor protocol, whatever the expression: it fails with no
builder error and ends on an open current block with the same blocks pending. The routines
that make blocks (`&&`, `||` and `?:`) branch from the current block into blocks of their
own and meet again in a join block; the pending set they leave is the one they found. The
evaluator is then shown to keep the protocol at every fuel, by induction.
-/

namespace ContractCfg.Lower

open ContractCfg.Source
open ContractCfg.IR (Value Instr)

theorem clean_alignComponents (present : List Bool) (available node : Nat) :
    Clean (alignComponents present available node) := by
  unfold alignComponents
  extract_lets wanted finish
  have hfinish : ∀ shift, Clean (finish shift) := fun _ => Clean.ok _
  exact Clean.ite ((Clean.ok _).bind hfinish) (Clean.ite ((Clean.ok _).bind hfinish)
    (Clean.ite ((Clean.ok _).bind hfinish) ((Clean.throw (by rfl)).bind hfinish)))

namespace Gen

theorem keeps_variablePlace (e : Expr) (name : String) (v : Nat) : Keeps (variablePlace e name v) := by
  unfold variablePlace
  refine (Keeps.of_fnFixed (fnFixed_varDecl _)).bind fun d => ?_
  extract_lets register slot
  -- a register of the layers, or else the slot of a state variable
  have hregister : ∀ u, Keeps (register u) := fun _ =>
    (Keeps.of_fnFixed (fnFixed_lookupVar _)).bind fun x => by
      split
      · exact Keeps.pure _
      · exact Keeps.throw (by rfl)
  have hslot : ∀ u, Keeps (slot u) := fun _ =>
    Keeps.ite ((Keeps.of_fnFixed fnFixed_get).bind fun _ => by
      split
      · exact Keeps.pure _
      · exact keeps_throw_bind (by rfl) _) (hregister ())
  exact Keeps.ite (keeps_throw_bind (by rfl) _) (hslot ())

section Routines

variable {ev : Eval} (hev : EvalKeeps ev)
include hev

theorem keeps_shortCircuit (isAnd : Bool) (l r : Expr) : Keeps (shortCircuit ev isAnd l r) := by
  intro P E env s h
  unfold shortCircuit
  refine (keeps_freshLocal _ P E env s h).bind fun result s₁ h₁ => ?_
  refine (hev.single l P E env s₁ h₁).bind fun lv s₂ h₂ => ?_
  refine (keeps_emitUnit _ P E env s₂ h₂).bind fun _ s₃ h₃ => ?_
  refine (createBlock_outcome h₃ _).bind fun rhs s₄ ⟨h₄, hrP, _⟩ => ?_
  refine (createBlock_outcome h₄ _).bind fun join s₅ ⟨h₅, hjP, _⟩ => ?_
  simp only [Set.mem_insert_iff, not_or] at hjP
  have hr : s₅.fn.builder.Has rhs := h₅.has (by simp)
  have hj : s₅.fn.builder.Has join := h₅.has (by simp)
  refine Outcome.ite_bind (branch_outcome h₅ lv hr hj) (branch_outcome h₅ lv hj hr) fun _ s₆ h₆ => ?_
  -- the right operand runs in its own block and falls through to the join
  refine (switchTo_outcome h₆ (by simp)).bind fun _ s₇ h₇ => ?_
  refine (hev.single r _ _ env s₇ h₇).bind fun rv s₈ h₈ => ?_
  refine (keeps_emitUnit _ _ _ env s₈ h₈).bind fun _ s₉ h₉ => ?_
  refine (jumpIfOpen_outcome h₉ (h₉.has (by simp))).bind fun _ s₁₀ h₁₀ => ?_
  refine (switchTo_outcome h₁₀ (by simp [hjP.1])).bind fun _ s₁₁ h₁₁ => ?_
  refine h₁₁.restore (fun x => ?_) fun x hx => by simp [hx]
  simp only [Set.mem_sdiff, Set.mem_insert_iff, Set.mem_singleton_iff]
  grind

theorem keeps_conditional (e c a b : Expr) : Keeps (conditional ev e c a b) := by
  unfold conditional
  extract_lets rest
  refine Keeps.ite (keeps_throw_bind (by rfl) _) ?_
  intro P E env s h
  dsimp only [rest]
  refine (hev.single c P E env s h).bind fun cv s₁ h₁ => ?_
  refine (keeps_freshLocal _ P E env s₁ h₁).bind fun result s₂ h₂ => ?_
  refine (createBlock_outcome h₂ _).bind fun tb s₃ ⟨h₃, htP, _⟩ => ?_
  refine (createBlock_outcome h₃ _).bind fun fb s₄ ⟨h₄, hfP, _⟩ => ?_
  refine (createBlock_outcome h₄ _).bind fun join s₅ ⟨h₅, hjP, _⟩ => ?_
  refine (branch_outcome h₅ cv (h₅.has (by simp)) (h₅.has (by simp))).bind fun _ s₆ h₆ => ?_
  -- the two arms, each in its own block and on to the join, then the join
  simp only [List.forIn_cons, List.forIn_nil, bind_assoc, pure_bind]
  simp only [Set.mem_insert_iff, not_or] at hfP hjP
  have hj : join ∈ insert join (insert fb (insert tb E)) := Set.mem_insert _ _
  refine (switchTo_outcome h₆ (by simp)).bind fun _ s₇ h₇ => ?_
  refine (hev.single a _ _ env s₇ h₇).bind fun v s₈ h₈ => ?_
  refine (keeps_prepareValue _ _ _ _ _ _ env s₈ h₈).bind fun v s₉ h₉ => ?_
  refine (keeps_emitUnit _ _ _ env s₉ h₉).bind fun _ s₁₀ h₁₀ => ?_
  refine (jumpIfOpen_outcome h₁₀ (h₁₀.has hj)).bind fun _ s₁₁ h₁₁ => ?_
  refine (switchTo_outcome h₁₁ (by simp [hfP.1])).bind fun _ s₁₂ h₁₂ => ?_
  refine (hev.single b _ _ env s₁₂ h₁₂).bind fun v s₁₃ h₁₃ => ?_
  refine (keeps_prepareValue _ _ _ _ _ _ env s₁₃ h₁₃).bind fun v s₁₄ h₁₄ => ?_
  refine (keeps_emitUnit _ _ _ env s₁₄ h₁₄).bind fun _ s₁₅ h₁₅ => ?_
  refine (jumpIfOpen_outcome h₁₅ (h₁₅.has hj)).bind fun _ s₁₆ h₁₆ => ?_
  refine (switchTo_outcome h₁₆ (by simp [hjP.1, hjP.2.1])).bind fun _ s₁₇ h₁₇ => ?_
  refine h₁₇.restore (fun x => ?_) fun x hx => by simp [hx]
  simp only [Set.mem_sdiff, Set.mem_insert_iff, Set.mem_singleton_iff]
  grind

theorem keeps_tupleAssignment (e : Expr) (items : List (Option Expr)) (right : Expr) :
    Keeps (tupleAssignment ev e items right) := by
  unfold tupleAssignment
  refine (hev.values _).bind fun values =>
    (Keeps.of_fnFixed (fnFixed_lift (clean_alignComponents _ _ _))).bind fun pairing => ?_
  refine (Keeps.forIn (fun ⟨item, source⟩ _ => ?_) _).bind fun targets =>
    (Keeps.forInArray (fun ⟨_, _⟩ _ => (keeps_store _ _ _ _).bind fun _ => Keeps.pure _) _).bind
      fun _ => Keeps.pure _
  dsimp only
  split
  · exact (hev.place _).bind fun _ => Keeps.pure _
  · exact Keeps.pure _

theorem keeps_assignment (e : Expr) (op : Option BinaryOp) (left right : Expr) :
    Keeps (assignment ev e op left right) := by
  unfold assignment
  split
  · exact (hev.single _).bind fun _ => (hev.place _).bind fun _ =>
      (keeps_update _ _ _ _ _).bind fun ⟨_, _⟩ => Keeps.pure _
  · extract_lets plain
    have hplain : ∀ u, Keeps (plain u) := fun _ =>
      (hev.single _).bind fun _ => (hev.place _).bind fun _ =>
        Keeps.ite ((keeps_convert _ _ _).bind fun _ => (keeps_store _ _ _ _).bind fun _ => Keeps.pure _)
          ((keeps_store _ _ _ _).bind fun _ => (keeps_load _).bind fun _ => Keeps.pure _)
    split
    · exact Keeps.ite (keeps_tupleAssignment hev _ _ _) (hplain ())
    · exact hplain ()

theorem keeps_call (e callee : Expr) (args : List Expr) (kind : CallKind) (value gas : Option Expr) :
    Keeps (call ev e callee args kind value gas) := by
  unfold call
  split
  · exact (keeps_expectArgs _ _ _).bind fun _ => (hev.single _).bind fun _ =>
      (keeps_convert _ _ _).bind fun _ => Keeps.pure _
  · split
    · exact (keeps_constructStruct hev _ _ _).bind fun _ => Keeps.pure _
    · exact Keeps.throw (by rfl)
  -- a regular call, by what the callee names
  split
  · exact keeps_builtinCall hev _ _ _
  · exact (keeps_ask fun env => env.clean_resolve _ _ _).bind fun _ => keeps_internalCall hev _ _ _
  · split
    · exact (Keeps.of_fnFixed fnFixed_get).bind fun _ =>
        (keeps_ask fun env => env.clean_resolve _ _ _).bind fun _ => keeps_internalCall hev _ _ _
    · exact keeps_staticCall hev _ _ _ _
    · exact keeps_externalCall hev _ _ _ _ _ _
  · split
    case h_1 =>
      exact Keeps.ite ((keeps_expectArgs _ _ _).bind fun _ => keeps_push hev _ _ _) (Keeps.throw (by rfl))
    case h_2 | h_3 | h_4 | h_5 =>
      exact (keeps_expectArgs _ _ _).bind fun _ => keeps_transfer hev _ _ _
    case h_6 => exact Keeps.throw (by rfl)
  · exact keeps_create hev _ _ _ _
  · exact (keeps_expectArgs _ _ _).bind fun _ => (keeps_newMemoryArray hev _ _).bind fun _ => Keeps.pure _
  · exact Keeps.throw (by rfl)

theorem keeps_memberValue (e base : Expr) (member : String) : Keeps (memberValue ev e base member) := by
  unfold memberValue
  split
  case h_1 | h_2 => exact (hev.single _).bind fun _ => (keeps_emit _).bind fun _ => Keeps.pure _
  case h_3 => exact Keeps.pure _
  case h_4 =>
    exact (hev.single _).bind fun _ =>
      Keeps.ite ((keeps_emit _).bind fun _ => Keeps.pure _) ((keeps_emit _).bind fun _ => Keeps.pure _)
  case h_5 => exact (hev.place _).bind fun _ => (keeps_load _).bind fun _ => Keeps.pure _
  case h_6 => exact Keeps.throw (by rfl)

theorem keeps_unaryOp (e : Expr) (op : UnaryOp) (isPrefix : Bool) (operand : Expr) :
    Keeps (unaryOp ev e op isPrefix operand) := by
  unfold unaryOp
  split
  case h_1 => exact (hev.single _).bind fun _ => (keeps_unary _ _).bind fun _ => Keeps.pure _
  case h_2 =>
    exact (hev.single _).bind fun _ => (keeps_unary _ _).bind fun _ =>
      (keeps_mask _ _).bind fun _ => Keeps.pure _
  case h_3 =>
    refine (hev.single _).bind fun v => ?_
    extract_lets masked
    have hmasked : ∀ v, Keeps (masked v) := fun _ => (keeps_mask _ _).bind fun _ => Keeps.pure _
    split
    · exact (Keeps.pure _).bind hmasked
    · exact (keeps_binary _ _ _).bind hmasked
  case h_4 | h_5 => exact (hev.place _).bind fun _ => (keeps_update _ _ _ _ _).bind fun _ => Keeps.pure _
  case h_6 => exact (hev.place _).bind fun _ => (keeps_delete _ _).bind fun _ => Keeps.pure _

theorem keeps_binaryOp (e : Expr) (op : BinaryOp) (l r : Expr) : Keeps (binaryOp ev e op l r) := by
  refine (hev.single _).bind fun _ => (keeps_convert _ _ _).bind fun _ => (hev.single _).bind fun _ => ?_
  extract_lets operate
  have hoperate : ∀ v, Keeps (operate v) := fun _ =>
    (keeps_binaryOperation _ _ _ _ _).bind fun _ => Keeps.pure _
  exact Keeps.ite ((Keeps.pure _).bind hoperate) ((keeps_convert _ _ _).bind hoperate)

theorem keeps_indexPlace (e base : Expr) (index : Option Expr) : Keeps (indexPlace ev e base index) := by
  unfold indexPlace
  split
  · split
    · exact (hev.single _).bind fun _ => (hev.single _).bind fun _ => (keeps_convert _ _ _).bind fun _ =>
        (keeps_emit _).bind fun _ => Keeps.pure _
    · exact Keeps.ite ((hev.single _).bind fun _ => (hev.single _).bind fun _ =>
          (keeps_storageElementSlot _ _ _ _).bind fun _ => Keeps.pure _)
        ((hev.single _).bind fun _ => (hev.single _).bind fun _ =>
          (keeps_memoryElementAddress _ _).bind fun _ => Keeps.pure _)
    · exact Keeps.throw (by rfl)
    · exact Keeps.throw (by rfl)
  · exact Keeps.throw (by rfl)

theorem keeps_memberPlace (e base : Expr) (member : String) : Keeps (memberPlace ev e base member) := by
  unfold memberPlace
  split
  · exact (Keeps.of_fnFixed (fnFixed_memberIndex _ _ _)).bind fun _ =>
      (Keeps.of_fnFixed (fnFixed_memberType _ _)).bind fun _ => (hev.single _).bind fun _ =>
        Keeps.ite ((keeps_offset _ _).bind fun _ => Keeps.pure _)
          ((Keeps.of_fnFixed (fnFixed_storageFieldOffset _ _ _)).bind fun _ =>
            (keeps_offset _ _).bind fun _ => Keeps.pure _)
  · exact Keeps.ite ((hev.single _).bind fun _ => Keeps.pure _) (Keeps.throw (by rfl))
  · exact Keeps.throw (by rfl)

end Routines

section Step

variable {fuel : Nat} (ih : EvalKeeps ⟨values fuel, single fuel, place fuel⟩)
include ih

theorem keeps_values_succ (e : Expr) : Keeps (values (fuel + 1) e) := by
  unfold values
  split
  case h_1 | h_2 => exact Keeps.pure _
  case h_3 =>
    extract_lets ev viaPlace
    -- a constant is its initializer; any other variable is read from its place
    have hplace : ∀ u, Keeps (viaPlace u) := fun _ =>
      (ih.place _).bind fun _ => (keeps_load _).bind fun _ => Keeps.pure _
    refine (Keeps.of_fnFixed (fnFixed_varDecl _)).bind fun d => Keeps.ite ?_ (hplace ())
    split
    · exact (ih.single _).bind fun _ => (keeps_convert _ _ _).bind fun _ => Keeps.pure _
    · exact keeps_throw_bind (by rfl) _
  case h_4 | h_5 => exact (keeps_context _).bind fun _ => Keeps.pure _
  case h_6 | h_15 | h_16 => exact Keeps.throw (by rfl)
  case h_7 => exact keeps_unaryOp ih _ _ _ _
  case h_8 => exact Keeps.ite ((keeps_shortCircuit ih _ _ _).bind fun _ => Keeps.pure _) (keeps_binaryOp ih _ _ _ _)
  case h_9 => exact keeps_assignment ih _ _ _ _
  case h_10 => exact (keeps_conditional ih _ _ _ _).bind fun _ => Keeps.pure _
  case h_11 => exact Keeps.mapM fun | some _ => ih.single _ | none => Keeps.throw (by rfl)
  case h_12 => exact keeps_call ih _ _ _ _ _ _
  case h_13 =>
    extract_lets ev rest
    have hrest : ∀ u, Keeps (rest u) := by
      intro u
      dsimp -zeta only [rest]
      split
      · exact (Keeps.of_fnFixed (fnFixed_varDecl _)).bind fun _ => ih.values _
      · exact keeps_memberValue ih _ _ _
    split
    · split
      · exact (keeps_context _).bind fun _ => Keeps.pure _
      · exact hrest ()
    · exact hrest ()
  case h_14 => exact (ih.place _).bind fun _ => (keeps_load _).bind fun _ => Keeps.pure _

theorem keeps_single_succ (e : Expr) : Keeps (single (fuel + 1) e) := by
  unfold single
  refine (ih.values e).bind fun vs => ?_
  split
  · exact Keeps.pure _
  · exact Keeps.throw (by rfl)

theorem keeps_place_succ (e : Expr) : Keeps (place (fuel + 1) e) := by
  unfold place
  split
  · exact keeps_variablePlace _ _ _
  · exact keeps_indexPlace ih _ _ _
  · exact keeps_memberPlace ih _ _ _
  · exact ih.place _
  · exact Keeps.throw (by rfl)
  · exact Keeps.throw (by rfl)

end Step

theorem evalKeeps (fuel : Nat) : EvalKeeps ⟨values fuel, single fuel, place fuel⟩ := by
  induction fuel with
  | zero =>
    refine ⟨fun _ => ?_, fun _ => ?_, fun _ => ?_⟩
    · unfold values
      exact Keeps.throw (by rfl)
    · unfold single
      exact Keeps.throw (by rfl)
    · unfold place
      exact Keeps.throw (by rfl)
  | succ fuel ih => exact ⟨keeps_values_succ ih, keeps_single_succ ih, keeps_place_succ ih⟩

theorem fnFixed_exprFuel : FnFixed exprFuel := fnFixed_unit.bind fun _ => FnFixed.pure _

theorem keeps_eval_bind {α : Type} {f : Eval → Gen α} (hf : ∀ ev, EvalKeeps ev → Keeps (f ev)) :
    Keeps (eval >>= f) := by
  unfold eval
  rw [bind_assoc]
  exact (Keeps.of_fnFixed fnFixed_exprFuel).bind fun fuel => by
    rw [pure_bind]
    exact hf _ (evalKeeps fuel)

end Gen

end ContractCfg.Lower
