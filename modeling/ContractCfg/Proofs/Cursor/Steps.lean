import ContractCfg.Proofs.Lower.Run
import ContractCfg.Proofs.Cursor.Shape

/-!
The cursor protocol of the lowering monad. Lowering code keeps it when, started on a builder
whose current block is open, it never fails with a builder error and ends on an open current
block with the same blocks left open elsewhere (`Keeps`). The builder steps of the monad are
stated here: each one either keeps the protocol or moves between the two shapes of
`Shape` in a way the control-flow routines undo.
-/

namespace ContractCfg.Lower

open ContractCfg.IR ContractCfg.IR.FnBuilder

/-- Whether an error is the builder refusing a step. -/
def LowerError.isBuilder : LowerError → Bool
  | .ir (.builderError _) => true
  | _ => false

/-- An error other than the builder refusing a step. -/
def LowerError.NotBuilder (e : LowerError) : Prop := e.isBuilder = false

theorem LowerError.notBuilder_iff {e : LowerError} :
    e.NotBuilder ↔ ∀ msg, e ≠ .ir (.builderError msg) := by
  unfold NotBuilder
  constructor
  · rintro h msg rfl
    cases h
  · intro h
    match e with
    | .ir (.builderError msg) => exact absurd rfl (h msg)
    | .ir (.typeError _) | .ir (.invalidInstruction _) | .ir (.functionNotFound _)
    | .ir (.verification _ _) => rfl
    | .unresolvedFunction .. | .modifierNotFound .. | .lvalueKindMismatch .. | .arityMismatch ..
    | .breakOutsideLoop _ | .continueOutsideLoop _ | .placeholderOutsideModifier _
    | .unsupportedFeature .. | .unknownVariable .. | .siblingNotCompiled ..
    | .inheritanceLinearization .. | .typeMismatch .. | .dangling | .unbounded => rfl

/-- A computation over the program that fails, if at all, with no builder error. -/
def Clean (x : Except LowerError α) : Prop := ∀ e, x = .error e → e.NotBuilder

/-- The blocks a list of loops names. -/
def loopTargets (ls : List LoopTargets) : List Nat := ls.flatMap fun l => [l.breakTo, l.continueTo]

/-- The blocks the function state names: loop exits and heads, return targets, and the shared
failure blocks. -/
def FnState.targets (c : FnState) : List Nat :=
  loopTargets c.loops ++ c.returnTargets ++ c.revertBlock.toList ++
    (c.statusRevert.map (·.1)).toList ++ c.assertFailBlock.toList

/-- A state ready for more code: the builder has the cursor shape with the blocks `P` pending,
and every block the function state names, and every block of `E`, exists. -/
structure Ready (P E : Set Nat) (s : GenState) : Prop where
  cursor : s.fn.builder.Cursor P
  targets : ∀ k ∈ s.fn.targets, s.fn.builder.Has k
  kept : ∀ k ∈ E, s.fn.builder.Has k

/-- A state right after a jump closed the current block, the blocks `P` left open. -/
structure Jumped (P E : Set Nat) (s : GenState) : Prop where
  parked : s.fn.builder.Parked P
  targets : ∀ k ∈ s.fn.targets, s.fn.builder.Has k
  kept : ∀ k ∈ E, s.fn.builder.Has k

/-- What running lowering code gave: a failure that is not a builder error, or a result and a
state satisfying `post`. -/
def Outcome (r : Except LowerError (α × GenState)) (post : α → GenState → Prop) : Prop :=
  match r with
  | .ok (a, s) => post a s
  | .error e => e.NotBuilder

/-- Lowering code that keeps the state property `I` and fails with no builder error. -/
def Preserves (I : GenState → Prop) (m : Gen α) : Prop :=
  ∀ env s, I s → Outcome (m env s) fun _ => I

/-- Lowering code that, started in a state satisfying `pre`, fails with no builder error or
gives a result and a state satisfying `post`. -/
def Triple (pre : GenState → Prop) (m : Gen α) (post : α → GenState → Prop) : Prop :=
  ∀ env s, pre s → Outcome (m env s) post

/-- Lowering code that keeps the cursor protocol: started ready, it fails with no builder
error or ends ready with the same blocks pending and every block it was given still there. -/
def Keeps (m : Gen α) : Prop := ∀ P E, Preserves (Ready P E) m

/-- Lowering code that leaves the function state alone and fails with no builder error. -/
def FnFixed (m : Gen α) : Prop := ∀ c, Preserves (fun s => s.fn = c) m

section Clean

variable {α β : Type}

theorem Clean.ok (a : α) : Clean (.ok a : Except LowerError α) := fun _ h => by cases h

theorem Clean.error {e : LowerError} (he : e.NotBuilder) : Clean (.error e : Except LowerError α) :=
  fun _ h => by cases h; exact he

theorem Clean.bind {x : Except LowerError α} {f : α → Except LowerError β} (hx : Clean x)
    (hf : ∀ a, Clean (f a)) : Clean (x >>= f) := by
  intro e he
  cases hx' : x with
  | error e' =>
    rw [hx'] at he
    cases he
    exact hx _ hx'
  | ok a =>
    rw [hx'] at he
    exact hf a e he

theorem clean_need (o : Option α) : Clean (need o) := by
  cases o
  · exact Clean.error rfl
  · exact Clean.ok _

end Clean

namespace Outcome

variable {α β : Type} {env : Env} {s : GenState} {Q : α → GenState → Prop} {R : β → GenState → Prop}

@[simp] theorem ok_iff {a : α} {s' : GenState} : Outcome (.ok (a, s')) Q ↔ Q a s' := Iff.rfl

theorem bind {x : Gen α} {f : α → Gen β} (hx : Outcome (x env s) Q)
    (hf : ∀ a s', Q a s' → Outcome (f a env s') R) : Outcome ((x >>= f) env s) R := by
  rw [Gen.bind_run]
  unfold Outcome at hx
  split at hx
  · rename_i a s' h
    rw [h]
    exact hf a s' hx
  · rename_i e h
    rw [h]
    exact hx

theorem mono {r : Except LowerError (α × GenState)} {Q' : α → GenState → Prop}
    (h : Outcome r Q) (hq : ∀ a s', Q a s' → Q' a s') : Outcome r Q' := by
  unfold Outcome at *
  split at h <;> simp_all

theorem of_run {x : Gen α} {a : α} {s' : GenState} (h : x env s = .ok (a, s')) (hq : Q a s') :
    Outcome (x env s) Q := by
  rw [h]
  exact hq

theorem ite {c : Prop} {h : Decidable c} {x y : Gen α} (hx : Outcome (x env s) Q)
    (hy : Outcome (y env s) Q) : Outcome ((if c then x else y) env s) Q := by
  split
  · exact hx
  · exact hy

theorem ite_bind {c : Prop} {h : Decidable c} {x y : Gen α} {f : α → Gen β}
    (hx : Outcome (x env s) Q) (hy : Outcome (y env s) Q) (hf : ∀ a s', Q a s' → Outcome (f a env s') R) :
    Outcome ((if c then x >>= f else y >>= f) env s) R :=
  ite (hx.bind hf) (hy.bind hf)

end Outcome

namespace Preserves

variable {α β γ : Type} {I : GenState → Prop}

theorem pure (a : α) : Preserves I (pure a : Gen α) := fun _ _ h => h

theorem bind {x : Gen α} {f : α → Gen β} (hx : Preserves I x) (hf : ∀ a, Preserves I (f a)) :
    Preserves I (x >>= f) :=
  fun env s h => (hx env s h).bind fun a s' h' => hf a env s' h'

theorem throw {e : LowerError} (he : e.NotBuilder) : Preserves I (throw e : Gen α) :=
  fun _ _ _ => he

theorem lift {x : Except LowerError α} (hx : Clean x) : Preserves I (x : Gen α) := by
  intro env s h
  cases hx' : x with
  | error e => exact hx e hx'
  | ok a => exact h

theorem forIn {xs : List α} {f : α → β → Gen (ForInStep β)} (hf : ∀ x b, Preserves I (f x b))
    (init : β) : Preserves I (forIn xs init f) := by
  induction xs generalizing init with
  | nil => exact pure init
  | cons x xs ih =>
    rw [List.forIn_cons]
    refine bind (hf x init) fun step => ?_
    cases step with
    | done b => exact pure b
    | yield b => exact ih b

theorem forM {xs : List α} {f : α → Gen PUnit} (hf : ∀ x, Preserves I (f x)) :
    Preserves I (xs.forM f) := by
  induction xs with
  | nil => exact pure _
  | cons x xs ih => exact bind (hf x) fun _ => ih

theorem mapM {xs : List α} {f : α → Gen β} (hf : ∀ x, Preserves I (f x)) :
    Preserves I (xs.mapM f) := by
  induction xs with
  | nil => exact pure _
  | cons x xs ih =>
    rw [List.mapM_cons]
    exact bind (hf x) fun _ => bind ih fun _ => pure _

theorem anyM {xs : List α} {f : α → Gen Bool} (hf : ∀ x, Preserves I (f x)) :
    Preserves I (xs.anyM f) := by
  induction xs with
  | nil => exact pure _
  | cons x xs ih =>
    rw [List.anyM_cons]
    refine bind (hf x) fun b => ?_
    cases b
    · exact ih
    · exact pure _

end Preserves

theorem Preserves.ite {α : Type} {I : GenState → Prop} {c : Prop} {h : Decidable c} {x y : Gen α}
    (hx : Preserves I x) (hy : Preserves I y) : Preserves I (if c then x else y) := by
  split
  · exact hx
  · exact hy

theorem Preserves.discard {α : Type} {I : GenState → Prop} {x : Gen α} (hx : Preserves I x) :
    Preserves I (discard x) := by
  intro env s h
  have hx' := hx env s h
  show Outcome (x env s >>= fun p => Pure.pure ((), p.2)) _
  unfold Outcome at hx' ⊢
  split at hx' <;> rename_i heq <;> rw [heq] <;> exact hx'

/-- Lowering code that keeps the cursor protocol as long as block `k` exists. -/
def KeepsAt (k : Nat) (m : Gen α) : Prop :=
  ∀ P E env s, Ready P E s → s.fn.builder.Has k → Outcome (m env s) fun _ => Ready P E

namespace Keeps

variable {α β : Type} {m x y : Gen α}

theorem of_fnFixed (h : FnFixed m) : Keeps m := by
  intro P E env s hs
  refine (h s.fn env s rfl).mono fun _ s' hfn => ?_
  exact ⟨hfn ▸ hs.cursor, hfn ▸ hs.targets, hfn ▸ hs.kept⟩

theorem pure (a : α) : Keeps (pure a : Gen α) := fun _ _ => Preserves.pure a

theorem bind {f : α → Gen β} (hx : Keeps x) (hf : ∀ a, Keeps (f a)) : Keeps (x >>= f) :=
  fun P E => Preserves.bind (hx P E) fun a => hf a P E

theorem throw {e : LowerError} (he : e.NotBuilder) : Keeps (throw e : Gen α) :=
  fun _ _ => Preserves.throw he

theorem ite {c : Prop} {h : Decidable c} (hx : Keeps x) (hy : Keeps y) : Keeps (if c then x else y) :=
  fun P E => Preserves.ite (hx P E) (hy P E)

theorem discard (hx : Keeps x) : Keeps (discard x) := fun P E => (hx P E).discard

theorem forIn {xs : List α} {f : α → β → Gen (ForInStep β)} (hf : ∀ a b, Keeps (f a b)) (init : β) :
    Keeps (forIn xs init f) := fun P E => Preserves.forIn (fun a b => hf a b P E) init

theorem forM {xs : List α} {f : α → Gen PUnit} (hf : ∀ a, Keeps (f a)) : Keeps (xs.forM f) :=
  fun P E => Preserves.forM fun a => hf a P E

theorem forInArray {xs : Array α} {f : α → β → Gen (ForInStep β)} (hf : ∀ a b, Keeps (f a b))
    (init : β) : Keeps (ForIn.forIn xs init f) := by
  rw [← Array.forIn_toList]
  exact Keeps.forIn hf init

theorem mapM {xs : List α} {f : α → Gen β} (hf : ∀ a, Keeps (f a)) : Keeps (xs.mapM f) :=
  fun P E => Preserves.mapM fun a => hf a P E

end Keeps

namespace Triple

variable {α β : Type} {pre : GenState → Prop} {post : α → GenState → Prop}

theorem bind {x : Gen α} {f : α → Gen β} {mid : α → GenState → Prop} {post : β → GenState → Prop}
    (hx : Triple pre x mid) (hf : ∀ a, Triple (mid a) (f a) post) : Triple pre (x >>= f) post :=
  fun env s h => (hx env s h).bind fun a s' h' => hf a env s' h'

theorem pure {a : α} (h : ∀ s, pre s → post a s) : Triple pre (Pure.pure a : Gen α) post :=
  fun _ s hs => h s hs

theorem ite {c : Prop} {h : Decidable c} {x y : Gen α} (hx : Triple pre x post)
    (hy : Triple pre y post) : Triple pre (if c then x else y) post := by
  split
  · exact hx
  · exact hy

theorem throw {e : LowerError} (he : e.NotBuilder) : Triple pre (MonadExcept.throw e : Gen α) post :=
  fun _ _ _ => he

theorem throw_bind {e : LowerError} (he : e.NotBuilder) (f : α → Gen β) {post : β → GenState → Prop} :
    Triple pre (MonadExcept.throw e >>= f) post :=
  fun _ _ _ => he

theorem of_fact {Q : Prop} {m : Gen α} (h : Q → Triple pre m post) :
    Triple (fun s => pre s ∧ Q) m post :=
  fun env s hs => h hs.2 env s hs.1

theorem mono {m : Gen α} {post' : α → GenState → Prop} (h : Triple pre m post)
    (hq : ∀ a s, post a s → post' a s) : Triple pre m post' :=
  fun env s hs => (h env s hs).mono hq

end Triple

theorem Keeps.triple {P E : Set Nat} (h : Keeps m) : Triple (Ready P E) m fun _ => Ready P E := h P E

theorem Keeps.of_triple (h : ∀ P E, Triple (Ready P E) m fun _ => Ready P E) : Keeps m := h

theorem KeepsAt.bind {k : Nat} {α β : Type} {x : Gen α} {f : α → Gen β} (hx : KeepsAt k x)
    (hf : ∀ a, Keeps (f a)) : KeepsAt k (x >>= f) :=
  fun P E env s h hk => (hx P E env s h hk).bind fun a s' h' => hf a P E env s' h'

namespace FnFixed

variable {α β : Type} {m x y : Gen α}

theorem pure (a : α) : FnFixed (pure a : Gen α) := fun _ => Preserves.pure a

theorem bind {f : α → Gen β} (hx : FnFixed x) (hf : ∀ a, FnFixed (f a)) : FnFixed (x >>= f) :=
  fun c => Preserves.bind (hx c) fun a => hf a c

theorem throw {e : LowerError} (he : e.NotBuilder) : FnFixed (throw e : Gen α) :=
  fun _ => Preserves.throw he

theorem ite {c : Prop} {h : Decidable c} (hx : FnFixed x) (hy : FnFixed y) :
    FnFixed (if c then x else y) :=
  fun _ => Preserves.ite (hx _) (hy _)

theorem mapM {xs : List α} {f : α → Gen β} (hf : ∀ a, FnFixed (f a)) : FnFixed (xs.mapM f) :=
  fun c => Preserves.mapM fun a => hf a c

theorem anyM {xs : List α} {f : α → Gen Bool} (hf : ∀ a, FnFixed (f a)) : FnFixed (xs.anyM f) :=
  fun c => Preserves.anyM fun a => hf a c

end FnFixed

namespace Ready

variable {P E : Set Nat} {s : GenState} {k : Nat}

theorem has (h : Ready P E s) (hk : k ∈ E) : s.fn.builder.Has k := h.kept k hk

theorem anti (h : Ready P E s) {E' : Set Nat} (hE : E' ⊆ E) : Ready P E' s :=
  ⟨h.cursor, h.targets, fun k hk => h.kept k (hE hk)⟩

theorem union (h : Ready P E s) {E' : Set Nat} (h' : ∀ k ∈ E', s.fn.builder.Has k) :
    Ready P (E ∪ E') s :=
  ⟨h.cursor, h.targets, fun k hk => hk.elim (h.kept k) (h' k)⟩

theorem insert (h : Ready P E s) (hk : s.fn.builder.Has k) : Ready P (insert k E) s :=
  ⟨h.cursor, h.targets, fun j hj => hj.elim (fun e => e ▸ hk) (h.kept j)⟩

theorem congr (h : Ready P E s) {P' : Set Nat} (hP : P = P') : Ready P' E s := hP ▸ h

theorem restore {P' E' : Set Nat} (h : Ready P' E' s) (hP : ∀ x, x ∈ P' ↔ x ∈ P) (hE : E ⊆ E') :
    Ready P E s :=
  (h.congr (Set.ext hP)).anti hE

theorem withBuilder (h : Ready P E s) {b : FnBuilder} {P' : Set Nat} (hc : b.Cursor P')
    (hb : ∀ k, s.fn.builder.Has k → b.Has k) : Ready P' E (s.withBuilder b) :=
  ⟨hc, fun k hk => hb k (h.targets k hk), fun k hk => hb k (h.kept k hk)⟩

theorem of_fn {s' : GenState} (h : Ready P E s) (hb : s'.fn.builder = s.fn.builder)
    (ht : ∀ k ∈ s'.fn.targets, k ∈ s.fn.targets) : Ready P E s' :=
  ⟨hb ▸ h.cursor, fun k hk => hb ▸ h.targets k (ht k hk), fun k hk => hb ▸ h.kept k hk⟩

theorem of_target {s' : GenState} (h : Ready P E s) (hb : s'.fn.builder = s.fn.builder)
    {a : Nat} (ha : s.fn.builder.Has a) (ht : ∀ k ∈ s'.fn.targets, k ∈ s.fn.targets ∨ k = a) :
    Ready P E s' := by
  refine ⟨hb ▸ h.cursor, fun k hk => ?_, fun k hk => hb ▸ h.kept k hk⟩
  rw [hb]
  rcases ht k hk with hk | rfl
  · exact h.targets k hk
  · exact ha

theorem has_returnTarget {t : Nat} (h : Ready P E s) (ht : t ∈ s.fn.returnTargets) :
    s.fn.builder.Has t :=
  h.targets t (by simp [FnState.targets, ht])

theorem has_loop {l : LoopTargets} (h : Ready P E s) (hl : l ∈ s.fn.loops) :
    s.fn.builder.Has l.breakTo ∧ s.fn.builder.Has l.continueTo := by
  refine ⟨h.targets _ ?_, h.targets _ ?_⟩ <;>
    simp only [FnState.targets, loopTargets, List.mem_append, List.mem_flatMap] <;>
    exact Or.inl (Or.inl (Or.inl (Or.inl ⟨l, hl, by simp⟩)))

end Ready

theorem Keeps.bind_keepsAt {k : Nat} {α β : Type} {x : Gen α} {f : α → Gen β} (hx : Keeps x)
    (hf : ∀ a, KeepsAt k (f a)) : KeepsAt k (x >>= f) := by
  intro P E env s h hk
  refine (hx P (insert k E) env s (h.insert hk)).bind fun a s' h' => ?_
  exact hf a P E env s' (h'.anti (Set.subset_insert k E)) (h'.has (Set.mem_insert k E))

theorem keeps_throw_bind {α β : Type} {e : LowerError} (he : e.NotBuilder) (f : α → Gen β) :
    Keeps (throw e >>= f) :=
  fun _ _ _ _ _ => he

namespace Gen

variable {P E : Set Nat} {env : Env} {s : GenState} {α : Type}

theorem fnFixed_get : FnFixed (get : Gen GenState) := fun _ _ _ h => h

theorem fnFixed_read : FnFixed (read : Gen Env) := fun _ _ _ h => h

theorem fnFixed_modifyContract (f : ContractState → ContractState) : FnFixed (modifyContract f) :=
  fun _ _ _ h => h

theorem fnFixed_lift {x : Except LowerError α} (hx : Clean x) : FnFixed (x : Gen α) :=
  fun _ => Preserves.lift hx

theorem fnFixed_unit : FnFixed unit := fun c => Preserves.bind (fnFixed_read c) fun _ => Preserves.pure _

theorem fnFixed_need (o : Option α) : FnFixed (need o : Gen α) := fnFixed_lift (clean_need o)

theorem fnFixed_contractDef (i : Nat) : FnFixed (contractDef i) :=
  fun c => Preserves.bind (fnFixed_unit c) fun _ => fnFixed_need _ c

theorem fnFixed_functionDef (i : Nat) : FnFixed (functionDef i) :=
  fun c => Preserves.bind (fnFixed_unit c) fun _ => fnFixed_need _ c

theorem fnFixed_modifierDef (i : Nat) : FnFixed (modifierDef i) :=
  fun c => Preserves.bind (fnFixed_unit c) fun _ => fnFixed_need _ c

theorem fnFixed_varDecl (i : Nat) : FnFixed (varDecl i) :=
  fun c => Preserves.bind (fnFixed_unit c) fun _ => fnFixed_need _ c

theorem fnFixed_structDef (i : Nat) : FnFixed (structDef i) :=
  fun c => Preserves.bind (fnFixed_unit c) fun _ => fnFixed_need _ c

theorem fnFixed_lookupVar (v : Nat) : FnFixed (lookupVar v) :=
  fun _ env s h => Outcome.of_run (lookupVar_run v env s) h

theorem fnFixed_currentBlock : FnFixed currentBlock := fun _ _ _ h => h

theorem fnFixed_isTerminated : FnFixed isTerminated := fun _ _ _ h => h

theorem fnFixed_returnValues : FnFixed returnValues := fun _ _ _ h => h

theorem keeps_emitUnit (i : Instr) : Keeps (emitUnit i) := by
  intro P E env s h
  rw [emitUnit_run i h.cursor.isOpen]
  exact h.withBuilder (h.cursor.push i) fun k hk => hk.push i

theorem keeps_emit (mk : Value → Instr) : Keeps (emit mk) := by
  intro P E env s h
  rw [emit_run mk h.cursor.isOpen, emit_eq]
  have hc : s.fn.builder.newTemp.2.Cursor P := h.cursor.of_body rfl rfl
  exact h.withBuilder (hc.push _) fun k hk => Has.push hk _

theorem newTemps_fn (b : FnBuilder) (n : Nat) :
    (b.newTemps n).2.fn = b.fn ∧ (b.newTemps n).2.current = b.current := by
  induction n generalizing b with
  | zero => exact ⟨rfl, rfl⟩
  | succ n ih => exact ih b.newTemp.2

theorem keeps_emitMany (n : Nat) (mk : List Value → Instr) : Keeps (emitMany n mk) := by
  intro P E env s h
  obtain ⟨hfn, hcur⟩ := newTemps_fn s.fn.builder n
  have hc : (s.fn.builder.newTemps n).2.Cursor P := h.cursor.of_body (by rw [hfn]) hcur
  have hhas : ∀ k, s.fn.builder.Has k → (s.fn.builder.newTemps n).2.Has k := by
    intro k hk
    unfold Has block? at *
    rw [hfn]
    exact hk
  unfold emitMany
  rw [bind_run_ok (checkOpen_run h.cursor.isOpen), bind_run_ok (withBuilder_run _ env s),
    bind_run_ok (modifyBuilder_run _ env _)]
  exact h.withBuilder (hc.push _) fun k hk => (hhas k hk).push _

theorem keeps_binary (op : IR.BinOp) (l r : Value) : Keeps (binary op l r) := keeps_emit _

theorem keeps_unary (op : IR.UnOp) (v : Value) : Keeps (unary op v) := keeps_emit _

theorem keeps_context (v : IR.ContextVar) : Keeps (context v) := keeps_emit _

theorem keeps_modifyFn (f : FnState → FnState) (hb : ∀ c, (f c).builder = c.builder)
    (ht : ∀ c, ∀ k ∈ (f c).targets, k ∈ c.targets) : Keeps (modifyFn f) :=
  fun _ _ env s h => Outcome.of_run (modifyFn_run f env s) (h.of_fn (hb s.fn) (ht s.fn))

theorem keeps_freshName (base : String) : Keeps (freshName base) :=
  fun _ _ env s h => Outcome.of_run (freshName_run base env s) (h.of_fn rfl fun _ hk => hk)

theorem keeps_freshLocal (base : String) : Keeps (freshLocal base) :=
  fun _ _ env s h => Outcome.of_run (freshLocal_run base env s) (h.of_fn rfl fun _ hk => hk)

theorem keeps_declareVar (v : Nat) (x : Value) : Keeps (declareVar v x) := by
  refine keeps_modifyFn _ (fun c => ?_) (fun c k hk => ?_)
  · cases c.layers <;> rfl
  · revert hk
    cases c.layers <;> exact id

theorem keeps_declareInFunctionScope (v : Nat) (x : Value) : Keeps (declareInFunctionScope v x) :=
  keeps_modifyFn _ (fun _ => rfl) fun _ _ hk => hk

theorem keeps_pushLayer : Keeps pushLayer := keeps_modifyFn _ (fun _ => rfl) fun _ _ hk => hk

theorem keeps_popLayer : Keeps popLayer := keeps_modifyFn _ (fun _ => rfl) fun _ _ hk => hk

theorem mem_loopTargets_drop {ls : List LoopTargets} {k : Nat} (hk : k ∈ loopTargets (ls.drop 1)) :
    k ∈ loopTargets ls := by
  simp only [loopTargets, List.mem_flatMap] at hk ⊢
  obtain ⟨l, hl, hkl⟩ := hk
  exact ⟨l, List.mem_of_mem_drop hl, hkl⟩

theorem keeps_popLoop : Keeps popLoop := by
  refine keeps_modifyFn _ (fun _ => rfl) fun c k hk => ?_
  simp only [FnState.targets, List.mem_append] at hk ⊢
  have := @mem_loopTargets_drop c.loops k
  tauto

theorem keeps_popReturnTarget : Keeps popReturnTarget := by
  refine keeps_modifyFn _ (fun _ => rfl) fun c k hk => ?_
  simp only [FnState.targets, List.mem_append] at hk ⊢
  have := @List.mem_of_mem_drop _ k 1 c.returnTargets
  tauto

theorem takeLoops_outcome (h : Ready P E s) :
    Outcome (takeLoops env s) fun ls s' => Ready P E s' ∧ ∀ k ∈ loopTargets ls, s'.fn.builder.Has k := by
  refine ⟨h.of_fn rfl fun k hk => ?_, fun k hk => h.targets k ?_⟩
  · simp only [FnState.targets, List.mem_append] at hk ⊢
    simp only [loopTargets, List.flatMap_nil, List.not_mem_nil, false_or] at hk
    tauto
  · simp only [FnState.targets, List.mem_append]
    tauto

theorem restoreLoops_outcome {ls : List LoopTargets} (h : Ready P E s)
    (hls : ∀ k ∈ loopTargets ls, s.fn.builder.Has k) : Outcome (restoreLoops ls env s) fun _ => Ready P E := by
  refine ⟨h.cursor, fun k hk => ?_, h.kept⟩
  simp only [FnState.targets, List.mem_append] at hk
  rcases hk with (((hk | hk) | hk) | hk) | hk
  · exact hls k hk
  all_goals exact h.targets k (by simp only [FnState.targets, List.mem_append]; tauto)

theorem pushLoop_outcome {breakTo continueTo : Nat} (h : Ready P E s)
    (hb : s.fn.builder.Has breakTo) (hc : s.fn.builder.Has continueTo) :
    Outcome (pushLoop breakTo continueTo env s) fun _ => Ready P E := by
  refine ⟨h.cursor, fun k hk => ?_, h.kept⟩
  simp only [FnState.targets, loopTargets, List.flatMap_cons, List.mem_append, List.mem_cons,
    List.not_mem_nil, or_false] at hk
  rcases hk with (((((rfl | rfl) | hk) | hk) | hk) | hk) | hk
  · exact hb
  · exact hc
  all_goals exact h.targets k (by simp only [FnState.targets, loopTargets, List.mem_append]; tauto)

theorem pushReturnTarget_outcome {b : Nat} (h : Ready P E s) (hb : s.fn.builder.Has b) :
    Outcome (pushReturnTarget b env s) fun _ => Ready P E := by
  refine ⟨h.cursor, fun k hk => ?_, h.kept⟩
  simp only [FnState.targets, List.mem_append, List.mem_cons] at hk
  rcases hk with (((hk | rfl | hk) | hk) | hk) | hk
  · exact h.targets k (by simp only [FnState.targets, List.mem_append]; tauto)
  · exact hb
  all_goals exact h.targets k (by simp only [FnState.targets, List.mem_append]; tauto)

theorem createBlock_outcome (h : Ready P E s) (label : String) :
    Outcome (createBlock label env s) fun k s' => Ready (insert k P) (insert k E) s' ∧ k ∉ P ∧ k ∉ E := by
  refine Outcome.of_run (createBlock_run label env s) ⟨?_, h.cursor.nextId_not_mem, fun hk => ?_⟩
  · exact (h.withBuilder (h.cursor.createBlock label) fun k hk => hk.createBlock label).insert
      (has_createBlock_new label)
  · exact Nat.lt_irrefl _ (h.cursor.below _ (h.kept _ hk))

theorem terminate_outcome (h : Ready P E s) {t : Terminator}
    (hts : ∀ x ∈ t.successors, s.fn.builder.Has x) (ht : t ≠ .invalid) :
    Outcome (terminate t env s) fun _ => Jumped P E := by
  obtain ⟨blk, hb, ho⟩ := h.cursor.isOpen
  exact Outcome.of_run (terminate_run hts hb ho) ⟨h.cursor.setTerm hb ht,
    fun k hk => (h.targets k hk).setTerm t blk, fun k hk => (h.kept k hk).setTerm t blk⟩

theorem switchTo_outcome {k : Nat} (h : Jumped P E s) (hk : k ∈ P) :
    Outcome (switchTo k env s) fun _ => Ready (P \ {k}) E :=
  Outcome.of_run (switchTo_run ((h.parked.opened k).mpr hk).has)
    ⟨h.parked.switch hk, h.targets, h.kept⟩

theorem jumpIfOpen_outcome {target : Nat} (h : Ready P E s) (ht : s.fn.builder.Has target) :
    Outcome (jumpIfOpen target env s) fun _ => Jumped P E := by
  obtain ⟨blk, hb, ho⟩ := h.cursor.isOpen
  exact Outcome.of_run (jumpIfOpen_run ht hb ho) ⟨h.cursor.setTerm hb (by simp),
    fun k hk => (h.targets k hk).setTerm _ blk, fun k hk => (h.kept k hk).setTerm _ blk⟩

theorem branch_outcome (h : Ready P E s) (c : Value) {t f : Nat} (ht : s.fn.builder.Has t)
    (hf : s.fn.builder.Has f) : Outcome (terminate (.branch c t f) env s) fun _ => Jumped P E :=
  terminate_outcome h (by simp [Terminator.successors, ht, hf]) (by simp)

theorem jump_outcome (h : Ready P E s) {t : Nat} (ht : s.fn.builder.Has t) :
    Outcome (terminate (.jump t) env s) fun _ => Jumped P E :=
  terminate_outcome h (by simp [Terminator.successors, ht]) (by simp)

theorem startBlock_outcome (h : Jumped P E s) (label : String) :
    Outcome (startBlock label env s) fun _ => Ready P E :=
  Outcome.of_run (startBlock_run label env s) ⟨h.parked.startBlock label,
    fun k hk => (h.targets k hk).createBlock label, fun k hk => (h.kept k hk).createBlock label⟩

theorem jumpAndDetach_outcome {target : Nat} (h : Ready P E s) (ht : s.fn.builder.Has target) :
    Outcome (jumpAndDetach target env s) fun _ => Ready P E := by
  obtain ⟨blk, hb, ho⟩ := h.cursor.isOpen
  exact Outcome.of_run (jumpAndDetach_run ht h.cursor.below hb ho)
    (h.withBuilder (h.cursor.closeInto hb _ (by simp)) fun k hk => hk.closeInto _ _ _)

theorem failIf_outcome (cond : Value) {failure : Nat} (label : String) (h : Ready P E s)
    (hf : s.fn.builder.Has failure) : Outcome (failIf cond failure label env s) fun _ => Ready P E := by
  cases cond with
  | const c =>
    cases hc : c.isZero
    · rw [failIf_run_nonzero hc]
      exact jumpAndDetach_outcome h hf
    · rw [failIf_run_zero hc]
      exact h
  | reg x =>
    obtain ⟨blk, hb, ho⟩ := h.cursor.isOpen
    rw [failIf_run_reg x label hf h.cursor.below hb ho]
    exact h.withBuilder (h.cursor.closeInto hb label (by simp)) fun k hk => hk.closeInto _ _ _

theorem terminalBlock_outcome (label : String) {t : Terminator} (hts : t.successors = [])
    (ht : t ≠ .invalid) (h : Ready P E s) :
    Outcome (terminalBlock label t env s) fun k s' => Ready P E s' ∧ s'.fn.builder.Has k := by
  obtain ⟨blk, hb, -⟩ := h.cursor.isOpen
  exact Outcome.of_run (terminalBlock_run label hts h.cursor.below (by simp [hb]))
    ⟨h.withBuilder (h.cursor.addClosed label ht) fun k hk => hk.addClosed _ _, has_addClosed_new _ _⟩

theorem revertBlock_outcome (h : Ready P E s) :
    Outcome (revertBlock env s) fun k s' => Ready P E s' ∧ s'.fn.builder.Has k := by
  cases hr : s.fn.revertBlock with
  | some a =>
    rw [revertBlock_run_some hr]
    exact ⟨h, h.targets a (by simp [FnState.targets, hr])⟩
  | none =>
    obtain ⟨blk, hb, -⟩ := h.cursor.isOpen
    rw [revertBlock_run_none hr h.cursor.below (by simp [hb])]
    have h' := h.withBuilder (h.cursor.addClosed "revert" (t := .revert (.ofInt revertStatus)) (by simp))
      fun k hk => hk.addClosed _ _
    refine ⟨h'.of_target rfl (has_addClosed_new _ _) fun k hk => ?_, has_addClosed_new _ _⟩
    simp only [FnState.targets, List.mem_append, Option.toList_some, List.mem_singleton] at hk ⊢
    tauto

theorem assertFailBlock_outcome (h : Ready P E s) :
    Outcome (assertFailBlock env s) fun k s' => Ready P E s' ∧ s'.fn.builder.Has k := by
  cases hr : s.fn.assertFailBlock with
  | some a =>
    rw [assertFailBlock_run_some hr]
    exact ⟨h, h.targets a (by simp [FnState.targets, hr])⟩
  | none =>
    obtain ⟨blk, hb, -⟩ := h.cursor.isOpen
    rw [assertFailBlock_run_none hr h.cursor.below (by simp [hb])]
    have h' := h.withBuilder (h.cursor.addClosed "assert.fail" (t := .abort) (by simp))
      fun k hk => hk.addClosed _ _
    refine ⟨h'.of_target rfl (has_addClosed_new _ _) fun k hk => ?_, has_addClosed_new _ _⟩
    simp only [FnState.targets, List.mem_append, Option.toList_some, List.mem_singleton] at hk ⊢
    tauto

theorem statusRevertBlock_outcome (h : Ready P E s) :
    Outcome (statusRevertBlock env s) fun p s' => Ready P E s' ∧ s'.fn.builder.Has p.1 := by
  unfold statusRevertBlock
  rw [bind_run_ok (get_run env s)]
  cases hr : s.fn.statusRevert with
  | some p =>
    exact ⟨h, h.targets p.1 (by simp [FnState.targets, hr])⟩
  | none =>
    refine Outcome.bind (keeps_freshLocal _ P E env s h) fun status s₂ h₂ => ?_
    refine Outcome.bind (terminalBlock_outcome _ rfl (by simp) h₂) fun b s₃ ⟨h₃, hb₃⟩ => ?_
    rw [bind_run_ok (modifyFn_run _ env s₃)]
    refine ⟨h₃.of_target rfl hb₃ fun k hk => ?_, hb₃⟩
    simp only [FnState.targets, List.mem_append, Option.map_some, Option.toList_some,
      List.mem_singleton] at hk ⊢
    tauto

theorem keepsAt_failIf (cond : Value) (failure : Nat) (label : String) :
    KeepsAt failure (failIf cond failure label) :=
  fun _ _ _ _ h hf => failIf_outcome cond label h hf

theorem keepsAt_jumpAndDetach (target : Nat) : KeepsAt target (jumpAndDetach target) :=
  fun _ _ _ _ h ht => jumpAndDetach_outcome h ht

theorem keeps_revertBlock_bind {f : Nat → Gen α} (hf : ∀ k, KeepsAt k (f k)) :
    Keeps (revertBlock >>= f) :=
  fun P E _ _ h => (revertBlock_outcome h).bind fun k _ h' => hf k P E _ _ h'.1 h'.2

theorem keeps_assertFailBlock_bind {f : Nat → Gen α} (hf : ∀ k, KeepsAt k (f k)) :
    Keeps (assertFailBlock >>= f) :=
  fun P E _ _ h => (assertFailBlock_outcome h).bind fun k _ h' => hf k P E _ _ h'.1 h'.2

theorem keeps_statusRevertBlock_bind {f : Nat × Value → Gen α} (hf : ∀ p, KeepsAt p.1 (f p)) :
    Keeps (statusRevertBlock >>= f) :=
  fun P E _ _ h => (statusRevertBlock_outcome h).bind fun p _ h' => hf p P E _ _ h'.1 h'.2

theorem keeps_terminate_detach {t : Terminator} (hts : t.successors = []) (ht : t ≠ .invalid)
    (label : String) {f : Unit → Gen α} (hf : ∀ u, Keeps (f u)) :
    Keeps (terminate t >>= fun _ => discard (startBlock label) >>= f) := by
  intro P E env s h
  refine (terminate_outcome h (by simp [hts]) ht).bind fun _ s₁ h₁ => ?_
  have h₂ := @startBlock_outcome P E env s₁ h₁ label
  rw [startBlock_run] at h₂
  rw [bind_run_ok (discard_run (startBlock_run label env s₁))]
  exact hf () P E env _ h₂

end Gen

end ContractCfg.Lower
