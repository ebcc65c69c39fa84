import ContractCfg.IR.Verify
import ContractCfg.Proofs.OrderedMap
import ContractCfg.Proofs.Machine.Resume

/-!
What a run of a verified contract can still fail with. The verifier checks, per function, that
the entry block exists, that every block is terminated, jumps only to existing blocks and
returns as many values as the signature declares; per contract, that every internal call names
a function of the contract with the arity and the result count the call uses. A run therefore
never misses a block, a callee or an argument, never reaches an unterminated block and never
gets back the wrong number of values. It fails only at the step limit or when an instruction
fails on the data it meets (`Fault.Residual`); one such failure is a builtin given fewer
arguments than it reads, which the verifier does not look at.
-/

namespace ContractCfg.Machine

open ContractCfg.IR

/-- The runtime faults of an instruction's data: a constant as the target of a write, memory
out of bounds, an allocation too large, a negative exponent, a copy too long, and a struct
missing from the registry. -/
inductive Fault.DataDependent : Fault → Prop
  | constantTarget (c : Constant) :
      DataDependent (.runtime ("cannot assign to constant " ++ c.display))
  | outOfBounds (a : Int) : DataDependent (.runtime ("memory access out of bounds at " ++ toString a))
  | allocation (n : Int) : DataDependent (.runtime ("cannot allocate " ++ toString n ++ " memory cells"))
  | negativeExponent (e : Int) : DataDependent (.runtime ("negative exponent " ++ toString e))
  | copyLength (v : Int) :
      DataDependent (.runtime ("array length " ++ toString v ++ " too large to copy"))
  | unknownStruct (t : Ty) : DataDependent (unknownStruct t)

/-- The faults left to a run of a contract that passed the verifier: the step limit, an unset
register, an unsupported operation, a data-dependent fault, a copy through a struct type that
contains itself, and a builtin short of an argument. -/
inductive Fault.Residual : Fault → Prop
  | stepLimit (n : Nat) : Residual (.stepLimit n)
  | undefinedLocal (x : String) : Residual (.undefinedLocal x)
  | unsupported (what : String) : Residual (.unsupported what)
  | data {e : Fault} (h : e.DataDependent) : Residual e
  | unbounded : Residual .unbounded
  | missingArgument (f : Builtin) (i : Nat) :
      Residual (.runtime (f.name ++ " is missing argument " ++ toString i))

/-- A computation of the machine that fails only residually and, when it succeeds, yields a
value with property `P`. -/
inductive Residually {α : Type} (P : α → Prop) : Except Fault α → Prop
  | ok {a : α} (h : P a) : Residually P (.ok a)
  | error {e : Fault} (h : e.Residual) : Residually P (.error e)

/-- A computation that fails only residually. -/
abbrev Tame {α : Type} (x : Except Fault α) : Prop := Residually (fun _ => True) x

namespace Residually

variable {α β : Type} {P Q : α → Prop} {R : β → Prop}

theorem mono {x : Except Fault α} (h : Residually P x) (hPQ : ∀ a, P a → Q a) : Residually Q x := by
  cases h with
  | ok h => exact ok (hPQ _ h)
  | error h => exact error h

theorem bind {x : Except Fault α} {f : α → Except Fault β} (hx : Residually P x)
    (hf : ∀ a, P a → Residually R (f a)) : Residually R (x >>= f) := by
  cases hx with
  | ok h => exact hf _ h
  | error h => exact error h

theorem fault {x : Except Fault α} (h : Residually P x) {e : Fault} (he : x = .error e) : e.Residual := by
  subst he
  cases h with
  | error h => exact h

theorem value {x : Except Fault α} (h : Residually P x) {a : α} (ha : x = .ok a) : P a := by
  subst ha
  cases h with
  | ok h => exact h

theorem mapM {xs : List α} {f : α → Except Fault β} (hf : ∀ a, Tame (f a)) : Tame (xs.mapM f) := by
  induction xs with
  | nil => exact ok trivial
  | cons x xs ih =>
    rw [List.mapM_cons]
    exact (hf x).bind fun _ _ => ih.bind fun _ _ => ok trivial

theorem foldlM {xs : List α} {f : β → α → Except Fault β} (hf : ∀ b a, Tame (f b a)) (init : β) :
    Tame (xs.foldlM f init) := by
  induction xs generalizing init with
  | nil => exact ok trivial
  | cons x xs ih =>
    rw [List.foldlM_cons]
    exact (hf init x).bind fun b _ => ih b

end Residually

open Residually

theorem tame_read (ls : Locals) (v : Value) : Tame (ls.read v) := by
  cases v with
  | const c => exact ok trivial
  | reg n =>
    rw [Vm.read_reg]
    split
    · exact ok trivial
    · exact error (.undefinedLocal n)

theorem tame_readAll (ls : Locals) (vs : List Value) : Tame (ls.readAll vs) :=
  Residually.mapM (tame_read ls)

theorem tame_write (ls : Locals) (r : Value) (x : Int) : Tame (ls.write r x) := by
  cases r with
  | reg n => exact ok trivial
  | const c => exact error (.data (.constantTarget c))

theorem tame_cellIndex (st : State) (a : Int) : Tame (st.cellIndex a) := by
  unfold State.cellIndex
  split
  · exact ok trivial
  · exact error (.data (.outOfBounds a))

theorem tame_mload (st : State) (a : Int) : Tame (st.mload a) :=
  (tame_cellIndex st a).bind fun _ _ => ok trivial

theorem tame_mstore (st : State) (a v : Int) : Tame (st.mstore a v) :=
  (tame_cellIndex st a).bind fun _ _ => ok trivial

theorem tame_allocate (st : State) (size : Int) : Tame (st.allocate size) := by
  unfold State.allocate
  generalize (if st.memory.isEmpty then st.clearMemory else st) = st'
  dsimp only
  split
  · exact ok trivial
  · exact error (.data (.allocation size))

theorem tame_power (base e : Int) : Tame (power base e) := by
  unfold power
  split
  · exact error (.data (.negativeExponent e))
  · split
    · exact ok trivial
    · split
      · exact ok trivial
      · split
        · exact ok trivial
        · exact error (.unsupported _)

theorem tame_binary (op : BinOp) (l r : Int) : Tame (binary op l r) := by
  cases op
  case exp => exact tame_power l r
  all_goals exact ok trivial

theorem tame_copyLength (v : Int) : Tame (copyLength v) := by
  unfold copyLength
  split
  · exact ok trivial
  · exact error (.data (.copyLength v))

theorem tame_sizeOf' (reg : TypeRegistry) (t : Ty) : Tame (sizeOf' reg t) := by
  unfold sizeOf'
  split
  · exact ok trivial
  · exact error .unbounded

theorem tame_fieldOffsets (reg : TypeRegistry) (t : Ty) (id : Nat) : Tame (fieldOffsets reg t id) := by
  unfold fieldOffsets
  split
  · refine Residually.mapM fun _ => ?_
    dsimp only
    split
    · exact ok trivial
    · exact error (.data (.unknownStruct t))
    · exact error .unbounded
  · exact error (.data (.unknownStruct t))

theorem Residually.forRange {σ : Type} {f : Nat → σ → Except Fault σ} (hf : ∀ i st, Tame (f i st))
    (n : Nat) (st : σ) : Tame (forRange n st f) := by
  unfold Machine.forRange
  generalize 0 = i
  induction n generalizing i st with
  | zero => exact ok trivial
  | succ k ih =>
    rw [forRange.go]
    have hi := hf i st
    revert hi
    cases f i st with
    | ok st' => exact fun _ => ih st' (i + 1)
    | error e => exact id

theorem tame_storageCopies (reg : TypeRegistry) : ∀ fuel,
    (∀ st dest t, Tame (clearStorage reg fuel st dest t)) ∧
    (∀ st dest src t, Tame (copyStorageToStorage reg fuel st dest src t)) ∧
    (∀ st dest src t, Tame (copyMemoryToStorage reg fuel st dest src t))
  | 0 => ⟨fun _ _ _ => error .unbounded, fun _ _ _ _ => error .unbounded,
      fun _ _ _ _ => error .unbounded⟩
  | fuel + 1 => by
    obtain ⟨hclear, hss, hms⟩ := tame_storageCopies reg fuel
    refine ⟨fun st dest t => ?_, fun st dest src t => ?_, fun st dest src t => ?_⟩
    · unfold clearStorage
      split
      · exact ok trivial
      · exact (tame_fieldOffsets reg _ _).bind fun _ _ =>
          Residually.foldlM (fun _ _ => hclear _ _ _) st
      · exact (tame_sizeOf' reg _).bind fun _ _ => Residually.forRange (fun _ _ => hclear _ _ _) _ st
      · exact (tame_copyLength _).bind fun _ _ => (tame_sizeOf' reg _).bind fun _ _ =>
          (Residually.forRange (fun _ _ => hclear _ _ _) _ st).bind fun _ _ => ok trivial
      · exact ok trivial
    · unfold copyStorageToStorage
      split
      · exact ok trivial
      split
      · exact ok trivial
      · exact (tame_fieldOffsets reg _ _).bind fun _ _ =>
          Residually.foldlM (fun _ _ => hss _ _ _ _) st
      · exact (tame_sizeOf' reg _).bind fun _ _ => Residually.forRange (fun _ _ => hss _ _ _ _) _ st
      · exact (tame_copyLength _).bind fun _ _ => (tame_copyLength _).bind fun _ _ =>
          (tame_sizeOf' reg _).bind fun _ _ => (Residually.forRange (fun _ _ => hss _ _ _ _) _ _).bind
            fun _ _ => Residually.forRange (fun _ _ => hclear _ _ _) _ _
      · exact ok trivial
    · unfold copyMemoryToStorage
      split
      · exact ok trivial
      split
      · exact hclear _ _ _
      split
      · exact ok trivial
      · exact (tame_fieldOffsets reg _ _).bind fun _ _ =>
          Residually.foldlM (fun _ _ => (tame_mload _ _).bind fun _ _ => hms _ _ _ _) st
      · exact (tame_sizeOf' reg _).bind fun _ _ =>
          Residually.forRange (fun _ _ => (tame_mload _ _).bind fun _ _ => hms _ _ _ _) _ st
      · exact (tame_mload _ _).bind fun _ _ => (tame_copyLength _).bind fun _ _ =>
          (tame_copyLength _).bind fun _ _ => (tame_sizeOf' reg _).bind fun _ _ =>
            (Residually.forRange (fun _ _ => (tame_mload _ _).bind fun _ _ => hms _ _ _ _) _ _).bind
              fun _ _ => Residually.forRange (fun _ _ => hclear _ _ _) _ _
      · exact ok trivial

theorem tame_toMemoryCopies (reg : TypeRegistry) : ∀ fuel,
    (∀ st src t, Tame (copyStorageToMemory reg fuel st src t)) ∧
    (∀ st first len size e, Tame (copyElements reg fuel st first len size e))
  | 0 => ⟨fun _ _ _ => error .unbounded, fun _ _ _ _ _ => error .unbounded⟩
  | fuel + 1 => by
    obtain ⟨hcopy, helems⟩ := tame_toMemoryCopies reg fuel
    refine ⟨fun st src t => ?_, fun st first len size e => ?_⟩
    · unfold copyStorageToMemory
      split
      · exact ok trivial
      · dsimp only
        split
        · refine (tame_allocate _ _).bind fun p _ => ?_
          refine (tame_fieldOffsets reg _ _).bind fun fields _ => ?_
          refine (Residually.foldlM (fun st₂ x => ?_) p.2).bind fun _ _ => ok trivial
          exact (hcopy _ _ _).bind fun q _ => tame_mstore q.2 _ q.1
        · exact error (.data (.unknownStruct _))
      · exact (tame_sizeOf' reg _).bind fun _ _ => helems _ _ _ _ _
      · exact (tame_copyLength _).bind fun _ _ => (tame_sizeOf' reg _).bind fun _ _ => helems _ _ _ _ _
      · exact ok trivial
    · unfold copyElements
      refine (tame_allocate _ _).bind fun p _ => (tame_mstore _ _ _).bind fun st₂ _ => ?_
      refine (Residually.forRange (fun i st₃ => ?_) _ st₂).bind fun _ _ => ok trivial
      exact (hcopy _ _ _).bind fun q _ => tame_mstore q.2 _ q.1

theorem residually_builtin (vm : Vm) (f : Builtin) (args : List Int) :
    Residually (fun p => p.2.contract = vm.contract) (vm.builtin f args) := by
  unfold Vm.builtin
  extract_lets arg
  have harg : ∀ i, Tame (arg i) := by
    intro i
    simp only [arg]
    split
    · exact ok trivial
    · exact error (.missingArgument f i)
  cases f
  case keccak256 => exact ok rfl
  case addMod | mulMod =>
    refine (harg 0).bind fun _ _ => (harg 1).bind fun _ _ => (harg 2).bind fun m _ => ?_
    split
    · exact ok rfl
    · split <;> exact ok rfl
  case blockHash | balance => exact (harg 0).bind fun _ _ => ok rfl
  case selfDestruct => exact (harg 0).bind fun _ _ => ok rfl

theorem residually_step (vm : Vm) (ls : Locals) (i : Instr) :
    Residually (fun p => p.1.contract = vm.contract) (vm.step ls i) := by
  have hss := (tame_storageCopies vm.contract.types copyDepth).2
  have hsm := (tame_toMemoryCopies vm.contract.types copyDepth).1
  unfold Vm.step
  cases i with
  | assign r v => exact (tame_read ls v).bind fun a _ => (tame_write ls r a).bind fun _ _ => ok rfl
  | binary r op a b =>
    exact (tame_read ls a).bind fun x _ => (tame_read ls b).bind fun y _ =>
      (tame_binary op x y).bind fun z _ => (tame_write ls r z).bind fun _ _ => ok rfl
  | unary r op a => exact (tame_read ls a).bind fun x _ => (tame_write ls r _).bind fun _ _ => ok rfl
  | truncate r a bits =>
    exact (tame_read ls a).bind fun x _ => (tame_write ls r _).bind fun _ _ => ok rfl
  | signExtend r a bits =>
    exact (tame_read ls a).bind fun x _ => (tame_write ls r _).bind fun _ _ => ok rfl
  | memoryLoad r a =>
    exact (tame_read ls a).bind fun x _ => (tame_mload _ x).bind fun y _ =>
      (tame_write ls r y).bind fun _ _ => ok rfl
  | memoryStore a v =>
    exact (tame_read ls a).bind fun x _ => (tame_read ls v).bind fun y _ =>
      (tame_mstore _ x y).bind fun _ _ => ok rfl
  | allocate r size =>
    exact (tame_read ls size).bind fun n _ => (tame_allocate _ n).bind fun p _ =>
      (tame_write ls r p.1).bind fun _ _ => ok rfl
  | storageLoad r slot => exact (tame_read ls slot).bind fun x _ => (tame_write ls r _).bind fun _ _ => ok rfl
  | storageStore slot v =>
    exact (tame_read ls slot).bind fun x _ => (tame_read ls v).bind fun y _ => ok rfl
  | mappingSlot r b k =>
    exact (tame_read ls k).bind fun x _ => (tame_read ls b).bind fun y _ =>
      (tame_write ls r _).bind fun _ _ => ok rfl
  | arrayDataSlot r b => exact (tame_read ls b).bind fun x _ => (tame_write ls r _).bind fun _ _ => ok rfl
  | copyStorageToStorage d src t =>
    exact (tame_read ls d).bind fun x _ => (tame_read ls src).bind fun y _ =>
      (hss.1 _ x y t).bind fun _ _ => ok rfl
  | copyMemoryToStorage d src t =>
    exact (tame_read ls d).bind fun x _ => (tame_read ls src).bind fun y _ =>
      (hss.2 _ x y t).bind fun _ _ => ok rfl
  | copyStorageToMemory r src t =>
    exact (tame_read ls src).bind fun x _ => (hsm _ x t).bind fun p _ =>
      (tame_write ls r p.1).bind fun _ _ => ok rfl
  | call rs g args => exact ok rfl
  | callExternal => exact error (.unsupported _)
  | create => exact error (.unsupported _)
  | builtin rs f args =>
    refine (tame_readAll ls args).bind fun xs _ => (residually_builtin vm f xs).bind fun p hp => ?_
    dsimp only
    split
    · exact (tame_write ls _ _).bind fun _ _ => ok hp
    · exact ok hp
  | getContext r x => exact (tame_write ls r _).bind fun _ _ => ok rfl

end ContractCfg.Machine

namespace ContractCfg.IR

/-- What the verifier checks of a block of `f`: it is terminated, it jumps only to blocks of `f`,
and a return carries as many values as `f` declares. -/
structure Function.BlockChecked (f : Function) (blk : Block) : Prop where
  terminated : blk.term ≠ .invalid
  successors : ∀ s ∈ blk.term.successors, f.body.blocks.contains s = true
  returns : ∀ vs, blk.term = .ret vs → vs.length = f.sig.returns.length

/-- What the verifier checks of a function: its entry block exists and every block passes. -/
structure Function.Checked (f : Function) : Prop where
  entry : f.body.blocks.contains f.body.entry = true
  blocks : ∀ id blk, f.body.blocks.get? id = some blk → f.BlockChecked blk

/-- What the verifier checks of an instruction of a contract: an internal call names a function
of the contract that takes as many arguments and returns as many values as the call uses. -/
def Contract.CallFits (c : Contract) : Instr → Prop
  | .call rs g args => ∃ G, c.function? g = some G ∧ G.sig.params.length = args.length ∧
      G.sig.returns.length = rs.length
  | _ => True

/-- What the verifier checks of a contract: every function passes, and so does every internal
call in it. -/
structure Contract.Checked (c : Contract) : Prop where
  functions : ∀ f ∈ c.functions.values, f.Checked
  calls : ∀ f ∈ c.functions.values, ∀ i ∈ f.instrs, c.CallFits i

theorem Function.blockChecked_of_problem {f : Function} {defined : List String} {id : Nat} {blk : Block}
    (h : f.blockProblem defined id blk = none) : f.BlockChecked blk := by
  unfold blockProblem at h
  dsimp only at h
  split at h
  · cases h
  rename_i hterm
  split at h
  · cases h
  rename_i hfind
  split at h
  · cases h
  split at h
  · cases h
  refine ⟨fun hinv => hterm (by simp [hinv]), fun s hs => ?_, fun vs hvs => ?_⟩
  · have := List.find?_eq_none.mp hfind s hs
    simpa using this
  · rw [hvs] at h
    dsimp only at h
    split at h
    · cases h
    · rename_i hlen
      simpa using hlen

theorem Function.checked_of_verify {f : Function} (h : f.verify = .ok ()) : f.Checked := by
  unfold verify at h
  split at h
  · cases h
  rename_i hentry
  dsimp only at h
  split at h
  · cases h
  rename_i hnone
  refine ⟨by simpa using hentry, fun id blk hblk => ?_⟩
  have hmem := OrderedMap.mem_toList_of_get? _ hblk
  exact blockChecked_of_problem (List.findSome?_eq_none_iff.mp hnone (id, blk) hmem)

theorem Contract.callFits_of_problem {c : Contract} {f : Function} (h : c.callProblem f = none) :
    ∀ i ∈ f.instrs, c.CallFits i := by
  intro i hi
  have hi' := List.findSome?_eq_none_iff.mp h i hi
  cases i with
  | call rs g args =>
    dsimp only at hi'
    split at hi'
    · cases hi'
    · rename_i G hG
      split at hi'
      · cases hi'
      · rename_i hfit
        simp only [Bool.or_eq_true, bne_iff_ne, ne_eq, not_or, Decidable.not_not] at hfit
        exact ⟨G, hG, hfit.1, hfit.2⟩
  | _ => trivial

theorem Contract.checked_of_verify {c : Contract} (h : c.verify = .ok ()) : c.Checked := by
  have hall : ∀ f ∈ c.functions.values, f.verify = .ok () ∧ c.callProblem f = none := by
    unfold verify at h
    generalize c.functions.values = fs at h
    induction fs with
    | nil => simp
    | cons f fs ih =>
      simp only [List.forM] at h
      cases hv : f.verify with
      | error e => rw [hv] at h; cases h
      | ok u =>
        rw [hv] at h
        cases hp : c.callProblem f with
        | some m => rw [hp] at h; cases h
        | none =>
          rw [hp] at h
          intro g hg
          rcases List.mem_cons.mp hg with rfl | hg
          · exact ⟨hv, hp⟩
          · exact ih h g hg
  exact ⟨fun f hf => Function.checked_of_verify (hall f hf).1,
    fun f hf => callFits_of_problem (hall f hf).2⟩

end ContractCfg.IR

namespace ContractCfg.Machine

open ContractCfg.IR Residually

theorem residually_tick (vm : Vm) : Residually (fun vm' => vm'.contract = vm.contract) vm.tick := by
  unfold Vm.tick
  split
  · exact error (.stepLimit _)
  · exact ok rfl

theorem length_of_readAll {ls : Locals} {vs : List Value} {xs : List Int} (h : ls.readAll vs = .ok xs) :
    xs.length = vs.length := by
  unfold Locals.readAll at h
  induction vs generalizing xs with
  | nil =>
    cases h
    rfl
  | cons v vs ih =>
    rw [List.mapM_cons] at h
    cases hv : ls.read v with
    | error e =>
      rw [hv] at h
      cases h
    | ok a =>
      cases hr : vs.mapM ls.read with
      | error e =>
        rw [hv, hr] at h
        cases h
      | ok as =>
        rw [hv, hr] at h
        cases h
        simp [ih hr]

theorem tame_storeResults (ls : Locals) (callee : String) {results : List Value} {values : List Int}
    (h : values.length = results.length) : Tame (Vm.storeResults ls callee results values) := by
  unfold Vm.storeResults
  rw [if_neg (by simp [h])]
  exact Residually.foldlM (fun ls (p : Value × Int) => tame_write ls p.1 p.2) ls

theorem mem_values_of_get? {m : OrderedMap String Function} {k : String} {v : Function}
    (h : m.get? k = some v) : v ∈ m.values :=
  List.mem_map.mpr ⟨(k, v), OrderedMap.mem_toList_of_get? m h, rfl⟩

theorem mem_instrs_of_block {f : Function} {id : Nat} {blk : Block} (hb : f.body.blocks.get? id = some blk)
    {i : Instr} (hi : i ∈ blk.instrs.toList) : i ∈ f.instrs :=
  List.mem_flatMap.mpr ⟨blk, List.mem_map.mpr ⟨(id, blk), OrderedMap.mem_toList_of_get? _ hb, rfl⟩, hi⟩

section Runs

variable {c : Contract}

/-- How a run of a function declaring `n` results ends on contract `c`: on the same contract,
with `n` values when it returns. -/
def Lands (c : Contract) (n : Nat) (p : Outcome × Vm) : Prop :=
  p.2.contract = c ∧ ∀ vs, p.1 = .ret vs → vs.length = n

/-- How a run of instructions ends on contract `c`: it goes on with the same contract, or it
stops there with an outcome that is not a return. -/
def FlowLands (c : Contract) : Vm.Flow → Prop
  | .done o vm => vm.contract = c ∧ o.isReturn = false
  | .next vm _ => vm.contract = c

/-- Every run of a function of `c` with `fuel` lands. -/
def RunsLand (c : Contract) (fuel : Nat) : Prop :=
  ∀ (vm : Vm) (name : String) (args : List Int) (F : Function), vm.contract = c → c.function? name = some F →
    args.length = F.sig.params.length → Residually (Lands c F.sig.returns.length) (vm.run name args fuel)

/-- Every run of a function of `c` from one of its blocks with `fuel` lands. -/
def BlocksLand (c : Contract) (fuel : Nat) : Prop :=
  ∀ (name : String) (F : Function) (vm : Vm) (ls : Locals) (id : Nat), F ∈ c.functions.values →
    vm.contract = c → F.body.blocks.contains id = true →
    Residually (Lands c F.sig.returns.length) (Vm.runBlock name F vm ls id fuel)

theorem residually_runInstrs {fuel : Nat} (hr : RunsLand c fuel) (is : List Instr) :
    ∀ vm ls, vm.contract = c → (∀ i ∈ is, c.CallFits i) →
      Residually (FlowLands c) (Vm.runInstrs is vm ls fuel) := by
  induction is with
  | nil =>
    intro vm ls hvm _
    rw [Vm.runInstrs]
    exact ok hvm
  | cons i is ih =>
    intro vm ls hvm hcalls
    have htick := residually_tick vm
    cases ht : vm.tick with
    | error e =>
      rw [Vm.runInstrs, ht]
      exact error (htick.fault ht)
    | ok vm₁ =>
      have hvm₁ : vm₁.contract = c := (htick.value ht).trans hvm
      have hrest : ∀ i ∈ is, c.CallFits i := fun j hj => hcalls j (List.mem_cons_of_mem i hj)
      by_cases hcall : ∃ rs g args, i = .call rs g args
      · obtain ⟨rs, g, args, rfl⟩ := hcall
        obtain ⟨G, hG, hparams, hrets⟩ := hcalls _ (List.mem_cons_self ..)
        rw [Vm.runInstrs, ht]
        dsimp only
        cases hxs : ls.readAll args with
        | error e => exact error ((tame_readAll ls args).fault hxs)
        | ok xs =>
          dsimp only
          have hrun := hr vm₁ g xs G hvm₁ hG (by rw [length_of_readAll hxs, hparams])
          cases hres : vm₁.run g xs fuel with
          | error e => exact error (hrun.fault hres)
          | ok p =>
            obtain ⟨o, vm₂⟩ := p
            obtain ⟨hvm₂, hlen⟩ := hrun.value hres
            cases o with
            | ret values =>
              dsimp only
              have hstore := tame_storeResults ls g ((hlen values rfl).trans hrets)
              cases hs : Vm.storeResults ls g rs values with
              | error e => exact error (hstore.fault hs)
              | ok ls₂ => exact ih vm₂ ls₂ hvm₂ hrest
            | revert s => exact ok ⟨hvm₂, rfl⟩
            | abort => exact ok ⟨hvm₂, rfl⟩
      · have hi : Vm.Plain i := fun rs g as h => hcall ⟨rs, g, as, h⟩
        have hstep := residually_step vm₁ ls i
        cases hs : vm₁.step ls i with
        | error e =>
          rw [Vm.runInstrs_cons_fault hi ht hs]
          exact error (hstep.fault hs)
        | ok p =>
          obtain ⟨vm₂, ls₂⟩ := p
          rw [Vm.runInstrs_cons_plain hi ht hs]
          exact ih vm₂ ls₂ ((hstep.value hs).trans hvm₁) hrest

theorem blocksLand_succ (hc : c.Checked) {fuel : Nat} (hr : RunsLand c fuel) (hb : BlocksLand c fuel) :
    BlocksLand c (fuel + 1) := by
  intro name F vm ls id hF hvm hid
  obtain ⟨blk, hblk⟩ := Option.isSome_iff_exists.mp ((OrderedMap.contains_eq _ _).symm.trans hid)
  have hchk := (hc.functions F hF).blocks id blk hblk
  have hinstrs := residually_runInstrs hr blk.instrs.toList vm ls hvm fun i hi =>
    hc.calls F hF i (mem_instrs_of_block hblk hi)
  rw [Vm.runBlock_succ]
  unfold Vm.resume
  simp only [hblk, List.drop_zero]
  cases hrun : Vm.runInstrs blk.instrs.toList vm ls fuel with
  | error e => exact error (hinstrs.fault hrun)
  | ok flow =>
    have hflow := hinstrs.value hrun
    cases flow with
    | done o vm₁ =>
      refine ok ⟨hflow.1, fun vs hvs => ?_⟩
      have := hflow.2
      rw [show o = .ret vs from hvs] at this
      cases this
    | next vm₁ ls₁ =>
      dsimp only
      have htick := residually_tick vm₁
      cases ht : vm₁.tick with
      | error e => exact error (htick.fault ht)
      | ok vm₂ =>
        have hvm₂ : vm₂.contract = c := (htick.value ht).trans hflow
        dsimp only
        cases hterm : blk.term with
        | jump t => exact hb name F vm₂ ls₁ t hF hvm₂ (hchk.successors t (by simp [hterm, Terminator.successors]))
        | branch cnd t e =>
          dsimp only
          cases hv : ls₁.read cnd with
          | error err => exact error ((tame_read ls₁ cnd).fault hv)
          | ok v =>
            dsimp only
            refine hb name F vm₂ ls₁ _ hF hvm₂ (hchk.successors _ ?_)
            split <;> simp [hterm, Terminator.successors]
        | ret vs =>
          dsimp only
          cases hxs : ls₁.readAll vs with
          | error err => exact error ((tame_readAll ls₁ vs).fault hxs)
          | ok xs =>
            refine ok ⟨hvm₂, fun ys hys => ?_⟩
            cases hys
            rw [length_of_readAll hxs, hchk.returns vs hterm]
        | revert st =>
          dsimp only
          cases hx : ls₁.read st with
          | error err => exact error ((tame_read ls₁ st).fault hx)
          | ok x => exact ok ⟨hvm₂, fun _ h => by cases h⟩
        | abort => exact ok ⟨hvm₂, fun _ h => by cases h⟩
        | invalid => exact absurd hterm hchk.terminated

theorem runsLand_succ (hc : c.Checked) {fuel : Nat} (hb : BlocksLand c fuel) : RunsLand c (fuel + 1) := by
  intro vm name args F hvm hF ha
  rw [Vm.run, hvm]
  simp only [hF]
  rw [if_neg (by simp [ha])]
  have hmem := mem_values_of_get? hF
  exact hb name F vm _ F.body.entry hmem hvm (hc.functions F hmem).entry

theorem runs_land (hc : c.Checked) : ∀ fuel, RunsLand c fuel ∧ BlocksLand c fuel
  | 0 => ⟨fun _ _ _ _ _ _ _ => by rw [Vm.run]; exact error (.stepLimit _),
      fun _ _ _ _ _ _ _ _ => by rw [Vm.runBlock]; exact error (.stepLimit _)⟩
  | fuel + 1 =>
    have h := runs_land hc fuel
    ⟨runsLand_succ hc h.2, blocksLand_succ hc h.1 h.2⟩

end Runs

/-- A top-level call of a function of a contract that passed the verifier, with as many
arguments as the function takes, fails only residually: never on a missing block, callee or
argument, an unterminated block, or a callee returning the wrong number of values. When it
returns, it returns as many values as the function declares. -/
theorem call_fails_residually {c : Contract} (hv : c.verify = .ok ()) {vm : Vm} (hvm : vm.contract = c)
    {name : String} {F : Function} (hF : c.function? name = some F) {args : List Int}
    (ha : args.length = F.sig.params.length) :
    Residually (fun o => ∀ vs, o = .ret vs → vs.length = F.sig.returns.length) (vm.call name args).1 := by
  have hrun := (runs_land (Contract.checked_of_verify hv) (2 * vm.maxSteps + 3)).1
    { vm with state := vm.state.clearMemory, steps := 0 } name args F hvm hF ha
  unfold Vm.call
  dsimp only
  split
  · rename_i h
    exact ok (hrun.value h).2
  · rename_i _ h
    exact ok (hrun.value h).2
  · rename_i h
    exact error (hrun.fault h)

/-- The one block of `shortBuiltinCall`: `addmod` with no arguments, then a return of nothing. -/
def shortBuiltinEntry : Block where
  id := 0
  label := "entry"
  instrs := #[.builtin [.reg "0"] .addMod []]
  term := .ret []

/-- A function `f` whose one block calls `addmod` with no arguments. -/
def shortBuiltinCall : Function where
  sig := { name := "f" }
  visibility := .pub
  body := { blocks := ⟨#[(0, shortBuiltinEntry)]⟩ }

/-- The contract of `shortBuiltinCall` alone. -/
def shortBuiltin : Contract where
  name := "K"
  functions := ⟨#[("f", shortBuiltinCall)]⟩

theorem shortBuiltin_verify : shortBuiltin.verify = .ok () := by
  simp [Contract.verify, shortBuiltin, OrderedMap.values, Function.verify, OrderedMap.contains,
    shortBuiltinCall, OrderedMap.toList]
  rfl

theorem shortBuiltin_function : shortBuiltin.function? "f" = some shortBuiltinCall := by
  simp [Contract.function?, shortBuiltin, OrderedMap.get?]

theorem shortBuiltin_call :
    (({ contract := shortBuiltin } : Vm).call "f" []).1 = .error (.runtime "addmod is missing argument 0") := by
  unfold Vm.call
  dsimp only
  rw [show 2 * 1000000 + 3 = 2000002 + 1 from rfl, Vm.run]
  simp [shortBuiltin_function, shortBuiltinCall]
  rw [show 2000002 = 2000001 + 1 from rfl, Vm.runBlock_succ]
  simp [Vm.resume, OrderedMap.get?, shortBuiltinEntry, Vm.runInstrs, Vm.tick, Vm.step, Vm.builtin,
    Locals.readAll, Bind.bind, Except.bind, Builtin.name, pure, Except.pure]
  rfl

/-- `shortBuiltin` passes the verifier, and its call fails residually. -/
theorem shortBuiltin_fails_residually :
    shortBuiltin.verify = .ok () ∧ shortBuiltin.function? "f" = some shortBuiltinCall ∧
      Residually (fun o => ∀ vs, o = .ret vs → vs.length = shortBuiltinCall.sig.returns.length)
        (({ contract := shortBuiltin } : Vm).call "f" []).1 :=
  ⟨shortBuiltin_verify, shortBuiltin_function,
    call_fails_residually shortBuiltin_verify rfl shortBuiltin_function rfl⟩

/-- The verifier does not look at the arguments of a builtin: it accepts `shortBuiltin`, whose
call then fails on the missing argument of `addmod`, a fault that depends on no data. -/
theorem verify_admits_short_builtin :
    shortBuiltin.verify = .ok () ∧
      (({ contract := shortBuiltin } : Vm).call "f" []).1 = .error (.runtime "addmod is missing argument 0") ∧
      ¬ (Fault.runtime "addmod is missing argument 0").DataDependent := by
  refine ⟨shortBuiltin_verify, shortBuiltin_call, fun h => ?_⟩
  -- every data-dependent message starts otherwise than `ad`
  generalize hm : Fault.runtime "addmod is missing argument 0" = e at h
  cases h <;> simp only [Fault.runtime.injEq, unknownStruct] at hm <;>
    · have := congrArg (fun s => s.toList.take 2) hm
      simp at this

end ContractCfg.Machine
