import ContractCfg.Proofs.Stretch.Crossing
import ContractCfg.Proofs.Region.Steps
import ContractCfg.Proofs.Balance.Moves

/-!
Lowering steps as stretches of code. A lowering state is poised when block ids stay below the
counter, the current block is open and every shared failure block is quiet (empty, and closed by
a terminator that leaves the function). A step of lowering builds when, run from a poised state,
it ends in a poised state that extends the first one (the builder grows, name counters rise,
every variable keeps its register) and the code it appends is one stretch that writes no
register but the temporaries and names it hands out and the registers of variables
(`Builds`). Building steps compose, and the primitives of the monad build.
-/

namespace ContractCfg.IR

theorem Terminator.leaves_of_successors {t : Terminator} (ht : t ≠ .invalid) (hs : t.successors = []) :
    t.Leaves := by
  cases t <;> simp_all [Terminator.successors, Terminator.Leaves]

theorem Terminator.Leaves.ne_invalid {t : Terminator} (h : t.Leaves) : t ≠ .invalid := by
  rcases h with rfl | ⟨_, rfl⟩ | ⟨_, rfl⟩ <;> simp

namespace FnBuilder

variable {b b' : FnBuilder} {a : Nat}

theorem Quiet.leaves (hq : b.Quiet a) : ∃ blk, b.block? a = some blk ∧ blk.Leaves := by
  obtain ⟨blk, hb, ht, hs, hi⟩ := hq
  exact ⟨blk, hb, hi, Terminator.leaves_of_successors ht hs⟩

theorem Quiet.of_grows (hq : b.Quiet a) (hb : b.Below) (ho : b.IsOpen) (hg : b.Grows b.fn.body.nextId b') :
    b'.Quiet a := by
  obtain ⟨blk, hblk, ht, hs, hi⟩ := hq
  obtain ⟨cur, hcur, hopen⟩ := ho
  have hne : a ≠ b.current := by
    rintro rfl
    rw [hcur] at hblk
    cases hblk
    exact ht hopen
  exact ⟨blk, by rw [hg.others a (hb a (by simp [hblk])) hne, hblk], ht, hs, hi⟩

theorem mem_newTemps {n : Nat} {v : Value} (hv : v ∈ (b.newTemps n).1) :
    ∃ j, b.nextTemp ≤ j ∧ j < b.nextTemp + n ∧ v = .reg (toString j) := by
  induction n generalizing b with
  | zero => cases hv
  | succ n ih =>
    change v ∈ .reg (toString b.nextTemp) :: (b.newTemp.2.newTemps n).1 at hv
    rcases List.mem_cons.mp hv with rfl | hv
    · exact ⟨b.nextTemp, Nat.le_refl _, by omega, rfl⟩
    · obtain ⟨j, hj, hj', rfl⟩ := ih hv
      simp only [newTemp_nextTemp] at hj hj'
      exact ⟨j, by omega, by omega, rfl⟩

end FnBuilder

end ContractCfg.IR

namespace ContractCfg.Lower

open ContractCfg.IR ContractCfg.IR.FnBuilder ContractCfg.Machine ContractCfg.Machine.Vm

theorem NamesOK.insert {c : FnState} (hc : NamesOK c) {b : String} (hb : GoodBase b) :
    NamesOK { c with names := c.names.insert b (c.names.getD b 0 + 1) } := by
  intro b' hb'
  simp only [Std.HashMap.getD_insert] at hb'
  split at hb'
  · next he => exact beq_iff_eq.mp he ▸ hb
  · exact hc b' hb'

/-- A function state poised for more code: block ids below the counter, the current block open,
and every shared failure block quiet. -/
structure Poised (c : FnState) : Prop where
  below : c.builder.Below
  isOpen : c.builder.IsOpen
  shared : ∀ a ∈ c.shared, c.builder.Quiet a
  names : NamesOK c

/-- From `c` to `c'` registers were only handed out: the temporaries counter and every name
counter rose, and every variable kept its register. -/
structure Counts (c c' : FnState) : Prop where
  temps : c.builder.nextTemp ≤ c'.builder.nextTemp
  names : ∀ b, c.names.getD b 0 ≤ c'.names.getD b 0
  lookup : ∀ v, c'.lookup v = c.lookup v

/-- What lowering an expression does to the function state besides appending code: the builder
grows from the blocks it had, name counters only rise, and every variable keeps its register. -/
structure Extends (c c' : FnState) : Prop where
  builder : c.builder.Grows c.builder.fn.body.nextId c'.builder
  names : ∀ b, c.names.getD b 0 ≤ c'.names.getD b 0
  lookup : ∀ v, c'.lookup v = c.lookup v

/-- The registers handed out between `c` and `c'`: the temporaries numbered from the counter of
`c` on, and the names counted from the counters of `c` on. -/
def HandedBetween (c c' : FnState) (x : String) : Prop :=
  (∃ j, c.builder.nextTemp ≤ j ∧ j < c'.builder.nextTemp ∧ x = toString j) ∨
  ∃ b i, c.names.getD b 0 ≤ i ∧ i < c'.names.getD b 0 ∧ x = regName b i

/-- The registers the code between `c` and `c'` may write: those it hands out and those of the
variables. -/
def MayWrite (c c' : FnState) (x : String) : Prop :=
  HandedBetween c c' x ∨ ∃ v, c.lookup v = some (.reg x)

/-- A value the code between `c` and `c'` computed: a constant, or a register handed out in
between. -/
def FreshIn (c c' : FnState) (v : Value) : Prop := ∀ y, v = .reg y → HandedBetween c c' y

/-- Every run of the code between `c` and `c'` gets to the same place in every final function,
and writes no register outside `W`. -/
def Spans (W : String → Prop) (c c' : FnState) : Prop :=
  ∀ vm ls fuel, ∃ x, Crosses c.builder c'.builder vm ls fuel x ∧ x.Keeps W ls

/-- The code lowered from `c` to `c'`: the state extends, and the code is a stretch writing only
registers it may write. -/
structure Stretch (c c' : FnState) : Prop where
  grows : Extends c c'
  spans : Spans (MayWrite c c') c c'

/-- Lowering code that, run from a poised function state satisfying `P`, ends poised after a
stretch and with a result satisfying `Q`. -/
def Builds {α : Type} (P : FnState → Prop) (m : Gen α) (Q : FnState → α → FnState → Prop) : Prop :=
  ∀ env s a s', Poised s.fn → P s.fn → m env s = .ok (a, s') →
    Poised s'.fn ∧ Stretch s.fn s'.fn ∧ Q s.fn a s'.fn

variable {c c₁ c₂ c' : FnState}

namespace Extends

theorem refl (c : FnState) : Extends c c := ⟨Grows.refl _ _, fun _ => Nat.le_refl _, fun _ => rfl⟩

theorem trans (h₁ : Extends c c₁) (h₂ : Extends c₁ c₂) : Extends c c₂ :=
  ⟨h₁.builder.trans (h₂.builder.mono h₁.builder.nextId), fun b => (h₁.names b).trans (h₂.names b),
    fun v => (h₂.lookup v).trans (h₁.lookup v)⟩

theorem temps (h : Extends c c₁) : c.builder.nextTemp ≤ c₁.builder.nextTemp := h.builder.nextTemp

theorem counts (h : Extends c c₁) : Counts c c₁ := ⟨h.temps, h.names, h.lookup⟩

theorem of_builder {b : FnBuilder} (hg : c.builder.Grows c.builder.fn.body.nextId b) :
    Extends c { c with builder := b } :=
  ⟨hg, fun _ => Nat.le_refl _, fun _ => rfl⟩

theorem fresh (b : String) :
    Extends c { c with names := c.names.insert b (c.names.getD b 0 + 1) } :=
  ⟨Grows.refl _ _, fun _ => count_le_insert _ _ _, fun _ => rfl⟩

end Extends

namespace Counts

theorem refl (c : FnState) : Counts c c := ⟨Nat.le_refl _, fun _ => Nat.le_refl _, fun _ => rfl⟩

theorem trans (h₁ : Counts c c₁) (h₂ : Counts c₁ c₂) : Counts c c₂ :=
  ⟨h₁.temps.trans h₂.temps, fun b => (h₁.names b).trans (h₂.names b), fun v =>
      (h₂.lookup v).trans (h₁.lookup v)⟩

theorem of_builder {b : FnBuilder} (h : c.builder.nextTemp ≤ b.nextTemp) : Counts c { c with builder := b } :=
  ⟨h, fun _ => Nat.le_refl _, fun _ => rfl⟩

end Counts

namespace HandedBetween

variable {x : String}

theorem left (h : HandedBetween c₁ c₂ x) (he : Counts c c₁) : HandedBetween c c₂ x := by
  rcases h with ⟨j, hj, hj', rfl⟩ | ⟨b, i, hi, hi', rfl⟩
  · exact .inl ⟨j, he.temps.trans hj, hj', rfl⟩
  · exact .inr ⟨b, i, (he.names b).trans hi, hi', rfl⟩

theorem right (h : HandedBetween c c₁ x) (he : Counts c₁ c₂) : HandedBetween c c₂ x := by
  rcases h with ⟨j, hj, hj', rfl⟩ | ⟨b, i, hi, hi', rfl⟩
  · exact .inl ⟨j, hj, Nat.lt_of_lt_of_le hj' he.temps, rfl⟩
  · exact .inr ⟨b, i, hi, Nat.lt_of_lt_of_le hi' (he.names b), rfl⟩

theorem temp (h : c.builder.nextTemp < c'.builder.nextTemp) :
    HandedBetween c c' (toString c.builder.nextTemp) :=
  .inl ⟨_, Nat.le_refl _, h, rfl⟩

theorem name {b : String} (h : c.names.getD b 0 < c'.names.getD b 0) :
    HandedBetween c c' (regName b (c.names.getD b 0)) :=
  .inr ⟨b, _, Nat.le_refl _, h, rfl⟩

end HandedBetween

namespace FreshIn

variable {v : Value}

theorem left (h : FreshIn c₁ c₂ v) (he : Counts c c₁) : FreshIn c c₂ v :=
  fun y hy => (h y hy).left he

theorem right (h : FreshIn c c₁ v) (he : Counts c₁ c₂) : FreshIn c c₂ v :=
  fun y hy => (h y hy).right he

theorem const (k : Constant) : FreshIn c c' (.const k) := fun _ h => by cases h

end FreshIn

namespace MayWrite

variable {x : String}

theorem left (h : MayWrite c₁ c₂ x) (he : Counts c c₁) : MayWrite c c₂ x := by
  rcases h with h | ⟨v, hv⟩
  · exact .inl (h.left he)
  · exact .inr ⟨v, by rw [← he.lookup v]; exact hv⟩

theorem right (h : MayWrite c c₁ x) (he : Counts c₁ c₂) : MayWrite c c₂ x := by
  rcases h with h | hv
  · exact .inl (h.right he)
  · exact .inr hv

end MayWrite

theorem Poised.completes (hp : Poised c) (he : Extends c c') {f : Function}
    (hc : Completes f c'.builder) : Completes f c.builder :=
  Completes.of_grows hp.below hp.isOpen he.builder hc

theorem Poised.step (hp : Poised c) (he : Extends c c') (hb : c'.builder.Below) (ho : c'.builder.IsOpen)
    (hn : NamesOK c') (hsh : ∀ a ∈ c'.shared, a ∈ c.shared ∨ c'.builder.Quiet a) : Poised c' := by
  refine ⟨hb, ho, fun a ha => ?_, hn⟩
  rcases hsh a ha with ha | hq
  · exact (hp.shared a ha).of_grows hp.below hp.isOpen he.builder
  · exact hq

namespace Spans

variable {W W' : String → Prop}

theorem mono (h : Spans W c c') (hW : ∀ y, W y → W' y) : Spans W' c c' := by
  intro vm ls fuel
  obtain ⟨x, hx, hk⟩ := h vm ls fuel
  exact ⟨x, hx, hk.mono hW⟩

theorem stay (hc : c'.builder.current = c.builder.current) (hp : c'.builder.pos = c.builder.pos) :
    Spans W c c' :=
  fun vm ls fuel => ⟨_, Crosses.stay hc hp, Exit.keeps_reach W vm ls fuel⟩

theorem of_builder (h : c'.builder = c.builder) : Spans W c c' := Spans.stay (by rw [h]) (by rw [h])

theorem trans (h₁ : Spans W c c₁) (hc : ∀ f, Completes f c₂.builder → Completes f c₁.builder)
    (h₂ : Spans W c₁ c₂) : Spans W c c₂ := by
  intro vm ls fuel
  obtain ⟨x, hx, hk⟩ := h₁ vm ls fuel
  -- the second stretch from wherever the first one ends
  let g : Vm → Locals → Nat → Exit := fun vm₁ ls₁ fuel₁ => Classical.choose (h₂ vm₁ ls₁ fuel₁)
  have hg : ∀ vm₁ ls₁ fuel₁, Crosses c₁.builder c₂.builder vm₁ ls₁ fuel₁ (g vm₁ ls₁ fuel₁) ∧
      (g vm₁ ls₁ fuel₁).Keeps W ls₁ :=
    fun vm₁ ls₁ fuel₁ => Classical.choose_spec (h₂ vm₁ ls₁ fuel₁)
  exact ⟨x.bind g, hx.trans hc fun vm₁ ls₁ fuel₁ _ => (hg vm₁ ls₁ fuel₁).1,
    hk.bind fun vm₁ ls₁ fuel₁ _ => (hg vm₁ ls₁ fuel₁).2⟩

theorem trans_stop (h₁ : ∀ vm ls fuel, ∃ r, Crosses c.builder c₁.builder vm ls fuel (.stop r))
    (hc : ∀ f, Completes f c₂.builder → Completes f c₁.builder) : Spans W c c₂ := by
  intro vm ls fuel
  obtain ⟨r, hr⟩ := h₁ vm ls fuel
  exact ⟨_, hr.trans (g := fun _ _ _ => .stop r) hc fun _ _ _ h => Exit.noConfusion h, trivial⟩

end Spans

namespace Stretch

theorem counts (h : Stretch c c') : Counts c c' := h.grows.counts

theorem refl (c : FnState) : Stretch c c := ⟨Extends.refl c, Spans.stay rfl rfl⟩

theorem trans (h₁ : Stretch c c₁) (hp : Poised c₁) (h₂ : Stretch c₁ c₂) : Stretch c c₂ :=
  ⟨h₁.grows.trans h₂.grows,
    (h₁.spans.mono fun _ hy => hy.right h₂.counts).trans (fun _ => hp.completes h₂.grows)
      (h₂.spans.mono fun _ hy => hy.left h₁.counts)⟩

end Stretch

namespace Builds

variable {α β : Type} {P P' : FnState → Prop} {Q Q' : FnState → α → FnState → Prop}

theorem mono {m : Gen α} (h : Builds P m Q) (hP : ∀ c, P' c → P c)
    (hQ : ∀ c a c', P' c → Stretch c c' → Q c a c' → Q' c a c') : Builds P' m Q' := by
  intro env s a s' hp hP' hrun
  obtain ⟨hp', hst, hq⟩ := h env s a s' hp (hP _ hP') hrun
  exact ⟨hp', hst, hQ _ a _ hP' hst hq⟩

theorem pure {a : α} (hQ : ∀ c, P c → Q c a c) : Builds P (Pure.pure a : Gen α) Q := by
  intro env s b s' hp hP hrun
  cases hrun
  exact ⟨hp, Stretch.refl _, hQ _ hP⟩

theorem bind {x : Gen α} {f : α → Gen β} (hx : Builds P x Q) {S : α → FnState → Prop}
    {T : α → FnState → β → FnState → Prop} (hf : ∀ a, Builds (S a) (f a) (T a))
    {R : FnState → β → FnState → Prop}
    (hpre : ∀ c a c₁, P c → Stretch c c₁ → Q c a c₁ → S a c₁)
    (hpost : ∀ c a c₁ b c', P c → Stretch c c₁ → Q c a c₁ → Stretch c₁ c' → T a c₁ b c' → R c b c') :
    Builds P (x >>= f) R := by
  intro env s b s' hp hP hrun
  obtain ⟨a, s₁, h₁, h₂⟩ := Gen.bind_ok hrun
  obtain ⟨hp₁, hst₁, hq₁⟩ := hx env s a s₁ hp hP h₁
  obtain ⟨hp', hst₂, hq₂⟩ := hf a env s₁ b s' hp₁ (hpre _ a _ hP hst₁ hq₁) h₂
  exact ⟨hp', hst₁.trans hp₁ hst₂, hpost _ a _ b _ hP hst₁ hq₁ hst₂ hq₂⟩

theorem seq {x : Gen α} {f : α → Gen β} (hx : Builds P x fun _ _ _ => True)
    (hf : ∀ a, Builds (fun _ => True) (f a) fun _ _ _ => True) :
    Builds P (x >>= f) fun _ _ _ => True :=
  hx.bind hf (fun _ _ _ _ _ _ => trivial) fun _ _ _ _ _ _ _ _ _ _ => trivial

theorem throw {e : LowerError} : Builds P (MonadExcept.throw e : Gen α) Q := by
  intro env s a s' _ _ hrun
  cases hrun

theorem ite {p : Prop} {h : Decidable p} {x y : Gen α} (hx : p → Builds P x Q) (hy : ¬ p → Builds P y Q) :
    Builds P (if p then x else y) Q := by
  by_cases hc : p
  · rw [if_pos hc]; exact hx hc
  · rw [if_neg hc]; exact hy hc

theorem of_fnFixed {m : Gen α} (h : FnFixed m) (hQ : ∀ c a, P c → Q c a c) : Builds P m Q := by
  intro env s a s' hp hP hrun
  have hfn : s'.fn = s.fn := by
    have := h s.fn env s rfl
    rw [hrun] at this
    exact this
  rw [hfn]
  exact ⟨hp, Stretch.refl _, hQ _ a hP⟩

end Builds

theorem FnState.mem_shared {c : FnState} {a : Nat} :
    a ∈ c.shared ↔ c.revertBlock = some a ∨ (∃ x, c.statusRevert = some (a, x)) ∨
    c.assertFailBlock = some a := by
  simp [FnState.shared]

theorem Crosses.of_point {b b' b₂ : FnBuilder} {vm : Vm} {ls : Locals} {fuel : Nat} {x : Exit}
    (h : Crosses b' b₂ vm ls fuel x) (hc : b'.current = b.current) (hp : b'.pos = b.pos) :
    Crosses b b₂ vm ls fuel x := by
  intro name f hf
  rw [← hc, ← hp]
  exact h name f hf

theorem pos_createBlock {b : FnBuilder} (hb : b.Below) (ho : b.IsOpen) (label : String) :
    (b.createBlock label).2.pos = b.pos := by
  obtain ⟨blk, hcur, -⟩ := ho
  rw [pos_eq (block?_createBlock_current hb hcur), pos_eq hcur]

theorem pos_addClosed {b : FnBuilder} (hb : b.Below) (ho : b.IsOpen) (label : String) (t : Terminator) :
    (b.addClosed label t).pos = b.pos := by
  obtain ⟨blk, hcur, -⟩ := ho
  have hlt := hb.current_lt hcur
  have hcur' : (b.addClosed label t).block? (b.addClosed label t).current = some blk := by
    rw [addClosed_current, block?_addClosed, if_neg (by omega), hcur]
  rw [pos_eq hcur', pos_eq hcur]

namespace Gen

variable {env : Env} {s s' : GenState}

theorem emitUnit_stretch {i : Instr} {u : Unit} (hp : Poised s.fn) (h : emitUnit i env s = .ok (u, s')) :
    s' = s.withBuilder (s.fn.builder.push i) ∧ Poised s'.fn ∧ Extends s.fn s'.fn ∧
      Spans (fun y => Value.reg y ∈ i.results) s.fn s'.fn := by
  rw [emitUnit_run i hp.isOpen] at h
  cases h
  obtain ⟨blk, hb, -⟩ := hp.isOpen
  have he : Extends s.fn { s.fn with builder := s.fn.builder.push i } := Extends.of_builder (grows_push i)
  exact ⟨rfl, hp.step he (hp.below.push i) (hp.isOpen.push i) hp.names fun a ha => .inl ha, he,
    fun vm ls fuel => ⟨_, Crosses.push hb i, Exit.instr_keeps vm ls fuel i⟩⟩

theorem builds_emitUnit (i : Instr) :
    Builds (fun c => ∀ y, Value.reg y ∈ i.results → ∃ v, c.lookup v = some (.reg y)) (emitUnit i)
      fun _ _ _ => True := by
  intro env s u s' hp hP h
  obtain ⟨-, hp', he, hsp⟩ := emitUnit_stretch hp h
  exact ⟨hp', ⟨he, hsp.mono fun y hy => .inr (hP y hy)⟩, trivial⟩

theorem emit_stretch {mk : Value → Instr} {v : Value} (hp : Poised s.fn) (h : emit mk env s = .ok (v, s')) :
    Poised s'.fn ∧ Extends s.fn s'.fn ∧ FreshIn s.fn s'.fn v ∧
      ∀ vm ls fuel, Crosses s.fn.builder s'.fn.builder vm ls fuel (Exit.instr vm ls fuel (mk v)) := by
  rw [emit_run mk hp.isOpen, emit_eq] at h
  cases h
  obtain ⟨blk, hb, -⟩ := hp.isOpen
  have he : Extends s.fn
      { s.fn with builder := s.fn.builder.newTemp.2.push (mk (.reg (toString s.fn.builder.nextTemp))) } :=
    Extends.of_builder (grows_newTemp.trans (grows_push _))
  refine ⟨hp.step he (hp.below.push _) (hp.isOpen.push _) hp.names fun a ha => .inl ha, he, fun y hy => ?_,
    fun vm ls fuel => Crosses.push (b := s.fn.builder.newTemp.2) hb _⟩
  rw [Value.reg.injEq] at hy
  subst hy
  exact HandedBetween.temp (Nat.lt_succ_self _)

theorem builds_emit (mk : Value → Instr) (hmk : ∀ v, (mk v).results = [v]) :
    Builds (fun _ => True) (emit mk) fun c v c' => FreshIn c c' v := by
  intro env s v s' hp _ h
  obtain ⟨hp', he, hv, hx⟩ := emit_stretch hp h
  refine ⟨hp', ⟨he, fun vm ls fuel => ⟨_, hx vm ls fuel,
      (Exit.instr_keeps vm ls fuel _).mono fun y hy => ?_⟩⟩, hv⟩
  rw [hmk, List.mem_singleton] at hy
  exact .inl (hv y hy.symm)

theorem emitMany_stretch {n : Nat} {mk : List Value → Instr} {rs : List Value} (hp : Poised s.fn)
    (h : emitMany n mk env s = .ok (rs, s')) :
    Poised s'.fn ∧ Extends s.fn s'.fn ∧ (∀ v ∈ rs, FreshIn s.fn s'.fn v) ∧
      ∀ vm ls fuel, Crosses s.fn.builder s'.fn.builder vm ls fuel (Exit.instr vm ls fuel (mk rs)) := by
  unfold emitMany at h
  rw [bind_run_ok (checkOpen_run hp.isOpen), bind_run_ok (withBuilder_run _ env s)] at h
  obtain ⟨hfn, hcur⟩ := Gen.newTemps_fn s.fn.builder n
  set b₁ := (s.fn.builder.newTemps n).2 with hb₁
  obtain ⟨rfl, rfl⟩ : rs = (s.fn.builder.newTemps n).1 ∧
      s' = s.withBuilder (b₁.push (mk (s.fn.builder.newTemps n).1)) := by
    cases h
    exact ⟨rfl, rfl⟩
  obtain ⟨blk, hb, hopen⟩ := hp.isOpen
  have hblock : ∀ k, b₁.block? k = s.fn.builder.block? k := fun k => by simp only [block?, hfn]
  have hb' : b₁.block? b₁.current = some blk := by rw [hblock, hcur]; exact hb
  have hg : s.fn.builder.Grows s.fn.builder.fn.body.nextId b₁ :=
    ⟨by simp [hb₁], by rw [hfn], by rw [hfn], by rw [hfn], fun k _ _ => hblock k,
      fun _ blk' h => ⟨blk', by rw [hblock]; exact h, List.prefix_refl _, fun hne => absurd hcur hne⟩,
      Or.inl hcur⟩
  have he : Extends s.fn { s.fn with builder := b₁.push (mk (s.fn.builder.newTemps n).1) } :=
    Extends.of_builder (hg.trans (grows_push _))
  have hfresh : ∀ v ∈ (s.fn.builder.newTemps n).1, ∀ y, v = .reg y →
      HandedBetween s.fn { s.fn with builder := b₁.push (mk (s.fn.builder.newTemps n).1) } y := by
    intro v hv y hy
    obtain ⟨j, hj, hj', rfl⟩ := mem_newTemps hv
    cases hy
    exact .inl ⟨j, hj, by simpa [hb₁] using hj', rfl⟩
  have hbelow : b₁.Below := fun k hk => by rw [hblock] at hk; rw [hfn]; exact hp.below k hk
  refine ⟨hp.step he (hbelow.push _) ((show b₁.IsOpen from ⟨blk, hb', hopen⟩).push _) hp.names
    fun a ha => .inl ha, he, fun v hv y hy => hfresh v hv y hy, fun vm ls fuel => ?_⟩
  refine (Crosses.push hb' _).of_point hcur ?_
  simp only [pos, instrsOf, hblock, hcur]

theorem builds_emitMany (n : Nat) (mk : List Value → Instr)
    (hmk : ∀ rs y, Value.reg y ∈ (mk rs).results → Value.reg y ∈ rs) :
    Builds (fun _ => True) (emitMany n mk) fun c rs c' => ∀ v ∈ rs, FreshIn c c' v := by
  intro env s rs s' hp _ h
  obtain ⟨hp', he, hfresh, hx⟩ := emitMany_stretch hp h
  refine ⟨hp', ⟨he, fun vm ls fuel => ⟨_, hx vm ls fuel,
      (Exit.instr_keeps vm ls fuel _).mono fun y hy => ?_⟩⟩,
    hfresh⟩
  exact .inl (hfresh _ (hmk _ y hy) y rfl)

theorem freshName_stretch {base : String} (hb : GoodName base) {x : String} (hp : Poised s.fn)
    (h : freshName base env s = .ok (x, s')) :
    Poised s'.fn ∧ Stretch s.fn s'.fn ∧ HandedBetween s.fn s'.fn x := by
  rw [freshName_run] at h
  cases h
  refine ⟨⟨hp.below, hp.isOpen, hp.shared, hp.names.insert hb⟩,
      ⟨Extends.fresh (nameBase base), Spans.of_builder rfl⟩,
    HandedBetween.name ?_⟩
  simp

theorem builds_freshLocal {base : String} (hb : GoodName base) :
    Builds (fun _ => True) (freshLocal base) fun c v c' => FreshIn c c' v := by
  intro env s v s' hp _ h
  unfold freshLocal at h
  obtain ⟨x, s₁, h₁, h₂⟩ := Gen.bind_ok h
  cases h₂
  obtain ⟨hp₁, hst, hx⟩ := freshName_stretch hb hp h₁
  exact ⟨hp₁, hst, by rintro y ⟨⟩; exact hx⟩

theorem createBlock_stretch (label : String) {k : Nat} (hp : Poised s.fn)
    (h : createBlock label env s = .ok (k, s')) :
    k = s.fn.builder.fn.body.nextId ∧ s' = s.withBuilder (s.fn.builder.createBlock label).2 ∧
      Poised s'.fn ∧ Stretch s.fn s'.fn := by
  rw [createBlock_run] at h
  cases h
  have he : Extends s.fn { s.fn with builder := (s.fn.builder.createBlock label).2 } :=
    Extends.of_builder (grows_createBlock label (Nat.le_refl _))
  exact ⟨rfl, rfl,
    hp.step he (hp.below.createBlock label) (hp.isOpen.createBlock hp.below label) hp.names
        fun a ha => .inl ha,
    he, Spans.stay rfl (pos_createBlock hp.below hp.isOpen label)⟩

theorem builds_createBlock (label : String) :
    Builds (fun _ => True) (createBlock label) fun _ _ _ => True := by
  intro env s k s' hp _ h
  obtain ⟨-, -, hp', hst⟩ := createBlock_stretch label hp h
  exact ⟨hp', hst, trivial⟩

theorem terminalBlock_stretch (label : String) {t : Terminator} (ht : t.Leaves) {k : Nat}
    (hp : Poised s.fn) (h : terminalBlock label t env s = .ok (k, s')) :
    k = s.fn.builder.fn.body.nextId ∧ s' = s.withBuilder (s.fn.builder.addClosed label t) ∧
      s'.fn.builder.Quiet k ∧ Extends s.fn s'.fn ∧ Spans (fun _ => False) s.fn s'.fn := by
  have hts : t.successors = [] := by
    rcases ht with rfl | ⟨_, rfl⟩ | ⟨_, rfl⟩ <;> rfl
  obtain ⟨blk, hcur, -⟩ := hp.isOpen
  rw [terminalBlock_run label hts hp.below (by simp [hcur])] at h
  cases h
  exact ⟨rfl, rfl, quiet_addClosed label hts ht.ne_invalid,
    Extends.of_builder (grows_addClosed (Nat.le_refl _)),
        Spans.stay rfl (pos_addClosed hp.below hp.isOpen label t)⟩

theorem builds_revertBlock : Builds (fun _ => True) revertBlock fun _ a c' => a ∈ c'.shared := by
  intro env s a s' hp _ h
  cases hr : s.fn.revertBlock with
  | some a₀ =>
    rw [revertBlock_run_some hr] at h
    cases h
    exact ⟨hp, Stretch.refl _, by simp [FnState.shared, hr]⟩
  | none =>
    obtain ⟨blk, hcur, -⟩ := hp.isOpen
    rw [revertBlock_run_none hr hp.below (by simp [hcur])] at h
    cases h
    have ht : (Terminator.revert (.ofInt revertStatus)).Leaves := .inr (.inl ⟨_, rfl⟩)
    refine ⟨hp.step ?he (hp.below.addClosed _ _) (hp.isOpen.addClosed hp.below _ _) hp.names fun a ha => ?_,
      ⟨?he, Spans.stay rfl (pos_addClosed hp.below hp.isOpen _ _)⟩, by simp [FnState.shared]⟩
    case he => exact ⟨grows_addClosed (Nat.le_refl _), fun _ => Nat.le_refl _, fun _ => rfl⟩
    rw [FnState.mem_shared] at ha
    simp only [GenState.withBuilder] at ha
    rcases ha with h | h | h
    · cases h
      exact .inr (quiet_addClosed _ rfl ht.ne_invalid)
    · exact .inl (FnState.mem_shared.mpr (.inr (.inl h)))
    · exact .inl (FnState.mem_shared.mpr (.inr (.inr h)))

theorem builds_assertFailBlock : Builds (fun _ => True) assertFailBlock fun _ a c' => a ∈ c'.shared := by
  intro env s a s' hp _ h
  cases hr : s.fn.assertFailBlock with
  | some a₀ =>
    rw [assertFailBlock_run_some hr] at h
    cases h
    exact ⟨hp, Stretch.refl _, by simp [FnState.shared, hr]⟩
  | none =>
    obtain ⟨blk, hcur, -⟩ := hp.isOpen
    rw [assertFailBlock_run_none hr hp.below (by simp [hcur])] at h
    cases h
    have ht : Terminator.abort.Leaves := .inl rfl
    refine ⟨hp.step ?he (hp.below.addClosed _ _) (hp.isOpen.addClosed hp.below _ _) hp.names fun a ha => ?_,
      ⟨?he, Spans.stay rfl (pos_addClosed hp.below hp.isOpen _ _)⟩, by simp [FnState.shared]⟩
    case he => exact ⟨grows_addClosed (Nat.le_refl _), fun _ => Nat.le_refl _, fun _ => rfl⟩
    rw [FnState.mem_shared] at ha
    simp only [GenState.withBuilder] at ha
    rcases ha with h | h | h
    · exact .inl (FnState.mem_shared.mpr (.inl h))
    · exact .inl (FnState.mem_shared.mpr (.inr (.inl h)))
    · cases h
      exact .inr (quiet_addClosed _ rfl ht.ne_invalid)

theorem builds_statusRevertBlock :
    Builds (fun _ => True) statusRevertBlock fun _ p c' => p.1 ∈ c'.shared := by
  intro env s p s' hp _ h
  unfold statusRevertBlock at h
  rw [bind_run_ok (get_run env s)] at h
  cases hr : s.fn.statusRevert with
  | some p₀ =>
    simp only [hr] at h
    cases h
    exact ⟨hp, Stretch.refl _, by simp [FnState.shared, hr]⟩
  | none =>
    simp only [hr] at h
    obtain ⟨v, s₁, h₁, h⟩ := Gen.bind_ok h
    obtain ⟨hp₁, hst₁, -⟩ := builds_freshLocal
      (show GoodName "status" by simp [GoodName, GoodBase, nameBase]) env s v s₁ hp trivial h₁
    obtain ⟨k, s₂, h₂, h⟩ := Gen.bind_ok h
    have hts : (Terminator.revert v).Leaves := .inr (.inl ⟨v, rfl⟩)
    obtain ⟨rfl, rfl, hq, he₂, hsp₂⟩ := terminalBlock_stretch "revert.status" hts hp₁ h₂
    rw [bind_run_ok (modifyFn_run _ env _)] at h
    cases h
    have he : Extends s₁.fn
        { s₁.fn with
          builder := s₁.fn.builder.addClosed "revert.status" (.revert v)
          statusRevert := some (s₁.fn.builder.fn.body.nextId, v) } :=
      ⟨he₂.builder, he₂.names, he₂.lookup⟩
    have hp₂ : Poised
        { s₁.fn with
          builder := s₁.fn.builder.addClosed "revert.status" (.revert v)
          statusRevert := some (s₁.fn.builder.fn.body.nextId, v) } := by
      refine hp₁.step he (hp₁.below.addClosed _ _) (hp₁.isOpen.addClosed hp₁.below _ _) hp₁.names
          fun a ha => ?_
      rw [FnState.mem_shared] at ha
      rcases ha with h | ⟨x, h⟩ | h
      · exact .inl (FnState.mem_shared.mpr (.inl h))
      · cases h
        exact .inr hq
      · exact .inl (FnState.mem_shared.mpr (.inr (.inr h)))
    exact ⟨hp₂, hst₁.trans hp₁ ⟨he, hsp₂.mono fun _ h => h.elim⟩, by simp [FnState.shared]⟩

theorem jumpAndDetach_stretch {target : Nat} {u : Unit} (hp : Poised s.fn) (hq : s.fn.builder.Quiet target)
    (h : jumpAndDetach target env s = .ok (u, s')) :
    Poised s'.fn ∧ Extends s.fn s'.fn ∧
      ∀ vm ls fuel, ∃ r, Crosses s.fn.builder s'.fn.builder vm ls fuel (.stop r) := by
  obtain ⟨blk, hcur, hopen⟩ := hp.isOpen
  obtain ⟨blkA, hA, -⟩ := hq.leaves
  rw [jumpAndDetach_run (by simp [hA]) hp.below hcur hopen] at h
  cases h
  have he : Extends s.fn { s.fn with builder := s.fn.builder.closeInto "unreachable" (.jump target) blk } :=
    Extends.of_builder (grows_closeInto hp.below hcur (by simp) (Nat.le_refl _))
  obtain ⟨blkA', hA', hl'⟩ := (hq.of_grows hp.below hp.isOpen he.builder).leaves
  refine ⟨hp.step he (hp.below.closeInto hcur) (IsOpen.closeInto hp.below hcur) hp.names
      fun a ha => .inl ha, he,
    fun vm ls fuel => ?_⟩
  exact Crosses.jump_leaves hcur hl' (fun f hf => hf.closeInto_current (by simp))
    (fun f hf => hf.closed _ _ hA' hl'.2.ne_invalid)

theorem builds_jumpAndDetach (target : Nat) :
    Builds (fun c => target ∈ c.shared) (jumpAndDetach target) fun _ _ _ => True := by
  intro env s u s' hp ht h
  obtain ⟨hp', he, hstop⟩ := jumpAndDetach_stretch hp (hp.shared target ht) h
  refine ⟨hp', ⟨he, fun vm ls fuel => ?_⟩, trivial⟩
  obtain ⟨r, hr⟩ := hstop vm ls fuel
  exact ⟨_, hr, trivial⟩

theorem builds_failIf (v : Value) (failure : Nat) (label : String) :
    Builds (fun c => failure ∈ c.shared) (failIf v failure label) fun _ _ _ => True := by
  intro env s u s' hp hf h
  have hq := hp.shared failure hf
  cases v with
  | const k =>
    cases hz : k.isZero with
    | true =>
      rw [failIf_run_zero hz] at h
      cases h
      exact ⟨hp, Stretch.refl _, trivial⟩
    | false =>
      rw [failIf_run_nonzero hz] at h
      exact builds_jumpAndDetach failure env s u s' hp hf h
  | reg x =>
    obtain ⟨blk, hcur, hopen⟩ := hp.isOpen
    obtain ⟨blkA, hA, -⟩ := hq.leaves
    rw [failIf_run_reg x label (by simp [hA]) hp.below hcur hopen] at h
    cases h
    have he : Extends s.fn
        { s.fn with builder := s.fn.builder.closeInto label (.branch (.reg x) failure
            s.fn.builder.fn.body.nextId) blk } :=
      Extends.of_builder (grows_closeInto hp.below hcur (by simp) (Nat.le_refl _))
    obtain ⟨blkA', hA', hl'⟩ := (hq.of_grows hp.below hp.isOpen he.builder).leaves
    refine ⟨hp.step he (hp.below.closeInto hcur) (IsOpen.closeInto hp.below hcur) hp.names
        fun a ha => .inl ha,
      ⟨he, fun vm ls fuel => ?_⟩, trivial⟩
    obtain ⟨x, hx, hk⟩ : ∃ x, Crosses _ _ vm ls fuel x ∧ x.Keeps (fun _ => False) ls :=
      Crosses.branch_leaves hcur hl'
      (fun f hf => hf.closeInto_current (by simp)) (fun f hf => hf.closed _ _ hA' hl'.2.ne_invalid)
      (pos_closeInto hp.below hcur)
    exact ⟨x, hx, hk.mono fun _ h => h.elim⟩

theorem checkStatus_extends {status : Value} {label : String} {u : Unit} (hp : Poised s.fn)
    (h : checkStatus status label env s = .ok (u, s')) : Poised s'.fn ∧ Extends s.fn s'.fn := by
  unfold checkStatus at h
  obtain ⟨p, s₁, h₁, h⟩ := Gen.bind_ok h
  obtain ⟨hp₁, hst₁, hsh⟩ := builds_statusRevertBlock env s p s₁ hp trivial h₁
  obtain ⟨u₂, s₂, h₂, h₃⟩ := Gen.bind_ok h
  obtain ⟨rfl, hp₂, he₂, -⟩ := emitUnit_stretch hp₁ h₂
  obtain ⟨hp₃, hst₃, -⟩ := builds_failIf _ _ _ env _ u s' hp₂ hsh h₃
  exact ⟨hp₃, hst₁.grows.trans (he₂.trans hst₃.grows)⟩

end Gen

end ContractCfg.Lower
