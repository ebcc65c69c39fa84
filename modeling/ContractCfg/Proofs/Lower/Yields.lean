import ContractCfg.Proofs.Lower.Frame
import ContractCfg.Proofs.Lower.Simulation

namespace ContractCfg.Lower

open ContractCfg.IR ContractCfg.IR.FnBuilder ContractCfg.Machine ContractCfg.Machine.Vm

/-- The value `φ a` computed from the value `a` of `v`, read as a result that a missing register
makes a fault. -/
def readMap (v : Value) (φ : Int → Int) (ls : Locals) : Except Stop Int :=
  (ls.read v).mapError Stop.fault >>= fun a => .ok (φ a)

theorem readMap_of_read {v : Value} {φ : Int → Int} {ls : Locals} {a : Int} (h : ls.read v = .ok a) :
    readMap v φ ls = .ok (φ a) := by
  simp only [readMap, h, Except.mapError]
  rfl

/-- The availability map `D` covers the blocks of `s` and asks nothing of the shared failure
blocks, which read no register and are entered from anywhere. -/
structure GenState.Static (D : Nat → String → Prop) (s : GenState) : Prop where
  builder : s.fn.builder.Static D
  assertFail : ∀ a, s.fn.assertFailBlock = some a → ∀ x, ¬ D a x
  revert : ∀ a, s.fn.revertBlock = some a → ∀ x, ¬ D a x

/-- Lowering from `s` yields `v` in state `s'`, the code appended in between costing at most `c`
steps: the state evolves and stays well formed, every block the code opens is closed again but
the one it ends in; `v` is a constant or a register handed out by the end; the availability
invariant carries over when the registers of `need` are available at
the start, with `v` available at the end; and in every final function completing `s'` the code
computes `R ls` into `v` from registers `ls` satisfying `P`. -/
structure Yields (name : String) (s s' : GenState) (v : Value) (c : Nat) (P : Locals → Prop)
    (R : Locals → Except Stop Int) (need : String → Prop) : Prop where
  evolves : Evolves s s'
  wf : Wf s'
  settles : s.fn.builder.Settles s'.fn.builder
  handed : ∀ x, v = .reg x → Handed s'.fn x
  static : ∀ D, s.Static D → (∀ x, need x → s.fn.builder.Avail D x) →
    ∃ D', s'.Static D' ∧ (∀ k < s.fn.builder.fn.body.nextId, D' k = D k) ∧
      (∀ x, s.fn.builder.Avail D x → s'.fn.builder.Avail D' x) ∧
      ∀ x, v = .reg x → s'.fn.builder.Avail D' x
  sim : ∀ f, Completes f s'.fn.builder → ∀ ls, P ls →
    Computes name f s.fn.builder s'.fn.builder c (Handed s.fn) ls v (R ls)

namespace Yields

variable {name : String} {s s₁ s₂ : GenState} {v v₁ v₂ : Value} {c c₁ c₂ : Nat}
  {P P₁ P₂ : Locals → Prop} {R R₁ R₂ : Locals → Except Stop Int} {need need₁ need₂ : String → Prop}

theorem pure (hw : Wf s) (hv : ∀ x, v = .reg x → Handed s.fn x ∧ need x)
    (hR : ∀ ls, P ls → ∃ a, R ls = .ok a ∧ ls.read v = .ok a) : Yields name s s v 0 P R need := by
  refine ⟨Evolves.refl s, hw, Settles.refl _, fun x hx => (hv x hx).1, ?_, ?_⟩
  · intro D hs hneed
    exact ⟨D, hs, fun _ _ => rfl, fun _ h => h, fun x hx => hneed x (hv x hx).2⟩
  · intro f _ ls hP
    obtain ⟨a, hr, hv⟩ := hR ls hP
    rw [hr]
    exact Computes.pure hv

theorem mono (h : Yields name s s₁ v c P R need) (hc : c ≤ c₁) {P' : Locals → Prop}
    (hP : ∀ ls, P' ls → P ls) {need' : String → Prop} (hn : ∀ x, need x → need' x) :
    Yields name s s₁ v c₁ P' R need' := by
  refine ⟨h.evolves, h.wf, h.settles, h.handed, fun D hs hneed => h.static D hs fun x hx => hneed x (hn x hx),
    ?_⟩
  intro f hf ls hls
  exact (h.sim f hf ls (hP ls hls)).mono_steps hc

theorem bind (h₁ : Yields name s s₁ v₁ c₁ P₁ R₁ need₁) (h₂ : Yields name s₁ s₂ v₂ c₂ P₂ R₂ need₂)
    {g : Locals → Int → Except Stop Int}
    (hlink : ∀ ls ls₁ a, P₁ ls → R₁ ls = .ok a → ls₁.read v₁ = .ok a →
      Agree (Handed s.fn) ls ls₁ → P₂ ls₁ ∧ R₂ ls₁ = g ls a)
    (hneed₁ : ∀ x, need₁ x → need x) (hneed₂ : ∀ x, need₂ x → need x ∨ v₁ = .reg x) :
    Yields name s s₂ v₂ (c₁ + c₂) P₁ (fun ls => R₁ ls >>= g ls) need := by
  refine ⟨h₁.evolves.trans h₂.evolves, h₂.wf, h₁.settles.trans h₂.settles, h₂.handed, ?_, ?_⟩
  · intro D hs hneed
    obtain ⟨D₁, hs₁, hag₁, hav₁, hv₁⟩ := h₁.static D hs fun x hx => hneed x (hneed₁ x hx)
    have hneed₂' : ∀ x, need₂ x → s₁.fn.builder.Avail D₁ x := by
      intro x hx
      rcases hneed₂ x hx with h | h
      · exact hav₁ x (hneed x h)
      · exact hv₁ x h
    obtain ⟨D₂, hs₂, hag₂, hav₂, hv₂⟩ := h₂.static D₁ hs₁ hneed₂'
    refine ⟨D₂, hs₂, fun k hk => ?_, fun x hx => hav₂ x (hav₁ x hx), hv₂⟩
    rw [hag₂ k (Nat.lt_of_lt_of_le hk h₁.evolves.builder.nextId), hag₁ k hk]
  · intro f hf ls hP
    have hf₁ : Completes f s₁.fn.builder :=
      Completes.of_grows h₁.wf.below h₁.wf.isOpen h₂.evolves.builder hf
    refine Computes.bind (h₁.sim f hf₁ ls hP) fun a ls₁ hr hv ha => ?_
    obtain ⟨hP₂, hR₂⟩ := hlink ls ls₁ a hP hr hv ha
    rw [← hR₂]
    exact (h₂.sim f hf ls₁ hP₂).mono_frame fun x hx => h₁.evolves.handed hx

theorem map (h₁ : Yields name s s₁ v₁ c₁ P₁ R₁ need₁) {φ : Int → Int}
    (h₂ : Yields name s₁ s₂ v₂ c₂ (fun ls => ∃ a, ls.read v₁ = .ok a) (readMap v₁ φ)
      (fun x => v₁ = .reg x)) :
    Yields name s s₂ v₂ (c₁ + c₂) P₁ (fun ls => R₁ ls >>= fun a => .ok (φ a)) need₁ :=
  h₁.bind h₂ (fun _ _ a _ _ hv _ => ⟨⟨a, hv⟩, readMap_of_read hv⟩) (fun _ h => h) fun _ h => .inr h

theorem silent {s' : GenState} (hev : Evolves s s') (hw : Wf s') (hset : s.fn.builder.Settles s'.fn.builder)
    (hv : ∀ x, v = .reg x → Handed s.fn x)
    (hstatic : ∀ D, s.Static D → ∃ D', s'.Static D' ∧
      (∀ k < s.fn.builder.fn.body.nextId, D' k = D k) ∧
      ∀ x, s.fn.builder.Avail D x → s'.fn.builder.Avail D' x)
    (hcur : s'.fn.builder.current = s.fn.builder.current) (hpos : s'.fn.builder.pos = s.fn.builder.pos)
    {c : Nat} {φ : Int → Int} (hφ : ∀ a, φ a = a) :
    Yields name s s' v c (fun ls => ∃ a, ls.read v = .ok a) (readMap v φ) (fun x => v = .reg x) := by
  refine ⟨hev, hw, hset, fun x hx => hev.handed (hv x hx), ?_, ?_⟩
  · intro D hs hneed
    obtain ⟨D', hs', hag, hav⟩ := hstatic D hs
    exact ⟨D', hs', hag, hav, fun x hx => hav x (hneed x hx)⟩
  · intro f _ ls ⟨a, ha⟩
    rw [readMap_of_read ha, hφ]
    exact (Computes.stay hcur hpos ha).mono_steps (Nat.zero_le c)

theorem keep (hw : Wf s) (hv : ∀ x, v = .reg x → Handed s.fn x) {c : Nat} {φ : Int → Int}
    (hφ : ∀ a, φ a = a) :
    Yields name s s v c (fun ls => ∃ a, ls.read v = .ok a) (readMap v φ) (fun x => v = .reg x) :=
  silent (Evolves.refl s) hw (Settles.refl _) hv (fun D hs => ⟨D, hs, fun _ _ => rfl, fun _ h => h⟩) rfl rfl hφ

theorem const (hw : Wf s) {k : Constant} {c : Nat} {φ : Int → Int}
    (hk : ∀ (ls : Locals) a, ls.read v = .ok a → φ a = k.toInt) :
    Yields name s s (.const k) c (fun ls => ∃ a, ls.read v = .ok a) (readMap v φ) need := by
  refine (pure hw (fun x h => by cases h) fun ls ⟨a, ha⟩ => ⟨k.toInt, ?_, rfl⟩).mono (Nat.zero_le c)
    (fun _ h => h) fun _ h => h
  rw [readMap_of_read ha, hk ls a ha]

theorem congr (h : Yields name s s₁ v c P R need) {R' : Locals → Except Stop Int}
    (hR : ∀ ls, P ls → R ls = R' ls) : Yields name s s₁ v c P R' need := by
  refine ⟨h.evolves, h.wf, h.settles, h.handed, h.static, fun f hf ls hP => ?_⟩
  rw [← hR ls hP]
  exact h.sim f hf ls hP

theorem emit (hw : Wf s) {mk : Value → Instr} (hi : Plain (mk (.reg (toString s.fn.builder.nextTemp))))
    (hreads : ∀ x ∈ regs (mk (.reg (toString s.fn.builder.nextTemp))).operands, need x)
    (hres : (mk (.reg (toString s.fn.builder.nextTemp))).results = [.reg (toString s.fn.builder.nextTemp)])
    (hstep : ∀ ls, P ls →
      (∃ z, R ls = .ok z ∧ ∀ vm, step vm ls (mk (.reg (toString s.fn.builder.nextTemp))) =
        .ok (vm, ls.insert (toString s.fn.builder.nextTemp) z)) ∨
      (∃ e, R ls = .error (.fault e) ∧ ∀ vm, step vm ls (mk (.reg (toString s.fn.builder.nextTemp))) = .error e)) :
    Yields name s (s.withBuilder (s.fn.builder.emit mk).2) (.reg (toString s.fn.builder.nextTemp)) 1 P R need := by
  obtain ⟨cur, hcur, hopen⟩ := hw.isOpen
  have hg : s.fn.builder.Grows s.fn.builder.fn.body.nextId (s.fn.builder.emit mk).2 :=
    grows_newTemp.trans (grows_push _)
  refine ⟨Evolves.of_builder hg, ?_, settles_newTemp.trans (settles_push _), ?_, ?_, ?_⟩
  · exact hw.withBuilder hg (hw.below.push _) (hw.isOpen.push _) (hw.nodup.push _) (hw.simple.newTemp.push hi)
  · rintro x ⟨⟩
    exact .inl ⟨s.fn.builder.nextTemp, by simp [emit_eq], rfl⟩
  · intro D hs hneed
    have hs' := hs.builder.newTemp
    have hcur' : s.fn.builder.newTemp.2.block? s.fn.builder.newTemp.2.current = some cur := hcur
    refine ⟨D, ?_, fun _ _ => rfl, fun x hx => ?_, ?_⟩
    · exact ⟨hs'.push hw.isOpen fun x hx => hneed x (hreads x hx), hs.assertFail, hs.revert⟩
    · exact (avail_push hcur' x).mpr (.inl ((avail_newTemp x).mpr hx))
    · rintro x ⟨⟩
      refine (avail_push hcur' _).mpr (.inr ?_)
      rw [hres]
      simp
  · intro f hf ls hP
    have hfresh : ¬ Handed s.fn (toString s.fn.builder.nextTemp) := not_handed_temp hw.names
    have hcur' : s.fn.builder.newTemp.2.block? s.fn.builder.newTemp.2.current = some cur := hcur
    rcases hstep ls hP with ⟨z, hR, hz⟩ | ⟨e, hR, he⟩
    · rw [hR]
      exact Computes.of_newTemp (Computes.push hcur' hf hi hfresh hz)
    · rw [hR]
      exact Computes.of_newTemp (Computes.push_fault hcur' hf hi he)

end Yields

end ContractCfg.Lower
