import ContractCfg.Proofs.Lower.Checks

namespace ContractCfg.Lower

open ContractCfg.IR ContractCfg.IR.FnBuilder ContractCfg.Machine ContractCfg.Machine.Vm
open ContractCfg.Source

theorem shiftAmount?_ofNat (n : Nat) :
    shiftAmount? (n : Int) = if n < shiftLimit then some n else none := by
  unfold shiftAmount?
  by_cases h : n < shiftLimit
  · rw [if_pos ⟨by omega, by omega⟩, if_pos h]
    rfl
  · rw [if_neg (by omega), if_neg h]

theorem binary_shr_ofNat (x : Int) (n : Nat) : Machine.binary .shr x n = .ok (shiftBy false x n) := by
  by_cases h : n < shiftLimit <;> simp [Machine.binary, shiftAmount?_ofNat, shiftBy, h]

theorem binary_shl_ofNat (x : Int) (n : Nat) : Machine.binary .shl x n = .ok (shiftBy true x n) := by
  by_cases h : n < shiftLimit <;> simp [Machine.binary, shiftAmount?_ofNat, shiftBy, h]

section Conversions

variable {src dst : TypeName}

theorem convertValue_of_fits (h : (!dst.isValueType || fits src dst) = true) (a : Int) :
    convertValue src dst a = a := by
  unfold convertValue
  rw [if_pos h]

theorem convertValue_fixedBytes {m n : Nat}
    (h : ¬(!(TypeName.fixedBytes n).isValueType || fits (.fixedBytes m) (.fixedBytes n)) = true)
    (a : Int) : convertValue (.fixedBytes m) (.fixedBytes n) a =
      if n < m then shiftBy false a (((m : Int) - n).natAbs * 8)
      else shiftBy true a (((m : Int) - n).natAbs * 8) := by
  unfold convertValue
  rw [if_neg h]

theorem convertValue_bool (src : TypeName) (a : Int) : convertValue src .bool a = a := by
  unfold convertValue
  split
  · rfl
  · split
    · contradiction
    · rfl
    · contradiction

theorem convertValue_mask (h : ¬(!dst.isValueType || fits src dst) = true) (hb : dst ≠ .bool)
    (hf : ∀ m n, src = .fixedBytes m → dst = .fixedBytes n → False) (a : Int) :
    convertValue src dst a = maskValue dst a := by
  unfold convertValue
  rw [if_neg h]
  split
  · exact (hf _ _ rfl rfl).elim
  · exact (hb rfl).elim
  · rfl

end Conversions

namespace Gen

variable (name : String) (env : Env) {s : GenState} {v : Value}

theorem emit_map (hw : Wf s) {mk : Value → Instr} {φ : Int → Int} (hi : ∀ r, Plain (mk (.reg r)))
    (hreads : ∀ r, ∀ x ∈ regs (mk (.reg r)).operands, v = .reg x)
    (hres : ∀ r, (mk (.reg r)).results = [.reg r])
    (hstep : ∀ r vm (ls : Locals) a, ls.read v = .ok a →
      step vm ls (mk (.reg r)) = .ok (vm, ls.insert r (φ a))) :
    ∃ v' s', emit mk env s = .ok (v', s') ∧
      Yields name s s' v' 1 (fun ls => ∃ a, ls.read v = .ok a) (readMap v φ) (fun x => v = .reg x) :=
  ⟨_, _, emit_run mk hw.isOpen, Yields.emit hw (hi _) (hreads _) (hres _) fun ls ⟨a, ha⟩ =>
    .inl ⟨φ a, readMap_of_read ha, fun vm => hstep _ vm ls a ha⟩⟩

theorem unary_spec (hw : Wf s) (op : UnOp) (v : Value) :
    ∃ v' s', unary op v env s = .ok (v', s') ∧
      Yields name s s' v' 1 (fun ls => ∃ a, ls.read v = .ok a) (readMap v (Machine.unary op))
        (fun x => v = .reg x) :=
  emit_map name env hw (fun _ _ _ _ h => by cases h) (fun _ _ hx => mem_regs_singleton.mp hx)
    (fun _ => rfl) fun _ _ _ _ ha => step_unary ha

theorem mask_spec (hw : Wf s) (hv : ∀ x, v = .reg x → Handed s.fn x) (t : TypeName) :
    ∃ v' s', mask v t env s = .ok (v', s') ∧
      Yields name s s' v' 1 (fun ls => ∃ a, ls.read v = .ok a) (readMap v (maskValue t))
        (fun x => v = .reg x) := by
  unfold mask
  cases hwd : width t with
  | none => exact ⟨v, s, rfl, Yields.keep hw hv fun a => by simp [maskValue, hwd]⟩
  | some p =>
    obtain ⟨bits, signed⟩ := p
    have hm : ∀ a, maskValue t a = if signed then Word.signExtend a bits else Word.truncate a bits := by
      intro a
      simp [maskValue, hwd]
    dsimp only
    split
    · refine ⟨_, s, rfl, Yields.const hw fun ls a ha => ?_⟩
      rw [read_const] at ha
      cases ha
      rw [hm]
      rfl
    · split
      · rename_i hs
        refine emit_map name env hw (fun _ _ _ _ h => by cases h) (fun _ _ hx => mem_regs_singleton.mp hx)
          (fun _ => rfl) fun r vm ls a ha => ?_
        rw [hm, if_pos hs]
        exact step_signExtend ha
      · rename_i hs
        refine emit_map name env hw (fun _ _ _ _ h => by cases h) (fun _ _ hx => mem_regs_singleton.mp hx)
          (fun _ => rfl) fun r vm ls a ha => ?_
        rw [hm, if_neg hs]
        exact step_truncate ha

theorem convert_spec (hw : Wf s) (hv : ∀ x, v = .reg x → Handed s.fn x) (src dst : TypeName) :
    ∃ v' s', convert v src dst env s = .ok (v', s') ∧
      Yields name s s' v' 1 (fun ls => ∃ a, ls.read v = .ok a) (readMap v (convertValue src dst))
        (fun x => v = .reg x) := by
  unfold convert
  by_cases hfit : (!dst.isValueType || fits src dst) = true
  · rw [if_pos hfit]
    exact ⟨v, s, rfl, Yields.keep hw hv (convertValue_of_fits hfit)⟩
  · rw [if_neg hfit]
    split
    · rename_i m n
      dsimp only
      have hc := convertValue_fixedBytes hfit
      split
      · rename_i hnm
        refine emit_map name env hw (fun _ _ _ _ h => by cases h) (fun _ _ hx => mem_regs_const.mp hx)
          (fun _ => rfl) fun r vm ls a ha => ?_
        rw [hc, if_pos hnm]
        exact step_binary ha (read_const ls _) (binary_shr_ofNat a _)
      · rename_i hnm
        refine emit_map name env hw (fun _ _ _ _ h => by cases h) (fun _ _ hx => mem_regs_const.mp hx)
          (fun _ => rfl) fun r vm ls a ha => ?_
        rw [hc, if_neg hnm]
        exact step_binary ha (read_const ls _) (binary_shl_ofNat a _)
    · exact ⟨v, s, rfl, Yields.keep hw hv (convertValue_bool _)⟩
    · rename_i hb hf
      have hφ : convertValue src dst = maskValue dst := funext (convertValue_mask hfit hb hf)
      rw [hφ]
      exact mask_spec name env hw hv dst

end Gen

end ContractCfg.Lower
