import Std.Data.String.ToNat
import ContractCfg.Lower.Gen
import ContractCfg.Proofs.IR.Builder

namespace ContractCfg.Lower

open ContractCfg.IR

/-- The `n`-th register named after `base`: the base itself, then `base.1`, `base.2`, … -/
def regName (base : String) (n : Nat) : String := if n = 0 then base else base ++ "." ++ toString n

/-- A base the allocator keeps apart from every other base and from the numbered temporaries:
no dot, and at least one character that is not a digit. -/
def GoodBase (b : String) : Prop := '.' ∉ b.toList ∧ ∃ c ∈ b.toList, c.isDigit = false

theorem isDigit_of_mem_toString {k : Nat} {c : Char} (hc : c ∈ (toString k).toList) :
    c.isDigit = true := by
  have : (toString k).toList = Nat.toDigits 10 k := by simp
  rw [this] at hc
  exact Nat.isDigit_of_mem_toDigits (by decide) (by decide) hc

theorem toString_inj {k k' : Nat} (h : toString k = toString k') : k = k' :=
  Nat.repr_injective h

theorem regName_toList (b : String) (n : Nat) :
    (regName b n).toList = if n = 0 then b.toList else b.toList ++ '.' :: (toString n).toList := by
  unfold regName
  split <;> simp

theorem GoodBase.exists_nonDigit {b : String} (hb : GoodBase b) (n : Nat) :
    ∃ c ∈ (regName b n).toList, c.isDigit = false := by
  obtain ⟨c, hc, hd⟩ := hb.2
  refine ⟨c, ?_, hd⟩
  rw [regName_toList]
  split <;> simp [hc]

theorem GoodBase.regName_ne_toString {b : String} (hb : GoodBase b) (n k : Nat) :
    regName b n ≠ toString k := by
  intro h
  obtain ⟨c, hm, hd⟩ := hb.exists_nonDigit n
  rw [h] at hm
  simp [isDigit_of_mem_toString hm] at hd

theorem split_at_dot {l₁ l₂ r₁ r₂ : List Char} (h₁ : '.' ∉ l₁) (h₂ : '.' ∉ l₂)
    (h : l₁ ++ '.' :: r₁ = l₂ ++ '.' :: r₂) : l₁ = l₂ ∧ r₁ = r₂ := by
  induction l₁ generalizing l₂ with
  | nil =>
    cases l₂ with
    | nil => simpa using h
    | cons c cs =>
      simp only [List.nil_append, List.cons_append, List.cons.injEq] at h
      exact absurd (h.1 ▸ List.mem_cons_self) h₂
  | cons c cs ih =>
    cases l₂ with
    | nil =>
      simp only [List.nil_append, List.cons_append, List.cons.injEq] at h
      exact absurd (h.1 ▸ List.mem_cons_self) h₁
    | cons d ds =>
      simp only [List.cons_append, List.cons.injEq] at h
      have := ih (fun m => h₁ (List.mem_cons_of_mem _ m)) (fun m => h₂ (List.mem_cons_of_mem _ m)) h.2
      exact ⟨by rw [h.1, this.1], this.2⟩

theorem regName_inj_of_dotless {b b' : String} (hb : '.' ∉ b.toList) (hb' : '.' ∉ b'.toList) {i j : Nat}
    (h : regName b i = regName b' j) : b = b' ∧ i = j := by
  have hl := congrArg String.toList h
  rw [regName_toList, regName_toList] at hl
  by_cases hi : i = 0 <;> by_cases hj : j = 0
  · simp only [hi, hj, if_true] at hl
    exact ⟨String.ext hl, by omega⟩
  · simp only [hi, hj, if_true, if_false] at hl
    exact absurd (hl ▸ List.mem_append_right _ List.mem_cons_self) hb
  · simp only [hi, hj, if_true, if_false] at hl
    exact absurd (hl ▸ List.mem_append_right _ List.mem_cons_self) hb'
  · simp only [hi, hj, if_false] at hl
    obtain ⟨h1, h2⟩ := split_at_dot hb hb' hl
    exact ⟨String.ext h1, toString_inj (String.ext h2)⟩

theorem regName_inj {b b' : String} (hb : GoodBase b) (hb' : GoodBase b') {i j : Nat}
    (h : regName b i = regName b' j) : b = b' ∧ i = j :=
  regName_inj_of_dotless hb.1 hb'.1 h

/-- The base `freshName` uses for `b`: `_` stands for the empty name. -/
def nameBase (b : String) : String := if b.isEmpty then "_" else b

/-- A name the allocator can be given: empty, or a good base. -/
def GoodName (b : String) : Prop := GoodBase (nameBase b)

/-- The registers handed out in a function state: the numbered temporaries below the counter
and the names the allocator gave out. -/
def Handed (c : FnState) (x : String) : Prop :=
  (∃ k < c.builder.nextTemp, x = toString k) ∨ ∃ b, ∃ i < c.names.getD b 0, x = regName b i

/-- Every base the allocator has counted is good. -/
def NamesOK (c : FnState) : Prop := ∀ b, 0 < c.names.getD b 0 → GoodBase b

theorem not_handed_temp {c : FnState} (hc : NamesOK c) : ¬ Handed c (toString c.builder.nextTemp) := by
  rintro (⟨k, hk, he⟩ | ⟨b', i, hi, he⟩)
  · have := toString_inj he; omega
  · exact (hc b' (by omega)).regName_ne_toString _ _ he.symm

end ContractCfg.Lower
