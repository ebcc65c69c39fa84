import Mathlib.Data.Int.ModEq
import Mathlib.Algebra.Order.Group.Unbundled.Int
import Mathlib.Algebra.Order.Ring.Int
import ContractCfg.Proofs.Lower.Reference

/-!
Values kept to a width. `truncate` and `signExtend` pick two representatives of a residue modulo
`2 ^ b`: the one in `[0, 2 ^ b)` and the one in `[-2 ^ (b - 1), 2 ^ (b - 1))`. A value type of
nonzero width holds the integers of such a window (`valueRange`), and masking a value to a type
changes it exactly when it lies outside the window. Main statements: `eq_truncate_iff` and
`eq_signExtend_iff`, and `fits_inRange`: a type that fits into another has its window inside the
other's, save `bool` into the one-bit signed integers, so a conversion that fits needs no mask
(`maskValue_of_fits`).
-/

namespace ContractCfg.Word

variable {r v w : Int} {b : Nat}

theorem modulus_eq (b : Nat) : ((Nat.pow 2 b : Nat) : Int) = 2 ^ b := by
  rw [Nat.pow_eq]
  push_cast
  rfl

theorem truncate_eq_emod (v : Int) (b : Nat) : truncate v b = v % 2 ^ b := by
  rw [truncate, modulus_eq]

theorem truncate_modEq (v : Int) (b : Nat) : truncate v b ≡ v [ZMOD 2 ^ b] := by
  rw [truncate_eq_emod]
  exact Int.mod_modEq v _

theorem eq_of_modEq_window {lo n r s : Int} (h : r ≡ s [ZMOD n]) (hr : lo ≤ r ∧ r < lo + n)
    (hs : lo ≤ s ∧ s < lo + n) : r = s := by
  have hd : n ∣ s - r := Int.modEq_iff_dvd.mp h
  have habs : |s - r| < n := abs_lt.mpr ⟨by omega, by omega⟩
  have := Int.eq_zero_of_abs_lt_dvd hd habs
  omega

theorem eq_truncate_iff : r = truncate v b ↔ 0 ≤ r ∧ r < 2 ^ b ∧ r ≡ v [ZMOD 2 ^ b] := by
  constructor
  · rintro rfl
    exact ⟨truncate_nonneg v b, modulus_eq b ▸ truncate_lt v b, truncate_modEq v b⟩
  · rintro ⟨h0, hlt, hv⟩
    rw [truncate_eq_emod, ← hv, Int.emod_eq_of_lt h0 hlt]

theorem truncate_congr (h : v ≡ w [ZMOD 2 ^ b]) : truncate v b = truncate w b := by
  rw [truncate_eq_emod, truncate_eq_emod]
  exact h

@[simp] theorem truncate_truncate (v : Int) (b : Nat) : truncate (truncate v b) b = truncate v b :=
  truncate_congr (truncate_modEq v b)

theorem signExtend_succ (v : Int) (b : Nat) : signExtend v (b + 1) =
    if 2 ^ b ≤ truncate v (b + 1) then truncate v (b + 1) - 2 ^ (b + 1) else truncate v (b + 1) := by
  rw [signExtend, modulus_eq, modulus_eq]

theorem signExtend_bounds (v : Int) (b : Nat) :
    -2 ^ b ≤ signExtend v (b + 1) ∧ signExtend v (b + 1) < 2 ^ b := by
  have hlo := truncate_nonneg v (b + 1)
  have hhi : truncate v (b + 1) < 2 * 2 ^ b := by
    rw [← pow_succ']
    exact modulus_eq (b + 1) ▸ truncate_lt v (b + 1)
  rw [signExtend_succ, pow_succ]
  split <;> omega

theorem signExtend_modEq (v : Int) (b : Nat) : signExtend v (b + 1) ≡ v [ZMOD 2 ^ (b + 1)] := by
  rw [signExtend_succ]
  split
  · exact Int.sub_modulus_modEq_iff.mpr (truncate_modEq v _)
  · exact truncate_modEq v _

theorem eq_signExtend_iff :
    r = signExtend v (b + 1) ↔ -2 ^ b ≤ r ∧ r < 2 ^ b ∧ r ≡ v [ZMOD 2 ^ (b + 1)] := by
  constructor
  · rintro rfl
    exact ⟨(signExtend_bounds v b).1, (signExtend_bounds v b).2, signExtend_modEq v b⟩
  · rintro ⟨hlo, hhi, hv⟩
    have hwin : 2 ^ (b + 1) = (2 : Int) ^ b + 2 ^ b := by rw [pow_succ, mul_two]
    have hs := signExtend_bounds v b
    exact eq_of_modEq_window (hv.trans (signExtend_modEq v b).symm) ⟨hlo, by omega⟩ ⟨hs.1, by omega⟩

theorem signExtend_congr (h : v ≡ w [ZMOD 2 ^ (b + 1)]) : signExtend v (b + 1) = signExtend w (b + 1) :=
  eq_signExtend_iff.mpr ⟨(signExtend_bounds v b).1, (signExtend_bounds v b).2,
    (signExtend_modEq v b).trans h⟩

@[simp] theorem signExtend_signExtend (v : Int) (b : Nat) :
    signExtend (signExtend v (b + 1)) (b + 1) = signExtend v (b + 1) :=
  signExtend_congr (signExtend_modEq v b)

@[simp] theorem signExtend_truncate (v : Int) (b : Nat) :
    signExtend (truncate v (b + 1)) (b + 1) = signExtend v (b + 1) :=
  signExtend_congr (truncate_modEq v _)

end ContractCfg.Word

namespace ContractCfg.Lower

open ContractCfg.Source

/-- The integers a value of type `t` holds, as the window `[lo, hi)`: `bool` holds 0 and 1;
unsigned integers, addresses and contracts (both as `uint160`) and fixed-size byte strings (as
unsigned integers of eight bits a byte) hold `[0, 2 ^ bits)`; signed integers hold the two's
complement window. Types that are no value types, and those of width zero, have none. -/
def valueRange : TypeName → Option (Int × Int)
  | .bool => some (0, 2)
  | .uint (n + 1) => some (0, 2 ^ (n + 1))
  | .int (n + 1) => some (-2 ^ n, 2 ^ n)
  | .address | .contract _ => some (0, 2 ^ 160)
  | .fixedBytes (n + 1) => some (0, 2 ^ (8 * (n + 1)))
  | _ => none

/-- `x` is a value of type `t`. -/
def InRange (t : TypeName) (x : Int) : Prop :=
  ∃ lo hi, valueRange t = some (lo, hi) ∧ lo ≤ x ∧ x < hi

/-- The integers `bits` bits wide, two's complement ones when `signed`. -/
def window (bits : Nat) (signed : Bool) : Int × Int :=
  if signed then (-2 ^ (bits - 1), 2 ^ (bits - 1)) else (0, 2 ^ bits)

/-- How `fits` lets a width `m` (signed when `s`) through to a width `n` (signed when `s'`):
between integers of one signedness not narrowing, from unsigned to signed strictly widening. -/
def Widens (m : Nat) (s : Bool) (n : Nat) (s' : Bool) : Prop :=
  (s = false ∧ s' = false ∧ m ≤ n) ∨ (s = false ∧ s' = true ∧ m < n) ∨ (s = true ∧ s' = true ∧ m ≤ n)

variable {src dst t : TypeName} {x : Int}

theorem inRange_iff {p : Int × Int} (h : valueRange t = some p) : InRange t x ↔ p.1 ≤ x ∧ x < p.2 := by
  constructor
  · rintro ⟨lo, hi, ht, hx⟩
    rw [h] at ht
    cases ht
    exact hx
  · intro hx
    exact ⟨p.1, p.2, h, hx⟩

theorem valueRange_eq_window {p : Int × Int} (h : valueRange t = some p) (hb : t ≠ .bool) :
    ∃ bits signed, width t = some (bits, signed) ∧ 0 < bits ∧ p = window bits signed := by
  cases t with
  | bool => exact absurd rfl hb
  | uint n =>
    cases n with
    | zero => cases h
    | succ n => exact ⟨n + 1, false, rfl, by omega, by cases h; rfl⟩
  | int n =>
    cases n with
    | zero => cases h
    | succ n => exact ⟨n + 1, true, rfl, by omega, by cases h; rfl⟩
  | address => exact ⟨160, false, rfl, by omega, by cases h; rfl⟩
  | contract c => exact ⟨160, false, rfl, by omega, by cases h; rfl⟩
  | fixedBytes n =>
    cases n with
    | zero => cases h
    | succ n =>
      refine ⟨(n + 1) * 8, false, rfl, by omega, ?_⟩
      cases h
      simp only [window, Bool.false_eq_true, if_false, Nat.mul_comm]
  | array | mapping | struct | tuple | void => cases h

theorem valueRange_of_beq {p : Int × Int} (h : valueRange src = some p) (heq : (src == dst) = true) :
    valueRange dst = some p := by
  have hbeq : TypeName.beq src dst = true := heq
  cases src <;> cases dst <;> simp_all [TypeName.beq, valueRange]

theorem two_le_pow {k : Nat} (hk : 0 < k) : (2 : Int) ≤ 2 ^ k := by
  simpa using pow_le_pow_right₀ (by decide : (1 : Int) ≤ 2) hk

theorem bool_window {p : Int × Int} (h : valueRange t = some p) (ht : t ≠ .int 1) :
    p.1 ≤ 0 ∧ 2 ≤ p.2 := by
  cases t with
  | bool => cases h; exact ⟨le_refl _, le_refl _⟩
  | uint n =>
    cases n with
    | zero => cases h
    | succ n => cases h; exact ⟨le_refl _, two_le_pow (by omega)⟩
  | int n =>
    cases n with
    | zero => cases h
    | succ n =>
      have hn : 0 < n := by
        rcases Nat.eq_zero_or_pos n with rfl | hn
        · exact absurd rfl ht
        · exact hn
      cases h
      have := two_le_pow hn
      exact ⟨by omega, this⟩
  | address => cases h; exact ⟨le_refl _, two_le_pow (by omega)⟩
  | contract c => cases h; exact ⟨le_refl _, two_le_pow (by omega)⟩
  | fixedBytes n =>
    cases n with
    | zero => cases h
    | succ n => cases h; exact ⟨le_refl _, two_le_pow (by omega)⟩
  | array | mapping | struct | tuple | void => cases h

theorem fits_cases (h : fits src dst = true) :
    (src == dst) = true ∨ src = .bool ∨
      ∃ m s n s', width src = some (m, s) ∧ width dst = some (n, s') ∧ Widens m s n s' := by
  unfold fits at h
  split at h
  · exact .inl ‹_›
  · split at h
    · exact .inr (.inl rfl)
    · -- equal byte lengths are equal types
      rename_i m n _
      have hmn : m = n := by simpa using h
      subst hmn
      exact .inl (by simp [BEq.beq, TypeName.beq])
    · -- the three widenings; the last branch refuses
      split at h <;> simp only [Bool.false_eq_true, decide_eq_true_eq] at h
      all_goals exact .inr (.inr ⟨_, _, _, _, ‹_›, ‹_›, by simp [Widens, h]⟩)

theorem window_le {m n : Nat} {s s' : Bool} (hm : 0 < m) (h : Widens m s n s') :
    (window n s').1 ≤ (window m s).1 ∧ (window m s).2 ≤ (window n s').2 := by
  have mono : ∀ {i j : Nat}, i ≤ j → (2 : Int) ^ i ≤ 2 ^ j :=
    fun hij => pow_le_pow_right₀ (by decide) hij
  rcases h with ⟨rfl, rfl, h⟩ | ⟨rfl, rfl, h⟩ | ⟨rfl, rfl, h⟩
  · exact ⟨le_refl _, mono h⟩
  · have hpos : (0 : Int) ≤ 2 ^ (n - 1) := pow_nonneg (by decide) _
    exact ⟨by simp only [window, if_true, Bool.false_eq_true, if_false]; omega, mono (by omega)⟩
  · have := mono (show m - 1 ≤ n - 1 by omega)
    exact ⟨by simp only [window, if_true]; omega, this⟩

theorem fits_inRange (hfit : fits src dst = true) (hd : (valueRange dst).isSome)
    (hb : src = .bool → dst ≠ .int 1) (hx : InRange src x) : InRange dst x := by
  obtain ⟨lo, hi, hs, hx⟩ := hx
  obtain ⟨p', hd'⟩ := Option.isSome_iff_exists.mp hd
  rw [inRange_iff hd']
  rcases fits_cases hfit with heq | rfl | ⟨m, s, n, s', hws, hwd, hw⟩
  · rw [valueRange_of_beq hs heq] at hd'
    cases hd'
    exact hx
  · cases hs
    have := bool_window hd' (hb rfl)
    omega
  · have hsb : src ≠ .bool := by rintro rfl; cases hws
    have hdb : dst ≠ .bool := by rintro rfl; cases hwd
    obtain ⟨m', s₁, hw₁, hm, hp⟩ := valueRange_eq_window hs hsb
    obtain ⟨n', s₂, hw₂, -, hp'⟩ := valueRange_eq_window hd' hdb
    rw [hws] at hw₁
    rw [hwd] at hw₂
    cases hw₁
    cases hw₂
    have := window_le hm hw
    rw [← hp, ← hp'] at this
    simp only at this
    omega

theorem maskValue_eq_self_iff (ht : (valueRange t).isSome) (hb : t ≠ .bool) :
    maskValue t x = x ↔ InRange t x := by
  obtain ⟨p, hp⟩ := Option.isSome_iff_exists.mp ht
  obtain ⟨bits, signed, hw, hpos, rfl⟩ := valueRange_eq_window hp hb
  rw [inRange_iff hp]
  obtain ⟨k, rfl⟩ : ∃ k, bits = k + 1 := ⟨bits - 1, by omega⟩
  unfold maskValue
  rw [hw]
  cases signed
  · simpa [window, eq_comm] using (Word.eq_truncate_iff (r := x) (v := x) (b := k + 1))
  · simpa [window, eq_comm] using (Word.eq_signExtend_iff (r := x) (v := x) (b := k))

theorem maskValue_of_fits (hfit : fits src dst = true) (hd : (valueRange dst).isSome)
    (hbd : dst ≠ .bool) (hb : src = .bool → dst ≠ .int 1) (hx : InRange src x) :
    maskValue dst x = x :=
  (maskValue_eq_self_iff hd hbd).mpr (fits_inRange hfit hd hb hx)

/-- The value types a source can declare: integers whose width is a multiple of eight, from 8 to
256 bits, byte strings of 1 to 32 bytes, addresses, contracts and `bool`. -/
def Declarable : TypeName → Prop
  | .bool | .address | .contract _ => True
  | .uint n | .int n => 0 < n ∧ n ≤ 256 ∧ n % 8 = 0
  | .fixedBytes n => 0 < n ∧ n ≤ 32
  | _ => False

theorem Declarable.valueRange_isSome (h : Declarable t) : (valueRange t).isSome := by
  cases t with
  | uint n | int n | fixedBytes n =>
    obtain ⟨hn, -⟩ := h
    obtain ⟨k, rfl⟩ : ∃ k, n = k + 1 := ⟨n - 1, by omega⟩
    rfl
  | bool | address | contract => rfl
  | array | mapping | struct | tuple | void => exact h.elim

theorem Declarable.ne_int_one (h : Declarable t) : t ≠ .int 1 := by
  rintro rfl
  exact absurd h.2.2 (by decide)

/-- The masking primitives are the two residues modulo `2 ^ b`, both idempotent, and between the
value types a source declares, a type that fits into another has its values among the other's. -/
theorem masking_and_fits_exact :
    (∀ (v r : Int) (b : Nat), r = Word.truncate v b ↔ 0 ≤ r ∧ r < 2 ^ b ∧ r ≡ v [ZMOD 2 ^ b]) ∧
    (∀ (v r : Int) (b : Nat),
      r = Word.signExtend v (b + 1) ↔ -2 ^ b ≤ r ∧ r < 2 ^ b ∧ r ≡ v [ZMOD 2 ^ (b + 1)]) ∧
    (∀ (v : Int) (b : Nat), Word.truncate (Word.truncate v b) b = Word.truncate v b ∧
      Word.signExtend (Word.signExtend v (b + 1)) (b + 1) = Word.signExtend v (b + 1) ∧
      Word.signExtend (Word.truncate v (b + 1)) (b + 1) = Word.signExtend v (b + 1)) ∧
    (∀ src dst : TypeName, Declarable src → Declarable dst → fits src dst = true →
      ∀ x, InRange src x → InRange dst x) := by
  refine ⟨fun v r b => Word.eq_truncate_iff, fun v r b => Word.eq_signExtend_iff,
    fun v b => ⟨Word.truncate_truncate v b, Word.signExtend_signExtend v b, Word.signExtend_truncate v b⟩,
    fun src dst hs hd hfit x hx => ?_⟩
  exact fits_inRange hfit hd.valueRange_isSome (fun _ => hd.ne_int_one) hx

end ContractCfg.Lower
