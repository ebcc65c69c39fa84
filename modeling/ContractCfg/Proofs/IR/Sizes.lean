import Mathlib.Logic.Relation
import Mathlib.Data.List.Forall2
import Mathlib.Data.List.Perm.Subperm
import Mathlib.Algebra.BigOperators.Group.List.Basic
import Mathlib.Algebra.Ring.Nat
import ContractCfg.IR.Type
import ContractCfg.Proofs.OrderedMap

/-!
Storage sizes of the struct registry. A struct lies inline in storage, its fields one after
another, each taking the slots of its type; a static array takes its length times its element,
everything else one slot. Sizes are computed with fuel, one unit per struct expanded: the
registry's fuel suffices for every struct whose layout is finite, that is, no struct lying inline
in it lies inline in itself (`storageSize_isSome`). Sizes and offsets are 64-bit words, so their
sums wrap around at `slotModulus` (`struct_layout`); while the fields of a struct sum below it,
they partition the struct's slots in field order (`struct_layout_partition`).
-/

namespace ContractCfg.IR

namespace Ty

/-- The structs a value of the type holds in its own slots: a struct itself, or the elements
of a static array. Dynamic arrays and mappings keep their contents elsewhere. -/
def inlineStructs : Ty → List Nat
  | .struct id => [id]
  | .array e (some _) => inlineStructs e
  | _ => []

end Ty

namespace TypeRegistry

open Relation

variable (reg : TypeRegistry)

/-- Struct `b` lies in the slots of struct `a`: a field of `a` holds it inline. -/
def Inlines (a b : Nat) : Prop :=
  ∃ d, reg.get? a = some d ∧ ∃ f ∈ d.fields, b ∈ f.2.inlineStructs

/-- The storage layout of struct `a` is finite: no struct lying inline in it, `a` included, lies
inline in itself. Recursion through dynamic arrays and mappings is allowed. -/
def FiniteLayout (a : Nat) : Prop :=
  ∀ b, ReflTransGen reg.Inlines a b → ¬ TransGen reg.Inlines b b

variable {reg}

theorem sizeWith_struct_none {id : Nat} (h : reg.get? id = none) (fuel : Nat) :
    sizeWith reg fuel (.struct id) = some 1 := by
  unfold sizeWith
  rw [h]

theorem sizeWith_struct_zero {id : Nat} {d : StructDef} (h : reg.get? id = some d) :
    sizeWith reg 0 (.struct id) = none := by
  unfold sizeWith
  rw [h]

theorem sizeWith_struct_succ {id : Nat} {d : StructDef} (h : reg.get? id = some d) (fuel : Nat) :
    sizeWith reg (fuel + 1) (.struct id) = (fieldsSize reg fuel d.fields).map (max 1) := by
  unfold sizeWith
  rw [h]

theorem sizeWith_array (fuel : Nat) (e : Ty) (n : Nat) :
    sizeWith reg fuel (.array e (some n)) = (sizeWith reg fuel e).map (elementOffset n) := by
  rw [sizeWith.eq_def]

theorem sizeWith_of_flat {t : Ty} (ht : ∀ id, t ≠ .struct id) (ha : ∀ e n, t ≠ .array e (some n))
    (fuel : Nat) : sizeWith reg fuel t = some 1 := by
  cases t with
  | struct id => exact absurd rfl (ht id)
  | array e len =>
    cases len with
    | none => unfold sizeWith; rfl
    | some n => exact absurd rfl (ha e n)
  | _ => unfold sizeWith; rfl

theorem fieldsSize_nil (fuel : Nat) : fieldsSize reg fuel [] = some 0 := by
  rw [fieldsSize]

theorem fieldsSize_cons (fuel : Nat) (name : String) (t : Ty) (fs : List (String × Ty)) :
    fieldsSize reg fuel ((name, t) :: fs) = (sizeWith reg fuel t).bind fun a =>
      (fieldsSize reg fuel fs).bind fun b => some ((a + b) % slotModulus) := by
  rw [fieldsSize]
  rfl

theorem fieldsSize_of_forall₂ {fuel : Nat} {fs : List (String × Ty)} {ns : List Nat}
    (h : List.Forall₂ (fun f n => sizeWith reg fuel f.2 = some n) fs ns) :
    fieldsSize reg fuel fs = some (ns.sum % slotModulus) := by
  induction h with
  | nil => rw [fieldsSize_nil]; rfl
  | @cons f n fs ns hf _ ih =>
    obtain ⟨name, t⟩ := f
    rw [fieldsSize_cons, hf, Option.bind_some, ih, Option.bind_some, List.sum_cons,
      Nat.add_mod_mod]

theorem exists_forall₂_of_isSome {fuel : Nat} :
    ∀ {fs : List (String × Ty)}, (∀ f ∈ fs, (sizeWith reg fuel f.2).isSome) →
      ∃ ns, List.Forall₂ (fun f n => sizeWith reg fuel f.2 = some n) fs ns
  | [], _ => ⟨[], .nil⟩
  | f :: fs, h => by
    obtain ⟨n, hn⟩ := Option.isSome_iff_exists.mp (h f List.mem_cons_self)
    obtain ⟨ns, hns⟩ := exists_forall₂_of_isSome fun g hg => h g (List.mem_cons_of_mem f hg)
    exact ⟨n :: ns, .cons hn hns⟩

section Fuel

variable {fuel : Nat}

theorem fieldsSize_succ_of (hs : ∀ t n, sizeWith reg fuel t = some n → sizeWith reg (fuel + 1) t = some n) :
    ∀ {fs : List (String × Ty)} {n : Nat}, fieldsSize reg fuel fs = some n →
      fieldsSize reg (fuel + 1) fs = some n
  | [], n, h => by rwa [fieldsSize_nil] at h ⊢
  | (name, t) :: fs, n, h => by
    rw [fieldsSize_cons] at h ⊢
    obtain ⟨a, ha, h⟩ := Option.bind_eq_some_iff.mp h
    obtain ⟨b, hb, h⟩ := Option.bind_eq_some_iff.mp h
    rw [hs t a ha, Option.bind_some, fieldsSize_succ_of hs hb, Option.bind_some, h]

theorem sizeWith_succ_of_some : ∀ (fuel : Nat) (t : Ty) (n : Nat), sizeWith reg fuel t = some n →
    sizeWith reg (fuel + 1) t = some n := by
  intro fuel
  induction fuel with
  | zero =>
    intro t
    -- with no fuel only types holding no registered struct have a size
    induction t with
    | struct id =>
      intro n h
      cases hd : reg.get? id with
      | none => rwa [sizeWith_struct_none hd] at h ⊢
      | some d => rw [sizeWith_struct_zero hd] at h; cases h
    | array e len ih =>
      cases len with
      | none => intro n h; rwa [sizeWith_of_flat (by simp) (by simp)] at h ⊢
      | some k =>
        intro n h
        rw [sizeWith_array] at h ⊢
        obtain ⟨a, ha, rfl⟩ := Option.map_eq_some_iff.mp h
        rw [ih a ha]
        rfl
    | _ => intro n h; rwa [sizeWith_of_flat (by simp) (by simp)] at h ⊢
  | succ fuel ihf =>
    intro t
    induction t with
    | struct id =>
      intro n h
      cases hd : reg.get? id with
      | none => rwa [sizeWith_struct_none hd] at h ⊢
      | some d =>
        rw [sizeWith_struct_succ hd] at h ⊢
        obtain ⟨a, ha, rfl⟩ := Option.map_eq_some_iff.mp h
        rw [fieldsSize_succ_of ihf ha]
        rfl
    | array e len ih =>
      cases len with
      | none => intro n h; rwa [sizeWith_of_flat (by simp) (by simp)] at h ⊢
      | some k =>
        intro n h
        rw [sizeWith_array] at h ⊢
        obtain ⟨a, ha, rfl⟩ := Option.map_eq_some_iff.mp h
        rw [ih a ha]
        rfl
    | _ => intro n h; rwa [sizeWith_of_flat (by simp) (by simp)] at h ⊢

theorem fieldsSize_succ {fs : List (String × Ty)} {n : Nat} (h : fieldsSize reg fuel fs = some n) :
    fieldsSize reg (fuel + 1) fs = some n :=
  fieldsSize_succ_of (sizeWith_succ_of_some fuel) h

end Fuel

section Adequacy

variable {root : Nat}

/-- Expanding inside struct `root`, with the distinct registered structs `V` open around a type
holding the structs `xs` inline: each of `V` holds them, and `root` reaches them. -/
structure Expanding (reg : TypeRegistry) (root : Nat) (V xs : List Nat) : Prop where
  nodup : V.Nodup
  registered : ∀ v ∈ V, v ∈ reg.structs.keys
  holds : ∀ v ∈ V, ∀ x ∈ xs, TransGen reg.Inlines v x
  reached : ∀ x ∈ xs, ReflTransGen reg.Inlines root x

theorem mem_keys_of_get? {id : Nat} {d : StructDef} (h : reg.get? id = some d) :
    id ∈ reg.structs.keys := by
  rw [← OrderedMap.contains_iff_mem_keys, OrderedMap.contains_eq]
  exact Option.isSome_iff_exists.mpr ⟨d, h⟩

theorem keys_length (reg : TypeRegistry) : reg.structs.keys.length = reg.structs.size := by
  simp [OrderedMap.keys, OrderedMap.size]

theorem Expanding.start (root : Nat) : reg.Expanding root [] [root] where
  nodup := List.nodup_nil
  registered := by simp
  holds := by simp
  reached x hx := List.mem_singleton.mp hx ▸ .refl

theorem Expanding.enter (hfin : reg.FiniteLayout root) {V : List Nat} {id : Nat} {d : StructDef}
    (hV : reg.Expanding root V [id]) (hd : reg.get? id = some d) :
    V.length + 1 ≤ reg.structs.size ∧
      ∀ f ∈ d.fields, reg.Expanding root (id :: V) f.2.inlineStructs := by
  have hroot : ReflTransGen reg.Inlines root id := hV.reached id List.mem_cons_self
  have hnot : id ∉ V := fun hid => hfin id hroot (hV.holds id hid id List.mem_cons_self)
  have hnodup : (id :: V).Nodup := List.nodup_cons.mpr ⟨hnot, hV.nodup⟩
  have hreg : ∀ v ∈ id :: V, v ∈ reg.structs.keys := by
    intro v hv
    rcases List.mem_cons.mp hv with rfl | hv
    · exact mem_keys_of_get? hd
    · exact hV.registered v hv
  -- the open structs are distinct keys of the registry
  have hlen : (id :: V).length ≤ reg.structs.size :=
    (keys_length reg) ▸ (hnodup.subperm hreg).length_le
  refine ⟨hlen, fun f hf => ⟨hnodup, hreg, ?_, ?_⟩⟩
  · intro v hv x hx
    have hstep : reg.Inlines id x := ⟨d, hd, f, hf, hx⟩
    rcases List.mem_cons.mp hv with rfl | hv
    · exact .single hstep
    · exact .tail (hV.holds v hv id List.mem_cons_self) hstep
  · intro x hx
    exact .tail hroot ⟨d, hd, f, hf, hx⟩

theorem fieldsSize_isSome_of {fuel : Nat} {V : List Nat}
    (hs : ∀ t, reg.Expanding root V t.inlineStructs → (sizeWith reg fuel t).isSome) :
    ∀ {fs : List (String × Ty)}, (∀ f ∈ fs, reg.Expanding root V f.2.inlineStructs) →
      (fieldsSize reg fuel fs).isSome
  | [], _ => by rw [fieldsSize_nil]; rfl
  | (name, t) :: fs, h => by
    obtain ⟨a, ha⟩ := Option.isSome_iff_exists.mp (hs t (h _ List.mem_cons_self))
    obtain ⟨b, hb⟩ := Option.isSome_iff_exists.mp
      (fieldsSize_isSome_of hs fun f hf => h f (List.mem_cons_of_mem _ hf))
    rw [fieldsSize_cons, ha, Option.bind_some, hb, Option.bind_some]
    rfl

theorem sizeWith_isSome_of (hfin : reg.FiniteLayout root) :
    ∀ (fuel : Nat) (t : Ty) (V : List Nat), reg.Expanding root V t.inlineStructs →
      reg.structs.size + 1 ≤ V.length + fuel → (sizeWith reg fuel t).isSome := by
  intro fuel
  induction fuel with
  | zero =>
    intro t
    induction t with
    | struct id =>
      intro V hV hfuel
      cases hd : reg.get? id with
      | none => rw [sizeWith_struct_none hd]; rfl
      | some d =>
        -- one struct more open than the registry holds
        have := (Expanding.enter hfin hV hd).1
        omega
    | array e len ih =>
      intro V hV hfuel
      cases len with
      | none => rw [sizeWith_of_flat (by simp) (by simp)]; rfl
      | some k =>
        rw [sizeWith_array, Option.isSome_map]
        exact ih V hV hfuel
    | _ => intro V _ _; rw [sizeWith_of_flat (by simp) (by simp)]; rfl
  | succ fuel ihf =>
    intro t
    induction t with
    | struct id =>
      intro V hV hfuel
      cases hd : reg.get? id with
      | none => rw [sizeWith_struct_none hd]; rfl
      | some d =>
        obtain ⟨-, hfields⟩ := Expanding.enter hfin hV hd
        rw [sizeWith_struct_succ hd, Option.isSome_map]
        refine fieldsSize_isSome_of (fun t ht => ihf t _ ht ?_) hfields
        simp only [List.length_cons]
        omega
    | array e len ih =>
      intro V hV hfuel
      cases len with
      | none => rw [sizeWith_of_flat (by simp) (by simp)]; rfl
      | some k =>
        rw [sizeWith_array, Option.isSome_map]
        exact ih V hV hfuel
    | _ => intro V _ _; rw [sizeWith_of_flat (by simp) (by simp)]; rfl

theorem field_storageSize_isSome {id : Nat} {d : StructDef} (hd : reg.get? id = some d)
    (hfin : reg.FiniteLayout id) : ∀ f ∈ d.fields, (reg.storageSize f.2).isSome := fun f hf =>
  sizeWith_isSome_of hfin _ _ _ ((Expanding.enter hfin (Expanding.start id) hd).2 f hf)
    (by simp [depthBound])

theorem storageSize_isSome {id : Nat} (hfin : reg.FiniteLayout id) :
    (reg.storageSize (.struct id)).isSome :=
  sizeWith_isSome_of hfin _ _ _ (Expanding.start id) (by simp [depthBound])

end Adequacy

theorem sum_take_le_sum_take (ns : List Nat) {i j : Nat} (hij : i ≤ j) :
    (ns.take i).sum ≤ (ns.take j).sum := by
  have h := List.sum_take_add_sum_drop (ns.take j) i
  rw [List.take_take, Nat.min_eq_left hij] at h
  omega

theorem take_sum_add_le {ns : List Nat} {i j : Nat} (hij : i < j) (hj : j ≤ ns.length) :
    (ns.take i).sum + ns[i] ≤ (ns.take j).sum := by
  rw [← List.sum_take_succ ns i (by omega)]
  exact sum_take_le_sum_take ns hij

theorem struct_layout {id : Nat} {d : StructDef} (hd : reg.get? id = some d)
    (hfin : reg.FiniteLayout id) :
    ∃ ns, List.Forall₂ (fun f n => reg.storageSize f.2 = some n) d.fields ns ∧
      reg.storageSize (.struct id) = some (max 1 (ns.sum % slotModulus)) ∧
      ∀ i, reg.storageFieldOffset id i =
        if i < ns.length then some (some ((ns.take i).sum % slotModulus)) else some none := by
  obtain ⟨ns, hns⟩ := exists_forall₂_of_isSome (field_storageSize_isSome hd hfin)
  have hlen := hns.length_eq
  refine ⟨ns, hns, ?_, fun i => ?_⟩
  · -- the struct expands its fields with one unit of fuel less, which computes the same sizes
    obtain ⟨s, hs⟩ := Option.isSome_iff_exists.mp (storageSize_isSome hfin)
    have hs' := hs
    rw [storageSize, depthBound, sizeWith_struct_succ hd] at hs'
    obtain ⟨a, ha, rfl⟩ := Option.map_eq_some_iff.mp hs'
    have hsum : fieldsSize reg (reg.structs.size + 1) d.fields = some (ns.sum % slotModulus) :=
      fieldsSize_of_forall₂ hns
    rw [fieldsSize_succ ha] at hsum
    rw [hs, Option.some.inj hsum]
  · unfold storageFieldOffset
    rw [hd]
    dsimp only
    rw [hlen]
    split
    · rw [fieldsSize_of_forall₂ (List.forall₂_take i hns)]
      rfl
    · rfl

theorem eq_of_forall₂_storageSize {fs : List (String × Ty)} {ns ns' : List Nat}
    (h : List.Forall₂ (fun f n => reg.storageSize f.2 = some n) fs ns)
    (h' : List.Forall₂ (fun f n => reg.storageSize f.2 = some n) fs ns') : ns = ns' := by
  induction h generalizing ns' with
  | nil => cases h'; rfl
  | cons hf _ ih =>
    cases h' with
    | cons hf' h' =>
      rw [hf] at hf'
      cases hf'
      rw [ih h']

theorem struct_layout_partition {id : Nat} {d : StructDef} (hd : reg.get? id = some d)
    (hfin : reg.FiniteLayout id) {ns : List Nat}
    (hns : List.Forall₂ (fun f n => reg.storageSize f.2 = some n) d.fields ns)
    (hsum : ns.sum < slotModulus) :
    reg.storageSize (.struct id) = some (max 1 ns.sum) ∧
      (∀ i < ns.length, reg.storageFieldOffset id i = some (some (ns.take i).sum)) ∧
      (∀ i ≥ ns.length, reg.storageFieldOffset id i = some none) ∧
      (∀ i j (hij : i < j) (hj : j < ns.length), (ns.take i).sum + ns[i] ≤ (ns.take j).sum) ∧
      (∀ i (hi : i < ns.length), (ns.take i).sum + ns[i] ≤ max 1 ns.sum) := by
  obtain ⟨ns', hns', hsize, hoff⟩ := struct_layout hd hfin
  obtain rfl := eq_of_forall₂_storageSize hns' hns
  have hbefore : ∀ i, (ns'.take i).sum ≤ ns'.sum := fun i => by
    have := sum_take_le_sum_take ns' (Nat.le_max_left i ns'.length)
    rwa [List.take_of_length_le (Nat.le_max_right i ns'.length)] at this
  refine ⟨by rw [hsize, Nat.mod_eq_of_lt hsum], fun i hi => ?_, fun i hi => ?_,
    fun i j hij hj => take_sum_add_le hij (Nat.le_of_lt hj), fun i hi => ?_⟩
  · rw [hoff, if_pos hi, Nat.mod_eq_of_lt (Nat.lt_of_le_of_lt (hbefore i) hsum)]
  · rw [hoff, if_neg (Nat.not_lt.mpr hi)]
  · rw [← List.sum_take_succ ns' i hi]
    exact Nat.le_trans (hbefore _) (Nat.le_max_right _ _)

/-- A struct of two fields of `2 ^ 63` slots each. -/
def wideStruct : StructDef :=
  ⟨"S", [("a", .array (.uint 256) (some (Nat.pow 2 63))), ("b", .array (.uint 256) (some (Nat.pow 2 63)))]⟩

/-- The registry holding only `wideStruct`. -/
def wideFields : TypeRegistry := ⟨⟨#[(0, wideStruct)]⟩⟩

theorem wideFields_wraps :
    wideFields.storageSize (.struct 0) = some 1 ∧
      wideFields.storageFieldOffset 0 1 = some (some (Nat.pow 2 63)) := by
  have hd : wideFields.get? 0 = some wideStruct := rfl
  have helem : ∀ fuel, sizeWith wideFields fuel (.array (.uint 256) (some (Nat.pow 2 63))) =
      some (Nat.pow 2 63) := fun fuel => by
    rw [sizeWith_array, sizeWith_of_flat (by simp) (by simp)]
    rfl
  have hfields : ∀ fuel, List.Forall₂ (fun f n => sizeWith wideFields fuel f.2 = some n)
      wideStruct.fields [Nat.pow 2 63, Nat.pow 2 63] := fun fuel =>
    .cons (helem fuel) (.cons (helem fuel) .nil)
  constructor
  · rw [storageSize, depthBound, sizeWith_struct_succ hd, fieldsSize_of_forall₂ (hfields _)]
    rfl
  · unfold storageFieldOffset
    rw [hd]
    dsimp only
    rw [if_pos (by decide), fieldsSize_of_forall₂ (List.forall₂_take 1 (hfields _))]
    rfl

end TypeRegistry

end ContractCfg.IR
