import ContractCfg.Lower.Unit
import Mathlib.Logic.Relation
import Mathlib.Data.Fintype.Card
import Mathlib.Data.Fintype.Sets
import Mathlib.Data.Fintype.EquivFin
import Mathlib.Order.WellFounded

/-!
The order in which compiled contracts are written out: each one after the contracts it creates.
Passes over the pending contracts place, in map order, every contract whose dependencies are all
named by placed contracts, the contracts placed earlier in the same pass included. When a pass
places nothing, the pending contracts follow in map order. Every contract is written exactly
once, at most one pass more than there are contracts is needed, and when names are distinct and
the dependencies name contracts of the map without a cycle, nothing is left pending, so each
contract follows every contract it creates.
-/

namespace ContractCfg.Lower

open IR Relation

/-- Every dependency of `c` is the name of a placed contract. -/
def Placeable (placed : List Contract) (c : Contract) : Prop :=
  ∀ d ∈ c.dependencies, ∃ p ∈ placed, p.name = d

theorem placeable_iff {placed : List Contract} {c : Contract} :
    (c.dependencies.all fun d => placed.any (·.name == d)) = true ↔ Placeable placed c := by
  simp [Placeable]

/-- Each contract of the list follows contracts that name all of its dependencies. -/
inductive PlacementOrder : List Contract → Prop
  | nil : PlacementOrder []
  | snoc {placed : List Contract} {c : Contract} :
      PlacementOrder placed → Placeable placed c → PlacementOrder (placed ++ [c])

theorem PlacementOrder.earlier {l : List Contract} (h : PlacementOrder l) :
    ∀ (i : Nat) (hi : i < l.length), ∀ d ∈ l[i].dependencies, ∃ (j : Nat) (hj : j < i), l[j].name = d := by
  induction h with
  | nil => intro i hi; simp at hi
  | @snoc placed c _ hc ih =>
    intro i hi d hd
    by_cases hlt : i < placed.length
    · rw [List.getElem_append_left hlt] at hd
      obtain ⟨j, hji, hj⟩ := ih i hlt d hd
      exact ⟨j, hji, by rw [List.getElem_append_left (by omega)]; exact hj⟩
    · have hi' : i = placed.length := by simp at hi; omega
      subst hi'
      rw [List.getElem_append_right (by omega)] at hd
      obtain ⟨p, hp, rfl⟩ := hc d (by simpa using hd)
      obtain ⟨j, hj, rfl⟩ := List.getElem_of_mem hp
      exact ⟨j, hj, by rw [List.getElem_append_left hj]⟩

theorem placeReady_cons_of_ready {placed : List Contract} {c : Contract} (cs : List Contract)
    (h : Placeable placed c) : placeReady placed (c :: cs) = placeReady (placed ++ [c]) cs := by
  simp [placeReady, placeable_iff.mpr h]

theorem placeReady_cons_of_not_ready {placed : List Contract} {c : Contract} (cs : List Contract)
    (h : ¬ Placeable placed c) :
    placeReady placed (c :: cs) = ((placeReady placed cs).1, c :: (placeReady placed cs).2) := by
  have : (c.dependencies.all fun d => placed.any (·.name == d)) = false :=
    Bool.eq_false_iff.mpr fun h' => h (placeable_iff.mp h')
  simp only [placeReady, this]
  rfl

section Pass

variable (placed pending : List Contract)

theorem placeReady_split :
    ∃ taken, (placeReady placed pending).1 = placed ++ taken ∧
      (taken ++ (placeReady placed pending).2).Perm pending := by
  induction pending generalizing placed with
  | nil => exact ⟨[], by simp [placeReady], by simp [placeReady]⟩
  | cons c cs ih =>
    by_cases h : Placeable placed c
    · obtain ⟨taken, h1, h2⟩ := ih (placed ++ [c])
      rw [placeReady_cons_of_ready cs h]
      exact ⟨c :: taken, by simp [h1], List.Perm.cons c h2⟩
    · obtain ⟨taken, h1, h2⟩ := ih placed
      rw [placeReady_cons_of_not_ready cs h]
      exact ⟨taken, h1, List.perm_middle.trans (List.Perm.cons c h2)⟩

theorem placeReady_sublist : (placeReady placed pending).2.Sublist pending := by
  induction pending generalizing placed with
  | nil => simp [placeReady]
  | cons c cs ih =>
    by_cases h : Placeable placed c
    · rw [placeReady_cons_of_ready cs h]
      exact (ih _).cons c
    · rw [placeReady_cons_of_not_ready cs h]
      exact (ih _).cons_cons c

theorem PlacementOrder.placeReady {placed : List Contract} (h : PlacementOrder placed) (pending : List Contract) :
    PlacementOrder (Lower.placeReady placed pending).1 := by
  induction pending generalizing placed with
  | nil => simpa [Lower.placeReady] using h
  | cons c cs ih =>
    by_cases hc : Placeable placed c
    · rw [placeReady_cons_of_ready cs hc]
      exact ih (h.snoc hc)
    · rw [placeReady_cons_of_not_ready cs hc]
      exact ih h

theorem placeReady_progress {c : Contract} (hc : c ∈ pending) (hr : Placeable placed c) :
    (placeReady placed pending).2.length < pending.length := by
  induction pending generalizing placed with
  | nil => simp at hc
  | cons c' cs ih =>
    by_cases h : Placeable placed c'
    · rw [placeReady_cons_of_ready cs h]
      have := (placeReady_sublist (placed ++ [c']) cs).length_le
      simp only [List.length_cons]
      omega
    · rw [placeReady_cons_of_not_ready cs h]
      have hmem : c ∈ cs := by
        rcases List.mem_cons.mp hc with rfl | hmem
        · exact absurd hr h
        · exact hmem
      simpa using ih placed hmem hr

theorem placeReady_stalled (h : (placeReady placed pending).2.length = pending.length) :
    placeReady placed pending = (placed, pending) ∧ ∀ c ∈ pending, ¬ Placeable placed c := by
  have hkept : (placeReady placed pending).2 = pending :=
    (placeReady_sublist placed pending).eq_of_length h
  obtain ⟨taken, h1, h2⟩ := placeReady_split placed pending
  have htaken : taken = [] := by
    have := h2.length_eq
    simp only [List.length_append, h] at this
    exact List.eq_nil_of_length_eq_zero (by omega)
  refine ⟨Prod.ext (by simp [h1, htaken]) hkept, fun c hc hr => ?_⟩
  have := placeReady_progress placed pending hc hr
  omega

end Pass

theorem creationOrdered_go_succ (fuel : Nat) (placed pending : List Contract) :
    creationOrdered.go (fuel + 1) placed pending =
      if pending.isEmpty then placed
      else if (placeReady placed pending).2.length == pending.length then
        (placeReady placed pending).1 ++ (placeReady placed pending).2
      else creationOrdered.go fuel (placeReady placed pending).1 (placeReady placed pending).2 :=
  rfl

theorem creationOrdered_go_fuel {fuel fuel' : Nat} {placed pending : List Contract}
    (h : pending.length < fuel) (h' : pending.length < fuel') :
    creationOrdered.go fuel placed pending = creationOrdered.go fuel' placed pending := by
  induction fuel generalizing fuel' placed pending with
  | zero => omega
  | succ fuel ih =>
    obtain ⟨fuel', rfl⟩ : ∃ k, fuel' = k + 1 := ⟨fuel' - 1, by omega⟩
    rw [creationOrdered_go_succ, creationOrdered_go_succ]
    split
    · rfl
    · split
      · rfl
      · rename_i hstall
        have hlt : (placeReady placed pending).2.length < pending.length :=
          Nat.lt_of_le_of_ne (placeReady_sublist placed pending).length_le (by simpa using hstall)
        exact @ih fuel' _ _ (by omega) (by omega)

theorem creationOrdered_go_spec {fuel : Nat} {placed pending : List Contract} (hfuel : pending.length < fuel)
    (hord : PlacementOrder placed) :
    ∃ placed' rest, creationOrdered.go fuel placed pending = placed' ++ rest ∧
      PlacementOrder placed' ∧ (placed' ++ rest).Perm (placed ++ pending) ∧ rest.Sublist pending ∧
      ∀ c ∈ rest, ¬ Placeable placed' c := by
  induction fuel generalizing placed pending with
  | zero => omega
  | succ fuel ih =>
    rw [creationOrdered_go_succ]
    obtain ⟨taken, h1, h2⟩ := placeReady_split placed pending
    have hperm : ((placeReady placed pending).1 ++ (placeReady placed pending).2).Perm
        (placed ++ pending) := by
      rw [h1, List.append_assoc]
      exact h2.append_left placed
    split
    · rename_i hempty
      refine ⟨placed, [], by simp, hord, by simp [List.isEmpty_iff.mp hempty], List.nil_sublist _,
        by simp⟩
    · split
      · rename_i hstall
        obtain ⟨hsame, hnone⟩ := placeReady_stalled placed pending (by simpa using hstall)
        rw [hsame]
        exact ⟨placed, pending, rfl, hord, List.Perm.refl _, List.Sublist.refl _, hnone⟩
      · rename_i hstall
        have hlt : (placeReady placed pending).2.length < pending.length :=
          Nat.lt_of_le_of_ne (placeReady_sublist placed pending).length_le (by simpa using hstall)
        obtain ⟨placed', rest, heq, hord', hperm', hsub, hnone⟩ :=
          @ih _ (placeReady placed pending).2 (by omega) (hord.placeReady pending)
        exact ⟨placed', rest, heq, hord', hperm'.trans hperm,
          hsub.trans (placeReady_sublist placed pending), hnone⟩

/-- `a` creates `b`: both are contracts of the map and `a` depends on `b`'s name. -/
def Creates (cs : List Contract) (a b : Contract) : Prop :=
  a ∈ cs ∧ b ∈ cs ∧ b.name ∈ a.dependencies

/-- Every dependency of a contract of the map names a contract of the map. -/
def DependenciesPresent (cs : List Contract) : Prop :=
  ∀ c ∈ cs, ∀ d ∈ c.dependencies, ∃ c' ∈ cs, c'.name = d

/-- No contract of the map creates itself, directly or through others. -/
def CreationAcyclic (cs : List Contract) : Prop :=
  ∀ c, ¬ TransGen (Creates cs) c c

theorem exists_creates_none {cs rest : List Contract} (hacyc : CreationAcyclic cs)
    (hsub : ∀ c ∈ rest, c ∈ cs) (hne : rest ≠ []) :
    ∃ c ∈ rest, ∀ c' ∈ rest, ¬ Creates cs c c' := by
  classical
  let r : {c // c ∈ cs} → {c // c ∈ cs} → Prop := fun a b => TransGen (Creates cs) b.1 a.1
  have : IsTrans _ r := ⟨fun _ _ _ hab hbc => hbc.trans hab⟩
  have : Std.Irrefl r := ⟨fun a h => hacyc a.1 h⟩
  obtain ⟨c₀, hc₀⟩ := List.exists_mem_of_ne_nil rest hne
  obtain ⟨m, hm, hmin⟩ := (Finite.wellFounded_of_trans_of_irrefl r).has_min
    {x | x.1 ∈ rest} ⟨⟨c₀, hsub c₀ hc₀⟩, hc₀⟩
  exact ⟨m.1, hm, fun c' hc' hcr => hmin ⟨c', hsub c' hc'⟩ hc' (TransGen.single hcr)⟩

theorem stalled_empty {cs placed rest : List Contract} (hpres : DependenciesPresent cs)
    (hacyc : CreationAcyclic cs) (hperm : (placed ++ rest).Perm cs)
    (hnone : ∀ c ∈ rest, ¬ Placeable placed c) : rest = [] := by
  have hmem : ∀ c ∈ rest, c ∈ cs := fun c hc => hperm.subset (List.mem_append_right placed hc)
  by_contra hne
  obtain ⟨c, hc, hmin⟩ := exists_creates_none hacyc hmem hne
  refine hnone c hc fun d hd => ?_
  obtain ⟨c', hc', rfl⟩ := hpres c (hmem c hc) d hd
  rcases List.mem_append.mp (hperm.symm.subset hc') with hp | hr
  · exact ⟨c', hp, rfl⟩
  · exact absurd ⟨hmem c hc, hc', hd⟩ (hmin c' hr)

theorem PlacementOrder.dependency_before {l : List Contract} (h : PlacementOrder l)
    (hnames : (l.map (·.name)).Nodup) (i j : Nat) (hi : i < l.length) (hj : j < l.length)
    (hdep : l[j].name ∈ l[i].dependencies) : j < i := by
  obtain ⟨k, hki, hk⟩ := h.earlier i hi _ hdep
  have hkj : k = j :=
    (@List.Nodup.getElem_inj_iff _ _ hnames k (by simp; omega) j (by simpa using hj)).mp
      (by simpa using hk)
  omega

/-- Creation order: the contracts come out as a permutation of the map, after at most one pass
more than there are contracts; they are a ready order followed by the contracts no pass could
place, in map order, none of which is ready after the placed ones; and when names are distinct,
every dependency names a contract of the map and creation is acyclic, every contract follows
each contract it creates. -/
theorem creationOrdered_spec (cs : List Contract) :
    (creationOrdered cs).Perm cs ∧
    (∀ fuel, cs.length < fuel → creationOrdered.go fuel [] cs = creationOrdered cs) ∧
    (∃ placed rest, creationOrdered cs = placed ++ rest ∧ PlacementOrder placed ∧ rest.Sublist cs ∧
      ∀ c ∈ rest, ¬ Placeable placed c) ∧
    ((cs.map (·.name)).Nodup → DependenciesPresent cs → CreationAcyclic cs →
      ∀ (i j : Nat) (hi : i < (creationOrdered cs).length) (hj : j < (creationOrdered cs).length),
        (creationOrdered cs)[j].name ∈ (creationOrdered cs)[i].dependencies → j < i) := by
  obtain ⟨placed, rest, heq, hord, hperm, hsub, hnone⟩ :=
    @creationOrdered_go_spec (cs.length + 1) [] cs (by omega) .nil
  have hout : creationOrdered cs = placed ++ rest := heq
  have hperm' : (creationOrdered cs).Perm cs := by simpa [hout] using hperm
  refine ⟨hperm', fun fuel h => creationOrdered_go_fuel h (by omega),
    ⟨placed, rest, hout, hord, hsub, hnone⟩, fun hnames hpres hacyc => ?_⟩
  have hrest : rest = [] := stalled_empty hpres hacyc (by simpa using hperm) hnone
  subst hrest
  simp only [List.append_nil] at hout
  rw [hout]
  have hnames' : (placed.map (·.name)).Nodup := by
    rw [← hout]
    exact (hperm'.map _).nodup_iff.mpr hnames
  exact hord.dependency_before hnames'

/-- A factory listed before the contract it creates is written after it. -/
example : (creationOrdered [{ name := "Factory", dependencies := ["Child"] }, { name := "Child" }]).map
    (·.name) = ["Child", "Factory"] := by decide

end ContractCfg.Lower
