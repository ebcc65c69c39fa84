import ContractCfg.Lower.Linearize
import Mathlib.Logic.Relation
import Mathlib.Data.List.Basic
import Mathlib.Data.List.Forall2
import Mathlib.Data.List.Perm.Subperm

/-!
C3 linearization. The greedy merge succeeds exactly when the sequences it merges have a common
order: a list without repetitions that holds each of them as a subsequence. What it returns is
such an order, after what it started with. A contract's linearization exists exactly when the
contracts it inherits from, directly or not, all exist, none inherits from itself, and every
merge along the way has a common order; it then starts with the contract, lists each of its
transitive bases once, and keeps every base's linearization and the direct bases, most derived
first, as subsequences.
-/

namespace ContractCfg.Lower

open ContractCfg.Source Relation

/-- The number of elements the sequences hold together. -/
def seqsSize (seqs : List (List Nat)) : Nat := seqs.foldr (fun s n => s.length + n) 0

/-- Sequences with a common order: a list without repetitions holding each as a subsequence. -/
def Consistent (seqs : List (List Nat)) : Prop := ∃ L : List Nat, L.Nodup ∧ ∀ s ∈ seqs, s.Sublist L

/-- One round of the merge takes `h` off the front of the sequences it heads. -/
def dropHead (h : Nat) (s : List Nat) : List Nat := if s.head? == some h then s.tail else s

theorem merge_succ (fuel : Nat) (seqs : List (List Nat)) (acc : List Nat) :
    merge (fuel + 1) seqs acc =
      if (seqs.filter (!·.isEmpty)).isEmpty then some acc.reverse
      else match mergeHead? (seqs.filter (!·.isEmpty)) with
        | none => none
        | some h => merge fuel ((seqs.filter (!·.isEmpty)).map (dropHead h)) (h :: acc) := rfl

theorem foldl_length_add (seqs : List (List Nat)) (k : Nat) :
    seqs.foldl (fun n s => n + s.length) k = k + seqsSize seqs := by
  induction seqs generalizing k with
  | nil => simp [seqsSize]
  | cons s seqs ih => simp [seqsSize, ih]; omega

theorem dropHead_sublist (h : Nat) (s : List Nat) : (dropHead h s).Sublist s := by
  unfold dropHead
  split
  · exact List.tail_sublist s
  · exact List.Sublist.refl s

theorem not_mem_dropHead {h : Nat} {s : List Nat} (ht : h ∉ s.tail) : h ∉ dropHead h s := by
  cases s with
  | nil => simp [dropHead]
  | cons a t =>
    by_cases ha : a = h
    · simpa [dropHead, ha] using ht
    · simp only [List.tail_cons] at ht
      simp [dropHead, ha, Ne.symm ha, ht]

theorem seqsSize_map_dropHead_le (h : Nat) (seqs : List (List Nat)) :
    seqsSize (seqs.map (dropHead h)) ≤ seqsSize seqs := by
  induction seqs with
  | nil => simp [seqsSize]
  | cons s seqs ih =>
    have := (dropHead_sublist h s).length_le
    simp only [seqsSize, List.map_cons, List.foldr_cons] at ih ⊢
    omega

theorem seqsSize_map_dropHead_lt {h : Nat} {seqs : List (List Nat)}
    (hh : ∃ s ∈ seqs, s.head? = some h) : seqsSize (seqs.map (dropHead h)) < seqsSize seqs := by
  induction seqs with
  | nil => simp at hh
  | cons s seqs ih =>
    have hle := (dropHead_sublist h s).length_le
    have hle' := seqsSize_map_dropHead_le h seqs
    simp only [seqsSize, List.map_cons, List.foldr_cons] at hle' ⊢
    obtain ⟨t, ht, hth⟩ := hh
    rcases List.mem_cons.mp ht with rfl | ht
    · -- the first sequence loses its head
      cases t with
      | nil => simp at hth
      | cons a r =>
        simp only [List.head?_cons, Option.some.injEq] at hth
        subst hth
        simp only [dropHead, List.head?_cons, beq_self_eq_true, if_true, List.tail_cons,
          List.length_cons]
        omega
    · have := ih ⟨t, ht, hth⟩
      simp only [seqsSize] at this
      omega

theorem seqsSize_filter_le (seqs : List (List Nat)) (p : List Nat → Bool) :
    seqsSize (seqs.filter p) ≤ seqsSize seqs := by
  induction seqs with
  | nil => simp [seqsSize]
  | cons s seqs ih =>
    simp only [seqsSize] at ih ⊢
    by_cases hp : p s <;> simp [hp] <;> omega

theorem mergeHead?_some {seqs : List (List Nat)} {h : Nat} (hm : mergeHead? seqs = some h) :
    (∃ s ∈ seqs, s.head? = some h) ∧ ∀ s ∈ seqs, h ∉ s.tail := by
  unfold mergeHead? at hm
  have hmem := List.mem_of_find?_eq_some hm
  have hp := List.find?_some hm
  obtain ⟨s, hs, hsh⟩ := List.mem_filterMap.mp hmem
  refine ⟨⟨s, hs, hsh⟩, fun t ht htail => ?_⟩
  have := List.all_eq_true.mp hp t ht
  simp [htail] at this

theorem mergeHead?_none {seqs : List (List Nat)} (hm : mergeHead? seqs = none) {s : List Nat}
    (hs : s ∈ seqs) {h : Nat} (hh : s.head? = some h) : ∃ t ∈ seqs, h ∈ t.tail := by
  unfold mergeHead? at hm
  have := List.find?_eq_none.mp hm h (List.mem_filterMap.mpr ⟨s, hs, hh⟩)
  simpa [List.all_eq_true] using this

theorem idxOf_lt_of_pair_sublist {L : List Nat} (hL : L.Nodup) {a b : Nat}
    (hs : [a, b].Sublist L) : L.idxOf a < L.idxOf b := by
  induction L with
  | nil => simp at hs
  | cons x L ih =>
    have hx : x ∉ L := (List.nodup_cons.mp hL).1
    cases hs with
    | cons _ hs =>
      have ha : a ≠ x := fun h => hx (h ▸ hs.subset (by simp))
      have hb : b ≠ x := fun h => hx (h ▸ hs.subset (by simp))
      rw [List.idxOf_cons_ne L (Ne.symm ha), List.idxOf_cons_ne L (Ne.symm hb)]
      exact Nat.succ_lt_succ (ih (List.nodup_cons.mp hL).2 hs)
    | cons_cons _ hs =>
      -- `x` is `a` itself
      have hb : b ≠ a := fun h => hx (h ▸ hs.subset (by simp))
      rw [List.idxOf_cons_self, List.idxOf_cons_ne L (Ne.symm hb)]
      exact Nat.succ_pos _

theorem mergeHead?_isSome {L : List Nat} (hL : L.Nodup) {seqs : List (List Nat)}
    (hsub : ∀ s ∈ seqs, s.Sublist L) {s : List Nat} (hs : s ∈ seqs) (hne : s ≠ []) :
    (mergeHead? seqs).isSome := by
  cases hm : mergeHead? seqs with
  | some _ => rfl
  | none =>
    exfalso
    -- no head at position `n` of the common order can exist, by strong induction on `n`
    have key : ∀ n, ∀ h, (∃ t ∈ seqs, t.head? = some h) → L.idxOf h ≠ n := by
      intro n
      induction n using Nat.strongRecOn with
      | _ n ih =>
        rintro h ⟨t, ht, hth⟩ rfl
        obtain ⟨t', ht', hmem⟩ := mergeHead?_none hm ht hth
        obtain ⟨a, r, rfl⟩ : ∃ a r, t' = a :: r := by
          cases t' with
          | nil => simp at hmem
          | cons a r => exact ⟨a, r, rfl⟩
        have hpair : [a, h].Sublist (a :: r) :=
          List.Sublist.cons_cons a (List.singleton_sublist.mpr (by simpa using hmem))
        exact ih _ (idxOf_lt_of_pair_sublist hL (hpair.trans (hsub _ ht'))) a
          ⟨a :: r, ht', rfl⟩ rfl
    obtain ⟨a, r, rfl⟩ := List.exists_cons_of_ne_nil hne
    exact key _ a ⟨a :: r, hs, rfl⟩ rfl

theorem merge_some : ∀ {fuel : Nat} {seqs : List (List Nat)} {acc out : List Nat},
    merge fuel seqs acc = some out →
    ∃ T, out = acc.reverse ++ T ∧ T.Nodup ∧ (∀ s ∈ seqs, s.Sublist T) ∧ ∀ x ∈ T, ∃ s ∈ seqs, x ∈ s
  | 0, _, _, _, h => by simp [merge] at h
  | fuel + 1, seqs, acc, out, h => by
    rw [merge_succ] at h
    have hfs : ∀ s ∈ seqs, s ≠ [] → s ∈ seqs.filter (!·.isEmpty) := fun s hs hne => by
      simpa [List.mem_filter, hs] using hne
    split at h
    · -- nothing left: every sequence was empty
      rename_i hempty
      refine ⟨[], by simpa using h.symm, List.nodup_nil, fun s hs => ?_, by simp⟩
      by_cases hne : s = []
      · simp [hne]
      · have := hfs s hs hne
        rw [List.isEmpty_iff.mp hempty] at this
        simp at this
    · split at h
      · cases h
      · rename_i h' hm
        obtain ⟨⟨s₀, hs₀, hh₀⟩, htails⟩ := mergeHead?_some hm
        obtain ⟨T, rfl, hnd, hsub, hmem⟩ := merge_some h
        refine ⟨h' :: T, by simp, ?_, fun s hs => ?_, fun x hx => ?_⟩
        · refine List.nodup_cons.mpr ⟨fun hT => ?_, hnd⟩
          obtain ⟨t, ht, hxt⟩ := hmem h' hT
          obtain ⟨t₀, ht₀, rfl⟩ := List.mem_map.mp ht
          exact not_mem_dropHead (htails t₀ ht₀) hxt
        · by_cases hne : s = []
          · simp [hne]
          have hsT := hsub _ (List.mem_map_of_mem (hfs s hs hne))
          obtain ⟨a, r, rfl⟩ := List.exists_cons_of_ne_nil hne
          by_cases ha : a = h'
          · subst ha
            simpa [dropHead] using hsT.cons_cons a
          · simpa [dropHead, ha] using hsT.cons h'
        · rcases List.mem_cons.mp hx with rfl | hx
          · exact ⟨s₀, (List.mem_filter.mp hs₀).1, List.mem_of_mem_head? hh₀⟩
          · obtain ⟨t, ht, hxt⟩ := hmem x hx
            obtain ⟨t₀, ht₀, rfl⟩ := List.mem_map.mp ht
            exact ⟨t₀, (List.mem_filter.mp ht₀).1, (dropHead_sublist _ _).subset hxt⟩

theorem merge_isSome_of_consistent : ∀ {fuel : Nat} {seqs : List (List Nat)} (acc : List Nat),
    Consistent seqs → seqsSize seqs < fuel → (merge fuel seqs acc).isSome
  | 0, _, _, _, hf => absurd hf (Nat.not_lt_zero _)
  | fuel + 1, seqs, acc, ⟨L, hL, hsub⟩, hf => by
    rw [merge_succ]
    split
    · rfl
    · rename_i hne
      obtain ⟨s, hs, hsne⟩ : ∃ s ∈ seqs.filter (!·.isEmpty), s ≠ [] := by
        obtain ⟨s, hs⟩ := List.exists_mem_of_ne_nil _ (fun h => hne (List.isEmpty_iff.mpr h))
        exact ⟨s, hs, by simpa using (List.mem_filter.mp hs).2⟩
      have hsubf : ∀ t ∈ seqs.filter (!·.isEmpty), t.Sublist L := fun t ht =>
        hsub t (List.mem_filter.mp ht).1
      cases hm : mergeHead? (seqs.filter (!·.isEmpty)) with
      | none =>
        have := mergeHead?_isSome hL hsubf hs hsne
        simp [hm] at this
      | some h =>
        refine merge_isSome_of_consistent _ ⟨L, hL, fun t ht => ?_⟩ ?_
        · obtain ⟨t₀, ht₀, rfl⟩ := List.mem_map.mp ht
          exact (dropHead_sublist h t₀).trans (hsubf t₀ ht₀)
        · have hlt := seqsSize_map_dropHead_lt (mergeHead?_some hm).1
          have hle := seqsSize_filter_le seqs (!·.isEmpty)
          omega

theorem merge_isSome_iff (seqs : List (List Nat)) (acc : List Nat) :
    (merge (seqs.foldl (fun n s => n + s.length) 1) seqs acc).isSome ↔ Consistent seqs := by
  rw [foldl_length_add]
  constructor
  · intro h
    obtain ⟨out, hout⟩ := Option.isSome_iff_exists.mp h
    obtain ⟨T, -, hnd, hsub, -⟩ := merge_some hout
    exact ⟨T, hnd, hsub⟩
  · intro h
    exact merge_isSome_of_consistent acc h (by omega)

/-- Contract `c` names `b` among its direct bases. -/
def Inherits (u : SourceUnit) (c b : Nat) : Prop := ∃ d, u.contract? c = some d ∧ b ∈ d.bases

/-- Neither `c` nor any contract it inherits from inherits from itself. -/
def Acyclic (u : SourceUnit) (c : Nat) : Prop :=
  ∀ x, ReflTransGen (Inherits u) c x → ¬ TransGen (Inherits u) x x

/-- `c` and every contract it inherits from are contracts of the unit. -/
def Closed (u : SourceUnit) (c : Nat) : Prop :=
  ∀ x, ReflTransGen (Inherits u) c x → (u.contract? x).isSome

/-- The merge for `x` is possible: the linearizations of its direct bases, with the direct bases
themselves most derived first, have a common order. -/
def Mergeable (u : SourceUnit) (x : Nat) : Prop :=
  ∀ d, u.contract? x = some d → ∀ Ls,
    List.Forall₂ (fun b Lb => linearize u b = .ok Lb) d.bases.reverse Ls →
    Consistent (Ls ++ [d.bases.reverse])

section Recursion

variable {u : SourceUnit}

theorem mapM_eq_ok {ε β : Type} {f : Nat → Except ε β} :
    ∀ {l : List Nat} {Ls : List β}, l.mapM f = .ok Ls ↔ List.Forall₂ (fun a b => f a = .ok b) l Ls
  | [], Ls => by cases Ls <;> simp [pure, Except.pure, List.forall₂_nil_left_iff]
  | a :: l, Ls => by
    rw [List.mapM_cons]
    cases hf : f a with
    | error e => cases Ls <;> simp [hf, bind, Except.bind, List.forall₂_cons]
    | ok b =>
      cases Ls with
      | nil =>
        refine iff_of_false ?_ (by simp)
        cases l.mapM f <;> simp [bind, Except.bind, pure, Except.pure]
      | cons b' Ls =>
        have ih := @mapM_eq_ok ε β f l Ls
        cases hl : l.mapM f <;> simp_all [bind, Except.bind, pure, Except.pure]

theorem mapM_eq_error {ε β : Type} {f : Nat → Except ε β} {e : ε} :
    ∀ {l : List Nat}, l.mapM f = .error e → ∃ a ∈ l, f a = .error e
  | [], h => by simp [pure, Except.pure] at h
  | a :: l, h => by
    rw [List.mapM_cons] at h
    cases hf : f a with
    | error e' =>
      simp [hf, bind, Except.bind] at h
      exact ⟨a, by simp, h ▸ hf⟩
    | ok b =>
      cases hl : l.mapM f with
      | error e' =>
        simp [hf, hl, bind, Except.bind] at h
        obtain ⟨x, hx, hfx⟩ := mapM_eq_error (h ▸ hl)
        exact ⟨x, by simp [hx], hfx⟩
      | ok bs => simp [hf, hl, bind, Except.bind, pure, Except.pure] at h

theorem forall₂_of_forall_exists {β : Type} {R : Nat → β → Prop} :
    ∀ {l : List Nat}, (∀ a ∈ l, ∃ b, R a b) → ∃ Ls, List.Forall₂ R l Ls
  | [], _ => ⟨[], .nil⟩
  | a :: l, h => by
    obtain ⟨b, hb⟩ := h a (by simp)
    obtain ⟨Ls, hLs⟩ := forall₂_of_forall_exists fun x (hx : x ∈ l) => h x (List.mem_cons_of_mem a hx)
    exact ⟨b :: Ls, .cons hb hLs⟩

theorem exists_of_forall₂_left {β : Type} {R : Nat → β → Prop} {l : List Nat} {Ls : List β}
    (h : List.Forall₂ R l Ls) {a : Nat} (ha : a ∈ l) : ∃ b ∈ Ls, R a b := by
  induction h with
  | nil => simp at ha
  | cons hab _ ih =>
    rcases List.mem_cons.mp ha with rfl | ha
    · exact ⟨_, by simp, hab⟩
    · obtain ⟨b, hb, hR⟩ := ih ha
      exact ⟨b, by simp [hb], hR⟩

theorem exists_of_forall₂_right {β : Type} {R : Nat → β → Prop} {l : List Nat} {Ls : List β}
    (h : List.Forall₂ R l Ls) {b : β} (hb : b ∈ Ls) : ∃ a ∈ l, R a b := by
  induction h with
  | nil => simp at hb
  | cons hab _ ih =>
    rcases List.mem_cons.mp hb with rfl | hb
    · exact ⟨_, by simp, hab⟩
    · obtain ⟨a, ha, hR⟩ := ih hb
      exact ⟨a, by simp [ha], hR⟩

theorem inherits_iff {c b : Nat} {d : ContractDef} (hd : u.contract? c = some d) :
    Inherits u c b ↔ b ∈ d.bases := by
  simp [Inherits, hd]

theorem c3_ok {fuel : Nat} {V : List Nat} {c : Nat} {L : List Nat}
    (h : c3 u (fuel + 1) V c = .ok L) :
    ∃ d Ls, u.contract? c = some d ∧ c ∉ V ∧
      List.Forall₂ (fun b Lb => c3 u fuel (c :: V) b = .ok Lb) d.bases.reverse Ls ∧
      merge ((Ls ++ [d.bases.reverse]).foldl (fun n s => n + s.length) 1)
        (Ls ++ [d.bases.reverse]) [c] = some L := by
  simp only [c3, need, bind, Except.bind] at h
  split at h
  · cases h
  · rename_i d hd
    split at h
    · cases h
    · rename_i hc
      split at h
      · cases h
      · rename_i Ls hLs
        split at h
        · rename_i order hm
          cases h
          refine ⟨d, Ls, ?_, by simpa using hc, mapM_eq_ok.mp hLs, hm⟩
          cases hu : u.contract? c <;> simp_all
        · cases h

theorem c3_succ_of {fuel : Nat} {V : List Nat} {c : Nat} {L : List Nat} {Ls : List (List Nat)}
    {d : ContractDef}
    (hd : u.contract? c = some d) (hc : c ∉ V)
    (hLs : List.Forall₂ (fun b Lb => c3 u fuel (c :: V) b = .ok Lb) d.bases.reverse Ls)
    (hm : merge ((Ls ++ [d.bases.reverse]).foldl (fun n s => n + s.length) 1)
      (Ls ++ [d.bases.reverse]) [c] = some L) :
    c3 u (fuel + 1) V c = .ok L := by
  simp [c3, need, bind, Except.bind, hd, hc, mapM_eq_ok.mpr hLs, hm, pure, Except.pure,
    -List.foldl_append]

theorem c3_error {fuel : Nat} {V : List Nat} {c : Nat} {e : LowerError}
    (h : c3 u (fuel + 1) V c = .error e) :
    (u.contract? c = none ∧ e = .dangling) ∨ ∃ d, u.contract? c = some d ∧
      (e = .inheritanceLinearization d.id d.name ∨
        c ∉ V ∧ ∃ b ∈ d.bases, c3 u fuel (c :: V) b = .error e) := by
  simp only [c3, need, bind, Except.bind] at h
  split at h
  · rename_i hd
    cases h
    left
    cases hu : u.contract? c <;> simp_all
  · rename_i d hd
    have hu : u.contract? c = some d := by cases hu : u.contract? c <;> simp_all
    right
    refine ⟨d, hu, ?_⟩
    split at h
    · cases h
      exact .inl rfl
    · rename_i hc
      split at h
      · rename_i e' hLs
        cases h
        obtain ⟨b, hb, hbe⟩ := mapM_eq_error hLs
        exact .inr ⟨by simpa using hc, b, List.mem_reverse.mp hb, hbe⟩
      · split at h
        · cases h
        · cases h
          exact .inl rfl

theorem c3_mono : ∀ {fuel fuel' : Nat} {V V' : List Nat} {c : Nat} {L : List Nat},
    c3 u fuel V c = .ok L → fuel ≤ fuel' → V' ⊆ V → c3 u fuel' V' c = .ok L
  | 0, _, _, _, _, _, h, _, _ => by simp [c3] at h
  | fuel + 1, 0, _, _, _, _, _, hf, _ => absurd hf (by omega)
  | fuel + 1, fuel' + 1, V, V', c, L, h, hf, hV => by
    obtain ⟨d, Ls, hd, hc, hLs, hm⟩ := c3_ok h
    refine c3_succ_of hd (fun h' => hc (hV h')) ?_ hm
    exact hLs.imp fun b Lb hb => c3_mono hb (by omega) (List.cons_subset_cons c hV)

theorem c3_ok_merge {fuel : Nat} {V : List Nat} {c : Nat} {L : List Nat}
    (h : c3 u (fuel + 1) V c = .ok L) :
    ∃ d Ls T, u.contract? c = some d ∧ c ∉ V ∧
      List.Forall₂ (fun b Lb => c3 u fuel (c :: V) b = .ok Lb) d.bases.reverse Ls ∧
      L = c :: T ∧ T.Nodup ∧ (∀ s ∈ Ls ++ [d.bases.reverse], s.Sublist T) ∧
      ∀ x ∈ T, ∃ s ∈ Ls ++ [d.bases.reverse], x ∈ s := by
  obtain ⟨d, Ls, hd, hc, hLs, hm⟩ := c3_ok h
  obtain ⟨T, rfl, hnd, hsub, hmem⟩ := merge_some hm
  exact ⟨d, Ls, T, hd, hc, hLs, rfl, hnd, hsub, hmem⟩

theorem c3_ok_spec : ∀ {fuel : Nat} {V : List Nat} {c : Nat} {L : List Nat},
    c3 u fuel V c = .ok L →
    L.Nodup ∧ (∀ x ∈ L, x ∉ V) ∧ ∀ x, x ∈ L ↔ ReflTransGen (Inherits u) c x
  | 0, _, _, _, h => by simp [c3] at h
  | fuel + 1, V, c, _, h => by
    obtain ⟨d, Ls, T, hd, hc, hLs, rfl, hnd, hsub, hmem⟩ := c3_ok_merge h
    have hbase : ∀ Lb ∈ Ls, ∃ b ∈ d.bases, (∀ x ∈ Lb, x ∉ c :: V) ∧
        ∀ x, x ∈ Lb ↔ ReflTransGen (Inherits u) b x := by
      intro Lb hLb
      obtain ⟨b, hb, hbL⟩ := exists_of_forall₂_right hLs hLb
      obtain ⟨-, hV, hmem⟩ := c3_ok_spec hbL
      exact ⟨b, List.mem_reverse.mp hb, hV, hmem⟩
    -- a direct base heads its own linearization
    have hlin : ∀ b ∈ d.bases, ∃ Lb ∈ Ls, b ∈ Lb ∧ Lb.Sublist T := by
      intro b hb
      obtain ⟨Lb, hLb, hbL⟩ := exists_of_forall₂_left hLs (List.mem_reverse.mpr hb)
      have hbb := ((c3_ok_spec hbL).2.2 b).mpr ReflTransGen.refl
      exact ⟨Lb, hLb, hbb, hsub Lb (List.mem_append_left _ hLb)⟩
    have hT : ∀ x ∈ T, x ∉ c :: V := by
      intro x hx
      obtain ⟨s, hs, hxs⟩ := hmem x hx
      rcases List.mem_append.mp hs with hs | hs
      · obtain ⟨b, -, hV, -⟩ := hbase s hs
        exact hV x hxs
      · obtain rfl : s = d.bases.reverse := by simpa using hs
        obtain ⟨Lb, hLb, hxL, -⟩ := hlin x (List.mem_reverse.mp hxs)
        obtain ⟨b, -, hV, -⟩ := hbase Lb hLb
        exact hV x hxL
    refine ⟨List.nodup_cons.mpr ⟨fun hcT => hT c hcT (by simp), hnd⟩, ?_, fun x => ?_⟩
    · intro x hx
      rcases List.mem_cons.mp hx with rfl | hx
      · exact hc
      · exact fun hxV => hT x hx (List.mem_cons_of_mem c hxV)
    · rw [ReflTransGen.cases_head_iff]
      constructor
      · intro hx
        rcases List.mem_cons.mp hx with rfl | hx
        · exact .inl rfl
        obtain ⟨s, hs, hxs⟩ := hmem x hx
        rcases List.mem_append.mp hs with hs | hs
        · obtain ⟨b, hb, -, hmem'⟩ := hbase s hs
          exact .inr ⟨b, (inherits_iff hd).mpr hb, (hmem' x).mp hxs⟩
        · obtain rfl : s = d.bases.reverse := by simpa using hs
          exact .inr ⟨x, (inherits_iff hd).mpr (List.mem_reverse.mp hxs), ReflTransGen.refl⟩
      · rintro (rfl | ⟨b, hcb, hbx⟩)
        · exact List.mem_cons_self
        · obtain ⟨Lb, hLb, hbL⟩ := exists_of_forall₂_left hLs
            (List.mem_reverse.mpr ((inherits_iff hd).mp hcb))
          have hxL := ((c3_ok_spec hbL).2.2 x).mpr hbx
          exact List.mem_cons_of_mem c ((hsub Lb (List.mem_append_left _ hLb)).subset hxL)

theorem c3_ok_not_self {fuel : Nat} {V : List Nat} {c : Nat} {L : List Nat}
    (h : c3 u fuel V c = .ok L) : ¬ TransGen (Inherits u) c c := by
  intro hcc
  cases fuel with
  | zero => simp [c3] at h
  | succ fuel =>
    obtain ⟨d, Ls, hd, -, hLs, -⟩ := c3_ok h
    obtain ⟨b, hcb, hbc⟩ := TransGen.head'_iff.mp hcc
    obtain ⟨Lb, -, hbL⟩ := exists_of_forall₂_left hLs
      (List.mem_reverse.mpr ((inherits_iff hd).mp hcb))
    obtain ⟨-, hV, hmem⟩ := c3_ok_spec hbL
    exact hV c ((hmem c).mpr hbc) (by simp)

theorem c3_ok_reach : ∀ {fuel : Nat} {V : List Nat} {c : Nat} {L : List Nat},
    fuel ≤ u.contracts.size + 1 → c3 u fuel V c = .ok L →
    ∀ x, ReflTransGen (Inherits u) c x → ∃ Lx, linearize u x = .ok Lx
  | 0, _, _, _, _, h, _, _ => by simp [c3] at h
  | fuel + 1, V, c, L, hf, h, x, hx => by
    obtain ⟨d, Ls, hd, -, hLs, -⟩ := c3_ok h
    rcases ReflTransGen.cases_head_iff.mp hx with rfl | ⟨b, hcb, hbx⟩
    · exact ⟨L, c3_mono h hf (List.nil_subset _)⟩
    · obtain ⟨Lb, -, hbL⟩ := exists_of_forall₂_left hLs
        (List.mem_reverse.mpr ((inherits_iff hd).mp hcb))
      exact c3_ok_reach (by omega) hbL x hbx

theorem linearize_ok_mergeable {x : Nat} {Lx : List Nat} (h : linearize u x = .ok Lx) :
    Mergeable u x := by
  intro d hd Ls hLs
  obtain ⟨d', Ls', hd', -, hLs', hm⟩ := c3_ok h
  obtain rfl : d' = d := Option.some.inj (hd'.symm.trans hd)
  -- the bases' linearizations met inside are the ones `linearize` gives
  have hLs'' : List.Forall₂ (fun b Lb => linearize u b = .ok Lb) d'.bases.reverse Ls' :=
    hLs'.imp fun b Lb hb => c3_mono hb (Nat.le_succ _) (List.nil_subset _)
  obtain rfl : Ls = Ls' := by
    have h₁ := mapM_eq_ok.mpr hLs
    rw [mapM_eq_ok.mpr hLs''] at h₁
    exact (Except.ok.inj h₁).symm
  exact (merge_isSome_iff _ [x]).mp (by rw [hm]; rfl)

theorem length_le_of_nodup_lt {V : List Nat} {n : Nat} (hV : V.Nodup) (hlt : ∀ v ∈ V, v < n) :
    V.length ≤ n := by
  have := (List.subperm_of_subset hV fun v hv => List.mem_range.mpr (hlt v hv)).length_le
  simpa using this

theorem lt_size_of_isSome {v : Nat} (h : (u.contract? v).isSome) : v < u.contracts.size := by
  simpa [SourceUnit.contract?] using h

theorem visiting_length_le {V : List Nat} (hV : V.Nodup) (hex : ∀ v ∈ V, (u.contract? v).isSome) :
    V.length ≤ u.contracts.size :=
  length_le_of_nodup_lt hV fun v hv => lt_size_of_isSome (hex v hv)

theorem c3_complete {c : Nat} (hA : Acyclic u c) (hC : Closed u c)
    (hM : ∀ x, ReflTransGen (Inherits u) c x → Mergeable u x) :
    ∀ {fuel : Nat} {V : List Nat} {x : Nat}, ReflTransGen (Inherits u) c x → V.Nodup →
      (∀ v ∈ V, (u.contract? v).isSome) → (∀ v ∈ V, ¬ ReflTransGen (Inherits u) x v) →
      fuel + V.length = u.contracts.size + 1 → ∃ L, c3 u fuel V x = .ok L
  | 0, V, _, _, hnd, hex, _, hf => by
    have := visiting_length_le hnd hex
    omega
  | fuel + 1, V, x, hx, hnd, hex, hout, hf => by
    obtain ⟨d, hd⟩ := Option.isSome_iff_exists.mp (hC x hx)
    have hxV : x ∉ V := fun h => hout x h ReflTransGen.refl
    -- each direct base is linearized with `x` visited too
    have hbases : ∀ b ∈ d.bases.reverse, ∃ Lb, c3 u fuel (x :: V) b = .ok Lb := by
      intro b hb
      have hxb : Inherits u x b := (inherits_iff hd).mpr (List.mem_reverse.mp hb)
      refine c3_complete hA hC hM (hx.tail hxb) (List.nodup_cons.mpr ⟨hxV, hnd⟩) ?_ ?_
        (by simp; omega)
      · intro v hv
        rcases List.mem_cons.mp hv with rfl | hv
        · simp [hd]
        · exact hex v hv
      · intro v hv hbv
        rcases List.mem_cons.mp hv with rfl | hv
        · exact hA v hx (TransGen.head' hxb hbv)
        · exact hout v hv (ReflTransGen.head hxb hbv)
    obtain ⟨Ls, hLs⟩ := forall₂_of_forall_exists hbases
    have hcons : Consistent (Ls ++ [d.bases.reverse]) :=
      hM x hx d hd Ls (hLs.imp fun b Lb hb => c3_mono hb (by omega) (List.nil_subset _))
    obtain ⟨L, hL⟩ := Option.isSome_iff_exists.mp ((merge_isSome_iff _ [x]).mpr hcons)
    exact ⟨L, c3_succ_of hd hxV hLs hL⟩

theorem c3_ne_unbounded : ∀ {fuel : Nat} {V : List Nat} {c : Nat}, V.Nodup →
    (∀ v ∈ V, (u.contract? v).isSome) → fuel + V.length = u.contracts.size + 1 →
    c3 u fuel V c ≠ .error .unbounded
  | 0, V, _, hnd, hex, hf, _ => by
    have := visiting_length_le hnd hex
    omega
  | fuel + 1, V, c, hnd, hex, hf, h => by
    rcases c3_error h with ⟨-, he⟩ | ⟨d, hd, he | ⟨hcV, b, -, hb⟩⟩
    · cases he
    · cases he
    · refine c3_ne_unbounded (List.nodup_cons.mpr ⟨hcV, hnd⟩) ?_ (by simp; omega) hb
      intro v hv
      rcases List.mem_cons.mp hv with rfl | hv
      · simp [hd]
      · exact hex v hv

theorem c3_error_kind : ∀ {fuel : Nat} {V : List Nat} {c : Nat} {e : LowerError},
    c3 u fuel V c = .error e →
    (∃ n name, e = .inheritanceLinearization n name) ∨ e = .unbounded ∨
      (e = .dangling ∧ ¬ Closed u c)
  | 0, _, _, _, h => by
    simp [c3] at h
    exact .inr (.inl h.symm)
  | fuel + 1, V, c, e, h => by
    rcases c3_error h with ⟨hd, rfl⟩ | ⟨d, hd, rfl | ⟨-, b, hb, hbe⟩⟩
    · exact .inr (.inr ⟨rfl, fun hC => by simpa [hd] using hC c ReflTransGen.refl⟩)
    · exact .inl ⟨_, _, rfl⟩
    · rcases c3_error_kind hbe with he | he | ⟨he, hC⟩
      · exact .inl he
      · exact .inr (.inl he)
      · refine .inr (.inr ⟨he, fun hC' => hC fun x hx => hC' x ?_⟩)
        exact ReflTransGen.head ((inherits_iff hd).mpr hb) hx

end Recursion

/-- C3 linearization, as `linearize` computes it. The fuel never runs out. A linearization
exists exactly when the contracts `c` inherits from, directly or not, all exist, none inherits
from itself and each merge has a common order. A linearization starts with `c`, lists `c` and
its transitive bases once each, and holds the direct bases, most derived first, and every direct
base's linearization as subsequences. Otherwise the error is `InheritanceLinearization`, or,
when a contract below `c` is missing from the unit, a dangling reference. -/
theorem linearize_spec (u : SourceUnit) (c : Nat) :
    linearize u c ≠ .error .unbounded ∧
    ((∃ L, linearize u c = .ok L) ↔
      Acyclic u c ∧ Closed u c ∧ ∀ x, ReflTransGen (Inherits u) c x → Mergeable u x) ∧
    (∀ L, linearize u c = .ok L →
      L.head? = some c ∧ L.Nodup ∧ (∀ x, x ∈ L ↔ ReflTransGen (Inherits u) c x) ∧
      ∀ d, u.contract? c = some d → d.bases.reverse.Sublist L ∧
        ∀ b ∈ d.bases, ∀ Lb, linearize u b = .ok Lb → Lb.Sublist L) ∧
    (∀ e, linearize u c = .error e →
      (∃ n name, e = .inheritanceLinearization n name) ∨ (e = .dangling ∧ ¬ Closed u c)) := by
  have hfuel : u.contracts.size + 1 + ([] : List Nat).length = u.contracts.size + 1 := rfl
  have hne : linearize u c ≠ .error .unbounded :=
    c3_ne_unbounded List.nodup_nil (by simp) hfuel
  refine ⟨hne, ⟨fun ⟨L, hL⟩ => ?_, fun ⟨hA, hC, hM⟩ => ?_⟩, fun L hL => ?_, fun e he => ?_⟩
  · -- every contract below has a linearization, hence exists, is no cycle and merges
    have hreach := c3_ok_reach (Nat.le_refl _) hL
    refine ⟨fun x hx => ?_, fun x hx => ?_, fun x hx => ?_⟩
    · obtain ⟨Lx, hLx⟩ := hreach x hx
      exact c3_ok_not_self hLx
    · obtain ⟨Lx, hLx⟩ := hreach x hx
      obtain ⟨d, -, hd, -⟩ := c3_ok hLx
      simp [hd]
    · obtain ⟨Lx, hLx⟩ := hreach x hx
      exact linearize_ok_mergeable hLx
  · exact c3_complete hA hC hM ReflTransGen.refl List.nodup_nil (by simp) (by simp) hfuel
  · obtain ⟨d, Ls, T, hd, -, hLs, rfl, -, hsub, -⟩ := c3_ok_merge hL
    obtain ⟨hnd, -, hmem⟩ := c3_ok_spec hL
    refine ⟨rfl, hnd, hmem, fun d' hd' => ?_⟩
    obtain rfl : d' = d := Option.some.inj (hd'.symm.trans hd)
    refine ⟨(hsub _ (by simp)).trans (List.sublist_cons_self c T), fun b hb Lb hLb => ?_⟩
    obtain ⟨Lb', hLb', hbL⟩ := exists_of_forall₂_left hLs (List.mem_reverse.mpr hb)
    -- the base's linearization met inside is the one `linearize` gives
    obtain rfl : Lb = Lb' := by
      have := c3_mono hbL (Nat.le_succ _) (List.nil_subset _)
      exact Except.ok.inj (hLb.symm.trans this)
    exact (hsub Lb (List.mem_append_left _ hLb')).trans (List.sublist_cons_self c T)
  · rcases c3_error_kind he with h | h | h
    · exact .inl h
    · exact absurd (h ▸ he) hne
    · exact .inr h

end ContractCfg.Lower
