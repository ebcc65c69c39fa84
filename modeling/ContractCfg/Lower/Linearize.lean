import ContractCfg.Source.Types
import ContractCfg.Lower.Error

/-!
C3 linearization of inheritance, most derived first. A contract comes first, followed by the
merge of its bases' linearizations and of its direct bases, both taken most derived first: the
merge repeatedly takes the first head that occurs in no tail. A contract whose inheritance
reaches itself, or whose merge gets stuck, has no linearization.
-/

namespace ContractCfg.Lower

open ContractCfg.Source

/-- The first head of `seqs` that occurs in the tail of none of them. -/
def mergeHead? (seqs : List (List Nat)) : Option Nat :=
  (seqs.filterMap List.head?).find? fun c => seqs.all fun s => !s.tail.contains c

/-- Merges the sequences into `acc` (kept reversed); `none` when no head can be taken. -/
def merge : Nat → List (List Nat) → List Nat → Option (List Nat)
  | 0, _, _ => none
  | fuel + 1, seqs, acc =>
    let seqs := seqs.filter (!·.isEmpty)
    if seqs.isEmpty then some acc.reverse
    else match mergeHead? seqs with
      | none => none
      | some h => merge fuel (seqs.map fun s => if s.head? == some h then s.tail else s) (h :: acc)

/-- The declaration a reference names; a missing one is a dangling reference. -/
def need : Option α → Except LowerError α
  | some a => .ok a
  | none => .error .dangling

/-- The linearization of `c`, given the contracts whose linearization is being computed. -/
def c3 (unit : SourceUnit) : Nat → List Nat → Nat → Except LowerError (List Nat)
  | 0, _, _ => .error .unbounded
  | fuel + 1, visiting, c => do
    let d ← need (unit.contract? c)
    let impossible := LowerError.inheritanceLinearization d.id d.name
    if visiting.contains c then throw impossible
    let bases := d.bases.reverse
    let seqs ← bases.mapM (c3 unit fuel (c :: visiting))
    let seqs := seqs ++ [bases]
    match merge (seqs.foldl (fun n s => n + s.length) 1) seqs [c] with
    | some order => pure order
    | none => throw impossible

/-- The linearization of contract `c`, most derived first. -/
def linearize (unit : SourceUnit) (c : Nat) : Except LowerError (List Nat) :=
  c3 unit (unit.contracts.size + 1) [] c

end ContractCfg.Lower
