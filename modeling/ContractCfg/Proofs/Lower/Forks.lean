import ContractCfg.Proofs.Lower.Expressions
import ContractCfg.Proofs.Lower.Branches

namespace ContractCfg.Lower

open ContractCfg.IR ContractCfg.IR.FnBuilder ContractCfg.Machine ContractCfg.Machine.Vm
open ContractCfg.Source

namespace Gen

variable {name : String} {env : Env} {n : Nat} {s : GenState}

end Gen

end ContractCfg.Lower
