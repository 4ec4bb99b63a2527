import ClosedCaptions.Command.Decode
import ClosedCaptions.Command.Filter
import ClosedCaptions.Command.Info

/-!
# Carrying out an invocation
-/

namespace ClosedCaptions

namespace Invocation

def run (i : Invocation) : Procedure Workspace Unit :=
  match i.request with
  | .info request => request.run i.failLevel
  | .decode request => request.run Timestamp.ofFrame i.failLevel
  | .filter request => request.run i.failLevel

end Invocation

end ClosedCaptions
