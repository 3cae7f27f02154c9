import Tacit.Text

/-!
# The version of the interpreter
-/

namespace Tacit

/-- The version that profiles and the command line show. -/
def version : Text := "0.3.1"

end Tacit
