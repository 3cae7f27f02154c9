import Tacit.Command.Shell
import Tacit.Help
import Tacit.Help.Guide

/-!
# Showing documentation
-/

namespace Tacit.Command.Doc

/-- Shows the help on a name, the list of all functions, or the language guide. -/
def perform (guide : Bool) (s : Shell) : Job Unit := do
  if guide then .print Help.guide
  else
    let names := (← s.world).names
    match s.operands with
    | [] => .print (Help.listText names)
    | name :: _ => do .print (← .ofExcept (Help.nameText names name))

end Tacit.Command.Doc
