import Tacit.Console
import Tacit.Evaluation
import Tacit.FileSystem.Glob
import Tacit.Host

/-!
# What a command runs with
-/

namespace Tacit

/-- What a command runs with. -/
structure Shell where
  settings : Settings
  /-- The arguments that are no flags. -/
  operands : List Text
  /-- The standard input. -/
  input : Text
  /-- What the host program does to each world that a command makes. -/
  prepare : World → Except Stop World
  /-- How deep applications may nest. -/
  fuel : Nat

namespace Shell

/-- The name of the source that is read from the standard input. -/
def inputName : Text := "<stdin>"

/-- A world for a command. -/
def world (s : Shell) : Job World := do
  match s.prepare (.initial (← get).files) with
  | .ok w => return w
  | .error stop => .stop stop

/-- The source files a command works on. -/
def sourceFiles (s : Shell) : Job (List Text) := do
  .ofExcept ((← get).files.expand s.operands (s.settings.texts "exclude"))

end Shell

end Tacit
