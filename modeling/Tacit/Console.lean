import Tacit.Diagnostic.Snippet
import Tacit.Settings
import Tacit.World

/-!
# What commands write, and how they fail

A job writes to the standard output, to the error output and to files, and may fail. A failure
that the user has been shown already is marked so.
-/

namespace Tacit

/-- What a job has written so far. -/
structure Console where
  output : Text
  errors : Text
  files : FileSystem
  deriving Inhabited

/-- A failure of a job. -/
structure Problem where
  cause : Stop
  /-- Whether the user has been shown it. -/
  isReported : Bool

/-- Something that writes to a console and may fail. -/
abbrev Job := EStateM Problem Console

namespace Job

/-- Writes to the standard output. -/
def print (t : Text) : Job Unit := modify fun c => { c with output := c.output ++ t }

/-- Writes to the error output. -/
def printError (t : Text) : Job Unit := modify fun c => { c with errors := c.errors ++ t }

/-- Fails with something the user has not been shown. -/
def stop {α : Type} (s : Stop) : Job α := throw ⟨s, false⟩

/-- Fails with a fault the user has not been shown. -/
def fail {α : Type} (f : Fault) : Job α := stop (.fault f)

/-- Fails with a fault the user has been shown. -/
def failReported {α : Type} (f : Fault) : Job α := throw ⟨.fault f, true⟩

/-- What comes of a result or fault. -/
def ofExcept {α : Type} : Except Fault α → Job α
  | .ok a => pure a
  | .error f => fail f

/-- The result of a job, or how it failed. What it has written stays. -/
def outcome {α : Type} (job : Job α) : Job (Except Problem α) := fun c =>
  match job c with
  | .ok a c => .ok (.ok a) c
  | .error p c => .ok (.error p) c

/-- Reads a source file. Whatever keeps it from being read, the user is told that it is not
there. -/
def readSource (path : Text) : Job Text := do
  let fault : Fault ← match (← get).files.entry? path with
    | some (.file content) => return content
    | some .directory => pure (.plain (path ++ " is a directory"))
    | none => pure (FileSystem.missing path)
  print ("No such source file " ++ Text.quoted path ++ ".\n")
  failReported fault

/-- What diagnostics are shown with. -/
def snippets (settings : Settings) (sources : List (Text × Text)) : Job Snippets := do
  let mode ← ofExcept (ColorMode.ofName (settings.text "color"))
  return ⟨mode, sources, some (← get).files⟩

/-- Shows a fault in a source and fails with it. -/
def report {α : Type} (settings : Settings) (name src : Text) (f : Fault) : Job α := do
  let s ← snippets settings [(name, src)]
  printError (s.renderFault f)
  failReported f

end Job

end Tacit
