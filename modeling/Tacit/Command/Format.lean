import Tacit.Command.Shell
import Tacit.Text.Lines

/-!
# Formatting sources

The canonical form of each file is printed, or shown as differences, or written back; or the files
that are not in canonical form are listed. A file that cannot be formatted does not keep the
others from being formatted, and the last failure is that of the command.
-/

namespace Tacit.Command.Format

/-- What is done with the canonical form of a file. -/
inductive Mode where
  | print
  | list
  | difference
  | write
  deriving DecidableEq, Repr, Inhabited

/-- The mode that settings ask for; listing comes before differences, and these before writing. -/
def Mode.ofSettings (s : Settings) : Mode :=
  if s.switch "list" then .list
  else if s.switch "diff" then .difference
  else if s.switch "write" then .write
  else .print

/-- Writes a file. -/
def writeFile (path content : Text) : Job Unit := do
  let files ← .ofExcept ((← get).files.write path content)
  modify fun c => { c with files := files }

/-- What is done with a file, given its content and its canonical form. -/
def emit (mode : Mode) (path src formatted : Text) : Job Unit :=
  match mode with
  | .print => .print formatted
  | .list => if src = formatted then pure () else .print (path ++ "\n")
  | .difference =>
    if src = formatted then pure () else .print (Lines.difference path src formatted)
  | .write => if src = formatted then pure () else writeFile path formatted

/-- The failure of a file that is listed. -/
def unformatted (path : Text) : Problem := ⟨.fault (.plain (path ++ " is not formatted")), true⟩

/-- Formats a file; gives the failure that being listed is, if it is listed. -/
def formatFile (settings : Settings) (mode : Mode) (path : Text) : Job (Option Problem) := do
  let src ← .readSource path
  match Program.reformat path src with
  | .error f => .report settings path src f
  | .ok formatted =>
    emit mode path src formatted
    return if mode = .list ∧ src ≠ formatted then some (unformatted path) else none

/-- Formats a file; gives the last failure, after an earlier one. -/
def formatNext (settings : Settings) (mode : Mode) (failure : Option Problem) (path : Text) :
    Job (Option Problem) := do
  match ← (formatFile settings mode path).outcome with
  | .ok found => return found.or failure
  | .error p => return some p

/-- Formats the standard input. -/
def formatInput (s : Shell) : Job Unit :=
  match Program.reformat Shell.inputName s.input with
  | .ok formatted => .print formatted
  | .error f => .report s.settings Shell.inputName s.input f

/-- Formats the files, or the standard input if there are none. -/
def perform (s : Shell) : Job Unit := do
  if s.operands.isEmpty then formatInput s
  else
    let mode := Mode.ofSettings s.settings
    match ← (← s.sourceFiles).foldlM (formatNext s.settings mode) none with
    | some p => throw p
    | none => return ()

end Tacit.Command.Format
