import Tacit.Command.Shell
import Tacit.Lint.Checks
import Tacit.Lint.Report

/-!
# Checking sources

What the checks find in the files, or in the standard input, is shown as diagnostics or as JSON.
Finding anything at all is a failure.
-/

namespace Tacit.Command.Lint

/-- The checks with the names in a list divided by commas; none named means all. -/
def select (names : Text) : Except Fault (List Tacit.Lint.Check) :=
  if names.isEmpty then .ok Tacit.Lint.standard
  else
    let chosen := (Text.pieces ','.toUInt8 names).map Text.trimmed
    let unknown := chosen.filter fun n => !Tacit.Lint.checkNames.contains n
    if unknown.isEmpty then .ok (Tacit.Lint.standard.filter fun c => chosen.contains c.name)
    else
      .error (.plain ("unknown check: " ++ Text.joined ", " (Text.sorted unknown.eraseDups)))

/-- A finding as a diagnostic. -/
def diagnostic (f : Tacit.Lint.Finding) : Diagnostic where
  severity := Severity.nameOf f.severity
  condition := f.check
  message := f.message
  regions := if 0 < f.pos.line then [⟨f.pos.file, f.pos.line, f.pos.col, 0, []⟩] else []
  notes := f.notes

/-- Shows what was found, and fails if there is anything. -/
def reportFindings (s : Shell) (sources : List (Text × Text)) (found : List Tacit.Lint.Finding) :
    Job Unit := do
  if found.isEmpty then return ()
  if s.settings.switch "json" then .print (Tacit.Lint.jsonReport found)
  else
    let r ← Job.snippets s.settings sources
    .printError (found.flatMap fun f => r.render (diagnostic f))
  .failReported (.plain (Text.ofNat found.length ++ " problem(s) found"))

/-- What checks find in a file. -/
def lintFile (s : Shell) (check : Text → Text → Except Fault (List Tacit.Lint.Finding))
    (path : Text) : Job (List Tacit.Lint.Finding) := do
  let src ← .readSource path
  match check path src with
  | .ok found => return found
  | .error f => .report s.settings path src f

/-- What checks find in a file, after what they found before and the last failure. -/
def lintNext (s : Shell) (check : Text → Text → Except Fault (List Tacit.Lint.Finding))
    (before : List Tacit.Lint.Finding × Option Problem) (path : Text) :
    Job (List Tacit.Lint.Finding × Option Problem) := do
  match ← (lintFile s check path).outcome with
  | .ok found => return (before.1 ++ found, before.2)
  | .error p => return (before.1, some p)

/-- Checks the files, or the standard input if there are none. -/
def perform (s : Shell) : Job Unit := do
  if s.settings.switch "list" then
    .print (Tacit.Lint.checkNames.flatMap fun n => n ++ [10])
  else
    let checks ← .ofExcept (select (s.settings.text "checks"))
    let names := (← s.world).names
    let check := Tacit.Lint.lint checks names.get?
    if s.operands.isEmpty then
      match check Shell.inputName s.input with
      | .ok found => reportFindings s [(Shell.inputName, s.input)] found
      | .error f => .report s.settings Shell.inputName s.input f
    else
      let (found, failure) ← (← s.sourceFiles).foldlM (lintNext s check) ([], none)
      reportFindings s [] found
      match failure with
      | some p => throw p
      | none => return ()

end Tacit.Command.Lint
