import Tacit.Evaluation
import Tacit.Severity

/-!
# Finding faults without running a program

A check looks at the statements of a program and makes findings. Checks are run one after another
over the same program; what they find is put in the order of the source, and findings at one
place stay in the order in which they were made.
-/

namespace Tacit.Lint

/-- Where a finding lies. -/
structure Position where
  file : Text
  line : Int
  col : Int
  deriving DecidableEq, Repr, Inhabited

namespace Position

/-- The position of a place, which may be missing. -/
def ofPlace : Option Location → Position
  | none => ⟨[], 0, 0⟩
  | some l => ⟨l.file, l.line, l.col⟩

/-- How a position is written. -/
def text (p : Position) : Text :=
  if p.line = 0 then p.file
  else if 0 < p.col then p.file ++ ":" ++ Text.ofInt p.line ++ ":" ++ Text.ofInt p.col
  else p.file ++ ":" ++ Text.ofInt p.line

/-- The order of the source. -/
def le (p q : Position) : Bool :=
  if p.file != q.file then Text.le p.file q.file
  else if p.line != q.line then p.line < q.line
  else p.col ≤ q.col

end Position

/-- What a check has found. -/
structure Finding where
  pos : Position
  message : Text
  /-- The name of the check. -/
  check : Text
  severity : Option Severity
  notes : List Text
  deriving Repr, Inhabited

/-- A finding before its check has signed it. -/
def Finding.make (place : Option Location) (message : Text) (notes : List Text) : Finding :=
  ⟨.ofPlace place, message, [], none, notes⟩

/-- What a check looks at. -/
structure Subject where
  program : Program
  /-- The values that names have before the program runs. -/
  predeclared : Text → Option Value

/-- A check. -/
structure Check where
  name : Text
  /-- What it is for; the first line is a summary. -/
  doc : Text
  severity : Option Severity
  run : Subject → Except Fault (List Finding)

/-- The finding signed by its check, which gives it a severity if it has none. -/
def Check.sign (c : Check) (f : Finding) : Finding :=
  { f with check := c.name, severity := f.severity.or c.severity }

/-- The finding, with the file put in if it has none. -/
def Finding.inFile (file : Text) (f : Finding) : Finding :=
  if f.pos.file.isEmpty then { f with pos := { f.pos with file := file } } else f

/-- What a check finds in a file. -/
def Check.findings (c : Check) (file : Text) (s : Subject) : Except Fault (List Finding) :=
  match c.run s with
  | .ok fs => .ok (fs.map fun f => (c.sign f).inFile file)
  | .error f => .error (.remarked (file ++ ": analyzer " ++ c.name) f)

/-- What checks find in a program, in the order of the source. -/
def inspect (checks : List Check) (file : Text) (s : Subject) : Except Fault (List Finding) := do
  let found ← checks.mapM fun c => c.findings file s
  return found.flatten.mergeSort fun a b => a.pos.le b.pos

/-- What checks find in a source. -/
def lint (checks : List Check) (predeclared : Text → Option Value) (file src : Text) :
    Except Fault (List Finding) := do
  inspect checks file ⟨← Program.read file src, predeclared⟩

end Tacit.Lint
