import Tacit.Fault

/-!
# What a reader is told about a fault

A diagnostic is a message with the regions of source it speaks of and further notes. That of a
fault has the condition in front, and so leaves it and the place out of the message.
-/

namespace Tacit

/-- A region of a line of source. -/
structure Region where
  file : Text
  line : Int
  /-- The first column, counted from one. -/
  col : Int
  /-- The last column; zero says that it is to be found in the source. -/
  endCol : Int
  label : Text
  deriving DecidableEq, Repr, Inhabited

/-- A message with regions of source and notes. -/
structure Diagnostic where
  /-- How grave it is; an error unless said otherwise. -/
  severity : Text
  /-- The classification, if there is one. -/
  condition : Text
  message : Text
  regions : List Region
  notes : List Text
  deriving DecidableEq, Repr, Inhabited

namespace Diagnostic

/-- What stands under the region of a fault. -/
def label : Fault → Text
  | .unmatched .. => "unrecognized input"
  | .unbound .. => "not bound in this program"
  | .notCallable _ _ actual => "has type " ++ actual.text
  | .arity _ _ takes _ => "takes " ++ Text.ofInt takes ++ " arguments"
  | .mismatch _ _ _ expected _ _ => "expected " ++ expected.text
  | .builtin _ fn _ => "raised by " ++ fn
  | .malformed .. | .placed .. | .remarked .. | .plain .. => ""

/-- What else is said of a fault. -/
def notesOf : Fault → List Text
  | .notCallable .. => ["a name between two operands is called as an infix function"]
  | .mismatch _ _ _ _ _ (some operand) => ["received " ++ operand]
  | .malformed .. => ["every call takes at most two operands"]
  | _ => []

/-- The message of a fault without its place and condition. -/
def bareMessage (f : Fault) (c : Condition) : Text :=
  let message := f.place?.elim f.message fun l => Text.dropLeading (l.text ++ ": ") f.message
  Text.dropLeading (c.name ++ ": ") message

/-- The region of a fault, if the line is known. -/
def regionsOf (f : Fault) : List Region :=
  match f.place? with
  | some l => if 0 < l.line then [⟨l.file, l.line, l.col, 0, label f⟩] else []
  | none => []

/-- The diagnostic of a fault: of the outermost fault in it that has a condition, or else its bare
message. -/
def ofFault (f : Fault) : Diagnostic :=
  match f.principal? with
  | none => ⟨[], [], f.message, [], []⟩
  | some (g, c) => ⟨[], c.name, bareMessage g c, regionsOf g, notesOf g⟩

end Diagnostic

end Tacit
