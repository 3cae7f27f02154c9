import Tacit.World

/-!
# The log of a run

Each level lets through what is at least as urgent. What happens while a program runs is logged
for debugging, one line for each event: the level, a message, and the fields of the event in
dictionary order of their names.
-/

namespace Tacit.Log

/-- How urgent an entry is, the most urgent first. -/
inductive Level where
  | panic
  | fatal
  | error
  | warning
  | info
  | debug
  | trace
  deriving DecidableEq, Repr, Inhabited

namespace Level

/-- The names of the levels. A level may have two. -/
def table : List (Text × Level) :=
  [("panic", .panic), ("fatal", .fatal), ("error", .error), ("warn", .warning),
    ("warning", .warning), ("info", .info), ("debug", .debug), ("trace", .trace)]

/-- The level with a name, in letters of either case. -/
def ofName (name : Text) : Except Fault Level :=
  match table.lookup (Text.lower name) with
  | some level => .ok level
  | none => .error (.plain ("not a valid logrus Level: " ++ Text.quoted name))

/-- Whether entries for debugging are let through. -/
def showsDebug : Level → Bool
  | debug | trace => true
  | _ => false

end Level

/-- Whether a byte may stand in a field that has no quotes. -/
def isPlain (b : UInt8) : Bool :=
  Text.isLetter b || Text.isDigit b || (Text.ofString "-._/@^+").contains b

/-- A field's text, between quotes unless all of it is plain. -/
def fieldText (t : Text) : Text := if t.all isPlain then t else Text.quoted t

/-- A field behind a blank. -/
def field (f : Text × Text) : Text := " " ++ f.1 ++ "=" ++ fieldText f.2

/-- The line of an entry for debugging. -/
def line (message : Text) (fields : List (Text × Text)) : Text :=
  "level=debug" ++ field ("msg", message) ++ fields.flatMap field ++ "\n"

/-- The line for an event; that a function stops is not logged. -/
def eventLine : Event → Text
  | .composed fn operand position =>
    line "composing partial application"
      [("function", fn), ("partial", operand), ("position", Text.ofNat position)]
  | .curried fn groups cont =>
    line "curried continuation"
      [("arity", Text.ofNat cont.arity), ("function", fn), ("groups", Text.ofNat groups)]
  | .entered fn operands =>
    line "invoke" [("args", Text.ofNat operands.length), ("function", fn.name)]
  | .left .. => []

/-- The line a level lets through for an event. -/
def shown (level : Level) (e : Event) : Text := if level.showsDebug then eventLine e else []

/-- All that a level lets through of a record. -/
def ofRecord (level : Level) (record : List Event) : Text := record.flatMap (shown level)

end Tacit.Log
