import Tacit.Diagnostic.Snippet
import Tacit.Evaluation
import Tacit.Help
import Tacit.Host

/-!
# An interactive session

Lines are collected until their brackets balance and are then run as one chunk. A blank line with
nothing collected is ignored, an interrupt discards what is collected, and the end of the input
runs what is left. A chunk that starts with a colon is a command.
-/

namespace Tacit.Repl

/-- The name of the source that is typed in. -/
def sourceName : Text := "repl"

/-! ## Input -/

/-- What a user does. -/
inductive Input where
  | line (text : Text)
  | interrupt
  deriving DecidableEq, Repr

/-- How a token changes the depth of nesting. -/
def depthChange (t : Token) : Int :=
  match t.kind with
  | .parenL | .braceL => 1
  | .parenR | .braceR => -1
  | _ => 0

/-- Whether no bracket of a source is left open. A source that is no list of tokens is complete,
so that its fault is told. -/
def isComplete (src : Text) : Bool :=
  match lex sourceName src with
  | .error _ => true
  | .ok ts => ts.foldl (fun depth t => depth + depthChange t) 0 ≤ 0

/-- The chunks to run, given what is collected and what the user does. -/
def chunks : Text → List Input → List Text
  | pending, [] => if pending.isEmpty then [] else [pending]
  | _, .interrupt :: rest => chunks [] rest
  | pending, .line l :: rest =>
    if pending.isEmpty && (Text.trimmed l).isEmpty then chunks [] rest
    else
      let src := pending ++ l ++ "\n"
      if isComplete src then src :: chunks [] rest else chunks src rest

/-- What a user does who types some bytes, after those of a line begun, last byte first. Byte 3
interrupts. -/
def typed : Text → Text → List Input
  | [], [] => []
  | b :: held, [] => [.line (b :: held).reverse]
  | held, b :: rest =>
    if b = 10 ∨ b = 13 then .line held.reverse :: typed [] rest
    else if b = 3 then .interrupt :: typed [] rest
    else typed (b :: held) rest

/-! ## Output -/

/-- How a session answers. -/
structure Session where
  fuel : Nat
  mode : ColorMode
  world : World

/-- Begins a session with a world that is made of parts. -/
def Session.ofParts (fuel : Nat) (mode : ColorMode) (files : FileSystem)
    (parts : List Host.Part) : Except Fault Session :=
  match Host.ofParts files parts with
  | .ok h => .ok ⟨fuel, mode, h.world⟩
  | .error f => .error (.remarked "environment initialization failure" f)

/-- A fault as the session tells it, with a hint for a name that is not bound. -/
def faultText (mode : ColorMode) (src : Text) (f : Fault) : Text :=
  let d := Diagnostic.ofFault f
  let hint : List Text :=
    if d.condition == Condition.unboundName.name then
      ["use :names to list the available functions"]
    else []
  Snippets.render ⟨mode, [(sourceName, src)], none⟩ { d with notes := d.notes ++ hint }

/-- The answer to a command that there is not. -/
def commandList : Text := "commands: :doc NAME, :names\n"

/-- The answer to a command. -/
def commandText (s : Session) (command : Text) : Text :=
  match Text.words (command.drop 1) with
  | [verb, name] =>
    if verb == Text.ofString "doc" then
      match Help.nameText s.world.names name with
      | .ok t => t
      | .error f => faultText s.mode command f
    else commandList
  | [verb] =>
    if verb == Text.ofString "names" then Help.listText s.world.names else commandList
  | _ => commandList

/-- How a run that did not give a value is told. -/
def stopText (mode : ColorMode) (src : Text) : Stop → Text
  | .fault f => faultText mode src f
  | .crash message => message ++ "\n"
  | .outOfFuel => "out of fuel\n"

/-- Runs a chunk; gives the answer and the session after it. -/
def run (s : Session) (src : Text) : Text × Session :=
  let command := Text.trimmed src
  if command.head? = some ':'.toUInt8 then (commandText s command, s)
  else
    match Program.load s.fuel sourceName src s.world with
    | .ok v w => (v.text ++ "\n", { s with world := w })
    | .error stop w => (stopText s.mode src stop, { s with world := w })

/-- Runs chunks; gives the answers together. -/
def runAll : Session → List Text → Text
  | _, [] => []
  | s, src :: rest =>
    let (answer, s) := run s src
    answer ++ runAll s rest

/-- All that a session answers to what is typed. -/
def transcript (s : Session) (input : Text) : Text :=
  runAll s (chunks [] (typed [] (Text.ofChars (Text.chars input))))

/-! ## Completion -/

/-- Whether a character ends the name in front of it. -/
def endsName (c : Char) : Bool := " \t\n([;".toList.contains c

/-- The ends of the names that the part of a line in front of the cursor may become, and the
length of the part they share. -/
def completions (names : Scope) (before : List Char) : List Text × Nat :=
  let start := Text.ofChars (before.reverse.takeWhile fun c => !endsName c).reverse
  if start.isEmpty then ([], 0)
  else
    match names.names.filterMap fun n =>
        match Text.after? start n with
        | some rest => if rest.isEmpty then none else some rest
        | none => none with
    | [] => ([], 0)
    | found => (found, start.length)

end Tacit.Repl
