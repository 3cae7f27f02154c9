import Tacit.Command
import Tacit.Command.Doc
import Tacit.Command.Format
import Tacit.Command.Lint
import Tacit.Command.Run
import Tacit.Repl

/-!
# The command line

An invocation finds its command, reads the flags, checks the operands, reads the settings file and
then does the command's work. The first of these that fails ends it.
-/

namespace Tacit.CommandLine

/-- How the program is started. -/
structure Invocation where
  args : List Text
  /-- The standard input. -/
  input : Text
  files : FileSystem
  /-- The variables of the environment. -/
  environment : List (Text × Text)
  /-- What the host program does to each world that a command makes. -/
  prepare : World → Except Stop World

/-- How an invocation ended. -/
structure Outcome where
  console : Console
  problem : Option Problem

/-- The outcome of a job for an invocation. -/
def Invocation.outcomeOf (i : Invocation) (job : Job Unit) : Outcome :=
  match job ⟨[], [], i.files⟩ with
  | .ok _ c => ⟨c, none⟩
  | .error p c => ⟨c, some p⟩

/-- Whether a switch was given on the command line. -/
def isGiven (line : Flag.Reading) (name : Text) : Bool :=
  (line.setting? name).any Setting.asSwitch

/-- Answers what is typed on the standard input. -/
def repl (s : Shell) : Job Unit := do
  let r ← Command.Run.runner s
  let mode ← .ofExcept (ColorMode.ofName (s.settings.text "color"))
  .print (Repl.transcript ⟨s.fuel, mode, r.host.world⟩ s.input)
  match ← Command.Run.finish r with
  | some stop => .stop stop
  | none => return ()

/-- Does the work of a command that has any. -/
def work (c : Command) (s : Shell) : Job Unit :=
  match c with
  | .run => Command.Run.perform s
  | .format => Command.Format.perform s
  | .lint => Command.Lint.perform s
  | .repl => repl s
  | .doc => Command.Doc.perform (isGiven s.settings.line "guide") s
  | .root | .help | .completion => .print c.usage

/-- What a command runs with, before the settings file is read. -/
def Invocation.shell (i : Invocation) (flags : List Flag) (line : Flag.Reading) : Shell where
  settings := ⟨flags, line, i.environment, []⟩
  operands := line.operands
  input := i.input
  prepare := i.prepare
  fuel := standardFuel

/-- Does what a command line says for a command. -/
def perform (i : Invocation) (c : Command) (args : List Text) : Job Unit := do
  let line ← .ofExcept (Flag.Reading.ofArgs c.flags args)
  if isGiven line "help" then .print c.usage
  else if isGiven line "version" then .print Command.versionText
  else if c = .root then .print c.usage
  else
    .ofExcept (c.checkOperands line.operands)
    let s := i.shell c.flags line
    let settings ← .ofExcept (s.settings.withFile (← get).files)
    work c { s with settings := settings }

/-- Runs the program. -/
def invoke (i : Invocation) : Outcome :=
  i.outcomeOf do
    let (c, args) ← .ofExcept (Command.find i.args)
    perform i c args

/-- The flags of the command that shows documentation, when it is a program of its own. -/
def docFlags : List Flag := Command.ownFlags .doc ++ [Command.helpFlag]

/-- Runs the command that shows documentation as a program of its own, which reads no settings. -/
def invokeDoc (i : Invocation) : Outcome :=
  i.outcomeOf do
    let line ← .ofExcept (Flag.Reading.ofArgs docFlags i.args)
    if isGiven line "help" then .print (Command.usage .doc)
    else
      .ofExcept (Command.checkOperands .doc line.operands)
      Command.Doc.perform (isGiven line "guide") (i.shell docFlags line)

end Tacit.CommandLine
