import Tacit.Flag
import Tacit.Text.Distance
import Tacit.Version

/-!
# The commands

The first word of a command line is the command. A word that is none is refused, with the commands
that it may have been meant for.
-/

namespace Tacit

/-- A command. -/
inductive Command where
  /-- The program itself, without a command. -/
  | root
  | run
  | format
  | lint
  | repl
  | doc
  | help
  | completion
  deriving DecidableEq, Repr, Inhabited

namespace Command

/-- The name of the program. -/
def program : Text := "brook"

/-- The word for a command. -/
def name : Command → Text
  | root => program
  | run => "run"
  | format => "fmt"
  | lint => "lint"
  | repl => "repl"
  | doc => "doc"
  | help => "help"
  | completion => "completion"

/-- The commands that a word can name, in the order in which they are suggested. -/
def named : List Command := [run, format, lint, repl, doc, help, completion]

/-- How a command is called in messages. -/
def path (c : Command) : Text := if c = root then program else program ++ " " ++ c.name

/-! ## Flags -/

/-- The flags that every command knows. -/
def sharedFlags : List Flag :=
  [.ofText "config" "", .ofText "log-level" "warn", .ofText "color" "auto",
    .ofSwitch "trace" none]

/-- The flags of a command alone. -/
def ownFlags : Command → List Flag
  | root => [.ofSwitch "version" (some 'v')]
  | run => [.ofSwitch "expression" (some 'e'), .ofText "profile" ""]
  | format =>
    [.ofSwitch "write" (some 'w'), .ofSwitch "diff" (some 'd'), .ofSwitch "list" (some 'l'),
      .ofTexts "exclude"]
  | lint =>
    [.ofSwitch "json" none, .ofText "checks" "", .ofSwitch "list" none, .ofTexts "exclude"]
  | doc => [.ofSwitch "guide" none]
  | repl | help | completion => []

/-- The flag that asks for help. -/
def helpFlag : Flag := .ofSwitch "help" (some 'h')

/-- The flags a command knows. -/
def flags (c : Command) : List Flag := c.ownFlags ++ sharedFlags ++ [helpFlag]

/-! ## Finding the command -/

/-- How far a word may be from a command it was meant for. -/
def closeness : Nat := 2

/-- Whether a word may have been meant for a command. -/
def isNear (word : Text) (c : Command) : Bool :=
  let word := Text.lower word
  Text.distance word c.name ≤ closeness || (Text.after? word c.name).isSome

/-- The commands a word may have been meant for. Nobody means the help. -/
def suggestions (word : Text) : List Command :=
  named.filter fun c => c != help && isNear word c

/-- The line for a suggestion. -/
def suggestionLine (c : Command) : Text := "\t" ++ c.name ++ "\n"

/-- How suggestions are told. -/
def suggestionText (word : Text) : Text :=
  match suggestions word with
  | [] => []
  | cs => Text.ofString "\n\nDid you mean this?\n" ++ cs.flatMap suggestionLine

/-- The fault of a word that is no command. -/
def unknown (word : Text) (parent further : Text) : Fault :=
  .plain ("unknown command " ++ Text.quoted word ++ " for " ++ Text.quoted parent ++ further)

/-- The command of a command line, and the arguments that are left for it. -/
def find (args : List Text) : Except Fault (Command × List Text) :=
  match Flag.words sharedFlags args with
  | [] => .ok (root, args)
  | word :: _ =>
    match named.find? fun c => c.name == word with
    | some c => .ok (c, Flag.withoutWord sharedFlags word args)
    | none => .error (unknown word program (suggestionText word))

/-! ## How many operands a command takes -/

/-- The fault of too few operands. -/
def tooFew (least received : Nat) : Fault :=
  .plain ("requires at least " ++ Text.ofNat least ++ " arg(s), only received "
    ++ Text.ofNat received)

/-- The fault of too many operands. -/
def tooMany (most received : Nat) : Fault :=
  .plain ("accepts at most " ++ Text.ofNat most ++ " arg(s), received " ++ Text.ofNat received)

/-- Checks how many operands there are. -/
def checkOperands (c : Command) (operands : List Text) : Except Fault Unit :=
  match c, operands with
  | run, [] => .error (tooFew 1 0)
  | doc, _ :: _ :: _ => .error (tooMany 1 operands.length)
  | repl, word :: _ => .error (unknown word c.path [])
  | _, _ => .ok ()

/-! ## Texts -/

/-- How a command is used. -/
def usage : Command → Text
  | root => "Usage: brook run|fmt|lint|repl|doc\n"
  | run => "Usage: brook run [flags] FILE...\n"
  | format => "Usage: brook fmt [flags] [files...]\n"
  | lint => "Usage: brook lint [flags] [files...]\n"
  | repl => "Usage: brook repl\n"
  | doc => "Usage: brook doc [NAME]\n"
  | help => "Usage: brook help [command]\n"
  | completion => "Usage: brook completion\n"

/-- What is said of the version. -/
def versionText : Text := program ++ " version " ++ version ++ "\n"

end Command

end Tacit
