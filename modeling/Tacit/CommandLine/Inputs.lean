import Tacit.CommandLine

/-!
# What an invocation reads

The files, variables and input that an invocation may read, known before it is performed: so they
can be fetched first. The programs among the files, and those on the command line, may name
further files between quotes.
-/

namespace Tacit.CommandLine

/-- The command of an invocation and what was read of its flags, if both are as they should be. -/
def Invocation.line? (i : Invocation) : Option (Command × Flag.Reading) := do
  let (c, args) ← (Command.find i.args).toOption
  let line ← (Flag.Reading.ofArgs c.flags args).toOption
  return (c, line)

/-- Whether an invocation reads the standard input. -/
def Invocation.readsInput (i : Invocation) : Bool :=
  match i.line? with
  | some (.format, line) | some (.lint, line) => line.operands.isEmpty
  | some (.repl, _) => true
  | _ => false

/-- The variables that settings are taken from. -/
def variableNames : List Text :=
  let flags := Command.named.flatMap Command.flags
  Text.ofString "HOME" :: (flags.map fun f => Settings.variableName f.name).eraseDups

/-- The settings files that an invocation may read. -/
def Invocation.settingsFiles (i : Invocation) : List Text :=
  let named := match i.line? with
    | some (c, line) => Settings.text ⟨c.flags, line, i.environment, []⟩ "config"
    | none => []
  let home := (i.environment.lookup (Text.ofString "HOME")).getD []
  if named.isEmpty then Settings.candidates home else [named]

/-- The operands of an invocation. -/
def Invocation.operands (i : Invocation) : List Text :=
  i.line?.elim [] fun (_, line) => line.operands

/-- The texts between quotes in a source. -/
def literals (src : Text) : List Text :=
  match lex [] src with
  | .ok ts => ts.filterMap fun t => if t.kind = .str then some (t.text.drop 1).dropLast else none
  | .error _ => []

/-- The files that the programs of an invocation name. -/
def Invocation.namedFiles (i : Invocation) : List Text :=
  let contents := i.files.entries.filterMap fun (_, e) =>
    match e with
    | .file content => some content
    | .directory => none
  ((i.input :: i.operands ++ contents).flatMap literals).eraseDups

end Tacit.CommandLine
