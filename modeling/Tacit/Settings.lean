import Tacit.Flag
import Tacit.FileSystem
import Tacit.Setting.Document

/-!
# The settings of a command

What is given on the command line comes first, then a variable of the environment, then the
settings file, and last what a flag is when it is not given.
-/

namespace Tacit

/-- The settings a command has. -/
structure Settings where
  /-- The flags it knows. -/
  flags : List Flag
  /-- What the command line gave. -/
  line : Flag.Reading
  /-- The variables of the environment. -/
  environment : List (Text × Text)
  /-- What the settings file gave, under names in lower case. -/
  file : List (Text × Setting)
  deriving Inhabited

namespace Settings

/-- The variable for a setting. -/
def variableName (name : Text) : Text :=
  "BROOK_" ++ (Text.upper name).map fun b => if b = Flag.dash then '_'.toUInt8 else b

/-- What a variable gives; an empty one gives nothing. -/
def fromVariable? (s : Settings) (name : Text) : Option Setting :=
  match s.environment.lookup (variableName name) with
  | some [] => none
  | value => value.map .text

/-- What the settings file gives. -/
def fromFile? (s : Settings) (name : Text) : Option Setting :=
  match s.file.lookup name with
  | some .null => none
  | value => value

/-- What a flag is when it is not given. -/
def standard (s : Settings) (name : Text) : Setting :=
  match s.flags.find? fun f => f.name == name with
  | none => .null
  | some f =>
    match f.kind with
    | .texts => .list []
    | .switch | .text => .text f.standard

/-- A setting. -/
def get (s : Settings) (name : Text) : Setting :=
  (((s.line.setting? name).or (s.fromVariable? name)).or (s.fromFile? name)).getD (s.standard name)

def text (s : Settings) (name : Text) : Text := (s.get name).asText

def switch (s : Settings) (name : Text) : Bool := (s.get name).asSwitch

def texts (s : Settings) (name : Text) : List Text := (s.get name).asTexts

/-! ## The settings file -/

/-- The kinds of file that settings may be in. -/
def fileKinds : List Text :=
  ["json", "toml", "yaml", "yml", "properties", "props", "prop", "hcl", "tfvars", "dotenv", "env",
    "ini"]

/-- The name of a settings file that is not named otherwise, without its kind. -/
def standardFile : Text := ".brook"

/-- Where a settings file is sought when none is named. -/
def candidates (home : Text) : List Text :=
  let base := Path.join home standardFile
  fileKinds.map (fun kind => base ++ "." ++ kind) ++ [base]

/-- The content of the settings file when none is named, if there is one. -/
def foundIn (files : FileSystem) (home : Text) : Option Text :=
  (candidates home).findSome? fun path =>
    match files.entry? path with
    | some (.file content) => some content
    | _ => none

/-- The fault of a settings file whose kind is not known. -/
def unknownKind (kind : Text) : Fault :=
  .plain ("Unsupported Config Type " ++ Text.quoted kind)

/-- The content of a settings file that was named. -/
def namedIn (files : FileSystem) (path : Text) : Except Fault Text :=
  let kind := (Path.extension path).drop 1
  if fileKinds.contains kind then files.read path else .error (unknownKind kind)

/-- The settings in a content. -/
def parse (content : Text) : Except Fault (List (Text × Setting)) :=
  match Setting.Document.read content with
  | .ok es => .ok es
  | .error f => .error (.remarked "While parsing config" f)

/-- Puts in what the settings file gives. Without a home directory no file is sought. -/
def withFile (s : Settings) (files : FileSystem) : Except Fault Settings :=
  let path := s.text "config"
  let entries : Except Fault (List (Text × Setting)) :=
    if path.isEmpty then
      match s.environment.lookup (Text.ofString "HOME") with
      | none | some [] => .ok []
      | some home => (foundIn files home).elim (.ok []) parse
    else do parse (← namedIn files path)
  match entries with
  | .ok entries => .ok { s with file := entries }
  | .error f => .error (.remarked "reading config" f)

end Settings

end Tacit
