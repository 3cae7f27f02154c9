import Tacit.Profile.Trace
import Tacit.Version

/-!
# Profiles in the callgrind format

A profile has a header, a block for each call in the order in which they stopped, and at the end a
block for all of the run and a summary. A block names the function called and then each function
called inside. A name is numbered when it is first used and is its number from then on.

A profile is written bit by bit while the calls happen, and no more is written to an output that
failed once. `T` and `M` stand for measured times and amounts of memory, `V` for the version of
what the profile ran on.
-/

namespace Tacit.Profile

/-! ## Outputs -/

/-- An output that a profile is written to. -/
structure Output where
  /-- The file it is; none for an output of the host program. -/
  path : Option Text
  /-- Whether what is written is still what the file holds. -/
  isLinked : Bool
  /-- What was written, the last first. -/
  written : List Text
  /-- How many more writes it takes, if there is a limit. -/
  room : Option Nat
  /-- How often it was closed. -/
  closings : Nat
  deriving DecidableEq, Repr, Inhabited

namespace Output

/-- A file that was just made. -/
def toFile (path : Text) : Output := ⟨some path, true, [], none, 0⟩

/-- An output of the host program, which may take only so many writes. -/
def toHost (room : Option Nat) : Output := ⟨none, false, [], room, 0⟩

/-- All that was written. -/
def text (o : Output) : Text := o.written.reverse.flatten

/-- Writes a text. A closed file takes nothing. -/
def write (o : Output) (t : Text) : Except Fault Output :=
  if o.path.isSome && 0 < o.closings then .error (.plain "File is closed")
  else
    match o.room with
    | none => .ok { o with written := t :: o.written }
    | some 0 => .error (.plain "write failed")
    | some (n + 1) => .ok { o with written := t :: o.written, room := some n }

/-- Writes texts until one fails. -/
def writeAll (o : Output) : List Text → Output × Option Fault
  | [] => (o, none)
  | t :: ts =>
    match o.write t with
    | .ok o => o.writeAll ts
    | .error f => (o, some f)

def close (o : Output) : Output := { o with closings := o.closings + 1 }

/-- Puts what was written where it is to be found. -/
def save (o : Output) (files : FileSystem) : FileSystem :=
  match o.path with
  | some path => if o.isLinked then files.store path o.text else files
  | none => files

/-- The output after a file has been made anew at a path: it may no longer be that file. -/
def unlinkedAt (path : Text) (o : Output) : Output :=
  if o.path.map FileSystem.key = some (FileSystem.key path) then { o with isLinked := false }
  else o

end Output

namespace Callgrind

/-! ## The format -/

/-- The file that all functions are said to be in. -/
def sourceFile : Text := "brook"

/-- The name of the block for all of a run. -/
def entryPoint : Text := "ENTRYPOINT"

/-- What is written before any call. -/
def header : List Text :=
  ["version: 1\ncreator: brook " ++ version ++ " (Go V)\n",
    "cmd: Eval\npart: 1\npositions: line\n\n",
    "events: Time_(ns) Memory_(bytes)\n\n"]

/-- What is written last. -/
def summary : Text := "summary: T M\n\n"

/-- The costs of a call. -/
def costs : Text := "0 T M\n"

/-- What is written behind a block. -/
def separator : Text := "\n"

/-- The names used so far, in the order of their numbers, which start at one. -/
abbrev Numbering := List Text

/-- Writes a name: with its number at its first use, and as its number later. -/
def refer (name : Text) : StateM Numbering Text := fun names =>
  match names.idxOf? name with
  | some i => (Text.between "(" ")" (Text.ofNat (i + 1)), names)
  | none => (Text.between "(" ")" (Text.ofNat (names.length + 1)) ++ " " ++ name, names ++ [name])

/-- The part of a block for a call inside. -/
def callLines (label : Text) : StateM Numbering (List Text) := do
  let file ← refer sourceFile
  let name ← refer label
  return ["cfl=" ++ file ++ "\n", "cfn=" ++ name ++ "\n", "calls=1 0\n", costs]

/-- The block for a call and the calls right inside. -/
def block (label : Text) (inner : List Text) : StateM Numbering (List Text) := do
  let file ← refer sourceFile
  let name ← refer label
  let calls ← inner.mapM callLines
  let own : List Text := ["fl=" ++ file ++ "\n", "fn=" ++ name ++ "\n", costs]
  return own ++ calls.flatten ++ [separator]

/-! ## Writing while calls happen -/

/-- A call under way. -/
structure Call where
  label : Text
  /-- What the calls right inside are shown as, the last first. -/
  inner : List Text
  deriving DecidableEq, Repr, Inhabited

/-- A profile that is being written. -/
structure Writer where
  output : Option Output
  /-- The failure that ended the writing. -/
  failure : Option Fault
  names : Numbering
  /-- The calls under way, innermost first. -/
  calls : List Call
  deriving Inhabited

namespace Writer

def empty : Writer := ⟨none, none, [], []⟩

/-- The crash of ending a call when none is under way. -/
def underflow : Stop := .crash "profiler: call stack underflow"

/-- Notes that a call began. -/
def enter (w : Writer) (label : Text) : Writer :=
  match w.calls with
  | [] => { w with calls := [⟨label, []⟩] }
  | c :: cs => { w with calls := ⟨label, []⟩ :: { c with inner := label :: c.inner } :: cs }

/-- Starts a profile: all of the run is a call. -/
def start (w : Writer) : Writer × Option Fault :=
  match w.output with
  | none => (w, some (.plain "no output set in profiler"))
  | some o =>
    match o.writeAll header with
    | (o, some f) => ({ w with output := some o }, some f)
    | (o, none) => ({ w with output := some o, names := [], calls := [⟨entryPoint, []⟩] }, none)

/-- Writes texts to the output. -/
def write (w : Writer) (texts : List Text) : Writer × Option Fault :=
  match w.output with
  | none => (w, none)
  | some o =>
    let (o, fault) := o.writeAll texts
    ({ w with output := some o }, fault)

/-- Ends the call that began last and writes its block, unless the writing has ended. -/
def leave (w : Writer) (label : Text) : Except Stop Writer :=
  if w.failure.isSome then .ok w
  else
    match w.calls with
    | [] => .error underflow
    | c :: cs =>
      let (texts, names) := block label c.inner.reverse w.names
      let (w, fault) := write { w with calls := cs, names := names } texts
      .ok { w with failure := fault }

/-- Ends a profile: writes what is left and closes the output. -/
def finish (w : Writer) : Except Stop (Writer × Option Fault) :=
  match w.calls with
  | [] => .error underflow
  | c :: cs =>
    let w := { w with calls := cs }
    match w.failure with
    | some f => .ok (w, some f)
    | none =>
      let (texts, names) := block c.label c.inner.reverse w.names
      match write { w with names := names } (texts ++ [summary]) with
      | (w, some f) => .ok (w, some f)
      | (w, none) => .ok ({ w with output := w.output.map Output.close }, none)

end Writer

end Callgrind

end Tacit.Profile
