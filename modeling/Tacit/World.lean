import Tacit.FileSystem
import Tacit.Value

/-!
# What a program runs in

A world holds the names bound so far, the files that programs can read, the serial number of the
next thing that needs one, and the record of what happened. Running something in a world gives a
value, or stops with a fault, with a crash of the host, or because it was not given enough fuel.

The files may change while a program runs, as when a profile of the run is written to one of them.
What a world is under tells what there is to read by the time that so much has happened.
-/

namespace Tacit

/-- Values by name, each name once. -/
structure Scope where
  bindings : List (Text × Value)
  deriving Inhabited

namespace Scope

/-- The value a name is bound to. -/
def get? (s : Scope) (name : Text) : Option Value := s.bindings.lookup name

/-- Binds a name, in place of what it was bound to. -/
def put (s : Scope) (name : Text) (v : Value) : Scope :=
  if s.bindings.any (·.1 == name) then
    ⟨s.bindings.map fun (n, w) => if n == name then (n, v) else (n, w)⟩
  else ⟨s.bindings ++ [(name, v)]⟩

/-- The bound names in dictionary order. -/
def names (s : Scope) : List Text := Text.sorted (s.bindings.map (·.1))

/-- The names of the truth values. -/
def truths : List (Text × Value) := [("true", .bool true), ("false", .bool false)]

/-- The names every program can use: the builtins and the truth values. -/
def initial : Scope := ⟨Builtin.all.map (fun b => (b.name, .func b.function)) ++ truths⟩

end Scope

/-- The value of a name that every program can use. -/
def Builtin.lookup? (name : Text) : Option Value := Scope.initial.get? name

/-- Something that happened while a program ran. -/
inductive Event where
  /-- A function was taken as an operand still to be computed. -/
  | composed (fn operand : Text) (position : Nat)
  /-- A partial application gave a continuation. -/
  | curried (fn : Text) (groups : Nat) (cont : Function)
  /-- A function began to run. -/
  | entered (fn : Function) (operands : List Value)
  /-- A function stopped, with a value or without: of those still running, the one that began
  last. -/
  | left (fn : Function) (result : Option Value)

/-- What there is to read of the files when so much has happened, if something outside writes to
them while a program runs. -/
abbrev View := List Event → FileSystem → FileSystem

/-- Nothing outside writes. -/
def View.still : View := fun _ files => files

/-- What a program runs in. -/
structure World (view : View := .still) where
  names : Scope
  /-- The files there are when a run begins, if there are any at all. -/
  files : Option FileSystem
  /-- Whether sources can be read. -/
  reads : Bool
  /-- The serial number to be drawn next. -/
  serial : Nat
  /-- What has happened. -/
  record : Array Event
  deriving Inhabited

/-- A world in which nothing has happened. -/
def World.initial (files : FileSystem) : World := ⟨.initial, some files, true, 0, #[]⟩

/-- The same world under another view. -/
def World.under {view : View} (w : World view) (view' : View) : World view' :=
  ⟨w.names, w.files, w.reads, w.serial, w.record⟩

/-- The files to read by now. -/
def World.seen {view : View} (w : World view) : Option FileSystem :=
  w.files.map (view w.record.toList)

/-- Why running something gave no value. -/
inductive Stop where
  | fault (f : Fault)
  /-- A misuse that takes the host program down. -/
  | crash (message : Text)
  | outOfFuel

/-- The crash of using something that is not there. -/
def Stop.absent : Stop := .crash "runtime error: invalid memory address or nil pointer dereference"

/-- Something to run in a world under a view. -/
abbrev EvalIn (view : View) := EStateM Stop (World view)

/-- Something to run in a world. -/
abbrev Eval := EvalIn .still

namespace EvalIn

variable {view : View}

def fail {α : Type} (f : Fault) : EvalIn view α := throw (.fault f)

def crash {α : Type} (message : Text) : EvalIn view α := throw (.crash message)

/-- The crash of using something as the function it is not. -/
def noFunction {α : Type} : EvalIn view α := throw .absent

/-- Draws a serial number. -/
def drawSerial : EvalIn view Nat :=
  modifyGet fun w => (w.serial, { w with serial := w.serial + 1 })

/-- Records something that happened. -/
def note (e : Event) : EvalIn view Unit := modify fun w => { w with record := w.record.push e }

/-- Binds a name. -/
def bindName (name : Text) (v : Value) : EvalIn view Unit :=
  modify fun w => { w with names := w.names.put name v }

/-- The number an operation gave. -/
def number (x : Float) : EvalIn view Value := do
  if x == x then return .num (.ofFloat 0 x)
  else return .num (.ofFloat (← drawSerial) x)

/-- The function a value is. -/
def function (v : Value) : EvalIn view Function :=
  match v with
  | .func f => pure f
  | _ => noFunction

/-- What comes of a result or fault. -/
def ofExcept {α : Type} : Except Fault α → EvalIn view α
  | .ok a => pure a
  | .error f => fail f

/-- Runs something for a function, and records that the function stopped however it ends. -/
def leaving (fn : Function) (x : EvalIn view Value) : EvalIn view Value := fun w =>
  match x w with
  | .ok v w => .ok v { w with record := w.record.push (.left fn (some v)) }
  | .error s w => .error s { w with record := w.record.push (.left fn none) }

/-- Gives the place of a call to a fault it raises. -/
def locating {α : Type} (place : Option Location) (x : EvalIn view α) : EvalIn view α := fun w =>
  match x w with
  | .error (.fault f) w => .error (.fault (f.placedAt place)) w
  | r => r

end EvalIn

end Tacit
