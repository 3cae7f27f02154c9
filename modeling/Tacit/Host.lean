import Tacit.Log
import Tacit.Profiler

/-!
# A host program

A host program keeps a world between the things it runs in it. What happens during a run is
followed by the profiler, if there is one, and handed to the host program, which may log it. A
profile may be written to a file that the program can read while it runs.
-/

namespace Tacit

/-- A world kept by a host program. -/
structure Host where
  world : World
  level : Log.Level
  profiler : Option Profiler
  deriving Inhabited

namespace Host

/-- How a run ended. -/
structure Run (α : Type) where
  result : Except Stop α
  /-- What happened, in order. -/
  record : List Event
  /-- The host program after the run. -/
  host : Host

/-- The host program with a profiler that may have written to a file. -/
def withProfiler (h : Host) (p : Profiler) : Host :=
  { h with
    profiler := some p
    world := { h.world with files := h.world.files.map p.save } }

/-- Ends a run: lets an active profiler follow what happened, which is then forgotten. -/
def settle {α : Type} (h : Host) (result : Except Stop α) (w : World) : Run α :=
  let record := w.record.toList
  let h := { h with world := { w with record := #[] } }
  match h.profiler with
  | none => ⟨result, record, h⟩
  | some p =>
    if p.isActive then
      match p.follow record with
      | .ok p => ⟨result, record, h.withProfiler p⟩
      | .error stop => ⟨.error stop, record, h⟩
    else ⟨result, record, h⟩

/-- What there is to read while something runs. -/
def view (h : Host) : View := h.profiler.elim .still Profiler.view

/-- Runs something in the world. -/
def run {α : Type} (h : Host) (x : ∀ {view : View}, EvalIn view α) : Run α :=
  match x (h.world.under h.view) with
  | .ok a w => h.settle (.ok a) (w.under .still)
  | .error s w => h.settle (.error s) (w.under .still)

/-- What is logged of a run. -/
def log {α : Type} (h : Host) (r : Run α) : Text := Log.ofRecord h.level r.record

/-! ## Making a host program -/

/-- What a host program can be given when it is made. -/
inductive Part where
  /-- Whether sources can be read. -/
  | reader (reads : Bool)
  /-- The files, if there are any. -/
  | files (files : Option FileSystem)
  /-- The files there were are taken away. -/
  | withoutFiles
  /-- The level of another log, if there is one. -/
  | logger (level : Option Log.Level)
  | level (level : Log.Level)
  | profiler (p : Profiler)

/-- The fault of being given files that are not there. -/
def noFiles : Fault := .plain "nil filesystem"

/-- The fault of being given a log that is not there. -/
def noLogger : Fault := .plain "nil logger"

/-- Gives a host program one thing. -/
def give (h : Host) : Part → Except Fault Host
  | .reader reads => .ok { h with world := { h.world with reads } }
  | .files none => .error noFiles
  | .files (some files) => .ok { h with world := { h.world with files } }
  | .withoutFiles => .ok { h with world := { h.world with files := none } }
  | .logger none => .error noLogger
  | .logger (some level) | .level level => .ok { h with level }
  | .profiler p => .ok { h with profiler := some p }

/-- Makes a host program in which files can be read, and gives it parts in order. -/
def ofParts (files : FileSystem) (parts : List Part) : Except Fault Host :=
  parts.foldlM give ⟨.initial files, .warning, none⟩

/-! ## The profiler -/

/-- Does something with the profiler that may fail. -/
def profile (h : Host) (act : Profiler → Profiler × Option Fault) : Host × Option Fault :=
  match h.profiler with
  | none => (h, none)
  | some p =>
    let (p, fault) := act p
    (h.withProfiler p, fault)

/-- Completes what the profiler does. -/
def completeProfile (h : Host) : Host × Option Stop :=
  match h.profiler with
  | none => (h, none)
  | some p =>
    match p.complete with
    | .ok (p, fault) => (h.withProfiler p, fault.map .fault)
    | .error stop => (h, some stop)

/-- Makes a file for the profiler to write to. Without any files there is nothing to make it in. -/
def profileTo (h : Host) (path : Text) : Host × Option Stop :=
  match h.profiler, h.world.files with
  | some p, some files =>
    let (files, p, fault) := p.setFile files path
    ({ h with profiler := some p, world := { h.world with files := some files } },
      fault.map .fault)
  | some _, none => (h, some .absent)
  | none, _ => (h, none)

end Host

end Tacit
