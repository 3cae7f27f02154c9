import Tacit.Profile.Callgrind
import Tacit.Profile.Span

/-!
# Profilers

A profiler follows what runs in a world it is attached to, from when it is enabled. Two kinds keep
spans, one only labels what runs, and one writes a profile while the calls happen.
-/

namespace Tacit

/-- What a profiler does with the calls it follows. -/
inductive Profiler.Kind where
  /-- Makes spans with the attributes of a convention, for a tracer. -/
  | telemetry (tracer : Text)
  /-- Makes spans with plain attributes. -/
  | census
  /-- Labels what runs. -/
  | labels
  /-- Writes a profile. -/
  | callgrind
  deriving DecidableEq, Repr, Inhabited

/-- A profiler. -/
structure Profiler where
  kind : Profiler.Kind
  options : Profile.Options
  /-- Whether there is a context to put spans into. -/
  hasContext : Bool
  isAttached : Bool
  isEnabled : Bool
  /-- The signatures that were noted, in the order in which the calls began. -/
  noted : Array Text
  annotator : Profile.Annotator
  profile : Profile.Callgrind.Writer
  deriving Inhabited

namespace Profiler

open Profile

/-- A profiler that is not enabled. One that writes a profile is attached from the start. -/
def new (kind : Kind) (options : Options) (hasContext : Bool) : Profiler :=
  ⟨kind, options, hasContext, kind = .callgrind, false, #[], .empty, .empty⟩

/-- Attaches a profiler to the world it is to follow. -/
def attach (p : Profiler) : Profiler := { p with isAttached := true }

/-! ## Enabling and completing -/

/-- The fault of what a profiler that is enabled cannot do. -/
def alreadyEnabled : Fault := .plain "profiler already enabled"

/-- The fault of having no context to put spans into. -/
def noContext (system : Text) : Fault :=
  .plain ("we can only append spans to a context that is linked to " ++ system)

/-- Enables a profiler that is not enabled yet. -/
def turnOn (p : Profiler) : Profiler × Option Fault :=
  if p.isEnabled then (p, some alreadyEnabled) else ({ p with isEnabled := true }, none)

/-- Enables a profiler, or tells why it cannot be. A profile is started first. -/
def enable (p : Profiler) : Profiler × Option Fault :=
  match p.kind with
  | .telemetry _ =>
    if p.hasContext then p.attach.turnOn else (p.attach, some (noContext "opentelemetry"))
  | .census =>
    if p.hasContext then p.attach.turnOn else (p.attach, some (noContext "opencensus"))
  | .labels => p.attach.turnOn
  | .callgrind =>
    match p.profile.start with
    | (w, some f) => ({ p with profile := w }, some f)
    | (w, none) => turnOn { p with profile := w }

/-- Completes what a profiler does. -/
def complete (p : Profiler) : Except Stop (Profiler × Option Fault) :=
  match p.kind with
  | .telemetry _ | .census => return ({ p with annotator := p.annotator.complete }, none)
  | .labels => return (p, none)
  | .callgrind =>
    if p.isEnabled then do
      let (w, fault) ← p.profile.finish
      return ({ p with isEnabled := false, profile := w }, fault)
    else return (p, some (.plain "profiler not enabled"))

/-- Gives a profiler another output, unless it is enabled. -/
def setOutput (p : Profiler) (o : Output) : Profiler × Option Fault :=
  if p.isEnabled then (p, some alreadyEnabled)
  else ({ p with profile := { p.profile with output := some o } }, none)

/-- Makes a file and gives it to a profiler as its output. -/
def setFile (p : Profiler) (files : FileSystem) (path : Text) :
    FileSystem × Profiler × Option Fault :=
  match files.write path [] with
  | .error f => (files, p, some f)
  | .ok files =>
    let profile := { p.profile with output := p.profile.output.map (Output.unlinkedAt path) }
    (files, setOutput { p with profile := profile } (.toFile path))

/-! ## Following a run -/

/-- What a profiler does when a call stops. -/
abbrev Ending := Profiler → Except Stop Profiler

/-- Does something with the annotator when a call stops. -/
def annotating (ending : Annotator.Ending) : Ending := fun p =>
  return { p with annotator := ← ending p.annotator }

/-- Notes the signature of a function that began to run, if signatures are noted. -/
def note (p : Profiler) (fn : Function) : Profiler :=
  if p.options.labeling.notes then { p with noted := p.noted.push fn.text } else p

/-- Follows that a function began to run that is not left out. -/
def begin (p : Profiler) (label : Text) (fn : Function) : Profiler × Ending :=
  match p.kind with
  | .telemetry _ =>
    let (a, ending) := p.annotator.remembering label fn
    ({ p with annotator := a }, annotating ending)
  | .census =>
    let (a, ending) := p.annotator.stacking label fn
    ({ p with annotator := a }, annotating ending)
  | .labels => (p, .ok)
  | .callgrind =>
    ({ p with profile := p.profile.enter label }, fun q =>
      return { q with profile := ← q.profile.leave label })

/-- Follows that a function began to run. -/
def start (p : Profiler) (fn : Function) : Profiler × Ending :=
  if p.options.filter.skips fn then (p, .ok)
  else (p.note fn).begin (p.options.labeling.label fn) fn

/-- A profiler in the middle of a run. -/
structure Following where
  profiler : Profiler
  /-- What is done when the calls under way stop, innermost first. -/
  endings : List Ending

/-- Follows an event. -/
def Following.step : Following → Event → Except Stop Following
  | ⟨p, endings⟩, .entered fn _ =>
    let (p, ending) := p.start fn
    return ⟨p, ending :: endings⟩
  | ⟨p, ending :: endings⟩, .left .. => return ⟨← ending p, endings⟩
  | s, _ => return s

/-- Whether a profiler follows what runs. -/
def isActive (p : Profiler) : Bool := p.isAttached && p.isEnabled

/-- Follows what happened in a run. -/
def follow (p : Profiler) (record : List Event) : Except Stop Profiler :=
  if p.isActive then (·.profiler) <$> record.foldlM Following.step ⟨p, []⟩ else return p

/-- Puts what was written where it is to be found. -/
def save (p : Profiler) (files : FileSystem) : FileSystem :=
  p.profile.output.elim files fun o => o.save files

/-- What there is to read when so much has happened in a run that a profiler follows. -/
def view (p : Profiler) : View := fun record files =>
  if p.isActive then
    match p.follow record with
    | .ok p => p.save files
    | .error _ => files
  else files

/-! ## What was found -/

/-- The spans that have ended, in that order. -/
def spans (p : Profiler) : List Span := p.annotator.log.spans

/-- The attributes of a span. -/
def spanAttributes (p : Profiler) (s : Span) : List (Text × Text) :=
  match p.kind with
  | .telemetry _ => s.conventionalAttributes
  | _ => s.plainAttributes

/-- The tracer of the spans, if they have one. -/
def tracer? (p : Profiler) : Option Text :=
  match p.kind with
  | .telemetry tracer => some tracer
  | _ => none

end Profiler

end Tacit
