import Tacit.Command.Shell

/-!
# Running programs

The programs are run one after another in one world, and the value of each is printed. A run may
be traced on the error output, or profiled to a file.
-/

namespace Tacit.Command.Run

/-- The name of a program that is given as an argument. -/
def argumentName : Text := "<expr>"

/-- A program to run. -/
structure Source where
  name : Text
  content : Text
  deriving DecidableEq, Repr, Inhabited

/-- The programs to run. -/
def sources (s : Shell) : Job (List Source) :=
  s.operands.mapM fun arg =>
    if s.settings.switch "expression" then pure ⟨argumentName, arg⟩
    else return ⟨arg, ← .readSource arg⟩

/-- How calls are traced. -/
def tracing : Profile.Options := ⟨.continuations, .signature⟩

/-- How calls are profiled. -/
def profiling : Profiler := .new .callgrind ⟨.none, .name⟩ true

/-- A host program and whether it traces calls. -/
structure Runner where
  host : Host
  isTracing : Bool

/-- What an event shows on the error output. -/
def eventText (r : Runner) (e : Event) : Text :=
  Log.shown r.host.level e ++ if r.isTracing then Profile.stopLine tracing e else []

/-- Takes over what a host program has written to files. -/
def keepFiles (h : Host) : Job Unit :=
  modify fun c => { c with files := h.world.files.getD c.files }

/-- A host program that writes a profile to a file. -/
def profiled (h : Host) (path : Text) : Job Host := do
  let (h, stop) := { h with profiler := some profiling }.profileTo path
  keepFiles h
  match stop with
  | some (.fault f) => .fail (.remarked "profile" f)
  | some stop => .stop stop
  | none => pure ()
  let (h, fault) := h.profile Profiler.enable
  keepFiles h
  match fault with
  | some f => .fail f
  | none => return h

/-- What the programs run in. -/
def runner (s : Shell) : Job Runner := do
  let level ← .ofExcept (Log.Level.ofName (s.settings.text "log-level"))
  let host : Host := ⟨← s.world, level, none⟩
  let trace := s.settings.switch "trace"
  let profile := s.settings.text "profile"
  if trace && !profile.isEmpty then
    .fail (.plain "--trace and --profile cannot be used together")
  else if profile.isEmpty then return ⟨host, trace⟩
  else return ⟨← profiled host profile, false⟩

/-- Completes a profile, if one is written. -/
def finish (r : Runner) : Job (Option Stop) := do
  let (h, stop) := r.host.completeProfile
  keepFiles h
  return stop

/-- Runs a program and prints its value, or reports its fault. -/
def runOne (s : Shell) (r : Runner) (source : Source) : Job Runner := do
  let run := r.host.run (Program.load s.fuel source.name source.content)
  .printError (run.record.flatMap (eventText r))
  keepFiles run.host
  let r := { r with host := run.host }
  match run.result with
  | .ok v =>
    .print (v.display ++ "\n")
    return r
  | .error stop =>
    let _ ← finish r
    match stop with
    | .fault f => .report s.settings source.name source.content f
    | stop => .stop stop

/-- Runs the programs. -/
def perform (s : Shell) : Job Unit := do
  let programs ← sources s
  let r ← programs.foldlM (runOne s) (← runner s)
  match ← finish r with
  | some stop => .stop stop
  | none => return ()

end Tacit.Command.Run
