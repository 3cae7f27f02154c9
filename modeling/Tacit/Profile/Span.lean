import Tacit.Profile.Trace

/-!
# Calls as spans

A span is begun in a context, refers to the span that the context carries, and gives a context that
carries the new span. An annotator begins a span when a call begins and ends one when a call stops;
there are two ways to find the context to go on in. As a list, in the order in which they ended, the
spans of a run are those of its traces, the spans inside a call in front of its own.
-/

namespace Tacit.Profile

/-- A call as a member of a list of calls. -/
structure Span where
  name : Text
  fn : Function
  /-- The index of the call around it. -/
  parent : Option Nat

namespace Span

mutual

/-- The spans of a trace, the first of them at an index. -/
def ofTrace (labeling : Labeling) (start : Nat) (parent : Option Nat) : Trace → List Span
  | .call fn inner =>
    ofTraces labeling start (some (start + Trace.sizeAll inner)) inner ++
      [⟨labeling.label fn, fn, parent⟩]

/-- The spans of some traces, the first of them at an index. -/
def ofTraces (labeling : Labeling) (start : Nat) (parent : Option Nat) : List Trace → List Span
  | [] => []
  | t :: ts => ofTrace labeling start parent t ++ ofTraces labeling (start + t.size) parent ts

end

/-- The attributes of a span's call: its function's name, how many operands it takes and whether
it is a continuation, each under the name given for it. -/
def attributes (function arity curried : Text) (s : Span) : List (Text × Text) :=
  [(function, s.fn.name), (arity, Text.ofNat s.fn.arity),
    (curried, if s.fn.curried then "true" else "false")]

/-- The attributes under their plain names. -/
def plainAttributes (s : Span) : List (Text × Text) := s.attributes "function" "arity" "curried"

/-- The attributes under the names of a shared convention, with the language they belong to. -/
def conventionalAttributes (s : Span) : List (Text × Text) :=
  ("code.namespace", "brook") :: s.attributes "code.function" "brook.arity" "brook.curried"

end Span

/-- What a span can be begun in, by the spans it was derived with, the last first. -/
inductive Context where
  | background
  | carrying (span : Nat) (outer : Context)
  deriving DecidableEq, Repr, Inhabited

/-- The number of the span that a context carries. -/
def Context.span? : Context → Option Nat
  | background => none
  | carrying n _ => some n

/-- A span as it was begun. -/
structure Begun where
  name : Text
  fn : Function
  /-- The number of the span around it. -/
  parent : Option Nat
  deriving Inhabited

/-- The spans of a run so far, each numbered when it began. -/
structure SpanLog where
  begun : Array Begun
  /-- The numbers of the spans that were ended, in that order. -/
  ended : Array Nat
  deriving Inhabited

namespace SpanLog

def empty : SpanLog := ⟨#[], #[]⟩

/-- Begins a span in a context. -/
def begin (log : SpanLog) (context : Context) (name : Text) (fn : Function) : SpanLog :=
  { log with begun := log.begun.push ⟨name, fn, context.span?⟩ }

/-- Ends a span, if there is one. -/
def finish (log : SpanLog) (span : Option Nat) : SpanLog :=
  span.elim log fun n => { log with ended := log.ended.push n }

/-- A span that was begun, as a member of a list of spans given by number. -/
def member (log : SpanLog) (among : List Nat) (n : Nat) : Option Span :=
  log.begun[n]?.map fun b => ⟨b.name, b.fn, b.parent.bind fun m => among.idxOf? m⟩

/-- The spans that ended, in the order of their first ends. -/
def spans (log : SpanLog) : List Span :=
  let ended := log.ended.toList.eraseDups
  ended.filterMap (log.member ended)

end SpanLog

/-- What makes spans of the calls of a run. -/
structure Annotator where
  log : SpanLog
  /-- What the span of the next call is begun in. -/
  context : Context
  /-- The number of the span that is ended next. -/
  span : Option Nat
  /-- Contexts put aside, the last first. -/
  aside : List Context
  deriving Inhabited

namespace Annotator

def empty : Annotator := ⟨.empty, .background, none, []⟩

/-- What is done when a call stops. -/
abbrev Ending := Annotator → Except Stop Annotator

/-- Begins the span of a call. What is inside the call goes into it. -/
def enter (a : Annotator) (name : Text) (fn : Function) : Annotator :=
  let n := a.log.begun.size
  { a with
    log := a.log.begin a.context name fn
    context := .carrying n a.context
    span := some n }

/-- Ends the span that there is, and goes on in a context. -/
def leave (a : Annotator) (context : Context) : Annotator :=
  { a with log := a.log.finish a.span, context := context, span := context.span? }

/-- Begins the span of a call. The ending knows the context to go on in. -/
def remembering (a : Annotator) (name : Text) (fn : Function) : Annotator × Ending :=
  (a.enter name fn, fun b => .ok (b.leave a.context))

/-- The crash of ending a call when no context was put aside. -/
def noneAside : Stop := .crash "runtime error: index out of range"

/-- Begins the span of a call. The context to go on in is put aside until the call stops. -/
def stacking (a : Annotator) (name : Text) (fn : Function) : Annotator × Ending :=
  ({ a with aside := a.context :: a.aside }.enter name fn, fun b =>
    match b.aside with
    | [] => .error noneAside
    | context :: aside => .ok { b.leave context with aside := aside })

/-- Ends the span that there is. -/
def complete (a : Annotator) : Annotator := { a with log := a.log.finish a.span }

end Annotator

/-- The tracer of spans for which no other is named. -/
def standardTracer : Text := "brook"

/-- The line that tells of a call when it stops. `D` stands for the time it took. -/
def stopLine (options : Options) : Event → Text
  | .left fn _ =>
    if options.filter.skips fn then [] else "trace: " ++ options.labeling.label fn ++ " D\n"
  | _ => []

end Tacit.Profile
