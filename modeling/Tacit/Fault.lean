import Tacit.Location
import Tacit.TypeDesc
import Tacit.Text.Quoted

/-!
# What can go wrong, and how it is told

A fault is found while lexing, parsing or evaluating a program and ends the run. It has a
condition, a message and, once known, the place of the call that raised it. Faults nest: a failure
inside a builtin names the builtin, and other code may put a place or a remark in front of a
fault.
-/

namespace Tacit

/-- The classification of a fault. -/
inductive Condition where
  | lexError
  | parseError
  | unboundName
  | notCallable
  | arityError
  | typeMismatch
  | builtinError
  deriving DecidableEq, Repr, Inhabited

/-- The name of a condition, as diagnostics show it. -/
def Condition.name : Condition → Text
  | lexError => "lex-error"
  | parseError => "parse-error"
  | unboundName => "unbound-name"
  | notCallable => "not-callable"
  | arityError => "arity-error"
  | typeMismatch => "type-mismatch"
  | builtinError => "builtin-error"

/-- A fault and its cause. -/
inductive Fault where
  /-- No token starts the rest of the source, of which `excerpt` is the beginning. -/
  | unmatched (place : Option Location) (excerpt : Text)
  /-- Tokens that form no statement. -/
  | malformed (place : Option Location) (problem : Text)
  | unbound (place : Option Location) (name : Text)
  /-- Operands given to a value that is no function. -/
  | notCallable (place : Option Location) (name : Text) (actual : TypeDesc)
  /-- More operands than a function takes. -/
  | arity (place : Option Location) (fn : Text) (takes received : Int)
  /-- An operand that its parameter rejects; `operand` is how it prints. -/
  | mismatch (place : Option Location) (fn : Text) (position : Int) (expected actual : TypeDesc)
      (operand : Option Text)
  /-- A failure inside a builtin. -/
  | builtin (place : Option Location) (fn : Text) (inner : Fault)
  /-- A fault behind a place, which is not its own place. -/
  | placed (place : Option Location) (inner : Fault)
  /-- A fault behind a remark. -/
  | remarked (remark : Text) (inner : Fault)
  /-- A failure outside the language, such as a file that does not exist. -/
  | plain (message : Text)
  deriving Repr, Inhabited

namespace Fault

/-- How operand positions are called. -/
def positionName (i : Int) : Text :=
  if i = 0 then "LHS" else if i = 1 then "RHS" else "argument " ++ Text.ofInt i

/-- A message behind its place, when the place is known. -/
def behind (place : Option Location) (message : Text) : Text :=
  match place with
  | none => message
  | some l => l.text ++ ": " ++ message

/-- The message of a fault. -/
def message : Fault → Text
  | unmatched place excerpt =>
    behind place ("lex-error: no token matches input starting " ++ Text.quoted excerpt)
  | malformed place problem => behind place ("parse-error: " ++ problem)
  | unbound place name => behind place ("unbound-name: no such function or value " ++ name)
  | notCallable place name actual =>
    behind place
      ("not-callable: " ++ name ++ " is a value of type " ++ actual.text ++ ", not a function")
  | arity place fn takes received =>
    behind place ("arity-error: function '" ++ fn ++ "' takes " ++ Text.ofInt takes
      ++ " arguments, received " ++ Text.ofInt received)
  | mismatch place fn position expected actual operand =>
    behind place ("type-mismatch: function '" ++ fn ++ "' expected " ++ positionName position
      ++ " to be of type " ++ expected.text ++ ", received " ++ actual.text ++ ": "
      ++ operand.getD "<nil>")
  | builtin place fn inner => behind place (fn ++ ": " ++ message inner)
  | placed place inner => (place.elim ("<nil>" : Text) Location.text) ++ ": " ++ message inner
  | remarked remark inner => remark ++ ": " ++ message inner
  | plain message => message

/-- The condition of the fault itself. -/
def condition? : Fault → Option Condition
  | unmatched .. => some .lexError
  | malformed .. => some .parseError
  | unbound .. => some .unboundName
  | notCallable .. => some .notCallable
  | arity .. => some .arityError
  | mismatch .. => some .typeMismatch
  | builtin .. => some .builtinError
  | placed .. | remarked .. | plain .. => none

/-- The place of the fault itself. -/
def place? : Fault → Option Location
  | unmatched p _ | malformed p _ | unbound p _ | notCallable p _ _ | arity p _ _ _
  | mismatch p _ _ _ _ _ | builtin p _ _ => p
  | placed .. | remarked .. | plain .. => none

/-- The outermost fault that has a condition, with that condition. -/
def principal? : Fault → Option (Fault × Condition)
  | placed _ inner | remarked _ inner => principal? inner
  | plain _ => none
  | f => f.condition?.map (f, ·)

/-- The condition of the outermost fault that has one, or else the message. -/
def outcome (f : Fault) : Text :=
  match f.principal? with
  | some (_, c) => c.name
  | none => f.message

/-- The fault with a place of its own, if it can have one. -/
def withPlace (l : Location) : Fault → Fault
  | unmatched _ e => unmatched (some l) e
  | malformed _ m => malformed (some l) m
  | unbound _ n => unbound (some l) n
  | notCallable _ n a => notCallable (some l) n a
  | arity _ f t r => arity (some l) f t r
  | mismatch _ f i e a o => mismatch (some l) f i e a o
  | builtin _ f i => builtin (some l) f i
  | placed p i => placed p i
  | remarked r i => remarked r i
  | plain m => plain m

/-- Gives a place to the outermost fault of a condition, unless it has one. -/
def placeFirst? (c : Condition) (l : Location) (f : Fault) : Option Fault :=
  if f.condition? = some c then
    if f.place?.isNone then some (f.withPlace l) else none
  else
    match f with
    | builtin p fn inner => (placeFirst? c l inner).map (builtin p fn)
    | placed p inner => (placeFirst? c l inner).map (placed p)
    | remarked r inner => (placeFirst? c l inner).map (remarked r)
    | _ => none

/-- The conditions of faults that a call raises, in the order in which a place is sought for
them. -/
def placeable : List Condition := [.arityError, .typeMismatch, .notCallable, .builtinError]

/-- Gives the place of the call to a fault it raised: to the outermost fault of the first
placeable condition that still has none. -/
def placedAt (place : Option Location) (f : Fault) : Fault :=
  match place with
  | none => f
  | some l => (placeable.findSome? fun c => placeFirst? c l f).getD f

end Fault

end Tacit
