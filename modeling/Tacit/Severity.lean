import Tacit.Json
import Tacit.Fault

/-!
# How grave a finding is

Severities have names and numbers. A finding can be left without one; it then takes the severity
of the check that made it.
-/

namespace Tacit

/-- How grave a finding is. -/
inductive Severity where
  | error
  | warning
  | info
  deriving DecidableEq, Repr, Inhabited

namespace Severity

def name : Severity → Text
  | error => "error"
  | warning => "warning"
  | info => "info"

/-- The name of a severity that may be missing. -/
def nameOf : Option Severity → Text
  | some s => s.name
  | none => "unknown"

def all : List Severity := [.error, .warning, .info]

/-- The number of a severity. -/
def number : Severity → Nat
  | error => 1
  | warning => 2
  | info => 3

/-- The severity with a name. -/
def ofName? (name : Text) : Option Severity := all.find? fun s => s.name == name

/-- The severity with a number. -/
def ofNumber? (n : Int) : Option Severity := all.find? fun s => (s.number : Int) == n

/-- What a report calls a severity; a missing one is reported as a warning. -/
def reportName : Option Severity → Text
  | some s => s.name
  | none => "warning"

/-- What a report calls the severity with a number: zero says that it is missing. -/
def reportNameOfNumber (n : Int) : Text :=
  if n = 0 then reportName none else nameOf (ofNumber? n)

/-- Why a severity could not be read. -/
inductive Unreadable where
  /-- The report is not a string. -/
  | noString
  | unknown (f : Fault)

/-- Reads a severity from a report. -/
def ofReport (t : Text) : Except Unreadable Severity :=
  match Json.readString? t with
  | none => .error .noString
  | some name =>
    match ofName? name with
    | some s => .ok s
    | none => .error (.unknown (.plain ("unknown severity: " ++ Text.quoted name)))

end Severity

end Tacit
