import Tacit.Expr.Walk
import Tacit.Lint

/-!
# The checks

Three checks find calls that are bound to fail: of a name that is not bound, of a value that is no
function, and with more operands than a builtin takes. Two warn of assignments: to the name of a
builtin, and of a value that is never used.
-/

namespace Tacit.Lint

/-- What a walk through the statements finds in each, given the statements in front of it. -/
def eachStatement (find : List Expr → Expr → List Finding) : List Expr → List Expr → List Finding
  | _, [] => []
  | before, e :: es => find before e ++ eachStatement find (before ++ [e]) es

/-! ## Names that are not defined -/

/-- The finding that a call refers to no name bound so far. -/
def undefinedIn (s : Subject) (before : List Expr) (call : Expr) : List Finding :=
  match call.calleeName? with
  | none => []
  | some name =>
    if (Program.assignedNames before).contains name || (s.predeclared name).isSome then []
    else
      let notes : List Text :=
        if s.program.assignedNames.contains name then
          [name ++ " is assigned by a later statement"]
        else []
      [.make call.place? (name ++ " is not defined") notes]

/-- Names that are neither predeclared nor assigned by an earlier statement. -/
def undefinedName : Check where
  name := "undefined-name"
  doc := "Report names that are not bound when they are used.\n\nA name must be a builtin or be assigned by an earlier statement. Evaluating an unbound name stops the program with an unbound-name error."
  severity := some .error
  run s := .ok (eachStatement (fun before e =>
    e.calls.flatMap fun v => undefinedIn s before v.node) [] s.program)

/-! ## Callees that are no functions -/

/-- The type of a literal expression, as far as a check needs it. -/
def literalType? : Expr → Option Text
  | .literal v _ => some v.type.text
  | .array .. => some "array"
  | _ => none

/-- What the last assignment to a name has made of it: no assignment, or the type of the literal
assigned, if it is one. -/
def lastAssigned (name : Text) : List Expr → Option (Option Text)
  | [] => none
  | e :: es =>
    match lastAssigned name es with
    | some found => some found
    | none =>
      match e with
      | .assign n body _ => if n == name then some (literalType? body) else none
      | _ => none

/-- The type of a callee that is known to be no function. -/
def notFunction? (s : Subject) (before : List Expr) : Expr → Option (Text × Text)
  | .called callee .. => (literalType? callee).map fun t => (callee.source, t)
  | .named name .. =>
    match lastAssigned name before with
    | some found => found.map fun t => (name, t)
    | none =>
      match s.predeclared name with
      | some (.func _) => none
      | some v => some (name, v.type.text)
      | none => none
  | _ => none

/-- Whether a call has a name between two operands. -/
def isInfix : Expr → Bool
  | .named _ (some _) (some _) _ => true
  | _ => false

/-- The finding that a call has operands for what is no function. -/
def uncallableIn (s : Subject) (before : List Expr) (call : Expr) : List Finding :=
  if call.operandCount = 0 then []
  else
    match notFunction? s before call with
    | none => []
    | some (what, type) =>
      let notes : List Text :=
        if isInfix call then ["a name between two operands is called as an infix function"] else []
      [.make call.sourcePlace (what ++ " has type " ++ type ++ " and is not callable") notes]

/-- Operands applied to values that are known not to be functions. -/
def notCallable : Check where
  name := "not-callable"
  doc := "Report calls whose callee is known not to be a function.\n\nThe callee may be a literal, a predeclared constant such as true, or a name most recently assigned a literal."
  severity := some .error
  run s := .ok (eachStatement (fun before e =>
    e.calls.flatMap fun v => uncallableIn s before v.node) [] s.program)

/-! ## Too many operands -/

/-- The finding that a call has more operands than a predeclared function takes. -/
def overfullIn (s : Subject) (call : Expr) : List Finding :=
  match call.calleeName? with
  | none => []
  | some name =>
    if s.program.assignedNames.contains name then []
    else
      match s.predeclared name with
      | some (.func f) =>
        if f.arity < call.operandCount then
          [.make call.place? (name ++ " takes " ++ Text.ofNat f.arity ++ " operand(s), got "
            ++ Text.ofNat call.operandCount) []]
        else []
      | _ => []

/-- Calls with more operands than a predeclared function takes. -/
def builtinArity : Check where
  name := "builtin-arity"
  doc := "Check operand counts for calls to predeclared functions.\n\nSupplying fewer operands than a function takes returns a partial application, but supplying more is an arity error. Names assigned anywhere in the program are excluded."
  severity := some .error
  run s := .ok (s.program.calls.flatMap fun v => overfullIn s v.node)

/-! ## Assignments -/

/-- The finding that a statement assigns a predeclared name. -/
def shadowingIn (s : Subject) : Expr → List Finding
  | .assign name _ place =>
    if (s.predeclared name).isSome then
      [.make place ("assignment to " ++ name ++ " shadows a builtin")
        ["later uses of " ++ name ++ " refer to the assigned value"]]
    else []
  | _ => []

/-- Assignments to predeclared names. -/
def shadowBuiltin : Check where
  name := "shadow-builtin"
  doc := "Warn when an assignment rebinds a predeclared name.\n\nAssignments replace the binding for the rest of the program, so later calls no longer reach the builtin."
  severity := some .warning
  run s := .ok (s.program.flatMap (shadowingIn s))

/-- Whether statements refer to a name before they assign it. -/
def usesName (name : Text) : List Expr → Bool
  | [] => false
  | e :: es => e.references.contains name || (e.assignedName? != some name && usesName name es)

/-- The findings that assigned values are never used. The last statement gives the result of the
program and is exempt. -/
def unusedFrom : List Expr → List Finding
  | .assign name _ place :: e :: es =>
    (if usesName name (e :: es) then []
      else [.make place (name ++ " is assigned but never used") []]) ++ unusedFrom (e :: es)
  | _ :: es => unusedFrom es
  | [] => []

/-- Assigned values that are never used. -/
def unusedAssignment : Check where
  name := "unused-assignment"
  doc := "Warn when an assigned value is never used.\n\nAn assignment is unused when no later statement refers to the name before it is assigned again. The final statement is exempt because its value is the result of the program."
  severity := some .warning
  run s := .ok (unusedFrom s.program)

/-! ## All checks -/

/-- The checks in the order in which they run. -/
def standard : List Check :=
  [undefinedName, notCallable, builtinArity, shadowBuiltin, unusedAssignment]

/-- The checks with the given names, in that order; a name without a check is ignored. -/
def named (names : List Text) : List Check :=
  names.filterMap fun n => standard.find? fun c => c.name == n

/-- The names of the checks, in dictionary order. -/
def checkNames : List Text := Text.sorted (standard.map (·.name))

/-- The names of the checks and what they are for. -/
def checkList : Text :=
  standard.flatMap fun c =>
    "  " ++ c.name ++ "\n    " ++ (Text.pieces Location.newline c.doc).headD [] ++ "\n\n"

end Tacit.Lint
