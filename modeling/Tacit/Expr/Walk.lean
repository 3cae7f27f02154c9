import Tacit.Expr

/-!
# The parts of a program

A program is walked depth first, each node before its parts. The parts of a call are its left
operand, its callee and its right operand, in that order, also when the callee stands first in the
source.
-/

namespace Tacit

/-- A node met on a walk, with the node it is a part of and how deep it lies. -/
structure Visit where
  node : Expr
  parent : Option Expr
  depth : Nat

namespace Expr

mutual

/-- The nodes of an expression in the order of a walk. -/
def visits (parent : Option Expr) (depth : Nat) : Expr → List Visit
  | e@(literal ..) => [⟨e, parent, depth⟩]
  | e@(array members _) => ⟨e, parent, depth⟩ :: visitsAll (some e) (depth + 1) members
  | e@(assign _ body _) => ⟨e, parent, depth⟩ :: visits (some e) (depth + 1) body
  | e@(named _ lhs rhs _) =>
    ⟨e, parent, depth⟩ :: (visitsOf (some e) (depth + 1) lhs ++ visitsOf (some e) (depth + 1) rhs)
  | e@(called callee lhs rhs _) =>
    ⟨e, parent, depth⟩ :: (visitsOf (some e) (depth + 1) lhs
      ++ visits (some e) (depth + 1) callee ++ visitsOf (some e) (depth + 1) rhs)

/-- The nodes of expressions that are parts of the same node. -/
def visitsAll (parent : Option Expr) (depth : Nat) : List Expr → List Visit
  | [] => []
  | e :: es => visits parent depth e ++ visitsAll parent depth es

/-- The nodes of an operand that may be missing. -/
def visitsOf (parent : Option Expr) (depth : Nat) : Option Expr → List Visit
  | none => []
  | some e => visits parent depth e

end

/-- The name a call refers to, unless its callee is an expression. -/
def calleeName? : Expr → Option Text
  | named name .. => some name
  | _ => none

/-- How many operands a call has. -/
def operandCount : Expr → Nat
  | named _ lhs rhs _ | called _ lhs rhs _ => lhs.toList.length + rhs.toList.length
  | _ => 0

/-- The name an assignment binds. -/
def assignedName? : Expr → Option Text
  | assign name .. => some name
  | _ => none

/-- The calls in an expression, with the depth they lie at. -/
def calls (e : Expr) : List Visit := (e.visits none 0).filter (·.node.isCall)

/-- The names that the calls in an expression refer to. -/
def references (e : Expr) : List Text := e.calls.filterMap (·.node.calleeName?)

/-- The place itself, if its line is known. -/
def counted? (place : Option Location) : Option Location := place.filter fun l => 0 < l.line

mutual

/-- The place to report for a node: its own if the line is known, or else the first there is
among its parts'. -/
def sourcePlace : Expr → Option Location
  | literal _ place => place
  | array members place => (counted? place).or ((sourcePlaceAmong members).or place)
  | assign _ body place => (counted? place).or ((sourcePlace body).or place)
  | named _ lhs rhs place =>
    (counted? place).or ((sourcePlaceOf lhs).or ((sourcePlaceOf rhs).or place))
  | called callee lhs rhs place =>
    (counted? place).or
      ((sourcePlaceOf lhs).or ((sourcePlace callee).or ((sourcePlaceOf rhs).or place)))

/-- The first place to report among nodes. -/
def sourcePlaceAmong : List Expr → Option Location
  | [] => none
  | e :: es => (sourcePlace e).or (sourcePlaceAmong es)

/-- The place to report for an operand that may be missing. -/
def sourcePlaceOf : Option Expr → Option Location
  | none => none
  | some e => sourcePlace e

end

end Expr

namespace Program

/-- The nodes of a program in the order of a walk. -/
def visits (p : Program) : List Visit := p.flatMap (Expr.visits none 0)

/-- The calls in a program. -/
def calls (p : Program) : List Visit := p.visits.filter (·.node.isCall)

/-- The names that the statements of a program assign. -/
def assignedNames (p : Program) : List Text := p.filterMap Expr.assignedName?

end Program

end Tacit
