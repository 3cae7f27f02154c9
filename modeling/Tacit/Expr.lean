import Tacit.Value

/-!
# Expressions

A program is a list of expressions. A call names its callee or gives it as an expression, and has
up to two operands; a single operand stands on the right, though a tree built by hand may have it
on the left. A name without operands is a call too.
-/

namespace Tacit

/-- An expression with the place it was read from. -/
inductive Expr where
  | literal (value : Value) (place : Option Location)
  | array (members : List Expr) (place : Option Location)
  | assign (name : Text) (body : Expr) (place : Option Location)
  /-- A call of what a name is bound to. -/
  | named (name : Text) (lhs rhs : Option Expr) (place : Option Location)
  /-- A call of the value of an expression. -/
  | called (callee : Expr) (lhs rhs : Option Expr) (place : Option Location)
  deriving Inhabited

/-- The expressions of a source, in order. -/
abbrev Program := List Expr

namespace Expr

/-- Where an expression was read from. -/
def place? : Expr → Option Location
  | literal _ p | array _ p | assign _ _ p | named _ _ _ p | called _ _ _ p => p

/-- Whether an expression is a call. -/
def isCall : Expr → Bool
  | named .. | called .. => true
  | _ => false

/-- The direct parts of an expression. An expression that is called comes between the operands. -/
def children : Expr → List Expr
  | literal .. => []
  | array members _ => members
  | assign _ body _ => [body]
  | named _ lhs rhs _ => lhs.toList ++ rhs.toList
  | called callee lhs rhs _ => lhs.toList ++ [callee] ++ rhs.toList

end Expr

end Tacit
