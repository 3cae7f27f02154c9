import Tacit.Expr

/-!
# The canonical source of a program

Every call stands between parentheses, and every statement ends with a semicolon and a newline. A
callee that is no call is put between parentheses of its own, so that it reads back as a callee.
-/

namespace Tacit.Expr

/-- The callee and operands of a call between parentheses. A single operand follows the callee. -/
def callSource (lhs : Option Text) (callee : Text) (rhs : Option Text) : Text :=
  match lhs, rhs with
  | some l, some r => "(" ++ l ++ " " ++ callee ++ " " ++ r ++ ")"
  | none, some x | some x, none => "(" ++ callee ++ " " ++ x ++ ")"
  | none, none => "(" ++ callee ++ ")"

mutual

/-- The canonical source of an expression. -/
def source : Expr → Text
  | literal value _ => value.source
  | array members _ => "[" ++ sourceAll members ++ "]"
  | assign name body _ => name ++ " <- " ++ source body
  | named name lhs rhs _ => callSource (sourceOf lhs) name (sourceOf rhs)
  | called callee lhs rhs _ =>
    callSource (sourceOf lhs)
      (if callee.isCall then source callee else "(" ++ source callee ++ ")") (sourceOf rhs)

/-- The canonical sources of expressions, with a blank between neighbours. -/
def sourceAll : List Expr → Text
  | [] => []
  | [e] => source e
  | e :: f :: es => source e ++ " " ++ sourceAll (f :: es)

/-- The canonical source of an operand that may be missing. -/
def sourceOf : Option Expr → Option Text
  | none => none
  | some e => some (source e)

end

/-- A callee as the source of a call shows it. -/
def calleeSource (callee : Expr) : Text :=
  if callee.isCall then callee.source else "(" ++ callee.source ++ ")"

end Tacit.Expr

namespace Tacit

/-- The canonical source of a program. -/
def Program.source (p : Program) : Text := p.flatMap fun e => e.source ++ ";\n"

end Tacit
