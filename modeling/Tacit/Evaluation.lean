import Tacit.Apply
import Tacit.Expr.Source
import Tacit.Reading
import Tacit.Token.Lexer

/-!
# Evaluating programs

The statements of a program are evaluated in order in one world, and the first fault ends it. A
call evaluates its callee, then its operands from left to right, and applies. The fault of an
application gets the place of the call, unless a call further in has given it one.
-/

namespace Tacit

variable {view : View}

/-- Calls a value with operands, which are evaluated only if it is a function. A value without
operands is itself. -/
def Value.call (fuel : Nat) (callee : Value) (name : Text) (place : Option Location)
    (hasOperands : Bool) (operands : EvalIn view (List Value)) : EvalIn view Value :=
  match callee with
  | .func f => do
    let args ← operands
    .locating place (apply fuel f args)
  | v => if hasOperands then .fail (.notCallable place name v.type) else pure v

mutual

/-- Evaluates an expression. -/
def Expr.eval (fuel : Nat) : Expr → EvalIn view Value
  | .literal v _ => pure v
  | .array members _ => return .array (← evalAll fuel members)
  | .assign name body _ => do
    let v ← body.eval fuel
    .bindName name v
    return v
  | .named name lhs rhs place => do
    match (← get).names.get? name with
    | none => .fail (.unbound place name)
    | some v =>
      v.call fuel name place (lhs.isSome || rhs.isSome) do
        return (← evalOperand fuel lhs) ++ (← evalOperand fuel rhs)
  | .called callee lhs rhs place => do
    let v ← callee.eval fuel
    v.call fuel callee.calleeSource place (lhs.isSome || rhs.isSome) do
      return (← evalOperand fuel lhs) ++ (← evalOperand fuel rhs)

/-- Evaluates expressions in order. -/
def Expr.evalAll (fuel : Nat) : List Expr → EvalIn view (List Value)
  | [] => pure []
  | e :: es => return (← e.eval fuel) :: (← evalAll fuel es)

/-- Evaluates an operand that may be missing. -/
def Expr.evalOperand (fuel : Nat) : Option Expr → EvalIn view (List Value)
  | none => pure []
  | some e => return [← e.eval fuel]

end

namespace Program

/-- Evaluates expressions in order and gives the value of the last. -/
def evalFrom (fuel : Nat) (v : Value) : List Expr → EvalIn view Value
  | [] => pure v
  | e :: es => do evalFrom fuel (← e.eval fuel) es

/-- Evaluates a program, which needs an expression at least. -/
def eval (fuel : Nat) : Program → EvalIn view Value
  | [] => .fail (.malformed none "program contains no expressions")
  | e :: es => do evalFrom fuel (← e.eval fuel) es

/-- Reads the program of a source. -/
def read (file src : Text) : Except Fault Program := do Program.ofTokens (← lex file src)

/-- The canonical form of a source. -/
def reformat (file src : Text) : Except Fault Text := return (← read file src).source

/-- Reads a source and evaluates its program. -/
def load (fuel : Nat) (file src : Text) : EvalIn view Value := do
  if (← get).reads then (← .ofExcept (read file src) : Program).eval fuel
  else .fail (.plain "no reader for environment runtime")

/-- Loads the source in a file. -/
def loadFile (fuel : Nat) (path : Text) : EvalIn view Value := do
  match (← get).seen with
  | none => .noFunction
  | some fs =>
    match fs.read path with
    | .ok src => load fuel path src
    | .error f => .fail (.remarked "unable to read source file" f)

end Program

/-- How deep applications may nest before a run is given up. -/
def standardFuel : Nat := 10000

/-- Runs a source in a fresh world. -/
def execute (files : FileSystem) (file src : Text) : Except Stop Value :=
  match Program.load standardFuel file src (World.initial files) with
  | .ok v _ => .ok v
  | .error s _ => .error s

end Tacit
