import Tacit.Builtin
import Tacit.Fault
import Tacit.Number

/-!
# Values

Values are numbers, strings, truth values, arrays and functions, and are never changed once made.
A function is told from another by its identity: every builtin is one function, and every function
made while a program runs is a new one.

A function's body says what a call does. Besides the builtins there are continuations, which wait
for the operands a partial application has left open, functions built by `S`, and functions that a
host program supplies, described by a recipe.
-/

namespace Tacit

/-- What tells one function from another. -/
inductive Identity where
  | builtin (b : Builtin)
  | made (serial : Nat)
  deriving DecidableEq, Repr, Inhabited

mutual

/-- A value. -/
inductive Value where
  | num (n : Number)
  | str (s : Text)
  | bool (b : Bool)
  | array (cells : List Value)
  | func (f : Function)
  /-- Something that no program can make. -/
  | invalid (mark : Nat)

/-- A function with its signature. -/
structure Function where
  identity : Identity
  name : Text
  params : List TypeDesc
  returns : TypeDesc
  doc : Text
  body : Body
  /-- Whether it is a continuation of a partial application. -/
  curried : Bool
  /-- How many groups of open operands its parameters leave for later calls. -/
  layers : Nat

/-- What a call of a function does. -/
inductive Body where
  | builtin (b : Builtin)
  /-- Goes on with an application of `fn` to `slots`. -/
  | resume (fn : Function) (slots : List Slot)
  /-- Maps `c` to `a(c, b(c))`. -/
  | share (a b : Function)
  | host (recipe : Recipe)

/-- An operand that an application has taken. -/
inductive Slot where
  | value (v : Value)
  /-- A function whose result, once it has all its operands, is the operand. -/
  | pending (f : Function)

/-- What a function of a host program does with its operands. -/
inductive Recipe where
  | const (v : Value)
  | operand (index : Int)
  | operands
  /-- Applies what a name is bound to, to the given values or else to the operands. -/
  | call (name : Text) (supplied : Option (List Value))
  /-- Applies an operand to the given values. -/
  | callOperand (index : Int) (supplied : List Value)
  /-- Makes a new function. -/
  | make (name : Text) (params : List TypeDesc) (returns : TypeDesc) (doc : Text)
      (recipe : Recipe)
  | fail (fault : Fault)

end

instance : Inhabited Value := ⟨.bool false⟩

instance : Inhabited Recipe := ⟨.operands⟩

namespace Function

/-- How many operands a function takes. -/
def arity (f : Function) : Nat := f.params.length

/-- The type of a function. -/
def type (f : Function) : TypeDesc := .func f.params f.returns

/-- A function as messages show it. -/
def text (f : Function) : Text := f.name ++ "(" ++ TypeDesc.textAll f.params ++ ")"

end Function

/-- The function of a builtin. -/
def Builtin.function (b : Builtin) : Function :=
  ⟨.builtin b, b.name, b.params, b.returns, b.doc, .builtin b, false, 0⟩

instance : Inhabited Function := ⟨Builtin.identity.function⟩

namespace Value

/-- The name of a value's kind. -/
def kindName : Value → Text
  | num _ => "num"
  | str _ => "str"
  | bool _ => "bool"
  | array _ => "array"
  | func _ => "func"
  | invalid _ => "INVALID"

/-- The names of the kinds of value, in the order of their numbers. -/
def kindNames : List Text := ["INVALID", "num", "str", "bool", "array", "func"]

/-- The name of the kind with a number; any other number names no valid kind. -/
def kindNameOfNumber (n : Int) : Text :=
  if n < 0 then "INVALID" else kindNames.getD n.toNat "INVALID"

/-- The type of a value. The first member stands for all members of an array. -/
def type : Value → TypeDesc
  | num _ => .num
  | str _ => .str
  | bool _ => .bool
  | array [] => .array .unknown
  | array (v :: _) => .array v.type
  | func f => f.type
  | invalid _ => .unknown

mutual

/-- Whether two values are equal. Functions are equal only to themselves. -/
def equal : Value → Value → Bool
  | num x, num y => x.same y
  | str x, str y => x == y
  | bool x, bool y => x == y
  | array xs, array ys => equalAll xs ys
  | func f, func g => f.identity == g.identity
  | invalid i, invalid j => i == j
  | _, _ => false

/-- Whether two lists of values are equal member by member. -/
def equalAll : List Value → List Value → Bool
  | [], [] => true
  | x :: xs, y :: ys => equal x y && equalAll xs ys
  | _, _ => false

end

/-- Whether a value counts as true. -/
def isTruthy : Value → Bool
  | num n => n.isTruthy
  | str s => !s.isEmpty
  | bool b => b
  | array cells => !cells.isEmpty
  | func _ => true
  | invalid _ => false

mutual

/-- A value as messages show it, with strings between quotes. -/
def text : Value → Text
  | num n => n.text
  | str s => Text.quoted s
  | bool b => if b then "true" else "false"
  | array cells => "[" ++ textAll cells ++ "]"
  | func f => f.text
  | invalid _ => "<invalid>"

/-- Values in order with a blank between neighbours. -/
def textAll : List Value → Text
  | [] => []
  | [v] => text v
  | v :: w :: vs => text v ++ " " ++ textAll (w :: vs)

end

/-- A value as the result of a program is printed: a string without quotes. -/
def display : Value → Text
  | str s => s
  | v => v.text

mutual

/-- A value as the source of a program: a string with its very bytes between quotes. -/
def source : Value → Text
  | str s => "\"" ++ s ++ "\""
  | array cells => "[" ++ sourceAll cells ++ "]"
  | func f => "(" ++ f.name ++ ")"
  | num n => n.text
  | bool b => if b then "true" else "false"
  | invalid _ => "<invalid>"

/-- Sources in order with a blank between neighbours. -/
def sourceAll : List Value → Text
  | [] => []
  | [v] => source v
  | v :: w :: vs => source v ++ " " ++ sourceAll (w :: vs)

end

/-- The number of a value; anything else is read as zero. -/
def asNumber : Value → Number
  | num n => n
  | _ => .ofNat 0

/-- The bytes of a string; anything else is read as empty. -/
def asText : Value → Text
  | str s => s
  | _ => []

/-- The members of an array; anything else is read as having none. -/
def asCells : Value → List Value
  | array cells => cells
  | _ => []

/-- The function a value is. -/
def func? : Value → Option Function
  | func f => some f
  | _ => none

/-- Texts as an array of strings. -/
def ofTexts (ts : List Text) : Value := .array (ts.map .str)

end Value

end Tacit
