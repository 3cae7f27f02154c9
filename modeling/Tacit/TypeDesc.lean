import Tacit.Text

/-!
# The type of a value

Types are compared by structure. `any` and `unknown` say nothing about a value: the first stands
where every value is welcome, the second where nothing is known of the value.
-/

namespace Tacit

/-- A structural type. -/
inductive TypeDesc where
  | invalid
  | any
  | unknown
  | num
  | str
  | bool
  | array (of : TypeDesc)
  | func (params : List TypeDesc) (returns : TypeDesc)
  deriving Repr, Inhabited

namespace TypeDesc

mutual

/-- How a type is written. -/
def text : TypeDesc → Text
  | .invalid => "invalid"
  | .any => "any"
  | .unknown => "unknown"
  | .num => "num"
  | .str => "str"
  | .bool => "bool"
  | .array of => "array<" ++ text of ++ ">"
  | .func params returns => "func(" ++ textAll params ++ "): " ++ text returns

/-- Types in order with a blank between neighbours. -/
def textAll : List TypeDesc → Text
  | [] => []
  | [t] => text t
  | t :: u :: ts => text t ++ " " ++ textAll (u :: ts)

end

mutual

/-- Whether two types have the same structure. -/
def same : TypeDesc → TypeDesc → Bool
  | .invalid, .invalid | .any, .any | .unknown, .unknown => true
  | .num, .num | .str, .str | .bool, .bool => true
  | .array a, .array b => same a b
  | .func ps r, .func qs s => sameAll ps qs && same r s
  | _, _ => false

/-- Whether two lists of types agree member by member. -/
def sameAll : List TypeDesc → List TypeDesc → Bool
  | [], [] => true
  | t :: ts, u :: us => same t u && sameAll ts us
  | _, _ => false

end

instance : BEq TypeDesc := ⟨same⟩

/-- Whether a type is that of a function. -/
def isFunc : TypeDesc → Bool
  | .func _ _ => true
  | _ => false

/-- The names of the kinds of type, in the order of their numbers. -/
def kindNames : List Text := ["invalid", "any", "unknown", "num", "str", "bool", "array", "func"]

/-- The name of the kind with a number; any other number names no valid kind. -/
def kindName (n : Int) : Text :=
  if n < 0 then "invalid" else kindNames.getD n.toNat "invalid"

end TypeDesc

end Tacit
