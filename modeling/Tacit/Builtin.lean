import Tacit.TypeDesc

/-!
# The builtin functions and their signatures

Every builtin takes one or two operands. Its signature is what callers are checked against; what
it computes is defined with the evaluator.
-/

namespace Tacit

/-- A builtin function. -/
inductive Builtin where
  | plus | minus | times | dividedBy | mod
  | lt | ltEq | gt | gtEq | eq | nEq
  | toString | lines | chars | length | slice | match_ | matchStart
  | isDigit | toInt
  | range | map | reduce | filter | sum | take | pick | join | indexIn
  | readFile
  | identity | share
  deriving DecidableEq, Repr, Inhabited

namespace Builtin

/-- All builtins. -/
def all : List Builtin :=
  [.plus, .minus, .times, .dividedBy, .mod,
    .lt, .ltEq, .gt, .gtEq, .eq, .nEq,
    .toString, .lines, .chars, .length, .slice, .match_, .matchStart,
    .isDigit, .toInt,
    .range, .map, .reduce, .filter, .sum, .take, .pick, .join, .indexIn,
    .readFile,
    .identity, .share]

/-- The name a builtin is bound to. -/
def name : Builtin → Text
  | plus => "plus"
  | minus => "minus"
  | times => "times"
  | dividedBy => "over"
  | mod => "mod"
  | lt => "lt"
  | ltEq => "ltEq"
  | gt => "gt"
  | gtEq => "gtEq"
  | eq => "eq"
  | nEq => "nEq"
  | toString => "toString"
  | lines => "lines"
  | chars => "chars"
  | length => "length"
  | slice => "slice"
  | match_ => "match"
  | matchStart => "matchStart"
  | isDigit => "isDigit"
  | toInt => "toInt"
  | range => "range"
  | map => "map"
  | reduce => "reduce"
  | filter => "filter"
  | sum => "sum"
  | take => "take"
  | pick => "pick"
  | join => "join"
  | indexIn => "indexIn"
  | readFile => "readFile"
  | identity => "_"
  | share => "S"

/-- A function of one operand, of which nothing is required. -/
def unary : TypeDesc := .func [.any] .any

/-- A function of two operands, of which nothing is required. -/
def binary : TypeDesc := .func [.any, .any] .any

/-- The types of the operands a builtin takes. -/
def params : Builtin → List TypeDesc
  | plus | minus | times | dividedBy | mod | lt | ltEq | gt | gtEq | range => [.num, .num]
  | eq | nEq | indexIn => [.any, .any]
  | toString | length | identity => [.any]
  | lines | chars | isDigit | toInt | readFile => [.str]
  | slice => [.any, .array .num]
  | match_ | matchStart => [.str, .str]
  | map | filter => [.array .any, unary]
  | reduce => [.array .any, binary]
  | sum => [.array .num]
  | take => [.array .any, .num]
  | pick => [.array .any, .array .num]
  | join => [.array .str, .str]
  | share => [binary, unary]

/-- The type of what a builtin returns. -/
def returns : Builtin → TypeDesc
  | plus | minus | times | dividedBy | mod | length | matchStart | toInt | sum | indexIn => .num
  | lt | ltEq | gt | gtEq | eq | nEq | isDigit => .bool
  | toString | join | readFile => .str
  | lines | chars | match_ => .array .str
  | slice => .any
  | range => .array .num
  | map | filter | take | pick => .array .unknown
  | reduce | identity => .unknown
  | share => .func [.any] .unknown

/-- What the help says of a builtin. -/
def doc : Builtin → Text
  | plus => "Returns the sum of two numbers."
  | minus => "Returns the left operand minus the right operand."
  | times => "Returns the product of two numbers."
  | dividedBy => "Returns the left operand divided by the right operand."
  | mod => "Returns the remainder of dividing the left operand by the right operand. The result has the sign of the left operand."
  | lt => "Returns true if the left operand is less than the right operand."
  | ltEq => "Returns true if the left operand is less than or equal to the right operand."
  | gt => "Returns true if the left operand is greater than the right operand."
  | gtEq => "Returns true if the left operand is greater than or equal to the right operand."
  | eq => "Returns true if the operands are deeply equal. Functions are equal only to themselves."
  | nEq => "Returns true if the operands are not deeply equal."
  | toString => "Returns the printed representation of a value. Strings are returned unchanged."
  | lines => "Splits a string on runs of line terminators."
  | chars => "Splits a string into an array of its characters."
  | length => "Returns the number of characters in a string or the number of members in an array."
  | slice => "Returns the portion of a string or array between a start index and an optional end index, given as an array [start end]. Negative indices count from the end."
  | match_ => "Returns every non-overlapping match of the right operand, a regular expression, in the left operand."
  | matchStart => "Returns the character index of the first match of the right operand, a regular expression, in the left operand, or -1."
  | isDigit => "Returns true if the string is a single decimal digit."
  | toInt => "Parses the leading base 10 integer of a string."
  | range => "Returns the numbers from the left operand up to, but not including, the right operand."
  | map => "Applies a function to each member of an array and returns the results."
  | reduce => "Combines the members of a nonempty array from left to right using a binary function."
  | filter => "Returns the members of an array for which a function returns a truthy value."
  | sum => "Returns the sum of an array of numbers."
  | take => "Returns the first n members of an array. A negative n drops members from the end."
  | pick => "Returns the members of an array at the given indices. Negative indices count from the end."
  | join => "Concatenates an array of strings placing a separator between members."
  | indexIn => "Returns the index of the left operand in the right operand, a string or array, or -1."
  | readFile => "Returns the contents of the file at a path."
  | identity => "Returns its operand."
  | share => "Given a binary function a and a unary function b returns the function that maps c to a(c, b(c))."

end Builtin

end Tacit
