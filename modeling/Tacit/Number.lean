import Tacit.Number.Decimal
import Tacit.Number.Whole

/-!
# Numbers

A number is a real or infinite quantity, or the outcome of an operation without a quantity, such
as zero divided by zero. Such an outcome equals only itself, so each has a mark of its own.
-/

namespace Tacit

/-- A number. -/
inductive Number where
  /-- A quantity, which equals itself. -/
  | real (x : Float) (h : (x == x) = true)
  | nan (mark : Nat)

namespace Number

instance : Inhabited Number := ⟨.nan 0⟩

/-- The number an operation gave; the mark is used when it is no quantity. -/
def ofFloat (mark : Nat) (x : Float) : Number :=
  if h : (x == x) = true then .real x h else .nan mark

/-- A natural number as a number. -/
def ofNat (n : Nat) : Number := ofFloat 0 n.toFloat

def toFloat : Number → Float
  | real x _ => x
  | nan _ => 0 / 0

/-- Whether a number is no quantity. -/
def isNaN : Number → Bool
  | real _ _ => false
  | nan _ => true

/-- Whether two numbers are the same quantity, or the very same outcome without one. -/
def same : Number → Number → Bool
  | real x _, real y _ => x == y
  | nan i, nan j => i == j
  | _, _ => false

/-- Whether a number counts as true. -/
def isTruthy : Number → Bool
  | real x _ => x != 0
  | nan _ => false

/-- The decimal text of a number. -/
def text (n : Number) : Text := Decimal.write n.toFloat

end Number

end Tacit
