import Tacit.Text
import Tacit.Number.Binary

/-!
# The decimal text of a number

A number is written with the fewest digits that read back as it, in positional notation whatever
its size; of two candidates with as few digits the nearer is taken, and an exact tie goes to the
even digit. Reading takes the nearest number, and refuses what is past the largest one.
-/

namespace Tacit.Decimal

/-- The value `digits * 10 ^ power`. -/
structure Digits where
  digits : Nat
  power : Int
  deriving Repr, DecidableEq, Inhabited

/-- A number in units of a quarter of its last place, with the ends of the interval of values that
round to it, and whether the ends belong to the interval. -/
structure Span where
  lower : Nat
  value : Nat
  upper : Nat
  /-- The unit is this power of two. -/
  unit : Int
  closed : Bool

/-- The interval that rounds to `mantissa * 2 ^ exponent`. Below a power of two the next number is
only half as far away. -/
def Span.of (mantissa : Nat) (exponent : Int) : Span where
  lower := if mantissa = Binary.scale 52 ∧ Binary.leastExponent < exponent then 4 * mantissa - 1
    else 4 * mantissa - 2
  value := 4 * mantissa
  upper := 4 * mantissa + 2
  unit := exponent - 2
  closed := mantissa % 2 = 0

/-- The multiple of `10 ^ power` in the interval that is nearest to its value, if there is one. -/
def Span.multiple? (s : Span) (power : Int) : Option Nat :=
  let num := Binary.scale s.unit.toNat * Nat.pow 10 (-power).toNat
  let den := Binary.scale (-s.unit).toNat * Nat.pow 10 power.toNat
  let inside (c : Nat) : Bool :=
    if s.closed then s.lower * num ≤ c * den && c * den ≤ s.upper * num
    else s.lower * num < c * den && c * den < s.upper * num
  let down := s.value * num / den
  let up := down + 1
  let downGap := s.value * num - down * den
  let upGap := up * den - s.value * num
  match 0 < down && inside down, inside up with
  | false, false => none
  | true, false => some down
  | false, true => some up
  | true, true =>
    if downGap < upGap then some down
    else if upGap < downGap then some up
    else some (if down % 2 = 0 then down else up)

/-- The first power of ten, from `power` down, with a multiple in the interval. -/
def Span.search (s : Span) : Nat → Int → Digits
  | 0, power => ⟨s.value, power⟩
  | fuel + 1, power =>
    match s.multiple? power with
    | some digits => ⟨digits, power⟩
    | none => s.search fuel (power - 1)

/-- A power of ten that is above the number and not far above it. -/
def startPower (mantissa : Nat) (exponent : Int) : Int :=
  ((mantissa.log2 : Int) + exponent) * 30103 / 100000 + 2

/-- The fewest digits that read back as `mantissa * 2 ^ exponent`. -/
def shortest (mantissa : Nat) (exponent : Int) : Digits :=
  (Span.of mantissa exponent).search 40 (startPower mantissa exponent)

/-- Digits in positional notation, with no point unless a fraction follows it. -/
def Digits.positional (d : Digits) : Text :=
  let ds := Nat.toDigits 10 d.digits
  if 0 ≤ d.power then Text.ofChars (ds ++ List.replicate d.power.toNat '0')
  else
    let places := (-d.power).toNat
    if places < ds.length then
      Text.ofChars (ds.take (ds.length - places)) ++ Text.ofString "."
        ++ Text.ofChars (ds.drop (ds.length - places))
    else
      Text.ofString "0." ++ Text.ofChars (List.replicate (places - ds.length) '0' ++ ds)

/-- The text of a number. -/
def write (x : Float) : Text :=
  match Binary.ofFloat? x with
  | some b =>
    let sign : Text := if b.negative then "-" else ""
    if b.mantissa = 0 then sign ++ "0"
    else sign ++ (shortest b.mantissa b.exponent).positional
  | none => if x.isNaN then "NaN" else if Binary.signOf x then "-Inf" else "+Inf"

/-- The natural number some digits spell. -/
def natOf (ds : Text) : Nat :=
  ds.foldl (fun n b => n * 10 + (b.toNat - '0'.toNat)) 0

/-- The number nearest to an optional sign, digits, and an optional fraction; none when it is past
the largest number. -/
def read? (t : Text) : Option Float :=
  let (negative, unsigned) : Bool × Text :=
    match t with
    | b :: rest => if b = '-'.toUInt8 then (true, rest) else if b = '+'.toUInt8 then (false, rest)
      else (false, t)
    | [] => (false, t)
  let whole := unsigned.takeWhile Text.isDigit
  let fraction := (unsigned.drop whole.length).filter Text.isDigit
  let x := Float.ofScientific (natOf (whole ++ fraction)) true fraction.length
  if x.isInf then none else some (if negative then -x else x)

end Tacit.Decimal
