/-!
# A finite number is a whole number times a power of two

The 64 bits of a number hold a sign, eleven bits of exponent and fifty-two of fraction. The
operations that must be exact (decimal text, remainder, whole part) take the bits apart, work on
natural numbers and put bits together again.
-/

namespace Tacit

/-- The number `± mantissa * 2 ^ exponent`. -/
structure Binary where
  negative : Bool
  mantissa : Nat
  exponent : Int
  deriving Repr, DecidableEq, Inhabited

namespace Binary

/-- The exponent of the smallest positive number. -/
def leastExponent : Int := -1074

/-- A power of two. -/
def scale (n : Nat) : Nat := Nat.pow 2 n

/-- The sign of a number, which a zero has too. -/
def signOf (x : Float) : Bool := x.toBits >>> 63 == 1

/-- The parts of a number, unless it is infinite or not a number. -/
def ofFloat? (x : Float) : Option Binary :=
  let bits : Nat := x.toBits.toNat
  let fraction : Nat := bits % scale 52
  let power : Nat := bits / scale 52 % scale 11
  if power = scale 11 - 1 then none
  else if power = 0 then some ⟨signOf x, fraction, leastExponent⟩
  else some ⟨signOf x, scale 52 + fraction, (power : Int) - 1 + leastExponent⟩

/-- The bits without the sign of `mantissa * 2 ^ exponent`, which must be a number exactly. -/
def magnitudeBits (mantissa : Nat) (exponent : Int) : Nat :=
  if mantissa = 0 then 0
  else
    let top : Int := mantissa.log2 + exponent
    if top < leastExponent + 52 then mantissa * scale (exponent - leastExponent).toNat
    else
      let fraction := mantissa * scale (52 - (mantissa.log2 : Int)).toNat
        / scale ((mantissa.log2 : Int) - 52).toNat
      (top - leastExponent - 51).toNat * scale 52 + (fraction - scale 52)

/-- The number with these parts. -/
def toFloat (b : Binary) : Float :=
  let sign := if b.negative then scale 63 else 0
  Float.ofBits (sign + magnitudeBits b.mantissa b.exponent).toUInt64

end Binary

end Tacit
