import Tacit.Number.Binary

/-!
# Whole parts and remainders

The whole part of a number, as a 64-bit integer, drops the fraction; what fits no such integer
becomes the least one. The remainder of a division is exact and has the sign of the dividend.
-/

namespace Tacit.Whole

open Binary (scale)

/-- The least 64-bit integer. -/
def least : Int := -scale 63

/-- The whole part of `mantissa * 2 ^ exponent`. -/
def magnitude (mantissa : Nat) (exponent : Int) : Nat :=
  mantissa * scale exponent.toNat / scale (-exponent).toNat

/-- The whole part of a number, toward zero. -/
def part (x : Float) : Int :=
  match Binary.ofFloat? x with
  | none => least
  | some b =>
    let m := magnitude b.mantissa b.exponent
    if m < scale 63 then if b.negative then -(m : Int) else m else least

/-- The remainder of `a * 2 ^ p` by `b * 2 ^ q`, as a multiple of the smaller power of two. -/
def remainderParts (a : Nat) (p : Int) (b : Nat) (q : Int) : Nat × Int :=
  let unit := min p q
  (a * scale (p - unit).toNat % (b * scale (q - unit).toNat), unit)

/-- The remainder of dividing `x` by `y`. -/
def remainder (x y : Float) : Float :=
  match Binary.ofFloat? x, Binary.ofFloat? y with
  | some a, some b =>
    if b.mantissa = 0 then 0 / 0
    else
      let (m, e) := remainderParts a.mantissa a.exponent b.mantissa b.exponent
      Binary.toFloat ⟨a.negative, m, e⟩
  | some _, none => if y.isNaN then y else x
  | none, _ => 0 / 0

end Tacit.Whole
