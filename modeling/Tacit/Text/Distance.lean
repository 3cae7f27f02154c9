import Tacit.Text

/-!
# How far apart two words are

The distance of two words is the least number of bytes to insert, delete or replace to make one of
the other.
-/

namespace Tacit.Text

/-- The rest of a row of distances for one more byte `b` of the second word. `left` is the distance
just found; the old row starts with the one found before it. -/
def extendRow (b : UInt8) : Nat → Text → List Nat → List Nat
  | left, c :: cs, diagonal :: above :: row =>
    let d := if c = b then diagonal else min left (min above diagonal) + 1
    d :: extendRow b d cs (above :: row)
  | _, _, _ => []

/-- The distances of all beginnings of a word to another word with one more byte `b`. -/
def nextRow (s : Text) (row : List Nat) (b : UInt8) : List Nat :=
  match row with
  | [] => []
  | d :: _ => (d + 1) :: extendRow b (d + 1) s row

/-- The distance of two words. -/
def distance (s t : Text) : Nat :=
  (t.foldl (nextRow s) (List.range (s.length + 1))).getLastD 0

end Tacit.Text
