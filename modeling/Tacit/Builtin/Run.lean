import Tacit.Pattern.Notation
import Tacit.Pattern.Search
import Tacit.Text.Blank
import Tacit.World

/-!
# What the builtins compute

A builtin is run with as many operands as it takes. The ones that apply functions are given the
way to apply them.
-/

namespace Tacit.Builtin

/-- A way to apply a function to operands. -/
abbrev Applier (view : View := .still) := Function → List Value → EvalIn view Value

variable {view : View}

/-- The fault of a builtin. -/
def fault (b : Builtin) (message : Text) : Fault := .builtin none b.name (.plain message)

/-! ## Strings -/

/-- Whether a byte ends a line. -/
def endsLine (b : UInt8) : Bool := b == 10 || b == 13

/-- The pieces between runs of bytes that end lines. -/
def lineTexts : Text → List Text
  | [] => [[]]
  | b :: rest =>
    match lineTexts rest with
    | [] => [[b]]
    | p :: ps =>
      if endsLine b then if rest.head?.any endsLine then p :: ps else [] :: p :: ps
      else (b :: p) :: ps

/-- The characters of a string, each as a string. -/
def charTexts (s : Text) : List Text := (Text.chars s).map Text.ofChar

/-- The integer at the start of a string as sign and digits, or nothing if there is none. -/
def leadingInteger? (s : Text) : Option (Bool × Text) :=
  let s := Text.dropCharsWhile isBlank s
  let (negative, s) : Bool × Text :=
    match s with
    | b :: rest =>
      if b = '-'.toUInt8 then (true, rest) else if b = '+'.toUInt8 then (false, rest) else (false, s)
    | [] => (false, s)
  let digits := s.takeWhile Text.isDigit
  if digits.isEmpty then none else some (negative, digits)

/-- The value of digits, computed from the first on in floating point. -/
def digitsValue (ds : Text) : Float :=
  ds.foldl (fun x b => x * 10 + (b - '0'.toUInt8).toNat.toFloat) 0

/-- The number of the integer at the start of a string. -/
def toIntValue (s : Text) : Except Fault Float :=
  match leadingInteger? s with
  | none => .error (toInt.fault ("no integer at start of " ++ Text.quoted s))
  | some (negative, digits) =>
    let x := digitsValue digits
    .ok (if negative then -x else x)

/-- The pattern a string spells, for the builtin that asks. -/
def patternOf (b : Builtin) (s : Text) : Except Fault Pattern.Program :=
  match Pattern.read s with
  | .ok p => .ok p.program
  | .error r => .error (b.fault r.message)

/-- All matches of a pattern in a string. -/
def matchTexts (p : Pattern.Program) (s : Text) : List Text :=
  let gs := Text.glyphs s
  (p.matches (gs.map Glyph.toChar)).map fun m =>
    Text.ofGlyphs ((gs.drop m.start).take (m.stop - m.start))

/-- The index of the first character of the first match. -/
def matchIndex? (p : Pattern.Program) (s : Text) : Option Nat :=
  (p.search none 0 (Text.chars s)).map (·.start)

/-! ## Indices -/

/-- Where an index leads in a sequence of `n` members. A negative one counts from the end, and
what lies outside is moved to the nearer end. -/
def clampIndex (n : Nat) (i : Int) : Nat :=
  let i := if i < 0 then i + n else i
  if i < 0 then 0 else if i > n then n else i.toNat

/-- The first and the last place but one of the stretch between two indices. -/
def sliceBounds (n : Nat) (start : Int) (stop : Option Int) : Nat × Nat :=
  let i := clampIndex n start
  let j := stop.elim n (clampIndex n)
  (i, max i j)

/-- The members between two indices. -/
def sliced {α : Type} (xs : List α) (start : Int) (stop : Option Int) : List α :=
  let (i, j) := sliceBounds xs.length start stop
  (xs.drop i).take (j - i)

/-- The index a number stands for. -/
def indexOf (v : Value) : Int := Whole.part v.asNumber.toFloat

/-- The indices that an operand of `slice` gives. -/
def sliceIndices (bounds : Value) : Except Fault (Int × Option Int) := do
  let check (v : Value) : Except Fault Int :=
    match v with
    | .num _ => .ok (indexOf v)
    | _ => .error (slice.fault ("index is not a number: " ++ v.text))
  match bounds.asCells with
  | [a] => return (← check a, none)
  | [a, b] => return (← check a, some (← check b))
  | _ => .error (slice.fault ("expected [start] or [start end], received " ++ bounds.text))

/-- The part of a string or array between indices. -/
def sliceValue (v bounds : Value) : Except Fault Value := do
  let (start, stop) ← sliceIndices bounds
  match v with
  | .str s => return .str (Text.ofChars (sliced (Text.chars s) start stop))
  | .array cells => return .array (sliced cells start stop)
  | _ => .error (slice.fault ("argument is not a string or array: " ++ v.type.text))

/-- The member of an array at an index. -/
def pickOne (xs : List Value) (y : Value) : Except Fault Value :=
  match y with
  | .num _ =>
    let i := indexOf y
    let i := if i < 0 then i + xs.length else i
    match if i < 0 then none else xs[i.toNat]? with
    | some x => .ok x
    | none => .error (pick.fault ("index out of range: " ++ y.text))
  | _ => .error (pick.fault ("index is not a number: " ++ y.text))

/-! ## Arrays -/

/-- Adds up numbers from the first on. -/
def sumFrom : Float → List Value → Except Fault Float
  | total, [] => .ok total
  | total, .num n :: rest => sumFrom (total + n.toFloat) rest
  | _, v :: _ => .error (sum.fault ("array member is not a number: " ++ v.text))

/-- The strings an array is made of. -/
def strings (cells : List Value) : Except Fault (List Text) :=
  cells.mapM fun v =>
    match v with
    | .str s => .ok s
    | _ => .error (join.fault ("array member is not a string: " ++ v.text))

/-- The numbers from `x` in steps of one while below `hi`, behind those found before, last first;
nothing when fuel runs out. -/
def rangeFrom (hi : Float) : Nat → Float → List Value → Option (List Value)
  | 0, x, found => if x < hi then none else some found.reverse
  | fuel + 1, x, found =>
    if x < hi then rangeFrom hi fuel (x + 1) (.num (.ofFloat 0 x) :: found) else some found.reverse

/-- More steps of one than lead from `lo` to `hi`, if any number of them does. -/
def rangeFuel (lo hi : Float) : Nat := 2 * (Whole.part (hi - lo)).toNat + 2

/-- Where a value stands in a string or array. -/
def indexInValue (needle haystack : Value) : Except Fault (Option Nat) :=
  match haystack with
  | .str s =>
    match needle with
    | .str t => .ok ((Text.indexOf? t s).map fun i => Text.charCount (s.take i))
    | _ => .ok none
  | .array cells => .ok (cells.findIdx? fun x => x.equal needle)
  | _ =>
    .error (indexIn.fault ("right operand is not a string or array: " ++ haystack.type.text))

/-- Combines values from left to right. -/
def fold (apply : Applier view) (f : Function) : Value → List Value → EvalIn view Value
  | acc, [] => pure acc
  | acc, x :: rest => do
    let acc ← apply f [acc, x]
    fold apply f acc rest

/-- The members for which a function gives something true, behind those found before, last
first. -/
def select (apply : Applier view) (f : Function) :
    List Value → List Value → EvalIn view (List Value)
  | found, [] => pure found.reverse
  | found, x :: rest => do
    let v ← apply f [x]
    select apply f (if v.isTruthy then x :: found else found) rest

/-- The results of a function on each member, behind those found before, last first. -/
def applyEach (apply : Applier view) (f : Function) :
    List Value → List Value → EvalIn view (List Value)
  | found, [] => pure found.reverse
  | found, x :: rest => do
    let v ← apply f [x]
    applyEach apply f (v :: found) rest

/-- The function that maps `c` to `a(c, b(c))`. -/
def shared (a b : Function) (serial : Nat) : Function where
  identity := .made serial
  name := "S(" ++ a.name ++ " " ++ b.name ++ ")"
  params := [match b.params with
    | [p] => p
    | _ => .any]
  returns := a.returns
  doc := []
  body := .share a b
  curried := false
  layers := 0

/-- An index or, when there is none, minus one. -/
def indexValue (i : Option Nat) : Value := .num (.ofFloat 0 (i.elim (-1) Nat.toFloat))

/-- Runs a builtin. -/
def run (apply : Applier view) : Builtin → List Value → EvalIn view Value
  | .plus, [x, y] => .number (x.asNumber.toFloat + y.asNumber.toFloat)
  | .minus, [x, y] => .number (x.asNumber.toFloat - y.asNumber.toFloat)
  | .times, [x, y] => .number (x.asNumber.toFloat * y.asNumber.toFloat)
  | .dividedBy, [x, y] => .number (x.asNumber.toFloat / y.asNumber.toFloat)
  | .mod, [x, y] => .number (Whole.remainder x.asNumber.toFloat y.asNumber.toFloat)
  | .lt, [x, y] => pure (.bool (x.asNumber.toFloat < y.asNumber.toFloat))
  | .ltEq, [x, y] => pure (.bool (x.asNumber.toFloat ≤ y.asNumber.toFloat))
  | .gt, [x, y] => pure (.bool (y.asNumber.toFloat < x.asNumber.toFloat))
  | .gtEq, [x, y] => pure (.bool (y.asNumber.toFloat ≤ x.asNumber.toFloat))
  | .eq, [x, y] => pure (.bool (x.equal y))
  | .nEq, [x, y] => pure (.bool (!x.equal y))
  | .toString, [x] => pure (.str x.display)
  | .lines, [s] => pure (.ofTexts (lineTexts s.asText))
  | .chars, [s] => pure (.ofTexts (charTexts s.asText))
  | .length, [.str s] => pure (.num (.ofNat (Text.charCount s)))
  | .length, [.array cells] => pure (.num (.ofNat cells.length))
  | .length, [v] =>
    .fail (length.fault ("argument is not a string or array: " ++ v.type.text))
  | .slice, [v, bounds] => .ofExcept (sliceValue v bounds)
  | .match_, [s, p] => do
    let p ← .ofExcept (patternOf match_ p.asText)
    return .ofTexts (matchTexts p s.asText)
  | .matchStart, [s, p] => do
    let p ← .ofExcept (patternOf matchStart p.asText)
    return indexValue (matchIndex? p s.asText)
  | .isDigit, [s] =>
    pure (.bool (match s.asText with
      | [b] => Text.isDigit b
      | _ => false))
  | .toInt, [s] => do .number (← .ofExcept (toIntValue s.asText))
  | .range, [lo, hi] =>
    let lo := lo.asNumber.toFloat
    let hi := hi.asNumber.toFloat
    match rangeFrom hi (rangeFuel lo hi) lo [] with
    | some cells => pure (.array cells)
    | none => throw .outOfFuel
  | .map, [xs, f] => do
    match xs.asCells with
    | [] => pure (.array [])
    | cells => return .array (← applyEach apply (← .function f) [] cells)
  | .reduce, [xs, f] =>
    match xs.asCells with
    | [] => .fail (reduce.fault "empty array with no initial value")
    | [x] => pure x
    | x :: rest => do fold apply (← .function f) x rest
  | .filter, [xs, f] => do
    match xs.asCells with
    | [] => pure (.array [])
    | cells => return .array (← select apply (← .function f) [] cells)
  | .sum, [xs] => do .number (← .ofExcept (sumFrom 0 xs.asCells))
  | .take, [xs, n] => pure (.array (sliced xs.asCells 0 (some (indexOf n))))
  | .pick, [xs, is] => do return .array (← .ofExcept (is.asCells.mapM (pickOne xs.asCells)))
  | .join, [xs, sep] => do
    return .str (Text.joined sep.asText (← .ofExcept (strings xs.asCells)))
  | .indexIn, [needle, haystack] => do
    return indexValue (← .ofExcept (indexInValue needle haystack))
  | .readFile, [path] => do
    match (← get).seen with
    | none => .fail (readFile.fault "no filesystem available")
    | some fs =>
      match fs.read path.asText with
      | .ok content => return .str content
      | .error f => .fail (.builtin none readFile.name f)
  | .identity, [x] => pure x
  | .share, [a, b] => do
    let b ← .function b
    let a ← .function a
    return .func (shared a b (← .drawSerial))
  | _, _ => .crash "runtime error: index out of range"

end Tacit.Builtin
