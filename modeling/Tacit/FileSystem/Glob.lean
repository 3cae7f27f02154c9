import Tacit.FileSystem
import Tacit.Text.Utf8

/-!
# Which source files a command works on

An argument that ends in `/...` stands for the source files below a directory, and patterns can
take paths away again. In a pattern `*` stands for any bytes but a slash, `?` for any character
but a slash, brackets for one character of a set, and a backslash takes the next byte as it is. A
pattern is divided at its stars; each part is matched where it first fits, and that choice is not
reconsidered. A pattern that is not well formed matches nothing.
-/

namespace Tacit

namespace Glob

/-- What matches one character of a name. -/
inductive Item where
  | byte (b : UInt8)
  | anyChar
  | set (negated : Bool) (ranges : List (Char × Char))
  deriving Repr, DecidableEq

/-- Items that match next to each other, after any bytes if there is a star in front. -/
structure Part where
  starred : Bool
  items : List Item
  deriving Repr, DecidableEq

/-- The first glyph of a text, and what follows it. -/
def nextGlyph? (t : Text) : Option (Glyph × Text) :=
  match Text.glyphs (t.take 4) with
  | g :: _ => some (g, t.drop g.bytes.length)
  | [] => none

/-- Splits a pattern in front of the first star outside brackets. -/
def splitAtStar : Bool → Text → Text × Text
  | _, [] => ([], [])
  | inside, b :: rest =>
    if b = '\\'.toUInt8 then
      match rest with
      | [] => ([b], [])
      | c :: rest =>
        let (chunk, tail) := splitAtStar inside rest
        (b :: c :: chunk, tail)
    else if b = '*'.toUInt8 ∧ !inside then ([], b :: rest)
    else
      let inside := if b = '['.toUInt8 then true else if b = ']'.toUInt8 then false else inside
      let (chunk, tail) := splitAtStar inside rest
      (b :: chunk, tail)

/-- A character of a set in brackets, which something must follow. -/
def setChar? (t : Text) : Option (Char × Text) := do
  let t ← match t with
    | [] => none
    | b :: rest =>
      if b = '-'.toUInt8 ∨ b = ']'.toUInt8 then none
      else if b = '\\'.toUInt8 then some rest
      else some t
  match nextGlyph? t with
  | some (.char c, rest) => if rest.isEmpty then none else some (c, rest)
  | _ => none

/-- The ranges of a set up to its closing bracket, one at least. -/
def setRanges? : Nat → Text → Option (List (Char × Char) × Text)
  | 0, _ => none
  | fuel + 1, t => do
    let (lo, rest) ← setChar? t
    let (hi, rest) ←
      if rest.head? = some '-'.toUInt8 then setChar? (rest.drop 1) else some (lo, rest)
    if rest.head? = some ']'.toUInt8 then some ([(lo, hi)], rest.drop 1)
    else
      let (ranges, rest) ← setRanges? fuel rest
      some ((lo, hi) :: ranges, rest)

/-- The items of a part of a pattern. -/
def items? : Nat → Text → Option (List Item)
  | _, [] => some []
  | 0, _ => none
  | fuel + 1, b :: rest => do
    if b = '['.toUInt8 then
      let negated := rest.head? = some '^'.toUInt8
      let (ranges, rest) ← setRanges? fuel (if negated then rest.drop 1 else rest)
      return .set negated ranges :: (← items? fuel rest)
    else if b = '?'.toUInt8 then return .anyChar :: (← items? fuel rest)
    else if b = '\\'.toUInt8 then
      match rest with
      | [] => none
      | c :: rest => return .byte c :: (← items? fuel rest)
    else return .byte b :: (← items? fuel rest)

/-- The parts of a pattern. -/
def parts? : Nat → Text → Option (List Part)
  | _, [] => some []
  | 0, _ => none
  | fuel + 1, t => do
    let rest := t.dropWhile (· == '*'.toUInt8)
    let (chunk, tail) := splitAtStar false rest
    return ⟨rest.length < t.length, ← items? (chunk.length + 1) chunk⟩ :: (← parts? fuel tail)

/-- What is left of a name once the items have matched its start. -/
def matchItems : List Item → Text → Option Text
  | [], t => some t
  | _ :: _, [] => none
  | .byte b :: items, c :: rest => if b = c then matchItems items rest else none
  | .anyChar :: items, c :: rest =>
    if c = Path.slash then none
    else
      match nextGlyph? (c :: rest) with
      | some (_, rest) => matchItems items rest
      | none => none
  | .set negated ranges :: items, c :: rest =>
    match nextGlyph? (c :: rest) with
    | some (g, rest) =>
      if (ranges.any fun (lo, hi) => lo ≤ g.toChar && g.toChar ≤ hi) = negated then none
      else matchItems items rest
    | none => none

/-- The ends of a name that follow bytes which are no slash, the longest first. -/
def ends : Text → List Text
  | [] => [[]]
  | b :: rest => (b :: rest) :: if b = Path.slash then [] else ends rest

/-- Whether the parts match a name. -/
def matchParts : List Part → Text → Bool
  | [], t => t.isEmpty
  | p :: ps, t =>
    if p.starred && p.items.isEmpty then !t.contains Path.slash
    else
      let starts := if p.starred then ends t else [t]
      let rest? := starts.findSome? fun u =>
        match matchItems p.items u with
        | some rest => if rest.isEmpty || !ps.isEmpty then some rest else none
        | none => none
      match rest? with
      | some rest => matchParts ps rest
      | none => false

/-- Whether a pattern matches a name. -/
def isMatch (pattern name : Text) : Bool :=
  match parts? (pattern.length + 1) pattern with
  | some ps => matchParts ps name
  | none => false

/-- Whether a pattern matches a path or one of its components. -/
def matchesAny (path : Text) (patterns : List Text) : Bool :=
  patterns.any fun p => isMatch p path || (Path.split path).any (isMatch p)

end Glob

/-- How the names of source files end. -/
def sourceExtension : Text := ".brook"

namespace FileSystem

/-- The source files below a path. -/
def sourcesBelow (fs : FileSystem) (path : Text) : Except Fault (List Text) :=
  return (← fs.filesBelow path).filter fun p => Path.extension p == sourceExtension

/-- The files an argument stands for. -/
def expandOne (fs : FileSystem) (arg : Text) : Except Fault (List Text) :=
  match Text.before? "/..." arg with
  | none => .ok [arg]
  | some dir =>
    match fs.sourcesBelow (if dir.isEmpty then "." else dir) with
    | .ok files => .ok files
    | .error f => .error (.remarked ("expanding " ++ arg) f)

/-- The files that arguments stand for, those left out that an exclude matches. -/
def expand (fs : FileSystem) (args excludes : List Text) : Except Fault (List Text) := do
  let files ← args.mapM fs.expandOne
  return files.flatten.filter fun p => !Glob.matchesAny p excludes

end FileSystem

end Tacit
