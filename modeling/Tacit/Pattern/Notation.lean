import Tacit.Pattern
import Tacit.Text.Script
import Tacit.Text.CaseFold

/-!
# How patterns are written

Besides letters that stand for themselves the notation has classes in brackets, groups, choices,
repetitions, assertions and escapes; a group may set flags for what follows inside it. Reading
stops at the first part that is not well formed, and the problem quotes that part.
-/

namespace Tacit.Pattern

/-- What is wrong with a written pattern. -/
inductive Problem where
  | invalidRange
  | invalidEscape
  | invalidGroupName
  | invalidSyntax
  | nestedRepetition
  | invalidCount
  | invalidText
  | missingBracket
  | missingParen
  | missingOperand
  | trailingBackslash
  | unexpectedParen
  | tooDeep
  deriving DecidableEq, Repr

def Problem.text : Problem → Text
  | invalidRange => "invalid character class range"
  | invalidEscape => "invalid escape sequence"
  | invalidGroupName => "invalid named capture"
  | invalidSyntax => "invalid or unsupported Perl syntax"
  | nestedRepetition => "invalid nested repetition operator"
  | invalidCount => "invalid repeat count"
  | invalidText => "invalid UTF-8"
  | missingBracket => "missing closing ]"
  | missingParen => "missing closing )"
  | missingOperand => "missing argument to repetition operator"
  | trailingBackslash => "trailing backslash at end of expression"
  | unexpectedParen => "unexpected )"
  | tooDeep => "expression nests too deeply"

/-- A problem with the part of the pattern that has it. -/
structure Rejection where
  problem : Problem
  excerpt : Text
  deriving DecidableEq, Repr

def Rejection.message (r : Rejection) : Text :=
  "error parsing regexp: " ++ r.problem.text ++ ": \x60" ++ r.excerpt ++ "\x60"

/-- A written pattern as glyphs: a stray byte is no part of a pattern. -/
abbrev Written := List Glyph

/-- A rejection that quotes some glyphs. -/
def reject {α : Type} (problem : Problem) (gs : Written) : Except Rejection α :=
  .error ⟨problem, Text.ofGlyphs gs⟩

/-- The glyphs of `whole` in front of its end `rest`. -/
def upToRest (whole rest : Written) : Written := whole.take (whole.length - rest.length)

/-- The next character and what follows it; the character at the end is the replacement. -/
def nextChar (gs : Written) : Except Rejection (Char × Written) :=
  match gs with
  | [] => .ok (Glyph.replacement, [])
  | .char c :: rest => .ok (c, rest)
  | .stray _ :: _ => reject .invalidText gs

/-- Rejects glyphs with a stray byte among them. -/
def checkText (gs : Written) : Except Rejection Unit :=
  match gs.dropWhile (fun g => !g.isStray) with
  | [] => .ok ()
  | bad => reject .invalidText bad

/-- What flags are in force. -/
structure Flags where
  ignoreCase : Bool
  /-- Whether `^` and `$` hold at lines and not only at the ends of the text. -/
  byLine : Bool
  /-- Whether the dot stands for a newline too. -/
  dotNewline : Bool
  /-- Whether repetitions prefer fewer copies. -/
  swapGreed : Bool
  deriving DecidableEq, Repr

def Flags.initial : Flags := ⟨false, false, false, false⟩

/-! ## Sets of characters -/

/-- The code points from `lo` to `hi`. -/
def rangeTest (lo hi : Nat) (c : Char) : Bool := lo ≤ c.toNat && c.toNat ≤ hi

/-- A test that also accepts what differs from an accepted character only in case. -/
def foldedTest (ignoreCase : Bool) (test : Char → Bool) : Char → Bool :=
  if ignoreCase then fun c => (CaseFold.group c).any test else test

/-- A test or its negation. -/
def signed (positive : Bool) (test : Char → Bool) : Char → Bool :=
  if positive then test else fun c => !test c

def anyRange (ranges : List (Nat × Nat)) (c : Char) : Bool :=
  ranges.any fun (lo, hi) => rangeTest lo hi c

/-- The sets named by a letter after a backslash. -/
def letterSet? : Char → Option (Bool × List (Nat × Nat))
  | 'd' => some (true, [(0x30, 0x39)])
  | 'D' => some (false, [(0x30, 0x39)])
  | 's' => some (true, [(9, 10), (12, 13), (32, 32)])
  | 'S' => some (false, [(9, 10), (12, 13), (32, 32)])
  | 'w' => some (true, [(0x30, 0x39), (0x41, 0x5A), (0x5F, 0x5F), (0x61, 0x7A)])
  | 'W' => some (false, [(0x30, 0x39), (0x41, 0x5A), (0x5F, 0x5F), (0x61, 0x7A)])
  | _ => none

/-- The sets that a name between `[:` and `:]` stands for. -/
def namedSets : List (String × List (Nat × Nat)) :=
  [("alnum", [(0x30, 0x39), (0x41, 0x5A), (0x61, 0x7A)]),
   ("alpha", [(0x41, 0x5A), (0x61, 0x7A)]),
   ("ascii", [(0, 0x7F)]),
   ("blank", [(9, 9), (32, 32)]),
   ("cntrl", [(0, 0x1F), (0x7F, 0x7F)]),
   ("digit", [(0x30, 0x39)]),
   ("graph", [(0x21, 0x7E)]),
   ("lower", [(0x61, 0x7A)]),
   ("print", [(0x20, 0x7E)]),
   ("punct", [(0x21, 0x2F), (0x3A, 0x40), (0x5B, 0x60), (0x7B, 0x7E)]),
   ("space", [(9, 13), (32, 32)]),
   ("upper", [(0x41, 0x5A)]),
   ("word", [(0x30, 0x39), (0x41, 0x5A), (0x5F, 0x5F), (0x61, 0x7A)]),
   ("xdigit", [(0x30, 0x39), (0x41, 0x46), (0x61, 0x66)])]

/-- The set of a category or a script. -/
def propertySet? (name : String) : Option (Char → Bool) :=
  if name = "Any" then some fun _ => true
  else if Category.names.contains name then some (Category.contains name.toList)
  else (Script.ranges? name).map anyRange

/-! ## Escapes -/

def hexValue? (c : Char) : Option Nat :=
  if '0' ≤ c ∧ c ≤ '9' then some (c.toNat - '0'.toNat)
  else if 'a' ≤ c ∧ c ≤ 'f' then some (c.toNat - 'a'.toNat + 10)
  else if 'A' ≤ c ∧ c ≤ 'F' then some (c.toNat - 'A'.toNat + 10)
  else none

def isOctal : Glyph → Bool
  | .char c => '0' ≤ c && c ≤ '7'
  | .stray _ => false

/-- The number some octal digits spell. -/
def octalNumber (gs : Written) : Nat :=
  gs.foldl (fun n g => n * 8 + (g.toChar.toNat - '0'.toNat)) 0

/-- Reads hexadecimal digits up to a closing brace; none when they spell no code point. The flag
says whether a digit has been read. -/
def bracedHex (whole : Written) :
    Written → Nat → Bool → Except Rejection (Nat × Written)
  | [], _, _ => reject .invalidEscape whole
  | .stray b :: rest, _, _ => reject .invalidText (.stray b :: rest)
  | .char c :: rest, n, some' =>
    if c = '\x7d' then
      if some' then .ok (n, rest) else reject .invalidEscape (upToRest whole rest)
    else
      match hexValue? c with
      | none => reject .invalidEscape (upToRest whole rest)
      | some v =>
        if 0x10FFFF < n * 16 + v then reject .invalidEscape (upToRest whole rest)
        else bracedHex whole rest (n * 16 + v) true

/-- The control character that a letter after a backslash stands for. -/
def controlOf? : Char → Option Nat
  | 'a' => some 7
  | 'f' => some 12
  | 'n' => some 10
  | 'r' => some 13
  | 't' => some 9
  | 'v' => some 11
  | _ => none

/-- Reads an escape for a single character. `whole` starts with the backslash. -/
def readEscape (whole : Written) : Except Rejection (Nat × Written) := do
  match whole.drop 1 with
  | [] => reject .trailingBackslash []
  | rest =>
    let (c, rest) ← nextChar rest
    let octal := ('1' ≤ c && c ≤ '7' && (rest.head?.any isOctal)) || c = '0'
    if octal then
      let more := (rest.take 2).takeWhile isOctal
      return (octalNumber (.char c :: more), rest.drop more.length)
    else if c = 'x' then
      match rest with
      | [] => reject .invalidEscape whole
      | _ =>
        let (d, rest) ← nextChar rest
        if d = '\x7b' then bracedHex whole rest 0 false
        else
          let (e, rest) ← nextChar rest
          match hexValue? d, hexValue? e with
          | some x, some y => return (x * 16 + y, rest)
          | _, _ => reject .invalidEscape (upToRest whole rest)
    else
      match controlOf? c with
      | some n => return (n, rest)
      | none =>
        if c.toNat < 0x80 ∧ ¬ c.isAlphanum then return (c.toNat, rest)
        else reject .invalidEscape (upToRest whole rest)

/-- Reads a property after `\p` or `\P`, when `whole` starts with one. -/
def readProperty? (flags : Flags) (whole : Written) :
    Except Rejection (Option ((Char → Bool) × Written)) := do
  match whole with
  | .char '\\' :: .char p :: rest =>
    if p = 'p' ∨ p = 'P' then
      let (c, after) ← nextChar rest
      let (name, after) : Written × Written ←
        if c = '\x7b' then
          let name := (rest.drop 1).takeWhile (· != .char '\x7d')
          if name.length + 1 < rest.length then
            checkText name
            pure (name, rest.drop (name.length + 2))
          else
            checkText whole
            reject .invalidRange whole
        else pure (rest.take 1, after)
      let (positive, name) :=
        match name with
        | .char '^' :: name => (p == 'P', name)
        | name => (p == 'p', name)
      match propertySet? (String.ofList (name.map Glyph.toChar)) with
      | none => reject .invalidRange (upToRest whole after)
      | some test => return some (signed positive (foldedTest flags.ignoreCase test), after)
    else return none
  | _ => return none

/-- Reads a set named by a letter after a backslash, when `gs` starts with one. -/
def readLetterSet? (flags : Flags) (gs : Written) : Option ((Char → Bool) × Written) :=
  match gs with
  | .char '\\' :: .char c :: rest =>
    (letterSet? c).map fun (positive, ranges) =>
      (signed positive (foldedTest flags.ignoreCase (anyRange ranges)), rest)
  | _ => none

/-! ## Classes in brackets -/

/-- The glyphs in front of the first `:]`, and those behind it. -/
def splitNamed? : Written → Option (Written × Written)
  | .char ':' :: .char ']' :: rest => some ([], rest)
  | g :: rest => (splitNamed? rest).map fun (name, rest) => (g :: name, rest)
  | [] => none

/-- Reads a named set such as `[:alpha:]`, when `gs` starts with one. -/
def readNamedSet? (flags : Flags) (gs : Written) :
    Except Rejection (Option ((Char → Bool) × Written)) :=
  match gs with
  | .char '[' :: .char ':' :: rest =>
    match splitNamed? rest with
    | none => .ok none
    | some (name, after) =>
      let (positive, bare) :=
        match name with
        | .char '^' :: bare => (false, bare)
        | bare => (true, bare)
      match namedSets.lookup (String.ofList (bare.map Glyph.toChar)) with
      | none => reject .invalidRange (upToRest gs after)
      | some ranges =>
        .ok (some (signed positive (foldedTest flags.ignoreCase (anyRange ranges)), after))
  | _ => .ok none

/-- Reads one character of a class; `whole` is quoted when the class does not end. -/
def readClassChar (whole gs : Written) : Except Rejection (Nat × Written) :=
  match gs with
  | [] => reject .missingBracket whole
  | .char '\\' :: _ => readEscape gs
  | _ => (nextChar gs).map fun (c, rest) => (c.toNat, rest)

/-- Reads a character or a range of a class. -/
def readClassRange (flags : Flags) (whole gs : Written) :
    Except Rejection ((Char → Bool) × Written) := do
  let (lo, rest) ← readClassChar whole gs
  match rest with
  | .char '-' :: g :: more =>
    if g = .char ']' then return (foldedTest flags.ignoreCase (rangeTest lo lo), rest)
    else
      let (hi, rest) ← readClassChar whole (g :: more)
      if hi < lo then reject .invalidRange (upToRest gs rest)
      else return (foldedTest flags.ignoreCase (rangeTest lo hi), rest)
  | _ => return (foldedTest flags.ignoreCase (rangeTest lo lo), rest)

/-- Reads the members of a class up to its closing bracket. A bracket that comes first is a
member. -/
def readMembers (flags : Flags) (whole : Written) :
    Nat → Bool → Written → (Char → Bool) → Except Rejection ((Char → Bool) × Written)
  | 0, _, gs, test => .ok (test, gs)
  | fuel + 1, first, gs, test => do
    if gs.head? = some (.char ']') ∧ first = false then return (test, gs.drop 1)
    else
      let found ←
        match ← readNamedSet? flags gs with
        | some found => pure found
        | none =>
          match ← readProperty? flags gs with
          | some found => pure found
          | none =>
            match readLetterSet? flags gs with
            | some found => pure found
            | none => readClassRange flags whole gs
      readMembers flags whole fuel false found.2 fun c => test c || found.1 c

/-- Reads a class; `whole` starts with its opening bracket. -/
def readClass (flags : Flags) (whole : Written) : Except Rejection (Pattern × Written) := do
  let rest := whole.drop 1
  let negated := rest.head? = some (.char '^')
  let rest := if negated then rest.drop 1 else rest
  let (test, rest) ← readMembers flags whole (whole.length + 1) true rest fun _ => false
  return (.set (signed (!negated) test), rest)

/-! ## Groups and repetitions -/

/-- What is left to do when a group closes: the flags in force before it, whether it is a capture,
and the alternatives and the parts read in front of it, last first. -/
structure Opened where
  flags : Flags
  capture : Bool
  alternatives : List Pattern
  parts : List Pattern

/-- A pattern being read: the open groups, innermost first, and the alternatives and parts of the
innermost one, last first. -/
structure Draft where
  flags : Flags
  opened : List Opened
  alternatives : List Pattern
  parts : List Pattern

namespace Draft

def push (d : Draft) (p : Pattern) : Draft := { d with parts := p :: d.parts }

def pushChar (d : Draft) (n : Nat) : Draft :=
  d.push (.set (foldedTest d.flags.ignoreCase (rangeTest n n)))

/-- The pattern of the innermost group. -/
def innermost (d : Draft) : Pattern :=
  eitherAll (seqAll d.parts.reverse :: d.alternatives).reverse

def bar (d : Draft) : Draft :=
  { d with alternatives := seqAll d.parts.reverse :: d.alternatives, parts := [] }

def openGroup (d : Draft) (capture : Bool) (flags : Flags) : Draft :=
  ⟨flags, ⟨d.flags, capture, d.alternatives, d.parts⟩ :: d.opened, [], []⟩

end Draft

/-- How deeply patterns may nest. -/
def maxHeight : Nat := 1000

/-- The most copies that nested bounded repetitions may ask for. -/
def maxCopies : Nat := 1000

/-- Closes the innermost group. -/
def closeGroup (whole : Written) (d : Draft) : Except Rejection Draft :=
  match d.opened with
  | [] => reject .unexpectedParen whole
  | o :: opened =>
    let inner := if o.capture then Pattern.group d.innermost else d.innermost
    if maxHeight < inner.height then reject .tooDeep whole
    else .ok ⟨o.flags, opened, o.alternatives, inner :: o.parts⟩

def isNameChar : Glyph → Bool
  | .char c => c = '_' || c.isAlphanum
  | .stray _ => false

/-- Reads the flags of a group up to the colon or parenthesis that ends them. `rest` is what
follows the question mark. -/
def readFlags (whole : Written) (d : Draft) :
    Written → Flags → Bool → Bool → Except Rejection (Draft × Written)
  | [], _, _, _ => reject .invalidSyntax whole
  | .stray b :: rest, _, _, _ => reject .invalidText (.stray b :: rest)
  | .char c :: rest, flags, positive, any =>
    match c with
    | 'i' => readFlags whole d rest { flags with ignoreCase := positive } positive true
    | 'm' => readFlags whole d rest { flags with byLine := positive } positive true
    | 's' => readFlags whole d rest { flags with dotNewline := positive } positive true
    | 'U' => readFlags whole d rest { flags with swapGreed := positive } positive true
    | '-' =>
      if positive then readFlags whole d rest flags false false
      else reject .invalidSyntax (upToRest whole rest)
    | ':' =>
      if positive || any then .ok (d.openGroup false flags, rest)
      else reject .invalidSyntax (upToRest whole rest)
    | ')' =>
      if positive || any then .ok ({ d with flags := flags }, rest)
      else reject .invalidSyntax (upToRest whole rest)
    | _ => reject .invalidSyntax (upToRest whole rest)

/-- Reads what follows an opening parenthesis with a question mark; `whole` starts with the
parenthesis. -/
def readSpecialGroup (whole : Written) (d : Draft) : Except Rejection (Draft × Written) := do
  let named : Option Nat :=
    match whole.drop 2 with
    | .char 'P' :: .char '<' :: _ :: _ => some 4
    | .char '<' :: _ :: _ => some 3
    | _ => none
  match named with
  | some skip =>
    let name := (whole.drop skip).takeWhile (· != .char '>')
    if skip + name.length < whole.length then
      checkText name
      if name.isEmpty || !name.all isNameChar then
        reject .invalidGroupName (whole.take (skip + name.length + 1))
      else return (d.openGroup true d.flags, whole.drop (skip + name.length + 1))
    else
      checkText whole
      reject .invalidGroupName whole
  | none => readFlags whole d (whole.drop 2) d.flags true false

/-- Reads a bound without superfluous zeros. -/
def readBound? (gs : Written) : Option (Nat × Written) :=
  let digits := gs.takeWhile fun g => g.toChar.isDigit
  match digits with
  | [] => none
  | d :: more =>
    if d = .char '0' ∧ ¬ more.isEmpty then none
    else
      some (digits.foldl (fun n g => n * 10 + (g.toChar.toNat - '0'.toNat)) 0,
        gs.drop digits.length)

/-- Reads bounds in braces; none when the brace stands for itself. -/
def readBounds? (gs : Written) : Option (Nat × Option Nat × Written) := do
  let (least, rest) ← readBound? (gs.drop 1)
  match rest with
  | .char '\x7d' :: rest => some (least, some least, rest)
  | .char ',' :: .char '\x7d' :: rest => some (least, none, rest)
  | .char ',' :: rest =>
    let (most, rest) ← readBound? rest
    match rest with
    | .char '\x7d' :: rest => some (least, some most, rest)
    | _ => none
  | _ => none

/-- Repeats the last part of a draft. `before` starts with the operator and `after` follows it;
`last` is where the operator in front of it started, when there is one. -/
def repeatLast (d : Draft) (before after : Written) (last : Option Written)
    (form : Bool → Pattern → Pattern) (bounded : Bool) : Except Rejection (Draft × Written) :=
  let (greedy, after) :=
    match after with
    | .char '?' :: after => (d.flags.swapGreed, after)
    | after => (!d.flags.swapGreed, after)
  match last with
  | some last => reject .nestedRepetition (upToRest last after)
  | none =>
    match d.parts with
    | [] => reject .missingOperand (upToRest before after)
    | p :: parts =>
      let repeated := form greedy p
      if bounded && !repeated.withinCopies maxCopies then
        reject .invalidCount (upToRest before after)
      else .ok ({ d with parts := repeated :: parts }, after)

/-! ## Whole patterns -/

/-- The glyphs in front of the first `\E`, and those behind it. -/
def splitLiteral : Written → Written × Written
  | .char '\\' :: .char 'E' :: rest => ([], rest)
  | g :: rest =>
    let (literal, rest) := splitLiteral rest
    (g :: literal, rest)
  | [] => ([], [])

/-- Adds characters that stand for themselves. -/
def pushLiteral (d : Draft) : Written → Except Rejection Draft
  | [] => .ok d
  | .char c :: rest => pushLiteral (d.pushChar c.toNat) rest
  | .stray b :: rest => reject .invalidText (.stray b :: rest)

/-- Reads what starts with a backslash outside a class. -/
def readBackslash (d : Draft) (gs : Written) : Except Rejection (Draft × Written) := do
  match gs with
  | .char '\\' :: .char 'A' :: rest => return (d.push (.assertion .textStart), rest)
  | .char '\\' :: .char 'b' :: rest => return (d.push (.assertion .wordEdge), rest)
  | .char '\\' :: .char 'B' :: rest => return (d.push (.assertion .wordInside), rest)
  | .char '\\' :: .char 'C' :: _ => reject .invalidEscape (gs.take 2)
  | .char '\\' :: .char 'z' :: rest => return (d.push (.assertion .textEnd), rest)
  | .char '\\' :: .char 'Q' :: rest =>
    let (literal, rest) := splitLiteral rest
    return (← pushLiteral d literal, rest)
  | _ =>
    match ← readProperty? d.flags gs with
    | some (test, rest) => return (d.push (.set test), rest)
    | none =>
      match readLetterSet? d.flags gs with
      | some (test, rest) => return (d.push (.set test), rest)
      | none =>
        let (n, rest) ← readEscape gs
        return (d.pushChar n, rest)

/-- Reads one part of a pattern. The result also says where a repetition operator started, when
the part was one. -/
def readPart (whole : Written) (d : Draft) (last : Option Written) (gs : Written) :
    Except Rejection (Draft × Written × Option Written) := do
  let plain (r : Draft × Written) : Draft × Written × Option Written := (r.1, r.2, none)
  match gs with
  | [] => return (d, [], none)
  | .char '(' :: .char '?' :: _ => plain <$> readSpecialGroup gs d
  | .char '(' :: rest => return (d.openGroup true d.flags, rest, none)
  | .char '|' :: rest => return (d.bar, rest, none)
  | .char ')' :: rest => return (← closeGroup whole d, rest, none)
  | .char '^' :: rest =>
    return (d.push (.assertion (if d.flags.byLine then .lineStart else .textStart)), rest, none)
  | .char '$' :: rest =>
    return (d.push (.assertion (if d.flags.byLine then .lineEnd else .textEnd)), rest, none)
  | .char '.' :: rest =>
    return (d.push (.set (if d.flags.dotNewline then fun _ => true else (· != '\n'))), rest, none)
  | .char '[' :: _ =>
    let (p, rest) ← readClass d.flags gs
    return (d.push p, rest, none)
  | .char '*' :: rest =>
    let (d, after) ← repeatLast d gs rest last (.rep .star) false
    return (d, after, some gs)
  | .char '+' :: rest =>
    let (d, after) ← repeatLast d gs rest last (.rep .plus) false
    return (d, after, some gs)
  | .char '?' :: rest =>
    let (d, after) ← repeatLast d gs rest last (.rep .optional) false
    return (d, after, some gs)
  | .char '\x7b' :: rest =>
    match readBounds? gs with
    | none => return (d.pushChar 0x7B, rest, none)
    | some (least, most, after) =>
      if maxCopies < least ∨ most.any (maxCopies < ·) ∨ most.any (· < least) then
        reject .invalidCount (upToRest gs after)
      else
        let bounded := 2 ≤ least || most.any (2 ≤ ·)
        let (d, after) ← repeatLast d gs after last (.times least most) bounded
        return (d, after, some gs)
  | .char '\\' :: _ => plain <$> readBackslash d gs
  | _ =>
    let (c, rest) ← nextChar gs
    return (d.pushChar c.toNat, rest, none)

/-- Reads parts until none are left. -/
def readParts (whole : Written) : Nat → Draft → Option Written → Written → Except Rejection Draft
  | 0, d, _, _ => .ok d
  | _, d, _, [] => .ok d
  | fuel + 1, d, last, gs => do
    let (d, rest, last) ← readPart whole d last gs
    readParts whole fuel d last rest

/-- The pattern that a text writes. -/
def read (t : Text) : Except Rejection Pattern := do
  let whole := Text.glyphs t
  let d ← readParts whole (whole.length + 1) ⟨.initial, [], [], []⟩ none whole
  match d.opened with
  | [] => return d.innermost
  | _ :: _ => reject .missingParen whole

end Tacit.Pattern
