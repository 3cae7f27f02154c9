import Tacit.Token
import Tacit.Fault
import Tacit.Text.Utf8

/-!
# Cutting a source into tokens

Tokens stand one after another with nothing but spaces, tabs, carriage returns and newlines
around them. At each place the first kind, in order of preference, with a lexeme there wins. A
string ends at the first quote that no backslash stands directly in front of; when there is none,
it ends at the last quote of the source.
-/

namespace Tacit

/-- Whether a byte may stand between tokens. -/
def isSpace (b : UInt8) : Bool := b == 32 || b == 9 || b == 13 || b == 10

namespace Lexeme

def quote : UInt8 := '"'.toUInt8

def backslash : UInt8 := '\\'.toUInt8

/-- Whether a byte may start a name. -/
def startsName (b : UInt8) : Bool := Text.isLetter b || b == '_'.toUInt8

/-- Whether a byte may stand in a name. -/
def isNameByte (b : UInt8) : Bool := startsName b || Text.isDigit b

/-- How many bytes the sign at the start takes. -/
def signLength : Text → Nat
  | [] => 0
  | b :: _ => if b = '+'.toUInt8 ∨ b = '-'.toUInt8 then 1 else 0

/-- How many digits stand at the start. -/
def digitCount (t : Text) : Nat := (t.takeWhile Text.isDigit).length

/-- How many bytes a point and the digits behind it take; a point alone is no fraction. -/
def fractionLength : Text → Nat
  | [] => 0
  | b :: rest => if b = '.'.toUInt8 ∧ 0 < digitCount rest then 1 + digitCount rest else 0

/-- The length of the number at the start. -/
def numLength? (t : Text) : Option Nat :=
  let sign := signLength t
  let digits := digitCount (t.drop sign)
  if 0 < digits then some (sign + digits + fractionLength (t.drop (sign + digits))) else none

/-- The offset of the first quote that no backslash stands in front of; `escaped` says whether one
stands in front of the text. -/
def plainQuote? : Bool → Text → Option Nat
  | _, [] => none
  | escaped, b :: rest =>
    if b = quote ∧ !escaped then some 0 else (plainQuote? (b == backslash) rest).map (· + 1)

/-- The offset of the last quote. -/
def lastQuote? : Text → Option Nat
  | [] => none
  | b :: rest =>
    match lastQuote? rest with
    | some i => some (i + 1)
    | none => if b = quote then some 0 else none

/-- The length of the string at the start. -/
def strLength? : Text → Option Nat
  | [] => none
  | b :: rest =>
    if b = quote then ((plainQuote? false rest).or (lastQuote? rest)).map (· + 2) else none

/-- The length of the name at the start. -/
def nameLength? : Text → Option Nat
  | [] => none
  | b :: rest => if startsName b then some (1 + (rest.takeWhile isNameByte).length) else none

/-- The length of a fixed lexeme, when it stands at the start. -/
def fixedLength? (lexeme t : Text) : Option Nat :=
  (Text.after? lexeme t).map fun _ => lexeme.length

end Lexeme

/-- The length of the lexeme of a kind at the start of a text. -/
def TokenKind.length? (k : TokenKind) (t : Text) : Option Nat :=
  match k with
  | .num => Lexeme.numLength? t
  | .str => Lexeme.strLength? t
  | .ident => Lexeme.nameLength? t
  | k => Lexeme.fixedLength? k.name t

/-- The first kind with a lexeme at the start of a text, and the lexeme's length. -/
def TokenKind.first? (t : Text) : Option (TokenKind × Nat) :=
  TokenKind.all.findSome? fun k => (k.length? t).map fun n => (k, n)

/-- A reader's place in a source: `rest` is what follows the first `pos` bytes. -/
structure Cursor where
  file : Text
  src : Text
  pos : Nat
  rest : Text

namespace Cursor

/-- The start of a source. -/
def start (file src : Text) : Cursor := ⟨file, src, 0, src⟩

/-- The cursor some bytes further on. -/
def advance (c : Cursor) (n : Nat) : Cursor := { c with pos := c.pos + n, rest := c.rest.drop n }

/-- The cursor behind the white space that follows it. -/
def skipSpace (c : Cursor) : Cursor := c.advance (c.rest.takeWhile isSpace).length

/-- The place of the cursor. -/
def place (c : Cursor) : Location := .within c.file c.src c.pos

/-- How many characters of a source that starts no token are shown. -/
def excerptLength : Nat := 16

/-- The beginning of the rest, for a message. -/
def excerpt (c : Cursor) : Text :=
  let cs := Text.chars c.rest
  if excerptLength < cs.length then Text.ofChars (cs.take excerptLength) else c.rest

/-- What a reader finds at a cursor. -/
inductive Found where
  | nothing
  | token (t : Token)
  | unmatched (f : Fault)

/-- Reads one token. The second component is the cursor behind it, or, when there is no token,
behind the white space. -/
def read (c : Cursor) : Found × Cursor :=
  let c := c.skipSpace
  if c.rest.isEmpty then (.nothing, c)
  else
    match TokenKind.first? c.rest with
    | some (k, n) => (.token ⟨k, c.rest.take n, c.place⟩, c.advance n)
    | none => (.unmatched (.unmatched c.place c.excerpt), c)

/-- What successive reads find, up to the second that finds no token. -/
def readings : Nat → Nat → Cursor → List Found
  | 0, _, _ => []
  | fuel + 1, misses, c =>
    let (found, next) := c.read
    match found with
    | .token _ => found :: readings fuel misses next
    | _ =>
      match misses with
      | 0 => [found]
      | misses + 1 => found :: readings fuel misses next

/-- The tokens from a cursor on; every read that finds one takes at least a byte. -/
def tokens : Nat → Cursor → Except Fault (List Token)
  | 0, _ => .ok []
  | fuel + 1, c =>
    match c.read with
    | (.nothing, _) => .ok []
    | (.unmatched f, _) => .error f
    | (.token t, next) => (tokens fuel next).map (t :: ·)

end Cursor

/-- The tokens of a source, whose name goes into their places. -/
def lex (file src : Text) : Except Fault (List Token) :=
  (Cursor.start file src).tokens (src.length + 1)

/-- What reading a source token by token finds, up to the second read that finds no token. -/
def lexStream (file src : Text) : List Cursor.Found :=
  (Cursor.start file src).readings (src.length + 2) 1

end Tacit
