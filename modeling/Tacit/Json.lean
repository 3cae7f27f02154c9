import Tacit.Text.Quoted

/-!
# Strings in JSON

A string is written with the characters that have a meaning in markup, the two Unicode line
separators and the control characters escaped, and a stray byte as the replacement character.
Reading takes any spelling of a string, and `null` for the empty one.
-/

namespace Tacit.Json

/-- The letter that follows the backslash for a character that has one. -/
def escapeLetter? (c : Char) : Option Char :=
  match c.toNat with
  | 8 => some 'b'
  | 9 => some 't'
  | 10 => some 'n'
  | 12 => some 'f'
  | 13 => some 'r'
  | 34 => some '"'
  | 92 => some '\\'
  | _ => none

/-- Whether a character is written by its number. -/
def isNumbered (c : Char) : Bool :=
  c.toNat < 0x20 || c == '<' || c == '>' || c == '&' || c.toNat == 0x2028 || c.toNat == 0x2029

/-- How a glyph is written inside a string. -/
def escaped : Glyph → Text
  | .stray _ => "\\ufffd"
  | .char c =>
    match escapeLetter? c with
    | some letter => Text.ofChars ['\\', letter]
    | none => if isNumbered c then "\\u" ++ Text.hexDigits 4 c.toNat else Text.ofChar c

/-- A text as a string. -/
def string (t : Text) : Text := "\"" ++ (Text.glyphs t).flatMap escaped ++ "\""

/-- The value of a hexadecimal digit. -/
def hexValue? (c : Char) : Option Nat :=
  if '0' ≤ c && c ≤ '9' then some (c.toNat - '0'.toNat)
  else if 'a' ≤ c && c ≤ 'f' then some (c.toNat - 'a'.toNat + 10)
  else if 'A' ≤ c && c ≤ 'F' then some (c.toNat - 'A'.toNat + 10)
  else none

/-- The number four hexadecimal digits spell. -/
def unit? (a b c d : Char) : Option Nat := do
  return (((← hexValue? a) * 16 + (← hexValue? b)) * 16 + (← hexValue? c)) * 16 + (← hexValue? d)

/-- The character an escape letter stands for. -/
def unescapeLetter? (c : Char) : Option Char :=
  match c with
  | 'b' => some '\x08'
  | 't' => some '\t'
  | 'n' => some '\n'
  | 'f' => some '\x0c'
  | 'r' => some '\r'
  | '"' | '\\' | '/' => some c
  | _ => none

/-- The character of two halves of a pair. -/
def ofPair? (high low : Nat) : Option Char :=
  if 0xD800 ≤ high && high < 0xDC00 && 0xDC00 ≤ low && low < 0xE000 then
    some (Char.ofNat (0x10000 + (high - 0xD800) * 0x400 + (low - 0xDC00)))
  else none

/-- The numbers of the characters up to the closing quote, halves of pairs apart, and what follows
the quote. -/
def codes? : List Char → Option (List Nat × List Char)
  | '"' :: rest => some ([], rest)
  | '\\' :: 'u' :: a :: b :: c :: d :: rest => do
    let n ← unit? a b c d
    let (ns, rest) ← codes? rest
    return (n :: ns, rest)
  | '\\' :: c :: rest => do
    let x ← unescapeLetter? c
    let (ns, rest) ← codes? rest
    return (x.toNat :: ns, rest)
  | c :: rest =>
    if c.toNat < 0x20 || c == '\\' then none
    else do
      let (ns, rest) ← codes? rest
      return (c.toNat :: ns, rest)
  | [] => none

/-- The character with a number; half of a pair alone stands for the replacement character. -/
def ofCode (n : Nat) : Char := if n.isValidChar then Char.ofNat n else Glyph.replacement

/-- The characters of numbers, halves of pairs put together. -/
def ofCodes : List Nat → List Char
  | [] => []
  | [n] => [ofCode n]
  | m :: n :: rest =>
    match ofPair? m n with
    | some c => c :: ofCodes rest
    | none => ofCode m :: ofCodes (n :: rest)

def isSpace (c : Char) : Bool := c == ' ' || c == '\t' || c == '\n' || c == '\r'

/-- The text a JSON string stands for. -/
def readString? (t : Text) : Option Text :=
  match (Text.chars t).dropWhile isSpace with
  | '"' :: rest => do
    let (ns, rest) ← codes? rest
    if rest.all isSpace then some (Text.ofChars (ofCodes ns)) else none
  | 'n' :: 'u' :: 'l' :: 'l' :: rest => if rest.all isSpace then some [] else none
  | _ => none

end Tacit.Json
