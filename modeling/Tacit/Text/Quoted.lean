import Tacit.Text.Category

/-!
# A text between quotes

Inside the quotes a printable character stands for itself, and everything else is escaped so that
the bytes can be told apart: the usual letters for control characters, `\x` and two digits for
other ASCII and for stray bytes, `\u` and four or `\U` and eight digits for the rest.
-/

namespace Tacit

/-- Whether a character is shown as it is: letters, marks, numbers, punctuation, symbols and the
plain space. -/
def isPrintable (c : Char) : Bool :=
  let n := c.toNat
  if n < 0x80 then 0x20 ≤ n && n < 0x7F
  else ['L', 'M', 'N', 'P', 'S'].contains (Category.runOf c).major

namespace Text

/-- `count` hexadecimal digits of a number, the highest first. -/
def hexDigits (count n : Nat) : Text :=
  ((List.range count).reverse.map fun i => Nat.digitChar (n / Nat.pow 16 i % 16)).flatMap ofChar

/-- The letter that follows the backslash for a control character that has one. -/
def controlLetter? (c : Char) : Option Char :=
  match c.toNat with
  | 7 => some 'a'
  | 8 => some 'b'
  | 9 => some 't'
  | 10 => some 'n'
  | 11 => some 'v'
  | 12 => some 'f'
  | 13 => some 'r'
  | _ => none

/-- How a character that is neither a quote nor a backslash is written. -/
def escapedChar (c : Char) : Text :=
  if isPrintable c then ofChar c
  else
    match controlLetter? c with
    | some letter => ofChars ['\\', letter]
    | none =>
      let n := c.toNat
      if n < 0x80 then ofString "\\x" ++ hexDigits 2 n
      else if n < 0x10000 then ofString "\\u" ++ hexDigits 4 n
      else ofString "\\U" ++ hexDigits 8 n

/-- How a glyph is written between quotes of the given kind. -/
def escapedGlyph (quote : Char) : Glyph → Text
  | .stray b => ofString "\\x" ++ hexDigits 2 b.toNat
  | .char c => if c = quote ∨ c = '\\' then ofChars ['\\', c] else escapedChar c

/-- The text between double quotes. -/
def quoted (t : Text) : Text :=
  ofString "\"" ++ (glyphs t).flatMap (escapedGlyph '"') ++ ofString "\""

/-- A character between single quotes. -/
def quotedChar (c : Char) : Text :=
  ofString "'" ++ escapedGlyph '\'' (.char c) ++ ofString "'"

end Text

end Tacit
