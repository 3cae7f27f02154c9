import Tacit.Text.Utf8

/-!
# White space

A character is blank when it is one of the twenty-five that Unicode calls white space; a stray byte
is not blank.
-/

namespace Tacit

/-- Whether a character is white space. -/
def isBlank (c : Char) : Bool :=
  let n := c.toNat
  (9 ≤ n && n ≤ 13) || n == 0x20 || n == 0x85 || n == 0xA0 || n == 0x1680 ||
    (0x2000 ≤ n && n ≤ 0x200A) || n == 0x2028 || n == 0x2029 || n == 0x202F || n == 0x205F ||
    n == 0x3000

namespace Text

/-- The text without blank characters at either end. -/
def trimmed (t : Text) : Text := trimChars isBlank t

/-- The words that blank characters divide. -/
def words (t : Text) : List Text := fieldsBy isBlank t

end Text

end Tacit
