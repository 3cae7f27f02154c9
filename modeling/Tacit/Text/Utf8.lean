import Tacit.Text

/-!
# The characters of a text

A text is read as a list of glyphs from its start: the longest part that spells one character, or
else a single stray byte. No byte is dropped, so the bytes of the glyphs are the text again. A
stray byte counts as one character and is shown as the replacement character.
-/

namespace Tacit

/-- What a reader sees at a place of a text. -/
inductive Glyph where
  | char (c : Char)
  | stray (b : UInt8)
  deriving DecidableEq, Repr, Inhabited

namespace Glyph

/-- The character shown in place of a stray byte. -/
def replacement : Char := '\uFFFD'

def toChar : Glyph → Char
  | char c => c
  | stray _ => replacement

/-- The bytes a glyph was read from. -/
def bytes : Glyph → Text
  | char c => Text.ofChar c
  | stray b => [b]

def isStray : Glyph → Bool
  | char _ => false
  | stray _ => true

end Glyph

namespace Text

/-- The six low bits of a continuation byte. -/
def tail? (b : UInt8) : Option Nat :=
  if 0x80 ≤ b && b < 0xC0 then some (b.toNat % 0x40) else none

/-- The character of a number that at least `least` and not a surrogate spells. -/
def scalar? (least n : Nat) : Option Char :=
  if least ≤ n then
    if h : n.isValidChar then some (Char.ofNatAux n h) else none
  else none

def two? (a b : UInt8) : Option Char := do
  if 0xC0 ≤ a && a < 0xE0 then
    scalar? 0x80 (a.toNat % 0x20 * 0x40 + (← tail? b))
  else none

def three? (a b c : UInt8) : Option Char := do
  if 0xE0 ≤ a && a < 0xF0 then
    scalar? 0x800 ((a.toNat % 0x10 * 0x40 + (← tail? b)) * 0x40 + (← tail? c))
  else none

def four? (a b c d : UInt8) : Option Char := do
  if 0xF0 ≤ a && a < 0xF8 then
    scalar? 0x10000
      (((a.toNat % 0x08 * 0x40 + (← tail? b)) * 0x40 + (← tail? c)) * 0x40 + (← tail? d))
  else none

/-- The glyphs of a text, in order. -/
def glyphs : Text → List Glyph
  | [] => []
  | a :: rest =>
    if a < 0x80 then .char (Char.ofNat a.toNat) :: glyphs rest
    else
      match rest with
      | [] => [.stray a]
      | b :: rest₂ =>
        match two? a b with
        | some c => .char c :: glyphs rest₂
        | none =>
          match rest₂ with
          | [] => .stray a :: glyphs [b]
          | c :: rest₃ =>
            match three? a b c with
            | some x => .char x :: glyphs rest₃
            | none =>
              match rest₃ with
              | [] => .stray a :: glyphs [b, c]
              | d :: rest₄ =>
                match four? a b c d with
                | some x => .char x :: glyphs rest₄
                | none => .stray a :: glyphs (b :: c :: d :: rest₄)

/-- The characters of a text, a stray byte giving the replacement character. -/
def chars (t : Text) : List Char := (glyphs t).map Glyph.toChar

/-- How many characters a text has. -/
def charCount (t : Text) : Nat := (glyphs t).length

/-- The bytes that glyphs were read from. -/
def ofGlyphs (gs : List Glyph) : Text := gs.flatMap Glyph.bytes

/-- The string a text spells, when it spells one. -/
def toString? (t : Text) : Option String :=
  let gs := glyphs t
  if gs.all fun g => !g.isStray then some (String.ofList (gs.map Glyph.toChar)) else none

/-- The text without the leading characters that satisfy `p`. -/
def dropCharsWhile (p : Char → Bool) (t : Text) : Text :=
  ofGlyphs ((glyphs t).dropWhile fun g => p g.toChar)

/-- The text without the leading and trailing characters that satisfy `p`. -/
def trimChars (p : Char → Bool) (t : Text) : Text :=
  let gs := (glyphs t).dropWhile fun g => p g.toChar
  ofGlyphs (gs.reverse.dropWhile fun g => p g.toChar).reverse

/-- The fields of some glyphs after a field begun by `held`, last glyph first. -/
def fieldsFrom (p : Char → Bool) : List Glyph → List Glyph → List Text
  | [], [] => []
  | g :: held, [] => [ofGlyphs (g :: held).reverse]
  | [], g :: rest => if p g.toChar then fieldsFrom p [] rest else fieldsFrom p [g] rest
  | h :: held, g :: rest =>
    if p g.toChar then ofGlyphs (h :: held).reverse :: fieldsFrom p [] rest
    else fieldsFrom p (g :: h :: held) rest

/-- The maximal runs of characters that do not satisfy `p`, none of them empty. -/
def fieldsBy (p : Char → Bool) (t : Text) : List Text := fieldsFrom p [] (glyphs t)

end Text

end Tacit
