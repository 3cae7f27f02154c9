import Tacit.Text.Blank
import Tacit.Text.Width

/-!
# Wrapping and indenting text

Words are moved whole to the next line when the line would be too wide, unless the word alone is
as wide as a line; the blanks at which a line is broken vanish, and newlines are kept. A hyphen is
a place to break at and is itself not counted in the width of a line. The sequences that switch
the colors of a terminal take no room; an indented line starts without color.
-/

namespace Tacit.Wrap

/-- The character that starts a sequence for the terminal. -/
def escape : Char := '\x1b'

/-- Whether a character ends a sequence for the terminal. -/
def endsEscape (c : Char) : Bool := ('@' ≤ c && c ≤ 'Z') || ('a' ≤ c && c ≤ 'z')

/-- How wide characters are shown; `inside` says whether a sequence for the terminal goes on. -/
def widthFrom : Bool → List Char → Nat
  | _, [] => 0
  | inside, c :: cs =>
    if c = escape then widthFrom true cs
    else if inside then widthFrom (!endsEscape c) cs
    else Width.ofChar c + widthFrom false cs

/-- A text being wrapped. The lists hold characters, the last one first. -/
structure State where
  out : List Char
  /-- The blanks since the last word. -/
  space : List Char
  /-- The word being read. -/
  word : List Char
  /-- How wide the line is without them. -/
  lineWidth : Nat
  /-- Whether a sequence for the terminal goes on. -/
  inside : Bool

namespace State

def start : State := ⟨[], [], [], 0, false⟩

/-- The room that blanks take, counted in bytes. -/
def spaceWidth (s : State) : Nat := (Text.ofChars s.space).length

def wordWidth (s : State) : Nat := widthFrom false s.word.reverse

/-- Puts the blanks on the line. -/
def addSpace (s : State) : State :=
  { s with out := s.space ++ s.out, lineWidth := s.lineWidth + s.spaceWidth, space := [] }

/-- Puts the word on the line, after the blanks. -/
def addWord (s : State) : State :=
  if s.word.isEmpty then s
  else
    let s := s.addSpace
    { s with out := s.word ++ s.out, lineWidth := s.lineWidth + s.wordWidth, word := [] }

/-- Starts a new line; blanks vanish. -/
def addNewline (s : State) : State := { s with out := '\n' :: s.out, lineWidth := 0, space := [] }

/-- Reads a newline. Blanks at the end of a line stay if there is room for them. -/
def newline (limit : Nat) (s : State) : State :=
  let s :=
    if s.word.isEmpty then
      if limit < s.lineWidth + s.spaceWidth then { s with lineWidth := 0, space := [] }
      else { s with out := s.space ++ s.out, space := [] }
    else s
  s.addWord.addNewline

/-- Reads a character. -/
def step (limit : Nat) (s : State) (c : Char) : State :=
  if c = escape then { s with word := c :: s.word, inside := true }
  else if s.inside then { s with word := c :: s.word, inside := !endsEscape c }
  else if c = '\n' then s.newline limit
  else if isBlank c then
    let s := s.addWord
    { s with space := c :: s.space }
  else if c = '-' then
    let s := s.addSpace.addWord
    { s with out := c :: s.out }
  else
    let s := { s with word := c :: s.word }
    if limit < s.lineWidth + s.spaceWidth + s.wordWidth && s.wordWidth < limit then s.addNewline
    else s

end State

/-- The text wrapped to lines of a width. -/
def wrapped (limit : Nat) (t : Text) : Text :=
  Text.ofChars ((Text.chars t).foldl (State.step limit) .start).addWord.out.reverse

/-- A text being indented. The lists hold characters, the last one first. -/
structure Indenting where
  out : List Char
  /-- Whether nothing has been written on the line. -/
  atStart : Bool
  /-- The sequence for the terminal that goes on. -/
  sequence : Option (List Char)
  /-- Whether a color was switched on. -/
  colored : Bool
  /-- The sequences that switched it on. -/
  active : List Char

namespace Indenting

def start : Indenting := ⟨[], true, none, false, []⟩

/-- What switches all colors off, last character first. -/
def off : List Char := ['m', '0', '[', escape]

/-- Reads a character. -/
def step (indent : Nat) (s : Indenting) (c : Char) : Indenting :=
  match s.sequence with
  | some seq =>
    let seq := c :: seq
    if !endsEscape c then { s with sequence := some seq }
    else
      let s := { s with out := seq ++ s.out, sequence := none }
      if ['m', '0', '['].isPrefixOf seq then { s with active := [], colored := false }
      else if c = 'm' then { s with active := seq ++ s.active }
      else s
  | none =>
    if c = escape then { s with sequence := some [c], colored := true }
    else
      let s :=
        if s.atStart then
          let out := (if s.colored then off else []) ++ s.out
          { s with out := s.active ++ List.replicate indent ' ' ++ out }
        else s
      { s with out := c :: s.out, atStart := c = '\n' }

end Indenting

/-- The text with every line indented. -/
def indented (indent : Nat) (t : Text) : Text :=
  Text.ofChars ((Text.chars t).foldl (Indenting.step indent) .start).out.reverse

end Tacit.Wrap
