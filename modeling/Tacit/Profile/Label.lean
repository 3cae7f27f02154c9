import Tacit.Text.Blank

/-!
# Labels in documentation

A documentation asks for a function to be traced by the word `@trace`, and can give the label to
trace it under, in braces behind that word.
-/

namespace Tacit.Label

/-- The word that asks for a trace. -/
def mark : Text := "@trace"

/-- Whether a documentation does not ask for a trace. -/
def isUntraced (doc : Text) : Bool := (Text.indexOf? mark doc).isNone

/-- Whether a byte may stand between the word and the label. -/
def isGap (b : UInt8) : Bool := b == 9 || b == 10 || b == 12 || b == 13 || b == 32

def openBrace : UInt8 := 0x7B

def closeBrace : UInt8 := 0x7D

/-- The label, when the text starts with the word and a label in braces. -/
def here? (t : Text) : Option Text := do
  let rest ← Text.after? mark t
  match rest.dropWhile isGap with
  | b :: rest =>
    let label := rest.takeWhile (· != closeBrace)
    if b = openBrace ∧ label ≠ [] ∧ label.length < rest.length then some label else none
  | [] => none

/-- The first label in a text. -/
def first? : Text → Option Text
  | [] => none
  | b :: rest => (here? (b :: rest)).or (first? rest)

/-- The label a documentation gives; empty if it gives none. -/
def extract (doc : Text) : Text := (first? doc).elim [] Text.trimmed

/-- Whether a byte is written as an underscore. -/
def isJoint (b : UInt8) : Bool := isGap b || b == '_'.toUInt8

/-- The text with each run of blanks and underscores made one underscore. -/
def joinWords : Text → Text
  | [] => []
  | b :: rest =>
    if isJoint b then
      if rest.head?.any isJoint then joinWords rest else '_'.toUInt8 :: joinWords rest
    else b :: joinWords rest

/-- The label made fit to be shown: blanks joined, and cut at the first byte that is not visible
ASCII. -/
def sanitize (label : Text) : Text := (joinWords label).takeWhile fun b => 0x21 ≤ b && b ≤ 0x7E

/-- The label to trace a function with a documentation under; empty if it gives none. -/
def ofDoc (doc : Text) : Text := sanitize (extract doc)

end Tacit.Label
