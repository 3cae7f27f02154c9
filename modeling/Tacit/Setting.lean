import Tacit.Number
import Tacit.Text.Blank

/-!
# The values of settings

A setting may be given on the command line, in a variable or in a file, and so comes in many
forms. A command asks for it as a text, as a switch or as a list of texts.
-/

namespace Tacit

/-- The value of a setting. -/
inductive Setting where
  | null
  | switch (isOn : Bool)
  | whole (n : Int)
  | real (x : Float)
  | text (t : Text)
  | list (members : List Setting)
  | table (entries : List (Text × Setting))
  deriving Inhabited

namespace Setting

/-- The words for true. -/
def trueWords : List Text := ["1", "t", "T", "TRUE", "true", "True"]

/-- The words for false. -/
def falseWords : List Text := ["0", "f", "F", "FALSE", "false", "False"]

/-- The truth value a word stands for. -/
def truth? (t : Text) : Option Bool :=
  if trueWords.contains t then some true
  else if falseWords.contains t then some false
  else none

/-- A setting as a text, unless it is made of several. -/
def asText? : Setting → Option Text
  | null => some []
  | switch b => some (if b then "true" else "false")
  | whole n => some (Text.ofInt n)
  | real x => some (Decimal.write x)
  | text t => some t
  | list _ | table _ => none

/-- A setting as a text; what cannot be one is empty. -/
def asText (s : Setting) : Text := s.asText?.getD []

/-- A setting as a switch; what cannot be one is off. -/
def asSwitch : Setting → Bool
  | switch b => b
  | whole n => n != 0
  | real x => x != 0
  | text t => (truth? t).getD false
  | null | list _ | table _ => false

/-- A setting as a list of texts. A text is divided at its blanks. -/
def asTexts : Setting → List Text
  | list members => members.map asText
  | text t => Text.words t
  | null | table _ => []
  | s => [s.asText]

end Setting

end Tacit
