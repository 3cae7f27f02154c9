import Tacit.Fault

/-!
# Colors

Colors are used always, never, or when the output is a terminal.
-/

namespace Tacit

/-- When to use colors. -/
inductive ColorMode where
  | auto
  | always
  | never
  deriving DecidableEq, Repr, Inhabited

namespace ColorMode

/-- The mode with a name; the empty name is that of the default. -/
def ofName (name : Text) : Except Fault ColorMode :=
  if name.isEmpty || name == Text.ofString "auto" then .ok auto
  else if name == Text.ofString "always" then .ok always
  else if name == Text.ofString "never" then .ok never
  else .error (.plain ("invalid color mode " ++ Text.quoted name
    ++ ": must be auto, always, or never"))

/-- The number of a mode. -/
def number : ColorMode → Nat
  | auto => 0
  | always => 1
  | never => 2

end ColorMode

/-- What switches the colors of a terminal. -/
structure Palette where
  bold : Text
  boldRed : Text
  boldYellow : Text
  boldBlue : Text
  boldCyan : Text
  reset : Text
  deriving DecidableEq, Repr, Inhabited

namespace Palette

/-- The sequence with a list of codes that a terminal reads as a switch. -/
def switch (codes : Text) : Text := "\x1b[" ++ codes ++ "m"

def colored : Palette :=
  ⟨switch "1", switch "1;31", switch "1;33", switch "1;34", switch "1;36", switch "0"⟩

def plain : Palette := ⟨[], [], [], [], [], []⟩

/-- The palette for an output that is no terminal. -/
def ofMode : ColorMode → Palette
  | .always => colored
  | .auto | .never => plain

end Palette

end Tacit
