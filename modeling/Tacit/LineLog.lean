import Tacit.Text

/-!
# A log that takes whole lines

What is written is held back until a newline ends the line. Flushing logs what is held back.
-/

namespace Tacit

/-- The part of a line that is held back. -/
structure LineLog where
  pending : Text
  deriving DecidableEq, Repr, Inhabited

namespace LineLog

def empty : LineLog := ⟨[]⟩

/-- What comes of a write. -/
structure Written where
  /-- The lines that the bytes end, without their newlines. -/
  lines : List Text
  /-- How many of the bytes were taken. -/
  taken : Nat
  deriving DecidableEq, Repr

/-- Writes bytes, all of which are taken. -/
def write (log : LineLog) (t : Text) : Written × LineLog :=
  let pieces := Text.pieces 10 (log.pending ++ t)
  (⟨pieces.dropLast, t.length⟩, ⟨pieces.getLastD []⟩)

/-- Gives what is held back, if there is any. -/
def flush (log : LineLog) : List Text × LineLog :=
  (if log.pending.isEmpty then [] else [log.pending], empty)

end LineLog

end Tacit
