import Tacit.Profile.Label
import Tacit.World

/-!
# The calls of a run as trees

The calls of a run are trees: the inner traces of a call are those of the calls made while it ran.
A filter leaves calls out; what was traced inside such a call belongs to the call around it.
-/

namespace Tacit.Profile

/-- Which calls are not traced: those of the functions that `skips` holds of. -/
structure Filter where
  skips : Function → Bool
  deriving Inhabited

namespace Filter

/-- All calls are traced. -/
def none : Filter := ⟨fun _ => false⟩

/-- Those of continuations. -/
def continuations : Filter := ⟨Function.curried⟩

/-- Those of functions whose documentation does not ask for it. -/
def undocumented : Filter := ⟨fun fn => Label.isUntraced fn.doc⟩

end Filter

/-- What a call is shown as: what is `given` for its function, or the function's name if that is
empty. -/
structure Labeling where
  given : Function → Text
  /-- Whether the signatures of the functions called are noted. -/
  notes : Bool
  deriving Inhabited

namespace Labeling

/-- The name. -/
def name : Labeling := ⟨fun _ => [], false⟩

def signature : Labeling := ⟨Function.text, false⟩

/-- The label in the documentation, or the name if there is none. -/
def documented : Labeling := ⟨fun fn => Label.ofDoc fn.doc, false⟩

/-- The name; the signature is noted. -/
def noted : Labeling := ⟨fun _ => [], true⟩

/-- What a call of a function is shown as. -/
def label (labeling : Labeling) (fn : Function) : Text :=
  let label := labeling.given fn
  if label.isEmpty then fn.name else label

end Labeling

/-- How calls are traced. -/
structure Options where
  filter : Filter
  labeling : Labeling
  deriving Inhabited

/-- A call that was traced, and the traces inside it in order. -/
inductive Trace where
  | call (fn : Function) (inner : List Trace)

namespace Trace

mutual

/-- How many calls a trace holds. -/
def size : Trace → Nat
  | call _ inner => sizeAll inner + 1

/-- How many calls some traces hold. -/
def sizeAll : List Trace → Nat
  | [] => 0
  | t :: ts => t.size + sizeAll ts

end

end Trace

end Tacit.Profile
