import Tacit.TypeDesc

/-!
# When a value of one type may stand where another is required

A type fits a requirement when its structure does, with `any` and `unknown` fitting freely. A
function type fits when it takes the required parameters and its result fits; what it returns may
itself be a function that sooner or later returns a fitting result. A continuation with layers of
parameters left may also take its parameters in several steps.
-/

namespace Tacit.TypeDesc

/-- How a function type may meet a requirement. -/
inductive Manner where
  /-- It takes all required parameters at once. -/
  | atOnce
  /-- It may take the required parameters in several steps, each returning the next. -/
  | layered
  /-- It, or the result of saturating it any number of times, fits. -/
  | eventually
  deriving DecidableEq, Repr

mutual

/-- Whether the first type fits the requirement, the last argument, in the given manner. -/
def fits : TypeDesc → Manner → TypeDesc → Bool
  | .unknown, _, _ => true
  | .array of, _, required =>
    match required with
    | .any | .unknown => true
    | .array wanted => fits of .atOnce wanted
    | _ => false
  | .func params returns, manner, required =>
    let direct (layered : Bool) : Bool :=
      match required with
      | .any | .unknown => true
      | .func wanted result =>
        if params.length = wanted.length then
          fitsAll params wanted && fits returns .eventually result
        else
          layered && params.length < wanted.length && fitsAll params wanted && returns.isFunc
            && fits returns .layered (.func (wanted.drop params.length) result)
      | _ => false
    match manner with
    | .atOnce => direct false
    | .layered => direct true
    | .eventually => direct false || fits returns .eventually required
  | .invalid, _, required =>
    match required with
    | .any | .unknown | .invalid => true
    | _ => false
  | .any, _, required =>
    match required with
    | .any | .unknown => true
    | _ => false
  | .num, _, required =>
    match required with
    | .any | .unknown | .num => true
    | _ => false
  | .str, _, required =>
    match required with
    | .any | .unknown | .str => true
    | _ => false
  | .bool, _, required =>
    match required with
    | .any | .unknown | .bool => true
    | _ => false

/-- Whether types fit the requirements at the same places; requirements past them are met later. -/
def fitsAll : List TypeDesc → List TypeDesc → Bool
  | t :: ts, w :: ws => fits t .atOnce w && fitsAll ts ws
  | _, _ => true

end

/-- Whether a value of type `actual` may be supplied where `expected` is required. -/
def accepts (expected actual : TypeDesc) : Bool := actual.fits .atOnce expected

/-- Like `accepts`, for a continuation with layers of parameters left. -/
def acceptsLayered (expected actual : TypeDesc) : Bool := actual.fits .layered expected

/-- Whether `returns`, or the result of any further layer of it, is accepted. -/
def eventuallyAccepts (expected returns : TypeDesc) : Bool := returns.fits .eventually expected

end Tacit.TypeDesc
