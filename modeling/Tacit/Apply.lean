import Tacit.Builtin.Run
import Tacit.TypeDesc.Fit

/-!
# Applying functions

A function is applied to up to as many operands as it takes. Each operand must fit its parameter;
a function whose result will fit once it has all its own operands is taken too, as an operand
still pending. With all operands there and none pending, the function runs. Otherwise the
application gives a continuation, which waits for the operands of the pending functions, in order,
and then for the operands that were not given. A continuation takes at most two operands, in whole
groups; the groups it leaves are layers of functions around its result.

Applications nest as deep as programs make them, so `apply` is given fuel; all it does is defined
for any way `call` of applying functions further in.
-/

namespace Tacit

variable {view : View}

/-- The most operands a function can take. -/
def maxArity : Nat := 2

/-- A function supplied by a host program. Taking too many operands is a misuse. -/
def Function.ofRecipe (name : Text) (params : List TypeDesc) (returns : TypeDesc) (doc : Text)
    (recipe : Recipe) : EvalIn view Function := do
  if maxArity < params.length then
    .crash ("brook: function " ++ name ++ " declares too many parameters")
  else return ⟨.made (← .drawSerial), name, params, returns, doc, .host recipe, false, 0⟩

/-- The operand at an index; asking for another is a misuse. -/
def operandAt (args : List Value) (i : Int) : EvalIn view Value :=
  match if i < 0 then none else args[i.toNat]? with
  | some v => pure v
  | none =>
    let length : Text := if i < 0 then [] else " with length " ++ Text.ofNat args.length
    .crash ("runtime error: index out of range [" ++ Text.ofInt i ++ "]" ++ length)

/-- Does what a recipe says. -/
def Recipe.run (call : Builtin.Applier view) (args : List Value) : Recipe → EvalIn view Value
  | .const v => pure v
  | .operand i => operandAt args i
  | .operands => pure (.array args)
  | .call name supplied => do
    match (← get).names.get? name with
    | some (.func f) => call f (supplied.getD args)
    | some _ => .noFunction
    | none => .fail (.unbound none name)
  | .callOperand i supplied => do
    match ← operandAt args i with
    | .func f => call f supplied
    | _ => .noFunction
  | .make name params returns doc recipe =>
    return .func (← Function.ofRecipe name params returns doc recipe)
  | .fail f => .fail f

/-- The operands for an application that goes on, from the slots it had and new operands. A
pending function gets its share of the new operands, or is passed on when there are too few; what
is left over follows the slots. -/
def Slot.combine (call : Builtin.Applier view) : List Slot → List Value → EvalIn view (List Value)
  | [], args => pure args
  | .value v :: slots, args => return v :: (← combine call slots args)
  | .pending f :: slots, args => do
    if args.length < f.arity then return .func f :: (← combine call slots args)
    else
      let v ← call f (args.take f.arity)
      return v :: (← combine call slots (args.drop f.arity))

/-- Does what a body says with operands. -/
def Body.run (call : Builtin.Applier view) (args : List Value) : Body → EvalIn view Value
  | .builtin b => b.run call args
  | .resume fn slots => do call fn (← Slot.combine call slots args)
  | .share a b => do
    match args with
    | [c] =>
      let bc ← call b [c]
      call a [c, bc]
    | _ => .crash "runtime error: index out of range"
  | .host recipe => recipe.run call args

/-- Runs a function, and records when it begins and stops. -/
def Function.invoke (call : Builtin.Applier view) (fn : Function) (args : List Value) :
    EvalIn view Value := do
  .note (.entered fn args)
  .leaving fn (fn.body.run call args)

/-- Whether a value fits a parameter as it is. -/
def Value.fits (v : Value) (param : TypeDesc) : Bool :=
  match v with
  | .func f => if 0 < f.layers then param.acceptsLayered f.type else param.accepts f.type
  | v => param.accepts v.type

/-- Takes an operand for a parameter, or finds that it does not fit. A function without operands
of its own is run for the operand at once. -/
def classify (call : Builtin.Applier view) (fn : Function) (position : Nat) (param : TypeDesc)
    (arg : Value) : EvalIn view Slot :=
  let mismatch : Fault :=
    .mismatch none fn.text position param arg.type (some arg.text)
  if arg.fits param then pure (.value arg)
  else
    match arg with
    | .func f =>
      if param.isFunc && param.same f.type then pure (.value arg)
      else if param.eventuallyAccepts f.returns then
        if f.arity = 0 then return .value (← f.invoke call [])
        else do
          .note (.composed fn.name f.text position)
          return .pending f
      else .fail mismatch
    | _ => .fail mismatch

/-- Takes operands for parameters, from a position on. -/
def classifyAll (call : Builtin.Applier view) (fn : Function) :
    Nat → List TypeDesc → List Value → EvalIn view (List Slot)
  | position, param :: params, arg :: args => do
    let s ← classify call fn position param arg
    return s :: (← classifyAll call fn (position + 1) params args)
  | _, _, _ => pure []

/-- The parameters of a pending operand. -/
def Slot.params? : Slot → Option (List TypeDesc)
  | .value _ => none
  | .pending f => some f.params

/-- The value of a slot that is not pending. -/
def Slot.value? : Slot → Option Value
  | .value v => some v
  | .pending _ => none

/-- The operands an application waits for, in groups: those of each pending operand, and those
not given. -/
def openGroups (fn : Function) (slots : List Slot) : List (List TypeDesc) :=
  let rest := fn.params.drop slots.length
  slots.filterMap Slot.params? ++ if rest.isEmpty then [] else [rest]

/-- The parameters of the leading groups that fit together, after those taken before, and the
groups left. -/
def coverGroups : List TypeDesc → List (List TypeDesc) → List TypeDesc × List (List TypeDesc)
  | taken, [] => (taken, [])
  | taken, g :: gs =>
    if taken.length + g.length ≤ maxArity then coverGroups (taken ++ g) gs else (taken, g :: gs)

/-- A function type for each group, around a result. -/
def layered (groups : List (List TypeDesc)) (returns : TypeDesc) : TypeDesc :=
  groups.foldr (fun g r => .func g r) returns

/-- The continuation of an application that has taken some operands. -/
def continuation (fn : Function) (slots : List Slot) (serial : Nat) : Function :=
  let (params, left) := coverGroups [] (openGroups fn slots)
  { identity := .made serial
    name := fn.name ++ "_partial"
    params := params
    returns := layered left fn.returns
    doc := []
    body := .resume fn slots
    curried := true
    layers := left.length }

/-- Makes a continuation. -/
def suspend (fn : Function) (slots : List Slot) : EvalIn view Value := do
  let cont := continuation fn slots (← .drawSerial)
  .note (.curried fn.name (openGroups fn slots).length cont)
  return .func cont

/-- Goes on with an application that has taken operands. -/
def proceed (call : Builtin.Applier view) (fn : Function) (slots : List Slot) : EvalIn view Value :=
  match slots.mapM Slot.value? with
  | some values => if values.length = fn.arity then fn.invoke call values else suspend fn slots
  | none => suspend fn slots

/-- One application, with `call` for those further in. -/
def applyOnce (call : Builtin.Applier view) (fn : Function) (args : List Value) :
    EvalIn view Value :=
  if fn.arity < args.length then .fail (.arity none fn.text fn.arity args.length)
  else if fn.arity = 0 then fn.invoke call []
  else if args.isEmpty then pure (.func fn)
  else do proceed call fn (← classifyAll call fn 0 fn.params args)

/-- Applies a function to operands; applications nest at most `fuel` deep. -/
def apply : Nat → Function → List Value → EvalIn view Value
  | 0, _, _ => throw .outOfFuel
  | fuel + 1, fn, args => applyOnce (apply fuel) fn args

end Tacit
