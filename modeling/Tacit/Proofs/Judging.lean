import Tacit.Proofs.Taking
import Tacit.Proofs.Trees

/-!
# Rules for what is run

What is run is put together from a few things in a few ways. A judgement for which there are rules
for these (`EvalIn.Rules`) holds of whatever a builtin or a recipe does, as long as it holds of the
functions they apply; with rules for calls too (`EvalIn.CallRules`), it holds of every application
(`CallRules.apply`).

No rule is asked for the fault of an operand that does not fit its parameter, except where an
operand is found not to fit, and where a function of a host program is left that did nothing but
stop with a fault, whichever it is.

A law judges by the record: it says what may happen and how a run may stop, depending on what has
happened before (`Law`). There are rules for whatever is run within a law (`Law.rules`).
-/

namespace Tacit

/-- Tells neither that a function began to run nor that it stopped. -/
def Event.isAside : Event → Bool
  | .composed .. | .curried .. => true
  | .entered .. | .left .. => false

/-- Tells of an operand that does not fit its parameter. -/
def Fault.isMismatch : Fault → Bool
  | .mismatch .. => true
  | _ => false

theorem Fault.OfBuiltin.not_mismatch {f : Fault} (h : f.OfBuiltin) : f.isMismatch = false := by
  cases f with
  | mismatch => exact h.elim
  | _ => rfl

/-- Does not tell of an operand that does not fit its parameter. -/
def Stop.Fitting : Stop → Prop
  | .fault f => f.isMismatch = false
  | _ => True

variable {view view' : View}

theorem Builtin.run_of_length_ne (call : Applier view) {b : Builtin} {args : List Value}
    (h : args.length ≠ b.params.length) :
    b.run call args = .crash "runtime error: index out of range" := by
  rcases args with _ | ⟨x, _ | ⟨y, _ | ⟨z, zs⟩⟩⟩ <;> cases b <;>
    first | rfl | exact absurd rfl h | (cases x <;> rfl)

/-- A judgement of two runs, which may be under two views, holds of what runs without a call, and is
kept when one thing is run after another. -/
structure EvalIn.Rules (J : ∀ ⦃α : Type⦄, EvalIn view α → EvalIn view' α → Prop) : Prop where
  pure : ∀ {α : Type} (a : α), J (pure a) (pure a)
  throw : ∀ {α : Type} {s : Stop}, s.Fitting → J (throw s : EvalIn view α) (throw s)
  bind : ∀ {α β : Type} {x : EvalIn view α} {y : EvalIn view' α} {f : α → EvalIn view β}
    {g : α → EvalIn view' β}, J x y → (∀ a, J (f a) (g a)) → J (x >>= f) (y >>= g)
  get : ∀ {α : Type} {f : World view → EvalIn view α} {g : World view' → EvalIn view' α},
    (∀ w w', w.names = w'.names → J (f w) (g w')) →
      J (MonadState.get >>= f) (MonadState.get >>= g)
  drawSerial : J .drawSerial .drawSerial

/-- A judgement of one run. -/
abbrev EvalIn.Alone (J : ∀ ⦃α : Type⦄, EvalIn view α → Prop) ⦃α : Type⦄ (x _ : EvalIn view α) :
    Prop :=
  J x

namespace EvalIn.Rules

variable {J : ∀ ⦃α : Type⦄, EvalIn view α → EvalIn view' α → Prop} (hJ : EvalIn.Rules J)
include hJ

theorem ofExcept {α : Type} {Q : α → Prop} {r : Except Fault α} (h : Yields r Q) :
    J (.ofExcept r) (.ofExcept r) := by
  cases r with
  | ok a => exact hJ.pure a
  | error f => exact hJ.throw (h.2 f rfl).not_mismatch

theorem function (v : Value) : J (.function v) (.function v) := by
  cases v with
  | func f => exact hJ.pure f
  | _ => exact hJ.throw trivial

theorem number (x : Float) : J (.number x) (.number x) := by
  unfold EvalIn.number
  split_ifs
  · exact hJ.pure _
  · exact hJ.bind hJ.drawSerial fun _ => hJ.pure _

theorem operandAt (args : List Value) (i : Int) : J (operandAt args i) (operandAt args i) := by
  unfold Tacit.operandAt
  split
  · exact hJ.pure _
  · exact hJ.throw trivial

theorem ofRecipe (name : Text) (params : List TypeDesc) (returns : TypeDesc) (doc : Text)
    (recipe : Recipe) : J (Function.ofRecipe name params returns doc recipe)
      (Function.ofRecipe name params returns doc recipe) := by
  unfold Function.ofRecipe
  split_ifs
  · exact hJ.throw trivial
  · exact hJ.bind hJ.drawSerial fun _ => hJ.pure _

section Call

open Builtin (Applier)

variable {call : Applier view} {call' : Applier view'}
  (hcall : ∀ f args, J (call f args) (call' f args))
include hcall

/-- Folding is judged by each application of the function. -/
theorem fold (f : Function) : ∀ (xs : List Value) (acc : Value),
    J (Builtin.fold call f acc xs) (Builtin.fold call' f acc xs)
  | [], _ => hJ.pure _
  | _ :: xs, _ => hJ.bind (hcall f _) fun v => fold f xs v

theorem select (f : Function) : ∀ xs found : List Value,
    J (Builtin.select call f found xs) (Builtin.select call' f found xs)
  | [], _ => hJ.pure _
  | _ :: xs, _ => hJ.bind (hcall f _) fun _ => select f xs _

theorem applyEach (f : Function) : ∀ xs found : List Value,
    J (Builtin.applyEach call f found xs) (Builtin.applyEach call' f found xs)
  | [], _ => hJ.pure _
  | _ :: xs, _ => hJ.bind (hcall f _) fun _ => applyEach f xs _

/-- Whatever a builtin does but reading a file, which is left to the judgement. -/
theorem builtin {b : Builtin} (hb : b ≠ .readFile) (args : List Value) :
    J (b.run call args) (b.run call' args) := by
  by_cases hlen : args.length = b.params.length
  · cases b with
    | plus | minus | times | dividedBy | mod =>
      obtain ⟨x, y, rfl⟩ := List.length_eq_two.1 hlen
      exact hJ.number _
    | lt | ltEq | gt | gtEq | eq | nEq | take =>
      obtain ⟨x, y, rfl⟩ := List.length_eq_two.1 hlen
      exact hJ.pure _
    | toString | lines | chars | isDigit | identity =>
      obtain ⟨x, rfl⟩ := List.length_eq_one_iff.1 hlen
      exact hJ.pure _
    | length =>
      obtain ⟨x, rfl⟩ := List.length_eq_one_iff.1 hlen
      cases x with
      | str | array => exact hJ.pure _
      | _ => exact hJ.throw rfl
    | slice =>
      obtain ⟨x, y, rfl⟩ := List.length_eq_two.1 hlen
      exact hJ.ofExcept (Builtin.sliceValue_yields .trivial trivial y)
    | match_ | matchStart =>
      obtain ⟨x, y, rfl⟩ := List.length_eq_two.1 hlen
      exact hJ.bind (hJ.ofExcept (Builtin.patternOf_yields _ _)) fun _ => hJ.pure _
    | toInt =>
      obtain ⟨x, rfl⟩ := List.length_eq_one_iff.1 hlen
      exact hJ.bind (hJ.ofExcept (Builtin.toIntValue_yields _)) fun _ => hJ.number _
    | sum =>
      obtain ⟨x, rfl⟩ := List.length_eq_one_iff.1 hlen
      exact hJ.bind (hJ.ofExcept (Builtin.sumFrom_yields _ _)) fun _ => hJ.number _
    | pick =>
      obtain ⟨xs, is, rfl⟩ := List.length_eq_two.1 hlen
      have hpick : Yields (is.asCells.mapM (Builtin.pickOne xs.asCells)) fun vs => ∀ v ∈ vs, True :=
        .mapM fun y _ => Builtin.pickOne_yields (fun _ _ => trivial) y
      exact hJ.bind (hJ.ofExcept hpick) fun _ => hJ.pure _
    | join =>
      obtain ⟨x, y, rfl⟩ := List.length_eq_two.1 hlen
      exact hJ.bind (hJ.ofExcept (Builtin.strings_yields _)) fun _ => hJ.pure _
    | indexIn =>
      obtain ⟨x, y, rfl⟩ := List.length_eq_two.1 hlen
      exact hJ.bind (hJ.ofExcept (Builtin.indexInValue_yields _ _)) fun _ => hJ.pure _
    | range =>
      obtain ⟨x, y, rfl⟩ := List.length_eq_two.1 hlen
      simp only [Builtin.run]
      split
      · exact hJ.pure _
      · exact hJ.throw trivial
    | map =>
      obtain ⟨xs, v, rfl⟩ := List.length_eq_two.1 hlen
      simp only [Builtin.run]
      split
      · exact hJ.pure _
      · exact hJ.bind (hJ.function v) fun f =>
          hJ.bind (hJ.applyEach hcall f _ []) fun _ => hJ.pure _
    | reduce =>
      obtain ⟨xs, v, rfl⟩ := List.length_eq_two.1 hlen
      simp only [Builtin.run]
      split
      · exact hJ.throw rfl
      · exact hJ.pure _
      · exact hJ.bind (hJ.function v) fun f => hJ.fold hcall f _ _
    | filter =>
      obtain ⟨xs, v, rfl⟩ := List.length_eq_two.1 hlen
      simp only [Builtin.run]
      split
      · exact hJ.pure _
      · exact hJ.bind (hJ.function v) fun f =>
          hJ.bind (hJ.select hcall f _ []) fun _ => hJ.pure _
    | readFile => exact (hb rfl).elim
    | share =>
      obtain ⟨a, b, rfl⟩ := List.length_eq_two.1 hlen
      exact hJ.bind (hJ.function b) fun _ => hJ.bind (hJ.function a) fun _ =>
        hJ.bind hJ.drawSerial fun _ => hJ.pure _
  · rw [Builtin.run_of_length_ne call hlen, Builtin.run_of_length_ne call' hlen]
    exact hJ.throw trivial

theorem recipe (args : List Value) {recipe : Recipe} (hr : ∀ f, recipe ≠ .fail f) :
    J (recipe.run call args) (recipe.run call' args) := by
  cases recipe with
  | const v => exact hJ.pure v
  | operand i => exact hJ.operandAt args i
  | operands => exact hJ.pure _
  | call name supplied =>
    refine hJ.get fun w w' hnames => ?_
    simp only [hnames]
    split
    · exact hcall _ _
    · exact hJ.throw trivial
    · exact hJ.throw rfl
  | callOperand i supplied =>
    refine hJ.bind (hJ.operandAt args i) fun v => ?_
    cases v with
    | func f => exact hcall f supplied
    | _ => exact hJ.throw trivial
  | make name params returns doc recipe =>
    exact hJ.bind (hJ.ofRecipe name params returns doc recipe) fun _ => hJ.pure _
  | fail f => exact (hr f rfl).elim

theorem combine : ∀ (slots : List Slot) (args : List Value),
    J (Slot.combine call slots args) (Slot.combine call' slots args)
  | [], args => hJ.pure args
  | .value v :: slots, args => hJ.bind (combine slots args) fun _ => hJ.pure _
  | .pending f :: slots, args => by
    unfold Slot.combine
    split_ifs
    · exact hJ.bind (combine slots args) fun _ => hJ.pure _
    · exact hJ.bind (hcall f _) fun _ => hJ.bind (combine slots _) fun _ => hJ.pure _

theorem body (args : List Value) {body : Body} (hb : ∀ f, body ≠ .host (.fail f))
    (hread : body ≠ .builtin .readFile) : J (body.run call args) (body.run call' args) := by
  cases body with
  | builtin b => exact hJ.builtin hcall (fun h => hread (congrArg Body.builtin h)) args
  | resume fn slots => exact hJ.bind (hJ.combine hcall slots args) fun vs => hcall fn vs
  | share a b =>
    simp only [Body.run]
    split
    · exact hJ.bind (hcall b _) fun _ => hcall a _
    · exact hJ.throw trivial
  | host recipe => exact hJ.recipe hcall args fun f hf => hb f (congrArg Body.host hf)

end Call

end EvalIn.Rules

/-- A judgement of one run holds of reading a file too. -/
theorem EvalIn.Rules.readFile {J : ∀ ⦃α : Type⦄, EvalIn view α → Prop}
    (hJ : EvalIn.Rules (EvalIn.Alone J)) (call : Builtin.Applier view) (args : List Value) :
    J (Builtin.readFile.run call args) := by
  by_cases hlen : args.length = Builtin.readFile.params.length
  · obtain ⟨path, rfl⟩ := List.length_eq_one_iff.1 hlen
    show EvalIn.Alone J (Builtin.readFile.run call [path]) (Builtin.readFile.run call [path])
    refine hJ.get fun w _ _ => ?_
    unfold EvalIn.Alone
    split
    · exact hJ.throw rfl
    · split
      · exact hJ.pure _
      · exact hJ.throw rfl
  · rw [Builtin.run_of_length_ne call hlen]
    exact hJ.throw trivial

/-- A judgement of one run that holds of stopping with any fault holds of all that a body does. -/
theorem EvalIn.Rules.anyBody {J : ∀ ⦃α : Type⦄, EvalIn view α → Prop}
    (hJ : EvalIn.Rules (EvalIn.Alone J)) (hfail : ∀ f : Fault, J (.fail f : EvalIn view Value))
    {call : Builtin.Applier view} (hcall : ∀ f args, J (call f args)) (args : List Value)
    (body : Body) : J (body.run call args) := by
  by_cases hread : body = .builtin .readFile
  · rw [hread]
    exact hJ.readFile call args
  · by_cases hb : ∃ f, body = .host (.fail f)
    · obtain ⟨f, rfl⟩ := hb
      exact hfail f
    · show EvalIn.Alone J (body.run call args) (body.run call args)
      exact hJ.body hcall args (not_exists.1 hb) hread

/-- A judgement holds of calls too. -/
structure EvalIn.CallRules (J : ∀ ⦃α : Type⦄, EvalIn view α → EvalIn view' α → Prop) : Prop
    extends EvalIn.Rules J where
  aside : ∀ {e : Event}, e.isAside = true → J (.note e) (.note e)
  around : ∀ {x : EvalIn view Value} {y : EvalIn view' Value} (fn : Function) (args : List Value),
    J x y → J (do .note (.entered fn args); .leaving fn x)
      (do .note (.entered fn args); .leaving fn y)
  failing : ∀ (fn : Function) (args : List Value) {f : Fault}, fn.body = .host (.fail f) →
    J (do .note (.entered fn args); .leaving fn (.fail f))
      (do .note (.entered fn args); .leaving fn (.fail f))
  reading : ∀ (call : Builtin.Applier view) (call' : Builtin.Applier view') (fn : Function)
    (args : List Value), fn.body = .builtin .readFile →
      J (fn.invoke call args) (fn.invoke call' args)
  mismatch : ∀ (fn : Function) (position : Nat) {p : TypeDesc} {v : Value}, v.fits p = false →
    J (.fail (.mismatch none fn.text position p v.type (some v.text)) : EvalIn view Slot)
      (.fail (.mismatch none fn.text position p v.type (some v.text)))

namespace EvalIn.CallRules

open Builtin (Applier)

variable {J : ∀ ⦃α : Type⦄, EvalIn view α → EvalIn view' α → Prop} (hJ : EvalIn.CallRules J)
include hJ

theorem suspend (fn : Function) (slots : List Slot) : J (suspend fn slots) (suspend fn slots) :=
  hJ.bind hJ.drawSerial fun _ => hJ.bind (hJ.aside rfl) fun _ => hJ.pure _

section Call

variable {call : Applier view} {call' : Applier view'}
  (hcall : ∀ f args, J (call f args) (call' f args))
include hcall

theorem invoke (fn : Function) (args : List Value) :
    J (fn.invoke call args) (fn.invoke call' args) := by
  by_cases hb : ∃ f, fn.body = .host (.fail f)
  · obtain ⟨f, hf⟩ := hb
    have h := hJ.failing fn args hf
    unfold Function.invoke
    rw [hf]
    exact h
  · by_cases hread : fn.body = .builtin .readFile
    · exact hJ.reading call call' fn args hread
    · exact hJ.around fn args (hJ.body hcall args (not_exists.1 hb) hread)

theorem classify (fn : Function) (position : Nat) (p : TypeDesc) (v : Value) :
    J (classify call fn position p v) (classify call' fn position p v) := by
  rcases hfit : v.fits p with _ | _
  · by_cases hp : ∃ g, v.Pends p g
    · obtain ⟨g, hg⟩ := hp
      rw [classify_of_pends call fn position hg, classify_of_pends call' fn position hg]
      split_ifs
      · exact hJ.bind (hJ.invoke hcall g []) fun _ => hJ.pure _
      · exact hJ.bind (hJ.aside rfl) fun _ => hJ.pure _
    · rw [classify_of_not_pends call fn position hfit (not_exists.1 hp),
        classify_of_not_pends call' fn position hfit (not_exists.1 hp)]
      exact hJ.mismatch fn position hfit
  · rw [classify_of_fits call fn position hfit, classify_of_fits call' fn position hfit]
    exact hJ.pure _

theorem classifyAll (fn : Function) : ∀ (position : Nat) (ps : List TypeDesc) (vs : List Value),
    J (classifyAll call fn position ps vs) (classifyAll call' fn position ps vs)
  | position, p :: ps, v :: vs => hJ.bind (hJ.classify hcall fn position p v) fun _ =>
    hJ.bind (classifyAll fn (position + 1) ps vs) fun _ => hJ.pure _
  | _, [], _ => hJ.pure _
  | _, _ :: _, [] => hJ.pure _

theorem proceed (fn : Function) (slots : List Slot) :
    J (proceed call fn slots) (proceed call' fn slots) := by
  unfold Tacit.proceed
  split
  · split_ifs
    · exact hJ.invoke hcall fn _
    · exact hJ.suspend fn slots
  · exact hJ.suspend fn slots

theorem applyOnce (fn : Function) (args : List Value) :
    J (applyOnce call fn args) (applyOnce call' fn args) := by
  unfold Tacit.applyOnce
  split_ifs
  · exact hJ.throw rfl
  · exact hJ.invoke hcall fn []
  · exact hJ.pure _
  · exact hJ.bind (hJ.classifyAll hcall fn 0 fn.params args) fun slots =>
      hJ.proceed hcall fn slots

end Call

theorem apply : ∀ (fuel : Nat) (fn : Function) (args : List Value),
    J (apply fuel fn args) (apply fuel fn args)
  | 0, _, _ => hJ.throw trivial
  | fuel + 1, fn, args => hJ.applyOnce (apply fuel) fn args

end EvalIn.CallRules

/-- A judgement holds of what programs do. -/
structure EvalIn.ProgramRules (J : ∀ ⦃α : Type⦄, EvalIn view α → EvalIn view' α → Prop) : Prop
    extends EvalIn.CallRules J where
  bindName : ∀ (name : Text) (v : Value), J (.bindName name v) (.bindName name v)
  locating : ∀ {x : EvalIn view Value} {y : EvalIn view' Value} (place : Option Location), J x y →
    J (.locating place x) (.locating place y)

namespace EvalIn.ProgramRules

variable {J : ∀ ⦃α : Type⦄, EvalIn view α → EvalIn view' α → Prop} (hJ : EvalIn.ProgramRules J)
  {fuel : Nat}
include hJ

theorem evalAll : ∀ {es : List Expr}, (∀ e ∈ es, J (e.eval fuel) (e.eval fuel)) →
    J (Expr.evalAll fuel es) (Expr.evalAll fuel es)
  | [], _ => hJ.pure _
  | e :: es, h => by
    unfold Expr.evalAll
    exact hJ.bind (h e (by simp)) fun _ =>
      hJ.bind (evalAll fun d hd => h d (by simp [hd])) fun _ => hJ.pure _

theorem evalOperand {o : Option Expr} (h : ∀ e ∈ o, J (e.eval fuel) (e.eval fuel)) :
    J (Expr.evalOperand fuel o) (Expr.evalOperand fuel o) := by
  cases o with
  | none => exact hJ.pure _
  | some e =>
    unfold Expr.evalOperand
    exact hJ.bind (h e rfl) fun _ => hJ.pure _

/-- A call is judged by its operands and the application that it makes. -/
theorem call (callee : Value) (name : Text) (place : Option Location) (hasOperands : Bool)
    {operands : EvalIn view (List Value)} {operands' : EvalIn view' (List Value)}
    (ho : J operands operands') :
    J (callee.call fuel name place hasOperands operands)
      (callee.call fuel name place hasOperands operands') := by
  have hplain : ∀ v : Value, J
      (if hasOperands then .fail (.notCallable place name v.type) else Pure.pure v)
      (if hasOperands then .fail (.notCallable place name v.type) else Pure.pure v) := by
    intro v
    split_ifs
    · exact hJ.throw rfl
    · exact hJ.pure v
  cases callee with
  | func f => exact hJ.bind ho fun args => hJ.locating place (hJ.apply fuel f args)
  | _ => exact hplain _

/-- Every expression is as judged, by induction on its parts. -/
theorem expr : ∀ e : Expr, J (e.eval fuel) (e.eval fuel) := by
  refine Expr.induct fun e ih => ?_
  have hoperands : ∀ lhs rhs : Option Expr, (∀ a ∈ lhs, a ∈ e.children) →
      (∀ b ∈ rhs, b ∈ e.children) →
        J (do return (← Expr.evalOperand fuel lhs) ++ (← Expr.evalOperand fuel rhs))
          (do return (← Expr.evalOperand fuel lhs) ++ (← Expr.evalOperand fuel rhs)) :=
    fun _ _ hl hr => hJ.bind (hJ.evalOperand fun a ha => ih a (hl a ha)) fun _ =>
      hJ.bind (hJ.evalOperand fun b hb => ih b (hr b hb)) fun _ => hJ.pure _
  cases e with
  | literal v place =>
    unfold Expr.eval
    exact hJ.pure v
  | array ms place =>
    unfold Expr.eval
    exact hJ.bind (hJ.evalAll ih) fun _ => hJ.pure _
  | assign name body place =>
    unfold Expr.eval
    exact hJ.bind (ih body (by simp [Expr.children])) fun v =>
      hJ.bind (hJ.bindName name v) fun _ => hJ.pure _
  | named name lhs rhs place =>
    unfold Expr.eval
    refine hJ.get fun w w' hnames => ?_
    simp only [hnames]
    split
    · exact hJ.throw rfl
    · exact hJ.call _ _ _ _ (hoperands lhs rhs (by simp_all [Expr.children])
        (by simp_all [Expr.children]))
  | called c lhs rhs place =>
    unfold Expr.eval
    exact hJ.bind (ih c (by simp [Expr.children])) fun _ =>
      hJ.call _ _ _ _ (hoperands lhs rhs (by simp_all [Expr.children])
        (by simp_all [Expr.children]))

theorem evalFrom : ∀ (es : List Expr) (v : Value),
    J (Program.evalFrom fuel v es) (Program.evalFrom fuel v es)
  | [], v => hJ.pure v
  | e :: es, _ => hJ.bind (hJ.expr e) fun v => evalFrom es v

theorem program (p : Program) : J (p.eval fuel) (p.eval fuel) := by
  cases p with
  | nil => exact hJ.throw rfl
  | cons e es => exact hJ.bind (hJ.expr e) fun v => hJ.evalFrom es v

end EvalIn.ProgramRules

/-! ## Judging by the record -/

/-- What may happen and how a run may stop, depending on what has happened. Functions may always
stop, and so may a run, if not for an operand that does not fit. -/
structure Law where
  allows : List Event → Event → Prop
  ends : List Event → Stop → Prop
  allows_left : ∀ past fn result, allows past (.left fn result)
  ends_fitting : ∀ past {s : Stop}, s.Fitting → ends past s
  ends_later : ∀ {past s} (e : Event), ends past s → ends (past ++ [e]) s

namespace Law

variable (L : Law)

/-- After some past, events may happen one after another. -/
def AllowsAll : List Event → List Event → Prop
  | _, [] => True
  | past, e :: es => L.allows past e ∧ AllowsAll (past ++ [e]) es

variable {L}

theorem allowsAll_append : ∀ {past es fs : List Event},
    L.AllowsAll past (es ++ fs) ↔ L.AllowsAll past es ∧ L.AllowsAll (past ++ es) fs
  | past, [], fs => by simp [AllowsAll]
  | past, e :: es, fs => by
    have ih : L.AllowsAll (past ++ [e]) (es ++ fs) ↔ _ ∧ _ := allowsAll_append
    simp only [List.cons_append, AllowsAll, ih, List.append_assoc, List.nil_append, and_assoc]

/-- An event that happened was allowed by what had happened before it. -/
theorem AllowsAll.at {e : Event} {past before after : List Event}
    (h : L.AllowsAll past (before ++ e :: after)) : L.allows (past ++ before) e :=
  (allowsAll_append.1 h).2.1

variable (L)

/-- After some past, a run keeps within the law, and what it gives meets `Q`. -/
def Keeps {α : Type} (past : List Event) (x : Eval α) (Q : List Event → α → Prop) : Prop :=
  ∀ w : World, ∃ es, w.Adds (Outcome.world (x w)) es ∧ L.AllowsAll past es ∧
    (∀ a u, x w = .ok a u → Q (past ++ es) a) ∧ ∀ s u, x w = .error s u → L.ends (past ++ es) s

variable {L}

namespace Keeps

variable {α β : Type} {past : List Event}

theorem pure {a : α} {Q : List Event → α → Prop} (h : Q past a) : L.Keeps past (pure a) Q := by
  refine fun w => ⟨[], (List.append_nil _).symm, trivial, fun b u hb => ?_, fun _ _ => nofun⟩
  cases hb
  rwa [List.append_nil]

theorem throw {s : Stop} {Q : List Event → α → Prop} (h : L.ends past s) :
    L.Keeps past (throw s) Q := by
  refine fun w => ⟨[], (List.append_nil _).symm, trivial, fun _ _ => nofun, fun t u ht => ?_⟩
  cases ht
  rwa [List.append_nil]

theorem bind {x : Eval α} {f : α → Eval β} {P : List Event → α → Prop}
    {Q : List Event → β → Prop} (hx : L.Keeps past x P)
    (hf : ∀ es a, past <+: es → P es a → L.Keeps es (f a) Q) : L.Keeps past (x >>= f) Q := by
  intro w
  obtain ⟨es, hadds, hall, hok, herr⟩ := hx w
  rcases hr : x w with ⟨a, u⟩ | ⟨s, u⟩ <;> rw [hr] at hadds
  · obtain ⟨fs, hfs, hall', hok', herr'⟩ := hf _ a (List.prefix_append past es) (hok a u hr) u
    rw [EvalIn.bind_of_ok hr]
    simp only [List.append_assoc] at hok' herr'
    exact ⟨es ++ fs, hadds.trans hfs, allowsAll_append.2 ⟨hall, hall'⟩, hok', herr'⟩
  · rw [EvalIn.bind_of_error hr]
    refine ⟨es, hadds, hall, fun _ _ => nofun, fun t v ht => ?_⟩
    cases ht
    exact herr s u hr

theorem get {f : World → Eval α} {Q : List Event → α → Prop} (hf : ∀ w, L.Keeps past (f w) Q) :
    L.Keeps past (MonadState.get >>= f) Q := fun w => hf w w

theorem drawSerial {Q : List Event → Nat → Prop} (h : ∀ n, Q past n) :
    L.Keeps past .drawSerial Q := by
  refine fun w => ⟨[], (List.append_nil _).symm, trivial, fun n u _ => ?_, fun _ _ => nofun⟩
  rw [List.append_nil]
  exact h n

theorem note {e : Event} {Q : List Event → Unit → Prop} (he : L.allows past e)
    (hQ : Q (past ++ [e]) ()) : L.Keeps past (.note e) Q :=
  fun w => ⟨[e], w.adds_noted e, ⟨he, trivial⟩, fun _ _ _ => hQ, fun _ _ => nofun⟩

/-- What happens while something runs for a function, the function is left with what it gives. -/
theorem leaving {x : Eval Value} {P : List Event → Value → Prop} (fn : Function)
    (hx : L.Keeps past x P) :
    L.Keeps past (.leaving fn x) fun es v => ∃ fs, P fs v ∧ es = fs ++ [.left fn (some v)] := by
  intro w
  obtain ⟨es, hadds, hall, hok, herr⟩ := hx w
  have hleft : ∀ {u : World} (result : Option Value), w.Adds u es →
      w.Adds (u.noted (.left fn result)) (es ++ [.left fn result]) ∧
        L.AllowsAll past (es ++ [.left fn result]) := fun result hu =>
    ⟨hu.trans (World.adds_noted _ _), allowsAll_append.2 ⟨hall, L.allows_left _ _ _, trivial⟩⟩
  rcases hr : x w with ⟨v, u⟩ | ⟨s, u⟩ <;> rw [hr] at hadds
  · rw [EvalIn.leaving_of_ok hr]
    refine ⟨_, (hleft (some v) hadds).1, (hleft (some v) hadds).2, fun a u' ha => ?_,
      fun _ _ => nofun⟩
    cases ha
    exact ⟨past ++ es, hok v u hr, (List.append_assoc ..).symm⟩
  · rw [EvalIn.leaving_of_error hr]
    refine ⟨_, (hleft none hadds).1, (hleft none hadds).2, fun _ _ => nofun, fun t u' ht => ?_⟩
    cases ht
    rw [← List.append_assoc]
    exact L.ends_later _ (herr s u hr)

/-- Running something for a function that may begin to run. -/
theorem around {x : Eval Value} {P : List Event → Value → Prop} {fn : Function}
    {args : List Value} (hfn : L.allows past (.entered fn args))
    (hx : L.Keeps (past ++ [.entered fn args]) x P) :
    L.Keeps past (do .note (.entered fn args); .leaving fn x)
      fun es v => ∃ fs, P fs v ∧ es = fs ++ [.left fn (some v)] :=
  bind (note (Q := fun es _ => es = past ++ [.entered fn args]) hfn rfl)
    fun _ _ _ hes => hes ▸ hx.leaving fn

theorem imp {x : Eval α} {P Q : List Event → α → Prop} (h : L.Keeps past x P)
    (hPQ : ∀ es a, P es a → Q es a) : L.Keeps past x Q := by
  intro w
  obtain ⟨es, hadds, hall, hok, herr⟩ := h w
  exact ⟨es, hadds, hall, fun a u ha => hPQ _ a (hok a u ha), herr⟩

end Keeps

/-- Keeps within the law after any past. -/
abbrev Holds (L : Law) {α : Type} (x : Eval α) : Prop := ∀ past, L.Keeps past x fun _ _ => True

theorem rules (L : Law) : EvalIn.Rules (EvalIn.Alone @L.Holds) where
  pure _ _ := .pure trivial
  throw hs past := .throw (L.ends_fitting past hs)
  bind hx hf past := (hx past).bind fun es a _ _ => hf a es
  get hf past := .get fun w => hf w w rfl past
  drawSerial _ := .drawSerial fun _ => trivial

end Law

end Tacit
