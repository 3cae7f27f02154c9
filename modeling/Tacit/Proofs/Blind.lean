import Tacit.Proofs.ArityFaults
import Tacit.Proofs.Following

/-!
# Applications leave names alone

Only a function of a host program can look up a name while it runs, and none binds one. A value
with no such function in it is `Blind`, and so are all values that programs make. Applying a blind
function to blind values does the same whatever the names are bound to, gives a blind value and
leaves the names as they are (`apply_blind`).
-/

namespace Tacit

mutual

/-- No function in a value looks up names. -/
inductive Value.Blind : Value → Prop where
  | num (n : Number) : Value.Blind (.num n)
  | str (s : Text) : Value.Blind (.str s)
  | bool (b : Bool) : Value.Blind (.bool b)
  | array {cells : List Value} (h : ∀ v ∈ cells, Value.Blind v) : Value.Blind (.array cells)
  | func {f : Function} (h : Body.Blind f.body) : Value.Blind (.func f)
  | invalid (mark : Nat) : Value.Blind (.invalid mark)

/-- No function in a body looks up names, nor does the body itself. -/
inductive Body.Blind : Body → Prop where
  | builtin (b : Builtin) : Body.Blind (.builtin b)
  | resume {fn : Function} {slots : List Slot} (hfn : Body.Blind fn.body)
      (hv : ∀ v, .value v ∈ slots → Value.Blind v)
      (hp : ∀ f, .pending f ∈ slots → Body.Blind f.body) : Body.Blind (.resume fn slots)
  | share {a b : Function} (ha : Body.Blind a.body) (hb : Body.Blind b.body) :
      Body.Blind (.share a b)
  | host {recipe : Recipe} (h : Recipe.Blind recipe) : Body.Blind (.host recipe)

/-- A recipe does not apply what a name is bound to. -/
inductive Recipe.Blind : Recipe → Prop where
  | const {v : Value} (h : Value.Blind v) : Recipe.Blind (.const v)
  | operand (i : Int) : Recipe.Blind (.operand i)
  | operands : Recipe.Blind .operands
  | callOperand (i : Int) {supplied : List Value} (h : ∀ v ∈ supplied, Value.Blind v) :
      Recipe.Blind (.callOperand i supplied)
  | make {name : Text} {params : List TypeDesc} {returns : TypeDesc} {doc : Text} {recipe : Recipe}
      (h : Recipe.Blind recipe) : Recipe.Blind (.make name params returns doc recipe)
  | fail (f : Fault) : Recipe.Blind (.fail f)

end

namespace Value

theorem Blind.body {f : Function} (h : (Value.func f).Blind) : f.body.Blind := by
  cases h with
  | func h => exact h

theorem blind_inherits : Value.Inherits Value.Blind where
  num := .num
  str := .str
  bool := .bool
  array := .array
  cells h := by
    cases h with
    | array h => exact h

/-- No function in a value that has been made looks up names. -/
theorem Made.blind {v : Value} (h : v.Made) : v.Blind := by
  induction h with
  | num n => exact .num n
  | str s => exact .str s
  | bool b => exact .bool b
  | array _ ih => exact .array ih
  | builtin b => exact .func (.builtin b)
  | continuation _ _ _ _ _ _ ihfn ihv ihp =>
    exact .func (.resume ihfn.body ihv fun f hf => (ihp f hf).body)
  | shared _ _ _ _ _ iha ihb => exact .func (.share iha.body ihb.body)

end Value

/-- The world with other names. -/
def World.withNames (w : World) (names : Scope) : World := { w with names := names }

def Outcome.withNames {α : Type} (names : Scope) : Outcome α → Outcome α
  | .ok a w => .ok a (w.withNames names)
  | .error s w => .error s (w.withNames names)

/-- Does the same whatever the names are bound to, and gives only what meets `Q`. -/
def Eval.Blind {α : Type} (x : Eval α) (Q : α → Prop) : Prop :=
  ∀ w, (∀ names, x (w.withNames names) = Outcome.withNames names (x w)) ∧
    ∀ a w', x w = .ok a w' → Q a

namespace Eval.Blind

variable {α β : Type}

theorem pure {Q : α → Prop} {a : α} (h : Q a) : Eval.Blind (pure a) Q := by
  refine fun w => ⟨fun _ => rfl, ?_⟩
  rintro _ _ ⟨⟩
  exact h

theorem throw {Q : α → Prop} (s : Stop) : Eval.Blind (throw s : Eval α) Q :=
  fun _ => ⟨fun _ => rfl, nofun⟩

theorem bind {P : α → Prop} {Q : β → Prop} {x : Eval α} {f : α → Eval β} (hx : Eval.Blind x P)
    (hf : ∀ a, P a → Eval.Blind (f a) Q) : Eval.Blind (x >>= f) Q := by
  intro w
  obtain ⟨hsame, hgives⟩ := hx w
  rcases hr : x w with ⟨a, w'⟩ | ⟨s, w'⟩
  · obtain ⟨hfsame, hfgives⟩ := hf a (hgives a w' hr) w'
    refine ⟨fun names => ?_, fun b w₁ hb => ?_⟩
    · have hr' : x (w.withNames names) = .ok a (w'.withNames names) := by rw [hsame, hr]; rfl
      rw [EvalIn.bind_of_ok hr', EvalIn.bind_of_ok hr]
      exact hfsame names
    · rw [EvalIn.bind_of_ok hr] at hb
      exact hfgives b w₁ hb
  · refine ⟨fun names => ?_, fun b w₁ hb => ?_⟩
    · have hr' : x (w.withNames names) = .error s (w'.withNames names) := by rw [hsame, hr]; rfl
      rw [EvalIn.bind_of_error hr', EvalIn.bind_of_error hr]
      rfl
    · rw [EvalIn.bind_of_error hr] at hb
      cases hb

/-- Something that looks at the world, but not at its names. -/
theorem get {Q : α → Prop} {f : World → Eval α} (hsame : ∀ w names, f (w.withNames names) = f w)
    (hf : ∀ w, Eval.Blind (f w) Q) : Eval.Blind (MonadState.get >>= f) Q := by
  refine fun w => ⟨fun names => ?_, (hf w w).2⟩
  show f (w.withNames names) (w.withNames names) = Outcome.withNames names (f w w)
  rw [hsame]
  exact (hf w w).1 names

theorem note (e : Event) : Eval.Blind (.note e) fun _ => True :=
  fun _ => ⟨fun _ => rfl, fun _ _ _ => trivial⟩

theorem drawSerial : Eval.Blind .drawSerial fun _ => True :=
  fun _ => ⟨fun _ => rfl, fun _ _ _ => trivial⟩

theorem ofExcept {Q : α → Prop} {x : Except Fault α} (h : Yields x Q) :
    Eval.Blind (.ofExcept x) Q := by
  cases x with
  | ok a => exact pure (h.1 a rfl)
  | error f => exact throw _

theorem number (x : Float) : Eval.Blind (.number x) Value.Blind := by
  unfold EvalIn.number
  split_ifs
  · exact pure (.num _)
  · exact drawSerial.bind fun _ _ => pure (.num _)

theorem function {v : Value} (h : v.Blind) :
    Eval.Blind (.function v) fun f => (Value.func f).Blind := by
  cases v with
  | func f => exact pure h
  | _ => exact throw _

theorem leaving {Q : Value → Prop} (fn : Function) {x : Eval Value} (hx : Eval.Blind x Q) :
    Eval.Blind (.leaving fn x) Q := by
  intro w
  obtain ⟨hsame, hgives⟩ := hx w
  rcases hr : x w with ⟨v, w'⟩ | ⟨s, w'⟩
  · refine ⟨fun names => ?_, fun u w₁ hu => ?_⟩
    · have hr' : x (w.withNames names) = .ok v (w'.withNames names) := by rw [hsame, hr]; rfl
      rw [EvalIn.leaving_of_ok hr', EvalIn.leaving_of_ok hr]
      rfl
    · rw [EvalIn.leaving_of_ok hr] at hu
      cases hu
      exact hgives v w' hr
  · refine ⟨fun names => ?_, fun u w₁ hu => ?_⟩
    · have hr' : x (w.withNames names) = .error s (w'.withNames names) := by rw [hsame, hr]; rfl
      rw [EvalIn.leaving_of_error hr', EvalIn.leaving_of_error hr]
      rfl
    · rw [EvalIn.leaving_of_error hr] at hu
      cases hu

/-- The names stay as they are. -/
theorem names_eq {Q : α → Prop} {x : Eval α} (hx : Eval.Blind x Q) (w : World) :
    (Outcome.world (x w)).names = w.names := by
  have h : x w = Outcome.withNames w.names (x w) := (hx w).1 w.names
  rw [h]
  cases x w <;> rfl

end Eval.Blind

/-- A way to apply functions that does not depend on names when the functions do not. -/
def BlindApplier (call : Builtin.Applier) : Prop :=
  ∀ (f : Function) (args : List Value), (Value.func f).Blind → (∀ v ∈ args, v.Blind) →
    Eval.Blind (call f args) Value.Blind

namespace Builtin

section Running

variable {call : Applier} (hcall : BlindApplier call) {f : Function} (hf : (Value.func f).Blind)
include hcall hf

theorem fold_blind : ∀ (xs : List Value) (acc : Value), acc.Blind → (∀ x ∈ xs, x.Blind) →
    Eval.Blind (fold call f acc xs) Value.Blind
  | [], _, hacc, _ => .pure hacc
  | x :: xs, acc, hacc, hxs => by
    have hx := hxs x (by simp)
    refine (hcall f [acc, x] hf (by simp [hacc, hx])).bind fun v hv => ?_
    exact fold_blind xs v hv fun y hy => hxs y (by simp [hy])

theorem select_blind : ∀ xs found : List Value, (∀ x ∈ found, x.Blind) → (∀ x ∈ xs, x.Blind) →
    Eval.Blind (select call f found xs) fun vs => ∀ v ∈ vs, v.Blind
  | [], found, hfound, _ => .pure (by simpa using hfound)
  | x :: xs, found, hfound, hxs => by
    have hx := hxs x (by simp)
    refine (hcall f [x] hf (by simp [hx])).bind fun v _ => ?_
    refine select_blind xs _ ?_ fun y hy => hxs y (by simp [hy])
    split_ifs
    · exact List.forall_mem_cons.2 ⟨hx, hfound⟩
    · exact hfound

theorem applyEach_blind : ∀ xs found : List Value, (∀ x ∈ found, x.Blind) → (∀ x ∈ xs, x.Blind) →
    Eval.Blind (applyEach call f found xs) fun vs => ∀ v ∈ vs, v.Blind
  | [], found, hfound, _ => .pure (by simpa using hfound)
  | x :: xs, found, hfound, hxs => by
    have hx := hxs x (by simp)
    refine (hcall f [x] hf (by simp [hx])).bind fun v hv => ?_
    exact applyEach_blind xs _ (List.forall_mem_cons.2 ⟨hv, hfound⟩) fun y hy =>
      hxs y (by simp [hy])

end Running

/-- A builtin run on values that do not look up names does not depend on names. -/
theorem run_blind {call : Applier} (hcall : BlindApplier call) (b : Builtin) {args : List Value}
    (hm : ∀ v ∈ args, v.Blind) : Eval.Blind (b.run call args) Value.Blind := by
  have hi := Value.blind_inherits
  by_cases hlen : args.length = b.params.length
  · cases b with
    | plus | minus | times | dividedBy | mod =>
      obtain ⟨x, y, rfl⟩ := List.length_eq_two.1 hlen
      exact .number _
    | lt | ltEq | gt | gtEq | eq | nEq =>
      obtain ⟨x, y, rfl⟩ := List.length_eq_two.1 hlen
      exact .pure (.bool _)
    | toString =>
      obtain ⟨x, rfl⟩ := List.length_eq_one_iff.1 hlen
      exact .pure (.str _)
    | lines | chars =>
      obtain ⟨x, rfl⟩ := List.length_eq_one_iff.1 hlen
      exact .pure (hi.ofTexts _)
    | isDigit =>
      obtain ⟨x, rfl⟩ := List.length_eq_one_iff.1 hlen
      exact .pure (.bool _)
    | identity =>
      obtain ⟨x, rfl⟩ := List.length_eq_one_iff.1 hlen
      exact .pure (hm x (by simp))
    | length =>
      obtain ⟨x, rfl⟩ := List.length_eq_one_iff.1 hlen
      cases x with
      | str | array => exact .pure (.num _)
      | _ => exact .throw _
    | slice =>
      obtain ⟨x, y, rfl⟩ := List.length_eq_two.1 hlen
      exact .ofExcept (sliceValue_yields hi (hm x (by simp)) y)
    | match_ =>
      obtain ⟨x, y, rfl⟩ := List.length_eq_two.1 hlen
      exact (Eval.Blind.ofExcept (patternOf_yields _ _)).bind fun _ _ => .pure (hi.ofTexts _)
    | matchStart =>
      obtain ⟨x, y, rfl⟩ := List.length_eq_two.1 hlen
      exact (Eval.Blind.ofExcept (patternOf_yields _ _)).bind fun _ _ => .pure (.num _)
    | toInt =>
      obtain ⟨x, rfl⟩ := List.length_eq_one_iff.1 hlen
      exact (Eval.Blind.ofExcept (toIntValue_yields _)).bind fun _ _ => .number _
    | sum =>
      obtain ⟨x, rfl⟩ := List.length_eq_one_iff.1 hlen
      exact (Eval.Blind.ofExcept (sumFrom_yields _ _)).bind fun _ _ => .number _
    | range =>
      obtain ⟨x, y, rfl⟩ := List.length_eq_two.1 hlen
      simp only [run]
      split
      · rename_i cells hcells
        exact .pure (.array (mem_rangeFrom hi _ _ _ [] cells (by simp) hcells))
      · exact .throw _
    | map =>
      obtain ⟨xs, v, rfl⟩ := List.length_eq_two.1 hlen
      have hxs := hi.asCells (hm xs (by simp))
      simp only [run]
      split
      · exact .pure (.array (by simp))
      · refine (Eval.Blind.function (hm v (by simp))).bind fun f hf => ?_
        exact (applyEach_blind hcall hf _ [] (by simp) hxs).bind fun vs hvs => .pure (.array hvs)
    | reduce =>
      obtain ⟨xs, v, rfl⟩ := List.length_eq_two.1 hlen
      have hxs := hi.asCells (hm xs (by simp))
      simp only [run]
      split
      · exact .throw _
      · rename_i x hx
        exact .pure (hxs x (by simp [hx]))
      · rename_i x rest _ hx
        rw [hx] at hxs
        refine (Eval.Blind.function (hm v (by simp))).bind fun f hf => ?_
        exact fold_blind hcall hf rest x (hxs x (by simp)) fun y hy => hxs y (by simp [hy])
    | filter =>
      obtain ⟨xs, v, rfl⟩ := List.length_eq_two.1 hlen
      have hxs := hi.asCells (hm xs (by simp))
      simp only [run]
      split
      · exact .pure (.array (by simp))
      · refine (Eval.Blind.function (hm v (by simp))).bind fun f hf => ?_
        exact (select_blind hcall hf _ [] (by simp) hxs).bind fun vs hvs => .pure (.array hvs)
    | take =>
      obtain ⟨xs, n, rfl⟩ := List.length_eq_two.1 hlen
      have hxs := hi.asCells (hm xs (by simp))
      exact .pure (.array fun c hc => hxs c (mem_sliced hc))
    | pick =>
      obtain ⟨xs, is, rfl⟩ := List.length_eq_two.1 hlen
      have hpick : Yields (is.asCells.mapM (pickOne xs.asCells)) fun vs => ∀ v ∈ vs, v.Blind :=
        .mapM fun y _ => pickOne_yields (hi.asCells (hm xs (by simp))) y
      exact (Eval.Blind.ofExcept hpick).bind fun vs hvs => .pure (.array hvs)
    | join =>
      obtain ⟨x, y, rfl⟩ := List.length_eq_two.1 hlen
      exact (Eval.Blind.ofExcept (strings_yields _)).bind fun _ _ => .pure (.str _)
    | indexIn =>
      obtain ⟨x, y, rfl⟩ := List.length_eq_two.1 hlen
      exact (Eval.Blind.ofExcept (indexInValue_yields _ _)).bind fun _ _ => .pure (.num _)
    | readFile =>
      obtain ⟨path, rfl⟩ := List.length_eq_one_iff.1 hlen
      refine .get (fun _ _ => rfl) fun w => ?_
      split
      · exact .throw _
      · split
        · exact .pure (.str _)
        · exact .throw _
    | share =>
      obtain ⟨a, b, rfl⟩ := List.length_eq_two.1 hlen
      refine (Eval.Blind.function (hm b (by simp))).bind fun g hg => ?_
      refine (Eval.Blind.function (hm a (by simp))).bind fun f hf => ?_
      exact Eval.Blind.drawSerial.bind fun _ _ => .pure (.func (.share hf.body hg.body))
  · rw [run_of_length_ne call hlen]
    exact .throw _

end Builtin

theorem operandAt_blind {args : List Value} (hm : ∀ v ∈ args, v.Blind) (i : Int) :
    Eval.Blind (operandAt args i) Value.Blind := by
  unfold operandAt
  split
  · rename_i v hv
    refine .pure (hm v ?_)
    split_ifs at hv
    exact List.mem_of_getElem? hv
  · exact .throw _

theorem Function.ofRecipe_blind (name : Text) (params : List TypeDesc) (returns : TypeDesc)
    (doc : Text) {recipe : Recipe} (h : recipe.Blind) :
    Eval.Blind (Function.ofRecipe name params returns doc recipe)
      fun f => (Value.func f).Blind := by
  unfold Function.ofRecipe
  split_ifs
  · exact .throw _
  · exact Eval.Blind.drawSerial.bind fun _ _ => .pure (.func (.host h))

/-- A slot that holds nothing that looks up names. -/
def Slot.Blind : Slot → Prop
  | .value v => v.Blind
  | .pending f => (Value.func f).Blind

section Apply

variable {call : Builtin.Applier} (hcall : BlindApplier call)
include hcall

theorem Recipe.run_blind {args : List Value} (hm : ∀ v ∈ args, v.Blind) {recipe : Recipe}
    (h : recipe.Blind) : Eval.Blind (recipe.run call args) Value.Blind := by
  cases h with
  | const h => exact .pure h
  | operand i => exact operandAt_blind hm i
  | operands => exact .pure (.array hm)
  | callOperand i hs =>
    refine (operandAt_blind hm i).bind fun v hv => ?_
    cases v with
    | func f => exact hcall f _ hv hs
    | _ => exact .throw _
  | make h =>
    exact (Function.ofRecipe_blind _ _ _ _ h).bind fun _ hf => .pure hf
  | fail f => exact .throw _

theorem combine_blind : ∀ {slots : List Slot} {args : List Value}, (∀ s ∈ slots, s.Blind) →
    (∀ v ∈ args, v.Blind) → Eval.Blind (Slot.combine call slots args) fun vs => ∀ v ∈ vs, v.Blind
  | [], args, _, ha => .pure ha
  | .value v :: slots, args, hs, ha => by
    have hv : v.Blind := hs (.value v) (by simp)
    refine (combine_blind (fun s h => hs s (by simp [h])) ha).bind fun vs hvs => ?_
    exact .pure (List.forall_mem_cons.2 ⟨hv, hvs⟩)
  | .pending f :: slots, args, hs, ha => by
    have hf : (Value.func f).Blind := hs (.pending f) (by simp)
    have hrest : ∀ s ∈ slots, s.Blind := fun s h => hs s (by simp [h])
    unfold Slot.combine
    split_ifs
    · refine (combine_blind hrest ha).bind fun vs hvs => ?_
      exact .pure (List.forall_mem_cons.2 ⟨hf, hvs⟩)
    · refine (hcall f _ hf fun v hv => ha v (List.mem_of_mem_take hv)).bind fun u hu => ?_
      refine (combine_blind hrest fun v hv => ha v (List.mem_of_mem_drop hv)).bind fun vs hvs => ?_
      exact .pure (List.forall_mem_cons.2 ⟨hu, hvs⟩)

theorem Body.run_blind {args : List Value} (hm : ∀ v ∈ args, v.Blind) {body : Body}
    (h : body.Blind) : Eval.Blind (body.run call args) Value.Blind := by
  cases h with
  | builtin b => exact Builtin.run_blind hcall b hm
  | resume hfn hv hp =>
    refine (combine_blind hcall ?_ hm).bind fun vs hvs => hcall _ vs (.func hfn) hvs
    rintro (v | f) hs
    · exact hv v hs
    · exact .func (hp f hs)
  | share ha hb =>
    simp only [Body.run]
    split
    · rename_i c
      have hc := hm c (by simp)
      refine (hcall _ [c] (.func hb) (by simp [hc])).bind fun v hv => ?_
      exact hcall _ [c, v] (.func ha) (by simp [hc, hv])
    · exact .throw _
  | host h => exact Recipe.run_blind hcall hm h

theorem Function.invoke_blind {fn : Function} (hfn : (Value.func fn).Blind) {args : List Value}
    (hm : ∀ v ∈ args, v.Blind) : Eval.Blind (fn.invoke call args) Value.Blind :=
  (Eval.Blind.note _).bind fun _ _ => .leaving fn (Body.run_blind hcall hm hfn.body)

theorem classify_blind (fn : Function) (position : Nat) (p : TypeDesc) {v : Value} (hv : v.Blind) :
    Eval.Blind (classify call fn position p v) Slot.Blind := by
  unfold classify
  simp only
  split_ifs
  · exact .pure hv
  · split
    · split_ifs
      · exact .pure hv
      · exact (Function.invoke_blind hcall hv (by simp)).bind fun u hu => .pure hu
      · exact (Eval.Blind.note _).bind fun _ _ => .pure hv
      · exact .throw _
    · exact .throw _

theorem classifyAll_blind (fn : Function) : ∀ (position : Nat) (ps : List TypeDesc)
    {vs : List Value}, (∀ v ∈ vs, v.Blind) →
      Eval.Blind (classifyAll call fn position ps vs) fun slots => ∀ s ∈ slots, s.Blind
  | position, p :: ps, v :: vs, hm => by
    refine (classify_blind hcall fn position p (hm v (by simp))).bind fun s hs => ?_
    refine (classifyAll_blind fn (position + 1) ps fun u hu => hm u (by simp [hu])).bind
      fun slots hslots => ?_
    exact .pure (List.forall_mem_cons.2 ⟨hs, hslots⟩)
  | _, [], _, _ => .pure (by simp)
  | _, _ :: _, [], _ => .pure (by simp)

omit hcall in
theorem suspend_blind {fn : Function} (hfn : (Value.func fn).Blind) {slots : List Slot}
    (hs : ∀ s ∈ slots, s.Blind) : Eval.Blind (suspend fn slots) Value.Blind := by
  refine Eval.Blind.drawSerial.bind fun serial _ => (Eval.Blind.note _).bind fun _ _ => ?_
  exact .pure (.func (.resume hfn.body (fun v hv => hs _ hv) fun f hf => (hs _ hf).body))

omit hcall in
theorem blind_of_value? : ∀ {slots : List Slot} {vs : List Value}, (∀ s ∈ slots, s.Blind) →
    slots.mapM Slot.value? = some vs → ∀ v ∈ vs, v.Blind
  | [], vs, _, h => by
    obtain rfl : vs = [] := by simpa [List.mapM_nil] using h.symm
    simp
  | .pending f :: slots, vs, _, h => by simp [List.mapM_cons, Slot.value?] at h
  | .value v :: slots, vs, hs, h => by
    rw [List.mapM_cons] at h
    rcases hm : slots.mapM Slot.value? with _ | us
    · simp [Slot.value?, hm] at h
    · obtain rfl : vs = v :: us := by simpa [Slot.value?, hm] using h.symm
      have hv : v.Blind := hs (.value v) (by simp)
      exact List.forall_mem_cons.2 ⟨hv, blind_of_value? (fun s h => hs s (by simp [h])) hm⟩

theorem proceed_blind {fn : Function} (hfn : (Value.func fn).Blind) {slots : List Slot}
    (hs : ∀ s ∈ slots, s.Blind) : Eval.Blind (proceed call fn slots) Value.Blind := by
  unfold proceed
  split
  · rename_i vs hvs
    split_ifs
    · exact Function.invoke_blind hcall hfn (blind_of_value? hs hvs)
    · exact suspend_blind hfn hs
  · exact suspend_blind hfn hs

theorem applyOnce_blind : BlindApplier (applyOnce call) := by
  intro fn args hfn hm
  unfold applyOnce
  split_ifs
  · exact .throw _
  · exact Function.invoke_blind hcall hfn (by simp)
  · exact .pure hfn
  · exact (classifyAll_blind hcall fn 0 fn.params hm).bind fun slots hs =>
      proceed_blind hcall hfn hs

end Apply

/-- Applying a function that does not look up names does not depend on names, with any fuel. -/
theorem apply_blind : ∀ fuel : Nat, BlindApplier (apply fuel)
  | 0 => fun _ _ _ _ => .throw _
  | fuel + 1 => applyOnce_blind (apply_blind fuel)

/-! ## Names in expressions -/

theorem World.Sound.blind {w : World} (h : w.Sound) {name : Text} {v : Value}
    (hv : w.names.get? name = some v) : v.Blind :=
  (h.get? hv).blind

/-- Replacing what is bound to a name leaves the other names alone. -/
theorem lookup_replaced (name : Text) (v : Value) {n : Text} (hn : n ≠ name) :
    ∀ bs : List (Text × Value),
      (bs.map fun (m, u) => if m == name then (m, v) else (m, u)).lookup n = bs.lookup n
  | [] => rfl
  | (m, u) :: bs => by
    have ih := lookup_replaced name v hn bs
    rw [List.map_cons, List.lookup_cons, List.lookup_cons]
    by_cases hm : m = name
    · have hnm : (n == name) = false := beq_eq_false_iff_ne.2 hn
      simp only [hm, beq_self_eq_true, if_true, hnm]
      exact ih
    · have hmb : (m == name) = false := beq_eq_false_iff_ne.2 hm
      simp only [hmb, Bool.false_eq_true, if_false]
      rw [ih]

theorem lookup_replaced_self (name : Text) (v : Value) : ∀ bs : List (Text × Value),
    bs.any (·.1 == name) = true →
      (bs.map fun (m, u) => if m == name then (m, v) else (m, u)).lookup name = some v
  | [], h => by simp at h
  | (m, u) :: bs, h => by
    rw [List.map_cons, List.lookup_cons]
    by_cases hm : m = name
    · simp [hm]
    · have hmb : (m == name) = false := beq_eq_false_iff_ne.2 hm
      have hnm : (name == m) = false := beq_eq_false_iff_ne.2 (Ne.symm hm)
      simp only [List.any_cons, hmb, Bool.false_or] at h
      simp only [hmb, Bool.false_eq_true, if_false, hnm]
      exact lookup_replaced_self name v bs h

theorem Scope.get?_put (s : Scope) (name : Text) (v : Value) (n : Text) :
    (s.put name v).get? n = if n = name then some v else s.get? n := by
  unfold Scope.put Scope.get?
  split_ifs with hany hn hn
  · rw [hn]
    exact lookup_replaced_self name v s.bindings hany
  · exact lookup_replaced name v hn s.bindings
  · have hnone : s.bindings.lookup n = none := by
      rw [List.lookup_eq_none_iff]
      intro b hb
      have hb : b.1 ≠ name := fun h => hany (List.any_eq_true.2 ⟨b, hb, by simp [h]⟩)
      simpa [hn] using hb.symm
    rw [List.lookup_append, hnone]
    simp [hn]
  · have hnm : (n == name) = false := beq_eq_false_iff_ne.2 hn
    rw [List.lookup_append, List.lookup_cons, hnm]
    simp

namespace Expr

variable {fuel : Nat} {w w' : World}

/-- Evaluating an expression in a sound world leaves the names as they are. -/
def KeepsNames (fuel : Nat) (e : Expr) : Prop :=
  ∀ {w w' : World} {v : Value}, w.Sound → e.eval fuel w = .ok v w' → w'.names = w.names

theorem evalOperand_names {o : Option Expr} (ho : ∀ e ∈ o, e.KeepsNames fuel) (hw : w.Sound)
    {vs : List Value} (h : evalOperand fuel o w = .ok vs w') : w'.names = w.names := by
  cases o with
  | none =>
    unfold evalOperand at h
    cases h
    rfl
  | some e =>
    obtain ⟨v, hv, -⟩ := evalOperand_some_eq_ok h
    exact ho e rfl hw hv

theorem evalAll_names : ∀ {es : List Expr} {w : World} {vs : List Value},
    (∀ e ∈ es, e.Readable ∧ e.KeepsNames fuel) → w.Sound → evalAll fuel es w = .ok vs w' →
      w'.names = w.names
  | [], w, vs, _, _, h => by
    unfold evalAll at h
    cases h
    rfl
  | e :: es, w, vs, hes, hw, h => by
    obtain ⟨v, us, w₁, hv, hus, -⟩ := evalAll_cons_eq_ok h
    obtain ⟨he, hkeeps⟩ := hes e (by simp)
    have hw₁ := ((he.eval_safe fuel).of_ok hw hv).1
    rw [evalAll_names (fun d hd => hes d (by simp [hd])) hw₁ hus, hkeeps hw hv]

theorem operands_names {e : Expr} (he : e.Readable) (hl : ∀ a ∈ e.lhs?, a.KeepsNames fuel)
    (hr : ∀ b ∈ e.rhs?, b.KeepsNames fuel) (hw : w.Sound) {vs : List Value}
    (h : e.operands fuel w = .ok vs w') : w'.names = w.names := by
  obtain ⟨us, ts, w₁, hus, hts, -⟩ := operands_eq_ok h
  have hw₁ := ((evalOperand_safe fuel fun _ ha => (he.lhs ha).eval_safe fuel).of_ok hw hus).1
  rw [evalOperand_names hr hw₁ hts, evalOperand_names hl hw hus]

theorem Finds.keepsNames {e : Expr} (he : e.Readable) (hl : ∀ a ∈ e.lhs?, a.KeepsNames fuel)
    (hr : ∀ b ∈ e.rhs?, b.KeepsNames fuel) {name : Text} {u v : Value} {w₁ : World}
    (hu : u.Made) (hw₁ : w₁.Sound) (h : e.Finds fuel w name u w₁)
    (hv : e.eval fuel w = .ok v w') : w'.names = w₁.names := by
  rcases h.eval_eq_ok hv with ⟨f, args, w₂, rfl, ho, ha⟩ | ⟨-, -, -, rfl⟩
  · have hargs := (he.operands hw₁ ho).1
    have hnames := (apply_blind fuel f args hu.blind fun v hv => (hargs v hv).blind).names_eq w₂
    rw [ha] at hnames
    rw [show w'.names = w₂.names from hnames, operands_names he hl hr hw₁ ho]
  · rfl

theorem Readable.keepsNames {e : Expr} (h : e.Readable) : e.KeepsNames fuel := by
  induction h with
  | number x l | string _ l =>
    intro w w' v _ hv
    unfold Expr.eval at hv
    cases hv
    rfl
  | array hms l ih =>
    intro w w' v hw hv
    unfold Expr.eval at hv
    obtain ⟨vs, w₁, hvs, hv⟩ := EvalIn.bind_eq_ok hv
    cases hv
    exact evalAll_names (fun m hm => ⟨hms m hm, ih m hm⟩) hw hvs
  | name hn l =>
    intro w w' v hw hv
    obtain ⟨_, u, _, hu⟩ := exists_finds rfl hv
    cases hu with
    | named hu =>
      exact Finds.keepsNames (.name hn l) (by simp [lhs?]) (by simp [rhs?]) (hw.get? hu) hw
        (.named hu) hv
  | named hn hl hr l ihl ihr =>
    intro w w' v hw hv
    obtain ⟨_, u, _, hu⟩ := exists_finds rfl hv
    cases hu with
    | named hu =>
      refine Finds.keepsNames (.named hn hl hr l) ihl ?_ (hw.get? hu) hw (.named hu) hv
      rintro _ ⟨⟩
      exact ihr
  | called hc hl hr l ihc ihl ihr =>
    intro w w' v hw hv
    obtain ⟨_, u, w₁, hu⟩ := exists_finds rfl hv
    cases hu with
    | called hu =>
      obtain ⟨hw₁, hmade⟩ := (hc.eval_safe fuel).of_ok hw hu
      rw [← ihc hw hu]
      refine Finds.keepsNames (.called hc hl hr l) ihl ?_ hmade hw₁ (.called hu) hv
      rintro _ ⟨⟩
      exact ihr

theorem Finds.names_eq {e : Expr} {name : Text} {v : Value} (h : e.Finds fuel w name v w')
    (he : e.Readable) (hw : w.Sound) : w'.names = w.names := by
  cases h with
  | named => rfl
  | called hv =>
    cases he with
    | called hc _ _ l => exact hc.keepsNames hw hv

end Expr

end Tacit
