import Mathlib.Data.List.Forall2
import Tacit.Proofs.Made

/-!
# The builtins keep a world sound

A world is sound when the values bound in it are made by programs, and what it has recorded is in
order: a function began to run with as many operands as it takes, each of the kind its parameter
asks for, and it gave a made value if it gave any. Something is `Safe` when it keeps worlds sound,
gives what it should, and never stops in a way it must not; a `Raw` stop is a fault of an operand
or of a builtin that no call has been named for yet, or fuel that has run out.

Run on operands that suit its parameters, every builtin is safe (`run_safe`), as long as the way to
apply functions is.
-/

namespace Tacit

/-- No fault of giving a function too many operands, on any level. -/
def Fault.NoArity : Fault → Prop
  | .arity .. => False
  | .builtin _ _ f | .placed _ f | .remarked _ f => NoArity f
  | _ => True

/-- A fault that an application comes to by itself: an operand that does not fit, or the failure of
a builtin. It has no place yet. -/
def Fault.Raw : Fault → Prop
  | .mismatch none .. => True
  | .builtin none _ (.plain _) => True
  | _ => False

theorem Fault.Raw.noArity {f : Fault} (h : f.Raw) : f.NoArity := by
  unfold Fault.Raw at h
  split at h
  · trivial
  · trivial
  · exact h.elim

/-- A fault that a builtin comes to by itself. -/
def Fault.OfBuiltin : Fault → Prop
  | .builtin none _ (.plain _) => True
  | _ => False

theorem Fault.OfBuiltin.raw {f : Fault} (h : f.OfBuiltin) : f.Raw := by
  unfold Fault.OfBuiltin at h
  split at h
  · trivial
  · exact h.elim

/-- A raw fault, or out of fuel. -/
def Stop.Raw : Stop → Prop
  | .fault f => f.Raw
  | .crash _ => False
  | .outOfFuel => True

/-- Neither a crash nor too many operands. -/
def Stop.Tame : Stop → Prop
  | .fault f => f.NoArity
  | .crash _ => False
  | .outOfFuel => True

theorem Stop.Raw.tame {s : Stop} (h : s.Raw) : s.Tame := by
  cases s with
  | fault f => exact Fault.Raw.noArity h
  | crash m => exact h
  | outOfFuel => trivial

/-- Something that can happen in a sound world. -/
def Event.Sound : Event → Prop
  | .composed .. => True
  | .curried _ _ cont => cont.Made
  | .entered fn args => fn.Made ∧ (∀ v ∈ args, v.Made) ∧
      List.Forall₂ (fun v p => p.admits v = true) args fn.params
  | .left fn result => fn.Made ∧ ∀ v ∈ result, v.Made

structure World.Sound (w : World) : Prop where
  names : ∀ b ∈ w.names.bindings, b.2.Made
  record : ∀ e ∈ w.record, e.Sound

/-- Keeps worlds sound; gives only what meets `Q`, and stops only in ways that meet `E`. -/
def Safe {α : Type} (E : Stop → Prop) (x : Eval α) (Q : α → Prop) : Prop :=
  ∀ w : World, w.Sound →
    match x w with
    | .ok a w' => w'.Sound ∧ Q a
    | .error s w' => w'.Sound ∧ E s

namespace Safe

variable {α β : Type} {E : Stop → Prop}

theorem pure {Q : α → Prop} {a : α} (h : Q a) : Safe E (pure a) Q := fun _ hw => ⟨hw, h⟩

theorem throw {Q : α → Prop} {s : Stop} (h : E s) : Safe E (throw s) Q := fun _ hw => ⟨hw, h⟩

theorem bind {P : α → Prop} {Q : β → Prop} {x : Eval α} {f : α → Eval β} (hx : Safe E x P)
    (hf : ∀ a, P a → Safe E (f a) Q) : Safe E (x >>= f) Q := by
  intro w hw
  have h := hx w hw
  show match EStateM.bind x f w with
    | .ok a w' => w'.Sound ∧ Q a
    | .error s w' => w'.Sound ∧ E s
  unfold EStateM.bind
  rcases hr : x w with ⟨a, w'⟩ | ⟨s, w'⟩ <;> rw [hr] at h
  · exact hf a h.2 w' h.1
  · exact h

theorem weaken {E' : Stop → Prop} {Q : α → Prop} {x : Eval α} (hx : Safe E x Q)
    (h : ∀ s, E s → E' s) : Safe E' x Q := by
  intro w hw
  have hr := hx w hw
  split at hr
  · exact hr
  · exact ⟨hr.1, h _ hr.2⟩

section Outcome

variable {Q : α → Prop} {x : Eval α} (hx : Safe E x Q) {w w' : World} (hw : w.Sound)
include hx hw

theorem of_ok {a : α} (h : x w = .ok a w') : w'.Sound ∧ Q a := by
  have hr := hx w hw
  rw [h] at hr
  exact hr

theorem of_error {s : Stop} (h : x w = .error s w') : w'.Sound ∧ E s := by
  have hr := hx w hw
  rw [h] at hr
  exact hr

end Outcome

/-- Something that depends on the world it runs in. -/
theorem get {Q : α → Prop} {f : World → Eval α} (h : ∀ w : World, w.Sound → Safe E (f w) Q) :
    Safe E (MonadState.get >>= f) Q :=
  fun w hw => h w hw w hw

theorem note {e : Event} (h : e.Sound) : Safe E (.note e) fun _ => True := by
  intro w hw
  refine ⟨⟨hw.names, fun e' he' => ?_⟩, trivial⟩
  rcases Array.mem_push.1 he' with he' | rfl
  · exact hw.record e' he'
  · exact h

theorem drawSerial : Safe E .drawSerial fun _ => True :=
  fun _ hw => ⟨⟨hw.names, hw.record⟩, trivial⟩

theorem ofExcept {Q : α → Prop} {x : Except Fault α} (hok : ∀ a, x = .ok a → Q a)
    (herr : ∀ f, x = .error f → E (.fault f)) : Safe E (.ofExcept x) Q := by
  cases x with
  | ok a => exact pure (hok a rfl)
  | error f => exact throw (herr f rfl)

theorem number (x : Float) : Safe E (.number x) Value.Made := by
  unfold EvalIn.number
  split_ifs
  · exact pure (.num _)
  · exact drawSerial.bind fun _ _ => pure (.num _)

end Safe

/-! ## What builtins compute from -/

/-- Results of a kind, or faults of a builtin. -/
def Yields {α : Type} (x : Except Fault α) (Q : α → Prop) : Prop :=
  (∀ a, x = .ok a → Q a) ∧ ∀ f, x = .error f → f.OfBuiltin

namespace Yields

variable {α β : Type}

theorem ok {Q : α → Prop} {a : α} (h : Q a) : Yields (.ok a) Q :=
  ⟨fun _ he => Except.ok.inj he ▸ h, fun _ he => by simp at he⟩

theorem error {Q : α → Prop} {f : Fault} (h : f.OfBuiltin) : Yields (.error f) Q :=
  ⟨fun _ he => by simp at he, fun _ he => Except.error.inj he ▸ h⟩

theorem bind {P : α → Prop} {Q : β → Prop} {x : Except Fault α} {f : α → Except Fault β}
    (hx : Yields x P) (hf : ∀ a, P a → Yields (f a) Q) : Yields (x >>= f) Q := by
  cases x with
  | ok a => exact hf a (hx.1 a rfl)
  | error e => exact error (hx.2 e rfl)

theorem mapM {Q : β → Prop} {f : α → Except Fault β} :
    ∀ {xs : List α}, (∀ x ∈ xs, Yields (f x) Q) → Yields (xs.mapM f) fun ys => ∀ y ∈ ys, Q y
  | [], _ => ok (by simp)
  | x :: xs, h => by
    rw [List.mapM_cons]
    refine (h x (by simp)).bind fun y hy => ?_
    refine (mapM fun z hz => h z (by simp [hz])).bind fun ys hys => ?_
    exact ok (List.forall_mem_cons.2 ⟨hy, hys⟩)

theorem safe {Q : α → Prop} {x : Except Fault α} (h : Yields x Q) :
    Safe Stop.Raw (.ofExcept x) Q :=
  .ofExcept h.1 fun f hf => (h.2 f hf).raw

end Yields

/-- A property that all values have which hold no function, and that an array has when its members
have it. -/
structure Value.Inherits (Q : Value → Prop) : Prop where
  num : ∀ n, Q (.num n)
  str : ∀ s, Q (.str s)
  bool : ∀ b, Q (.bool b)
  array : ∀ {cells}, (∀ v ∈ cells, Q v) → Q (.array cells)
  cells : ∀ {cells}, Q (.array cells) → ∀ v ∈ cells, Q v

namespace Value.Inherits

variable {Q : Value → Prop} (hQ : Value.Inherits Q)
include hQ

theorem asCells {v : Value} (h : Q v) : ∀ c ∈ v.asCells, Q c := by
  cases v with
  | array cells => exact hQ.cells h
  | _ => simp [Value.asCells]

theorem ofTexts (ts : List Text) : Q (.ofTexts ts) := by
  refine hQ.array fun v hv => ?_
  obtain ⟨t, -, rfl⟩ := List.mem_map.1 hv
  exact hQ.str t

end Value.Inherits

theorem Value.Inherits.trivial : Value.Inherits fun _ => True :=
  ⟨fun _ => True.intro, fun _ => True.intro, fun _ => True.intro, fun _ => True.intro,
    fun _ _ _ => True.intro⟩

/-- Being made is inherited: values without functions are made, and so are arrays of
what is made. -/
theorem Value.made_inherits : Value.Inherits Value.Made where
  num := .num
  str := .str
  bool := .bool
  array := .array
  cells h := by
    cases h with
    | array h => exact h

theorem Value.Made.cells {v : Value} (h : v.Made) : ∀ c ∈ v.asCells, c.Made :=
  Value.made_inherits.asCells h

theorem Value.Suits.func {v : Value} {ws : List TypeDesc} {r : TypeDesc}
    (h : v.Suits (.func ws r)) (hws : ws.length ≤ maxArity) :
    ∃ f, v = .func f ∧ f.arity = ws.length := by
  have ha := h.admits
  cases v <;> simp only [TypeDesc.admits, Bool.false_eq_true] at ha
  exact ⟨_, rfl, h.arity _ _ _ rfl rfl hws⟩

namespace Builtin

/-- A slice holds only members of what it is cut from. -/
theorem mem_sliced {α : Type} {xs : List α} {start : Int} {stop : Option Int} {x : α}
    (h : x ∈ sliced xs start stop) : x ∈ xs :=
  List.mem_of_mem_drop (List.mem_of_mem_take h)

theorem clampIndex_le (n : Nat) (i : Int) : clampIndex n i ≤ n := by
  unfold clampIndex
  simp only
  split_ifs <;> omega

/-- A stretch lies within the sequence it is cut from. -/
theorem sliceBounds_le (n : Nat) (start : Int) (stop : Option Int) :
    (sliceBounds n start stop).1 ≤ (sliceBounds n start stop).2 ∧
      (sliceBounds n start stop).2 ≤ n := by
  have hstop : stop.elim n (clampIndex n) ≤ n := by
    cases stop with
    | none => exact Nat.le_refl n
    | some i => exact clampIndex_le n i
  exact ⟨Nat.le_max_left _ _, Nat.max_le.2 ⟨clampIndex_le n start, hstop⟩⟩

theorem sliceIndices_yields (bounds : Value) : Yields (sliceIndices bounds) fun _ => True := by
  unfold sliceIndices
  simp only
  split
  · refine Yields.bind ?_ fun _ (_ : True) => .ok trivial
    split
    · exact .ok trivial
    · exact .error trivial
  · refine Yields.bind ?_ fun _ (_ : True) => Yields.bind ?_ fun _ (_ : True) => .ok trivial
    all_goals
      split
      · exact .ok trivial
      · exact .error trivial
  · exact .error trivial

theorem sliceValue_yields {Q : Value → Prop} (hQ : Value.Inherits Q) {v : Value} (hv : Q v)
    (bounds : Value) : Yields (sliceValue v bounds) Q := by
  refine (sliceIndices_yields bounds).bind ?_
  rintro ⟨start, stop⟩ -
  simp only
  split
  · exact .ok (hQ.str _)
  · exact .ok (hQ.array fun c hc => hQ.cells hv c (mem_sliced hc))
  · exact .error trivial

theorem pickOne_yields {Q : Value → Prop} {xs : List Value} (h : ∀ x ∈ xs, Q x) (y : Value) :
    Yields (pickOne xs y) Q := by
  unfold pickOne
  split
  · simp only
    split
    · rename_i x hx
      refine .ok (h x ?_)
      split_ifs at hx <;> exact List.mem_of_getElem? hx
    · exact .error trivial
  · exact .error trivial

theorem sumFrom_yields : ∀ (xs : List Value) (total : Float),
    Yields (sumFrom total xs) fun _ => True
  | [], _ => .ok trivial
  | .num _ :: xs, _ => sumFrom_yields xs _
  | .str _ :: _, _ | .bool _ :: _, _ | .array _ :: _, _ | .func _ :: _, _ | .invalid _ :: _, _ =>
    .error trivial

theorem strings_yields (cells : List Value) : Yields (strings cells) fun _ => True := by
  have h : Yields (strings cells) fun ts => ∀ t ∈ ts, True := by
    refine .mapM fun v _ => ?_
    split
    · exact .ok trivial
    · exact .error trivial
  exact ⟨fun _ _ => trivial, h.2⟩

theorem indexInValue_yields (needle haystack : Value) :
    Yields (indexInValue needle haystack) fun _ => True := by
  unfold indexInValue
  split
  · split <;> exact .ok trivial
  · exact .ok trivial
  · exact .error trivial

theorem toIntValue_yields (s : Text) : Yields (toIntValue s) fun _ => True := by
  unfold toIntValue
  split
  · exact .error trivial
  · exact .ok trivial

theorem patternOf_yields (b : Builtin) (s : Text) : Yields (patternOf b s) fun _ => True := by
  unfold patternOf
  split
  · exact .ok trivial
  · exact .error trivial

theorem plain_of_read {fs : FileSystem} {path : Text} {f : Fault} (h : fs.read path = .error f) :
    ∃ message, f = .plain message := by
  unfold FileSystem.read at h
  split at h
  · cases h
  · cases h
  · cases h
    exact ⟨_, rfl⟩

theorem mem_rangeFrom {Q : Value → Prop} (hQ : Value.Inherits Q) (hi : Float) :
    ∀ (fuel : Nat) (x : Float) (found cells : List Value), (∀ v ∈ found, Q v) →
      rangeFrom hi fuel x found = some cells → ∀ v ∈ cells, Q v
  | 0, x, found, cells, hf, h => by
    simp only [rangeFrom] at h
    split_ifs at h
    cases h
    simpa using hf
  | fuel + 1, x, found, cells, hf, h => by
    simp only [rangeFrom] at h
    split_ifs at h
    · exact mem_rangeFrom hQ hi fuel _ _ cells (List.forall_mem_cons.2 ⟨hQ.num _, hf⟩) h
    · cases h
      simpa using hf

/-- A way to apply functions that is safe as long as there are not too many operands. -/
def Applies (call : Applier) : Prop :=
  ∀ (f : Function) (args : List Value), f.Made → (∀ v ∈ args, v.Made) → args.length ≤ f.arity →
    Safe Stop.Raw (call f args) Value.Made

section Running

variable {call : Applier} (hcall : Applies call) {f : Function} (hf : f.Made)
include hcall hf

/-- Folding with a safe function of two operands is safe. -/
theorem fold_safe (ha : f.arity = 2) : ∀ (xs : List Value) (acc : Value), acc.Made →
    (∀ x ∈ xs, x.Made) → Safe Stop.Raw (fold call f acc xs) Value.Made
  | [], _, hacc, _ => .pure hacc
  | x :: xs, acc, hacc, hxs => by
    have hx := hxs x (by simp)
    refine (hcall f [acc, x] hf (by simp [hacc, hx]) (by simp [ha])).bind fun v hv => ?_
    exact fold_safe ha xs v hv fun y hy => hxs y (by simp [hy])

theorem select_safe (ha : f.arity = 1) : ∀ (xs found : List Value), (∀ x ∈ found, x.Made) →
    (∀ x ∈ xs, x.Made) →
      Safe Stop.Raw (select call f found xs) fun vs => ∀ v ∈ vs, v.Made
  | [], found, hfound, _ => .pure (by simpa using hfound)
  | x :: xs, found, hfound, hxs => by
    have hx := hxs x (by simp)
    refine (hcall f [x] hf (by simp [hx]) (by simp [ha])).bind fun v _ => ?_
    refine select_safe ha xs _ ?_ fun y hy => hxs y (by simp [hy])
    split_ifs
    · exact List.forall_mem_cons.2 ⟨hx, hfound⟩
    · exact hfound

theorem applyEach_safe (ha : f.arity = 1) : ∀ (xs found : List Value), (∀ x ∈ found, x.Made) →
    (∀ x ∈ xs, x.Made) →
      Safe Stop.Raw (applyEach call f found xs) fun vs => ∀ v ∈ vs, v.Made
  | [], found, hfound, _ => .pure (by simpa using hfound)
  | x :: xs, found, hfound, hxs => by
    have hx := hxs x (by simp)
    refine (hcall f [x] hf (by simp [hx]) (by simp [ha])).bind fun v hv => ?_
    exact applyEach_safe ha xs _ (List.forall_mem_cons.2 ⟨hv, hfound⟩) fun y hy =>
      hxs y (by simp [hy])

end Running

theorem suits_one {args : List Value} {p : TypeDesc} (h : List.Forall₂ Value.Suits args [p]) :
    ∃ x, args = [x] ∧ x.Suits p := by
  rcases h with _ | ⟨hx, _ | _⟩
  exact ⟨_, rfl, hx⟩

theorem suits_two {args : List Value} {p q : TypeDesc}
    (h : List.Forall₂ Value.Suits args [p, q]) :
    ∃ x y, args = [x, y] ∧ x.Suits p ∧ y.Suits q := by
  rcases h with _ | ⟨hx, _ | ⟨hy, _ | _⟩⟩
  exact ⟨_, _, rfl, hx, hy⟩

theorem safe_function (f : Function) : Safe Stop.Raw (.function (.func f)) fun g => g = f :=
  .pure rfl

/-- A builtin run on operands that suit its parameters is safe. -/
theorem run_safe {call : Applier} (hcall : Applies call) (b : Builtin) {args : List Value}
    (hm : ∀ v ∈ args, v.Made) (hs : List.Forall₂ Value.Suits args b.params) :
    Safe Stop.Raw (b.run call args) Value.Made := by
  cases b with
  | plus | minus | times | dividedBy | mod =>
    obtain ⟨x, y, rfl, -, -⟩ := suits_two hs
    exact .number _
  | lt | ltEq | gt | gtEq | eq | nEq =>
    obtain ⟨x, y, rfl, -, -⟩ := suits_two hs
    exact .pure (.bool _)
  | toString =>
    obtain ⟨x, rfl, -⟩ := suits_one hs
    exact .pure (.str _)
  | lines | chars =>
    obtain ⟨x, rfl, -⟩ := suits_one hs
    exact .pure (Value.made_inherits.ofTexts _)
  | length =>
    obtain ⟨x, rfl, -⟩ := suits_one hs
    cases x with
    | str | array => exact .pure (.num _)
    | _ => exact .throw trivial
  | slice =>
    obtain ⟨x, y, rfl, -, -⟩ := suits_two hs
    exact (sliceValue_yields Value.made_inherits (hm x (by simp)) y).safe
  | match_ =>
    obtain ⟨x, y, rfl, -, -⟩ := suits_two hs
    exact (patternOf_yields _ _).safe.bind fun _ _ => .pure (Value.made_inherits.ofTexts _)
  | matchStart =>
    obtain ⟨x, y, rfl, -, -⟩ := suits_two hs
    exact (patternOf_yields _ _).safe.bind fun _ _ => .pure (.num _)
  | isDigit =>
    obtain ⟨x, rfl, -⟩ := suits_one hs
    exact .pure (.bool _)
  | toInt =>
    obtain ⟨x, rfl, -⟩ := suits_one hs
    exact (toIntValue_yields _).safe.bind fun _ _ => .number _
  | range =>
    obtain ⟨x, y, rfl, -, -⟩ := suits_two hs
    simp only [run]
    split
    · rename_i cells hcells
      exact .pure (.array (mem_rangeFrom Value.made_inherits _ _ _ [] cells (by simp) hcells))
    · exact .throw trivial
  | map =>
    obtain ⟨xs, v, rfl, -, hv⟩ := suits_two hs
    obtain ⟨f, rfl, ha⟩ := hv.func (by decide)
    have hf : f.Made := hm (.func f) (by simp)
    simp only [run]
    split
    · exact .pure (.array (by simp))
    · refine (safe_function f).bind fun g hg => ?_
      subst hg
      refine (applyEach_safe hcall hf ha _ [] (by simp) ?_).bind fun vs hvs => .pure (.array hvs)
      exact (hm xs (by simp)).cells
  | reduce =>
    obtain ⟨xs, v, rfl, -, hv⟩ := suits_two hs
    obtain ⟨f, rfl, ha⟩ := hv.func (by decide)
    have hf : f.Made := hm (.func f) (by simp)
    have hcells := (hm xs (by simp)).cells
    simp only [run]
    split
    · exact .throw trivial
    · rename_i x hx
      exact .pure (hcells x (by simp [hx]))
    · rename_i x rest _ hx
      rw [hx] at hcells
      refine (safe_function f).bind fun g hg => ?_
      subst hg
      exact fold_safe hcall hf ha rest x (hcells x (by simp)) fun y hy => hcells y (by simp [hy])
  | filter =>
    obtain ⟨xs, v, rfl, -, hv⟩ := suits_two hs
    obtain ⟨f, rfl, ha⟩ := hv.func (by decide)
    have hf : f.Made := hm (.func f) (by simp)
    simp only [run]
    split
    · exact .pure (.array (by simp))
    · refine (safe_function f).bind fun g hg => ?_
      subst hg
      refine (select_safe hcall hf ha _ [] (by simp) ?_).bind fun vs hvs => .pure (.array hvs)
      exact (hm xs (by simp)).cells
  | sum =>
    obtain ⟨xs, rfl, -⟩ := suits_one hs
    exact (sumFrom_yields _ _).safe.bind fun _ _ => .number _
  | take =>
    obtain ⟨xs, n, rfl, -, -⟩ := suits_two hs
    exact .pure (.array fun c hc => (hm xs (by simp)).cells c (mem_sliced hc))
  | pick =>
    obtain ⟨xs, is, rfl, -, -⟩ := suits_two hs
    have hpick : Yields (is.asCells.mapM (pickOne xs.asCells)) fun vs => ∀ v ∈ vs, v.Made :=
      .mapM fun y _ => pickOne_yields (hm xs (by simp)).cells y
    exact hpick.safe.bind fun vs hvs => .pure (.array hvs)
  | join =>
    obtain ⟨xs, sep, rfl, -, -⟩ := suits_two hs
    exact (strings_yields _).safe.bind fun _ _ => .pure (.str _)
  | indexIn =>
    obtain ⟨x, y, rfl, -, -⟩ := suits_two hs
    exact (indexInValue_yields _ _).safe.bind fun _ _ => .pure (.num _)
  | readFile =>
    obtain ⟨path, rfl, -⟩ := suits_one hs
    refine .get fun w _ => ?_
    split
    · exact .throw trivial
    · rename_i fs _
      split
      · exact .pure (.str _)
      · rename_i f hf
        obtain ⟨message, rfl⟩ := plain_of_read hf
        exact .throw trivial
  | identity =>
    obtain ⟨x, rfl, -⟩ := suits_one hs
    exact .pure (hm x (by simp))
  | share =>
    obtain ⟨a, b, rfl, ha, hb⟩ := suits_two hs
    obtain ⟨f, rfl, hfa⟩ := ha.func (by decide)
    obtain ⟨g, rfl, hgb⟩ := hb.func (by decide)
    have hf : f.Made := hm (.func f) (by simp)
    have hg : g.Made := hm (.func g) (by simp)
    refine (safe_function g).bind fun g' hg' => ?_
    refine (safe_function f).bind fun f' hf' => ?_
    subst hg' hf'
    exact Safe.drawSerial.bind fun serial _ => .pure (.shared hf hg hfa hgb serial)

end Builtin

end Tacit
