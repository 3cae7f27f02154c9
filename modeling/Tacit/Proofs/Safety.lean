import Mathlib
import Tacit.Proofs.ReadTrees
import Tacit.Proofs.SafeApply

/-!
# Programs never crash

Programs that were read, evaluated one after another in a world that starts with the builtins, keep
the world sound, whether they give a value, fail, or are given up. So in every world that can be
reached no function has been run with other operands than it declares, no value in it has anything
invalid in it, and evaluating another program does not crash (`Reachable.secure`).
-/

namespace Tacit

/-- Anything but a crash. -/
def Stop.NoCrash : Stop → Prop
  | .crash _ => False
  | _ => True

theorem Stop.Tame.noCrash {s : Stop} (h : s.Tame) : s.NoCrash := by
  cases s <;> trivial

theorem apply_safe (fuel : Nat) {f : Function} (hf : f.Made) {args : List Value}
    (hm : ∀ v ∈ args, v.Made) : Safe Stop.NoCrash (apply fuel f args) Value.Made := by
  by_cases hlen : args.length ≤ f.arity
  · exact (apply_applies fuel f args hf hm hlen).weaken fun _ => Stop.Tame.noCrash
  · cases fuel with
    | zero => exact .throw trivial
    | succ fuel =>
      unfold apply applyOnce
      rw [if_pos (by omega)]
      exact .throw trivial

theorem locating_safe {α : Type} {Q : α → Prop} {x : Eval α} (place : Option Location)
    (hx : Safe Stop.NoCrash x Q) : Safe Stop.NoCrash (.locating place x) Q := by
  intro w hw
  have h := hx w hw
  unfold EvalIn.locating
  rcases hr : x w with ⟨a, w'⟩ | ⟨s, w'⟩ <;> rw [hr] at h
  · exact h
  · cases s with
    | fault f => exact ⟨h.1, trivial⟩
    | crash m => exact h
    | outOfFuel => exact h

/-- A call of what has been made does not crash if its operands do not. -/
theorem call_safe (fuel : Nat) {callee : Value} (hc : callee.Made) (name : Text)
    (place : Option Location) (hasOperands : Bool) {operands : Eval (List Value)}
    (ho : Safe Stop.NoCrash operands fun vs => ∀ v ∈ vs, v.Made) :
    Safe Stop.NoCrash (callee.call fuel name place hasOperands operands) Value.Made := by
  have hplain : ∀ v : Value, v.Made → Safe Stop.NoCrash
      (if hasOperands then .fail (.notCallable place name v.type) else pure v) Value.Made := by
    intro v hv
    split_ifs
    · exact .throw trivial
    · exact .pure hv
  cases callee with
  | func f => exact ho.bind fun args hargs => locating_safe place (apply_safe fuel hc hargs)
  | _ => exact hplain _ hc

theorem World.Sound.get? {w : World} (h : w.Sound) {name : Text} {v : Value}
    (hv : w.names.get? name = some v) : v.Made := by
  obtain ⟨before, after, hsplit, -⟩ := List.lookup_eq_some_iff.1 hv
  exact h.names (name, v) (by simp [hsplit])

theorem bindName_safe {name : Text} {v : Value} (hv : v.Made) :
    Safe Stop.NoCrash (.bindName name v) fun _ => True := by
  intro w hw
  refine ⟨⟨?_, hw.record⟩, trivial⟩
  intro b hb
  simp only [Scope.put] at hb
  split_ifs at hb
  · obtain ⟨c, hc, rfl⟩ := List.mem_map.1 hb
    split_ifs
    · exact hv
    · exact hw.names c hc
  · rcases List.mem_append.1 hb with hb | hb
    · exact hw.names b hb
    · obtain rfl := List.mem_singleton.1 hb
      exact hv

namespace Expr

variable (fuel : Nat)

theorem evalAll_safe : ∀ {es : List Expr},
    (∀ e ∈ es, Safe Stop.NoCrash (e.eval fuel) Value.Made) →
      Safe Stop.NoCrash (evalAll fuel es) fun vs => ∀ v ∈ vs, v.Made
  | [], _ => .pure (by simp)
  | e :: es, h => by
    unfold evalAll
    refine (h e (by simp)).bind fun v hv => ?_
    refine (evalAll_safe fun f hf => h f (by simp [hf])).bind fun vs hvs => ?_
    exact .pure (List.forall_mem_cons.2 ⟨hv, hvs⟩)

theorem evalOperand_safe {o : Option Expr}
    (h : ∀ e ∈ o, Safe Stop.NoCrash (e.eval fuel) Value.Made) :
    Safe Stop.NoCrash (evalOperand fuel o) fun vs => ∀ v ∈ vs, v.Made := by
  cases o with
  | none => exact .pure (by simp)
  | some e =>
    unfold evalOperand
    exact (h e rfl).bind fun v hv => .pure (by simpa using hv)

theorem evalOperands_safe {lhs rhs : Option Expr}
    (hl : ∀ e ∈ lhs, Safe Stop.NoCrash (e.eval fuel) Value.Made)
    (hr : ∀ e ∈ rhs, Safe Stop.NoCrash (e.eval fuel) Value.Made) :
    Safe Stop.NoCrash (do return (← evalOperand fuel lhs) ++ (← evalOperand fuel rhs))
      fun vs => ∀ v ∈ vs, v.Made := by
  refine (evalOperand_safe fuel hl).bind fun vs hvs => ?_
  refine (evalOperand_safe fuel hr).bind fun us hus => ?_
  exact .pure (List.forall_mem_append.2 ⟨hvs, hus⟩)

theorem named_safe {lhs rhs : Option Expr} (name : Text) (place : Option Location)
    (hl : ∀ e ∈ lhs, Safe Stop.NoCrash (e.eval fuel) Value.Made)
    (hr : ∀ e ∈ rhs, Safe Stop.NoCrash (e.eval fuel) Value.Made) :
    Safe Stop.NoCrash ((Expr.named name lhs rhs place).eval fuel) Value.Made := by
  unfold Expr.eval
  refine .get fun w hw => ?_
  split
  · exact .throw trivial
  · rename_i v hv
    exact call_safe fuel (hw.get? hv) name place _ (evalOperands_safe fuel hl hr)

theorem Readable.eval_safe {e : Expr} (h : e.Readable) :
    Safe Stop.NoCrash (e.eval fuel) Value.Made := by
  induction h with
  | number x l =>
    unfold Expr.eval
    exact .pure (.num _)
  | string _ l =>
    unfold Expr.eval
    exact .pure (.str _)
  | array _ l ih =>
    unfold Expr.eval
    exact (evalAll_safe fuel ih).bind fun vs hvs => .pure (.array hvs)
  | name _ l => exact named_safe fuel _ _ (by simp) (by simp)
  | named _ _ _ l ihl ihr =>
    refine named_safe fuel _ _ ihl ?_
    rintro _ ⟨⟩
    exact ihr
  | @called c lhs rhs _ _ _ l ihc ihl ihr =>
    unfold Expr.eval
    refine ihc.bind fun v hv => call_safe fuel hv _ _ _ (evalOperands_safe fuel ihl ?_)
    rintro _ ⟨⟩
    exact ihr

theorem Stated.eval_safe {e : Expr} (h : e.Stated) :
    Safe Stop.NoCrash (e.eval fuel) Value.Made := by
  cases h with
  | expr h => exact h.eval_safe fuel
  | assign _ he l =>
    unfold Expr.eval
    exact (he.eval_safe fuel).bind fun v hv => (bindName_safe hv).bind fun _ _ => .pure hv

end Expr

theorem Program.evalFrom_safe (fuel : Nat) : ∀ {p : Program} {v : Value}, (∀ e ∈ p, e.Stated) →
    v.Made → Safe Stop.NoCrash (Program.evalFrom fuel v p) Value.Made
  | [], _, _, hv => .pure hv
  | e :: p, _, h, _ => ((h e (by simp)).eval_safe fuel).bind fun _ hv =>
    evalFrom_safe fuel (fun f hf => h f (by simp [hf])) hv

/-- A program of statements does not crash. -/
theorem Program.eval_safe (fuel : Nat) {p : Program} (h : ∀ e ∈ p, e.Stated) :
    Safe Stop.NoCrash (p.eval fuel) Value.Made := by
  cases p with
  | nil => exact .throw trivial
  | cons e p =>
    exact ((h e (by simp)).eval_safe fuel).bind fun _ hv =>
      evalFrom_safe fuel (fun f hf => h f (by simp [hf])) hv

namespace World

/-- The world that running something leaves behind, however it ends. -/
def after {α : Type} (w : World) (x : Eval α) : World :=
  match x w with
  | .ok _ w' | .error _ w' => w'

/-- A world in which programs that were read have been evaluated, starting with the builtins. -/
inductive Reachable : World → Prop where
  | start {w : World} (hn : w.names = .initial) (hr : w.record = #[]) : Reachable w
  | run {w : World} {file src : Text} {p : Program} (h : Reachable w)
      (hp : Program.read file src = .ok p) (fuel : Nat) : Reachable (w.after (p.eval fuel))

theorem sound_of_start {w : World} (hn : w.names = .initial) (hr : w.record = #[]) : w.Sound := by
  refine ⟨fun b hb => ?_, fun e he => by simp [hr] at he⟩
  rw [hn] at hb
  rcases List.mem_append.1 hb with hb | hb
  · obtain ⟨c, -, rfl⟩ := List.mem_map.1 hb
    exact .builtin c
  · simp only [Scope.truths, List.mem_cons, List.not_mem_nil, or_false] at hb
    rcases hb with rfl | rfl <;> exact .bool _

theorem Sound.after {α : Type} {w : World} {E : Stop → Prop} {Q : α → Prop} {x : Eval α}
    (h : w.Sound) (hx : Safe E x Q) : (w.after x).Sound := by
  unfold World.after
  rcases hr : x w with ⟨a, w'⟩ | ⟨s, w'⟩
  · exact (hx.of_ok h hr).1
  · exact (hx.of_error h hr).1

/-- Every world that can be reached is sound. -/
theorem Reachable.sound {w : World} (h : w.Reachable) : w.Sound := by
  induction h with
  | start hn hr => exact sound_of_start hn hr
  | run _ hp fuel ih => exact ih.after (Program.eval_safe fuel (Program.stated_of_read hp))

/-- The values that there are in a world: those bound to names, and all that has been run, given
or made. -/
inductive Has (w : World) : Value → Prop where
  | bound {name : Text} {v : Value} (h : (name, v) ∈ w.names.bindings) : Has w v
  | made {fn : Text} {groups : Nat} {f : Function} (h : .curried fn groups f ∈ w.record) :
      Has w (.func f)
  | run {f : Function} {args : List Value} (h : .entered f args ∈ w.record) : Has w (.func f)
  | given {f : Function} {args : List Value} {v : Value} (h : .entered f args ∈ w.record)
      (hv : v ∈ args) : Has w v
  | result {f : Function} {v : Value} (h : .left f (some v) ∈ w.record) : Has w v

theorem Sound.has {w : World} (h : w.Sound) {v : Value} (hv : w.Has v) : v.Made := by
  cases hv with
  | bound hb => exact h.names _ hb
  | made he => exact h.record _ he
  | run he => exact (h.record _ he).1
  | given he hv => exact (h.record _ he).2.1 _ hv
  | result he => exact (h.record _ he).2 _ rfl

end World

/-- The parts of a value: itself, the members of arrays, and what functions hold. -/
inductive Value.Within : Value → Value → Prop where
  | refl (v : Value) : Within v v
  | cell {u v : Value} {cells : List Value} (hv : v ∈ cells) (h : Within u v) :
      Within u (.array cells)
  | resumed {u : Value} {f fn : Function} {slots : List Slot} (hb : f.body = .resume fn slots)
      (h : Within u (.func fn)) : Within u (.func f)
  | value {u v : Value} {f fn : Function} {slots : List Slot} (hb : f.body = .resume fn slots)
      (hv : .value v ∈ slots) (h : Within u v) : Within u (.func f)
  | pending {u : Value} {f g fn : Function} {slots : List Slot} (hb : f.body = .resume fn slots)
      (hg : .pending g ∈ slots) (h : Within u (.func g)) : Within u (.func f)
  | outer {u : Value} {f a b : Function} (hb : f.body = .share a b) (h : Within u (.func a)) :
      Within u (.func f)
  | inner {u : Value} {f a b : Function} (hb : f.body = .share a b) (h : Within u (.func b)) :
      Within u (.func f)

/-- What a continuation holds is made. -/
theorem Value.Made.of_resume {f fn : Function} {slots : List Slot} (h : f.Made)
    (hb : f.body = .resume fn slots) : fn.Made ∧ (∀ v, .value v ∈ slots → v.Made) ∧
      ∀ g, .pending g ∈ slots → g.Made := by
  cases h with
  | builtin b => cases hb
  | continuation hfn hv hp _ _ serial =>
    cases hb
    exact ⟨hfn, hv, hp⟩
  | shared _ _ _ _ serial => cases hb

/-- What a function made by `S` holds is made. -/
theorem Value.Made.of_share {f a b : Function} (h : f.Made) (hb : f.body = .share a b) :
    a.Made ∧ b.Made := by
  cases h with
  | builtin b => cases hb
  | continuation _ _ _ _ _ serial => cases hb
  | shared ha hb' _ _ serial =>
    cases hb
    exact ⟨ha, hb'⟩

theorem Value.Made.within {u v : Value} (hv : v.Made) (h : u.Within v) : u.Made := by
  induction h with
  | refl => exact hv
  | cell hc _ ih =>
    cases hv with
    | array hcells => exact ih (hcells _ hc)
  | resumed hb _ ih => exact ih (hv.of_resume hb).1
  | value hb hs _ ih => exact ih ((hv.of_resume hb).2.1 _ hs)
  | pending hb hs _ ih => exact ih ((hv.of_resume hb).2.2 _ hs)
  | outer hb _ ih => exact ih (hv.of_share hb).1
  | inner hb _ ih => exact ih (hv.of_share hb).2

/-- Nothing in a value is invalid, and no function in it takes more operands than functions can. -/
def Value.Valid (v : Value) : Prop :=
  ∀ u : Value, u.Within v → (∀ mark, u ≠ .invalid mark) ∧ ∀ f, u = .func f → f.arity ≤ maxArity

theorem Value.Made.valid {v : Value} (h : v.Made) : v.Valid := by
  intro u hu
  have hmade := h.within hu
  refine ⟨?_, ?_⟩
  · rintro mark rfl
    cases hmade
  · rintro f rfl
    have := hmade.arity
    have hmax : maxArity = 2 := rfl
    omega

/-- What a world is like in which nothing has gone wrong, and nothing can. -/
structure World.Secure (w : World) : Prop where
  /-- Functions have been run with as many operands as they declare, each of the kind that its
  parameter demands. -/
  operands : ∀ f args, .entered f args ∈ w.record → args.length = f.arity ∧
    List.Forall₂ (fun v p => p.admits v = true) args f.params
  values : ∀ v, w.Has v → v.Valid
  /-- A program gives a valid value if it gives one, and does not crash if it gives none. -/
  programs : ∀ file src p fuel, Program.read file src = .ok p →
    match p.eval fuel w with
    | .ok v _ => v.Valid
    | .error s _ => ∀ message, s ≠ .crash message

/-- Every world that can be reached is secure, and what is cut out of a string or an array always
lies within it. -/
theorem World.Reachable.secure {w : World} (h : w.Reachable) : w.Secure ∧
    ∀ n start stop, (Builtin.sliceBounds n start stop).1 ≤ (Builtin.sliceBounds n start stop).2 ∧
      (Builtin.sliceBounds n start stop).2 ≤ n := by
  have hw := h.sound
  refine ⟨⟨fun f args he => ?_, fun v hv => (hw.has hv).valid, fun file src p fuel hp => ?_⟩,
    Builtin.sliceBounds_le⟩
  · obtain ⟨-, -, hadmits⟩ := hw.record _ he
    exact ⟨hadmits.length_eq, hadmits⟩
  · have hsafe := Program.eval_safe fuel (Program.stated_of_read hp)
    rcases hr : p.eval fuel w with ⟨v, w'⟩ | ⟨s, w'⟩
    · exact (hsafe.of_ok hw hr).2.valid
    · rintro message rfl
      exact (hsafe.of_error hw hr).2

/-- The program `length "a"`. -/
def lengthProgram : Program :=
  [.named "length" none (some (.literal (.str "a") (some ⟨[], 7, 1, 8⟩))) (some ⟨[], 0, 1, 1⟩)]

theorem read_lengthProgram : Program.read [] ("length \"a\"" : Text) = .ok lengthProgram := by
  set_option maxRecDepth 4000 in
  cbv

theorem World.Reachable.secure_length :
    ((World.initial .empty).after (lengthProgram.eval 1)).Reachable ∧
    ((World.initial .empty).after (lengthProgram.eval 1)).record.size = 2 ∧
    ((World.initial .empty).after (lengthProgram.eval 1)).Secure := by
  have hreach : ((World.initial .empty).after (lengthProgram.eval 1)).Reachable :=
    .run (.start rfl rfl) read_lengthProgram 1
  exact ⟨hreach, by decide +kernel, (World.Reachable.secure hreach).1⟩

end Tacit
