import Tacit.Proofs.Placing

/-!
# Only a call in the text of a program gives too many operands

Every function that there can be takes one operand or two. A program that stops at the fault of
giving a function too many operands stops at one of its own calls, the one that the fault places
it at, when the callee and the operands of the call have just been evaluated. An application to no
more operands than the function takes never comes to that fault, whatever it applies further in
(`Reachable.arity_faults`).
-/

namespace Tacit

namespace Expr

variable {fuel : Nat} {w w' : World}

/-- A call gives its callee more operands than it takes: it has evaluated both, and this is the
fault that it stops at. -/
def Overfills (fuel : Nat) (e : Expr) (w : World) (g : Fault) (w' : World) : Prop :=
  ∃ f args w₁ l, e.Callee fuel w f w₁ ∧ e.operands fuel w₁ = .ok args w' ∧
    args.length = e.operandCount ∧ f.arity < args.length ∧ e.place? = some l ∧
    g = .arity (some l) f.text f.arity args.length

/-- A call that stops by itself at a fault of too many operands gives them itself. -/
theorem Raises.overfills {e : Expr} {g : Fault} (h : e.Raises fuel w (.fault g) w')
    (he : e.Readable) (hw : w.Sound) (hg : ¬ g.NoArity) : e.Overfills fuel w g w' := by
  cases h with
  | unbound | notCallable => exact absurd trivial hg
  | @applied _ f args _ _ w₁ w₂ _ hf ha h =>
    obtain ⟨g₀, hg₀, rfl⟩ := EvalIn.locating_eq_fault h
    obtain ⟨l, hl⟩ := he.place
    obtain ⟨hmade, hw₁⟩ := he.callee hw hf
    obtain ⟨hargs, hw₂⟩ := he.operands hw₁ ha
    rw [hl] at hg ⊢
    rcases raw_of_apply hmade hargs hw₂ hg₀ with hraw | ⟨hlt, rfl, rfl⟩
    · rw [hraw.unplaced.placedAt l] at hg
      exact absurd (Fault.noArity_withPlace l hraw.noArity) hg
    · exact ⟨f, args, w₁, l, hf, ha, length_operands ha, hlt, hl, rfl⟩

end Expr

/-- A fault of too many operands is explained by the call at its place. -/
theorem Program.explains {fuel : Nat} {w w' : World} {p : Program} (hp : ∀ e ∈ p, e.Stated)
    {g : Fault} (hw : w.Sound) (h : p.eval fuel w = .error (.fault g) w') (hg : ¬ g.NoArity) :
    ∃ c ∈ p.calls, ∃ w₁, p.Comes fuel w c.node w₁ ∧ c.node.Overfills fuel w₁ g w' := by
  have hne : p ≠ [] := by
    rintro rfl
    cases h
    exact hg trivial
  obtain ⟨c, hc, w₁, hfails⟩ := Program.exists_failsAt hp hne hw h
  obtain ⟨hstated, hw₁⟩ := hfails.comes.sound hp hw
  have hreadable := hstated.readable hfails.raises.isCall
  exact ⟨c, hc, w₁, hfails.comes, hfails.raises.overfills hreadable hw₁ hg⟩

/-- Crashes if a function is given more operands than it takes, and else applies it. -/
def checked (call : Builtin.Applier) : Builtin.Applier := fun f args =>
  if f.arity < args.length then .crash "too many operands" else call f args

/-- Applies a function as `apply` does, with all applications further in checked. -/
def applyChecked : Nat → Builtin.Applier
  | 0, _, _ => throw .outOfFuel
  | fuel + 1, fn, args => applyOnce (checked (applyChecked fuel)) fn args

theorem checked_applies {call : Builtin.Applier} (h : Builtin.Applies call) :
    Builtin.Applies (checked call) := by
  intro f args hf hm hlen
  unfold checked
  rw [if_neg (by omega)]
  exact h f args hf hm hlen

theorem applyChecked_applies : ∀ fuel : Nat, Builtin.Applies (applyChecked fuel)
  | 0 => fun _ _ _ _ _ => .throw trivial
  | fuel + 1 => applyOnce_applies (checked_applies (applyChecked_applies fuel))

/-- What a world is like in which functions take one operand or two, and in which only the calls
in a program can give them more than they take. -/
structure World.Orderly (w : World) : Prop where
  values : ∀ v, w.Has v → v.Made
  arities : ∀ v f, w.Has v → (Value.func f).Within v → f.arity = 1 ∨ f.arity = 2
  /-- A program that stops at a fault of too many operands stops at the call that gives them. -/
  programs : ∀ file src p fuel, Program.read file src = .ok p →
    match p.eval fuel w with
    | .ok v _ => v.Made ∧ ∀ f, (Value.func f).Within v → f.arity = 1 ∨ f.arity = 2
    | .error s w' => ∀ g, s = .fault g → ¬ g.NoArity →
      ∃ c ∈ p.calls, ∃ w₁, p.Comes fuel w c.node w₁ ∧ c.node.Overfills fuel w₁ g w'
  /-- An application of a function to no more operands than it takes does not come to that fault,
  and no application further in, on any level, is given too many. -/
  applications : ∀ fuel f args, f.Made → (∀ v ∈ args, v.Made) → args.length ≤ f.arity →
    (∀ g w', apply fuel f args w = .error (.fault g) w' → g.NoArity) ∧
    ∀ message w', applyChecked fuel f args w ≠ .error (.crash message) w'

/-- Every world that can be reached is orderly. -/
theorem World.Reachable.arity_faults {w : World} (h : w.Reachable) : w.Orderly := by
  have hw := h.sound
  refine ⟨fun v hv => hw.has hv, fun v f hv hf => ((hw.has hv).within hf).arity, ?_, ?_⟩
  · intro file src p fuel hp
    have hstated := Program.stated_of_read hp
    rcases hr : p.eval fuel w with ⟨v, w'⟩ | ⟨s, w'⟩
    · have hv := ((Program.eval_safe fuel hstated).of_ok hw hr).2
      exact ⟨hv, fun f hf => (hv.within hf).arity⟩
    · rintro g rfl hg
      exact Program.explains hstated hw hr hg
  · intro fuel f args hf hm hlen
    refine ⟨fun g w' he => ((apply_applies fuel f args hf hm hlen).of_error hw he).2, ?_⟩
    exact fun message w' he => ((applyChecked_applies fuel f args hf hm hlen).of_error hw he).2

/-- The program `"a" length "b"`. -/
def overfullProgram : Program :=
  [.named "length" (some (.literal (.str "a") (some ⟨[], 0, 1, 1⟩)))
    (some (.literal (.str "b") (some ⟨[], 11, 1, 12⟩))) (some ⟨[], 4, 1, 5⟩)]

theorem read_overfullProgram :
    Program.read [] ("\"a\" length \"b\"" : Text) = .ok overfullProgram := by
  set_option maxRecDepth 4000 in
  cbv

theorem World.Reachable.arity_faults_length :
    (World.initial .empty).Reachable ∧ ∃ g w',
      overfullProgram.eval 1 (World.initial .empty) = .error (.fault g) w' ∧ ¬ g.NoArity ∧
      ∃ c ∈ overfullProgram.calls, ∃ w₁, overfullProgram.Comes 1 (World.initial .empty) c.node w₁ ∧
        c.node.Overfills 1 w₁ g w' := by
  have hreach : (World.initial .empty).Reachable := .start rfl rfl
  have hprograms := (World.Reachable.arity_faults hreach).programs _ _ _ 1 read_overfullProgram
  exact ⟨hreach, _, _, rfl, id, hprograms _ rfl id⟩

end Tacit
