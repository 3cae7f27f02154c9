import Tacit.Proofs.Raising

/-!
# Faults are placed at the call that raised them

An application comes to faults that no call has placed yet, however deep in it they arise: none
further in is placed either, as only the calls in the text of a program give places. The call that
applied puts its own place into the fault, and what encloses it leaves that alone. So a program
that fails does so with a fault at the place of the one call that stopped by itself
(`Reachable.faults_placed`).
-/

namespace Tacit

/-- The conditions of faults that evaluation can stop at. -/
def Condition.runtime : List Condition :=
  [.unboundName, .notCallable, .arityError, .typeMismatch, .builtinError]

namespace Fault

/-- A fault that no call has placed yet, and that takes the place of the call which applied. -/
structure Unplaced (f : Fault) : Prop where
  place : f.place? = none
  placedAt : ∀ l, f.placedAt (some l) = f.withPlace l
  withPlace : ∀ l, (f.withPlace l).place? = some l
  condition : ∃ c ∈ Condition.runtime, c ≠ .unboundName ∧ ∀ l, (f.withPlace l).condition? = some c

theorem Raw.unplaced {f : Fault} (h : f.Raw) : f.Unplaced := by
  unfold Raw at h
  split at h
  · exact ⟨rfl, fun _ => rfl, fun _ => rfl, .typeMismatch, by decide, by decide, fun _ => rfl⟩
  · exact ⟨rfl, fun _ => rfl, fun _ => rfl, .builtinError, by decide, by decide, fun _ => rfl⟩
  · exact h.elim

theorem unplaced_arity (fn : Text) (takes received : Int) :
    (arity none fn takes received).Unplaced :=
  ⟨rfl, fun _ => rfl, fun _ => rfl, .arityError, by decide, by decide, fun _ => rfl⟩

theorem noArity_withPlace (l : Location) {f : Fault} (h : f.NoArity) : (f.withPlace l).NoArity := by
  cases f <;> exact h

end Fault

/-- An application stops at the fault of too many operands at once, or at a raw fault. -/
theorem raw_of_apply {fuel : Nat} {f : Function} (hf : f.Made) {args : List Value}
    (hm : ∀ v ∈ args, v.Made) {w w' : World} (hw : w.Sound) {g : Fault}
    (h : apply fuel f args w = .error (.fault g) w') :
    g.Raw ∨ f.arity < args.length ∧ w' = w ∧ g = .arity none f.text f.arity args.length := by
  by_cases hlen : args.length ≤ f.arity
  · exact .inl ((apply_raw fuel f args hf hm hlen).of_error hw h).2
  · have hlt : f.arity < args.length := by omega
    cases fuel with
    | zero => cases h
    | succ fuel =>
      unfold apply applyOnce at h
      rw [if_pos hlt] at h
      cases h
      exact .inr ⟨hlt, rfl, rfl⟩

theorem unplaced_of_apply {fuel : Nat} {f : Function} (hf : f.Made) {args : List Value}
    (hm : ∀ v ∈ args, v.Made) {w w' : World} (hw : w.Sound) {g : Fault}
    (h : apply fuel f args w = .error (.fault g) w') : g.Unplaced := by
  rcases raw_of_apply hf hm hw h with hraw | ⟨-, -, rfl⟩
  · exact hraw.unplaced
  · exact Fault.unplaced_arity ..

namespace Expr

variable {fuel : Nat} {w w' : World}

theorem Readable.place {e : Expr} (h : e.Readable) : ∃ l, e.place? = some l := by
  cases h <;> exact ⟨_, rfl⟩

theorem Readable.lhs {e a : Expr} (h : e.Readable) (ha : e.lhs? = some a) : a.Readable := by
  cases h <;> simp_all [lhs?]

theorem Readable.rhs {e b : Expr} (h : e.Readable) (hb : e.rhs? = some b) : b.Readable := by
  cases h <;> simp_all [rhs?]

theorem Readable.callee {e : Expr} (h : e.Readable) (hw : w.Sound) {f : Function}
    (hf : e.Callee fuel w f w') : f.Made ∧ w'.Sound := by
  cases hf with
  | named hf => exact ⟨hw.get? hf, hw⟩
  | called hf =>
    cases h with
    | called hc _ _ l => exact ((hc.eval_safe fuel).of_ok hw hf).symm

theorem Readable.operands {e : Expr} (h : e.Readable) (hw : w.Sound) {vs : List Value}
    (ho : e.operands fuel w = .ok vs w') : (∀ v ∈ vs, v.Made) ∧ w'.Sound :=
  ((evalOperands_safe fuel (fun _ ha => (h.lhs ha).eval_safe fuel)
    fun _ hb => (h.rhs hb).eval_safe fuel).of_ok hw ho).symm

/-- What is entered is readable, and the world is sound then. -/
theorem Enters.sound {e c : Expr} (h : e.Enters fuel w c w') (he : e.Stated) (hw : w.Sound) :
    c.Readable ∧ w'.Sound := by
  cases he with
  | assign hn he l =>
    cases h with
    | body => exact ⟨he, hw⟩
    | lhs hf _ | rhs hf _ _ => cases hf
  | expr he =>
    cases h with
    | body => cases he
    | member h =>
      cases he with
      | array hms l =>
        have hbefore := evalAll_safe fuel fun d hd =>
          (hms d (List.mem_append_left _ hd)).eval_safe fuel
        exact ⟨hms c (by simp), (hbefore.of_ok hw h).1⟩
    | callee =>
      cases he with
      | called hc _ _ l => exact ⟨hc, hw⟩
    | lhs hf ha => exact ⟨he.lhs ha, (he.callee hw hf).2⟩
    | rhs hf hl hb =>
      have hleft := evalOperand_safe fuel fun a ha => (he.lhs ha).eval_safe fuel
      exact ⟨he.rhs hb, (hleft.of_ok (he.callee hw hf).2 hl).1⟩

theorem Comes.sound {e n : Expr} (h : e.Comes fuel w n w') (he : e.Stated) (hw : w.Sound) :
    n.Stated ∧ w'.Sound := by
  induction h using Comes.induct with
  | self => exact ⟨he, hw⟩
  | step hc _ ih =>
    obtain ⟨hc, hw⟩ := hc.sound he hw
    exact ih (.expr hc) hw

theorem Stated.readable {e : Expr} (h : e.Stated) (hcall : e.isCall = true) : e.Readable := by
  cases h with
  | expr h => exact h
  | assign => cases hcall

/-- A call places the fault that it stops at by itself. The fault that an application came to had
no place before. -/
structure Places (fuel : Nat) (n : Expr) (w : World) (g : Fault) (w' : World) : Prop where
  place : ∃ l, n.place? = some l ∧ g.place? = some l
  condition : ∃ c ∈ Condition.runtime, g.condition? = some c
  applied : ∀ f args w₁ w₂ g₀, n.Callee fuel w f w₁ → n.operands fuel w₁ = .ok args w₂ →
    apply fuel f args w₂ = .error (.fault g₀) w' →
      g₀.place? = none ∧ ∀ l ∈ n.place?, g = g₀.withPlace l

/-- A call that raises a fault by itself gives it its place: the fault is that of the one
application that the call can make. -/
theorem Raises.places {n : Expr} {g : Fault} (h : n.Raises fuel w (.fault g) w') (hn : n.Readable)
    (hw : w.Sound) : n.Places fuel w g w' := by
  obtain ⟨l, hl⟩ := hn.place
  cases h with
  | @unbound name lhs rhs place _ h =>
    refine ⟨⟨l, hl, hl⟩, ⟨.unboundName, by simp [Condition.runtime], rfl⟩, ?_⟩
    intro f args w₁ w₂ g₀ hf
    cases hf with
    | named hf => cases h.symm.trans hf
  | @notCallable _ name v _ _ h hv ho =>
    refine ⟨⟨l, hl, hl⟩, ⟨.notCallable, by simp [Condition.runtime], rfl⟩, ?_⟩
    intro f args w₁ w₂ g₀ hf
    obtain ⟨_, hf⟩ := hf.finds
    exact absurd (h.unique hf).1 (hv f)
  | applied hf ha h =>
    obtain ⟨g₀, hg₀, rfl⟩ := EvalIn.locating_eq_fault h
    obtain ⟨hmade, hw₁⟩ := hn.callee hw hf
    obtain ⟨hargs, hw₂⟩ := hn.operands hw₁ ha
    have hunplaced := unplaced_of_apply hmade hargs hw₂ hg₀
    obtain ⟨c, hc, -, hcond⟩ := hunplaced.condition
    rw [hl, hunplaced.placedAt l]
    refine ⟨⟨l, hl, hunplaced.withPlace l⟩, ⟨c, hc, hcond l⟩, ?_⟩
    intro f' args' u₁ u₂ g₁ hf' ha' h'
    obtain ⟨rfl, rfl⟩ := hf.unique hf'
    cases ha.symm.trans ha'
    cases hg₀.symm.trans h'
    refine ⟨hunplaced.place, fun l' hl' => ?_⟩
    cases hl.symm.trans hl'
    rfl

/-- A call that stops at a name that is not bound has looked it up. -/
theorem Raises.of_unbound {n : Expr} {place : Option Location} {name : Text}
    (h : n.Raises fuel w (.fault (.unbound place name)) w') (hn : n.Readable) (hw : w.Sound) :
    n.calleeName? = some name ∧ n.place? = place ∧ w.names.get? name = none := by
  cases h with
  | unbound h => exact ⟨rfl, rfl, h⟩
  | applied hf ha h =>
    obtain ⟨g₀, hg₀, hg⟩ := EvalIn.locating_eq_fault h
    obtain ⟨l, hl⟩ := hn.place
    obtain ⟨hmade, hw₁⟩ := hn.callee hw hf
    obtain ⟨hargs, hw₂⟩ := hn.operands hw₁ ha
    have hunplaced := unplaced_of_apply hmade hargs hw₂ hg₀
    obtain ⟨c, -, hne, hcond⟩ := hunplaced.condition
    have hunbound := hcond l
    rw [← hunplaced.placedAt l, ← hl, ← hg] at hunbound
    exact absurd (Option.some.inj hunbound).symm hne

end Expr

namespace Program

variable {fuel : Nat} {w w' : World}

theorem Comes.sound {p : Program} {n : Expr} (h : p.Comes fuel w n w') (hp : ∀ e ∈ p, e.Stated)
    (hw : w.Sound) : n.Stated ∧ w'.Sound := by
  obtain ⟨before, e, after, vs, w₁, rfl, hvs, h⟩ := h
  have hbefore := Expr.evalAll_safe fuel fun d hd =>
    (hp d (List.mem_append_left _ hd)).eval_safe fuel
  exact h.sound (hp e (by simp)) (hbefore.of_ok hw hvs).1

/-- How a program fails at one of its calls. -/
structure FailsAt (fuel : Nat) (p : Program) (w : World) (g : Fault) (w' : World) (n : Expr)
    (w₁ : World) : Prop where
  /-- The run comes to the call. -/
  comes : p.Comes fuel w n w₁
  /-- The call stops by itself: it finds no function to apply, or the application fails. -/
  raises : n.Raises fuel w₁ (.fault g) w'
  /-- All that the call has evaluated gave values. -/
  parts : ∀ c w₂, n.Enters fuel w₁ c w₂ → ∃ v w₃, c.eval fuel w₂ = .ok v w₃
  places : n.Places fuel w₁ g w'
  /-- All that encloses the call fails with the very same fault. -/
  around : ∀ m w₂, p.Comes fuel w m w₂ → m.Comes fuel w₂ n w₁ →
    m.eval fuel w₂ = .error (.fault g) w'
  /-- No other call stops by itself. -/
  only : ∀ m w₂ s u, p.Comes fuel w m w₂ → m.Raises fuel w₂ s u → m = n ∧ w₂ = w₁

/-- A program that stops at a fault fails at a call of its own. -/
theorem exists_failsAt {p : Program} (hp : ∀ e ∈ p, e.Stated) (hne : p ≠ []) (hw : w.Sound)
    {g : Fault} (h : p.eval fuel w = .error (.fault g) w') :
    ∃ c ∈ p.calls, ∃ w₁, p.FailsAt fuel w g w' c.node w₁ := by
  obtain ⟨n, w₁, hn, hr⟩ := exists_raises hne h
  obtain ⟨c, hc, rfl⟩ := hn.mem_calls hr.isCall
  obtain ⟨hstated, hw₁⟩ := hn.sound hp hw
  have hplaces := hr.places (hstated.readable hr.isCall) hw₁
  refine ⟨c, hc, w₁, hn, hr, fun _ _ => hr.parts, hplaces, ?_, ?_⟩
  · exact fun m w₂ _ hm => hm.eval_eq hr.eval_eq
  · exact fun m w₂ s u hm hr' => hn.raises_unique hr hm hr'

end Program

/-- In every world that can be reached, a program that does not give a value, and is not given up,
fails with a fault of a call in it, at the place of that call. -/
theorem World.Reachable.faults_placed {w : World} (h : w.Reachable) {file src : Text} {p : Program}
    (hp : Program.read file src = .ok p) (hne : p ≠ []) {fuel : Nat} {s : Stop} {w' : World}
    (he : p.eval fuel w = .error s w') (hs : s ≠ .outOfFuel) :
    ∃ g, s = .fault g ∧ ∃ c ∈ p.calls, ∃ w₁, p.FailsAt fuel w g w' c.node w₁ := by
  have hstated := Program.stated_of_read hp
  cases s with
  | fault g => exact ⟨g, rfl, Program.exists_failsAt hstated hne h.sound he⟩
  | crash m => exact (((Program.eval_safe fuel hstated).of_error h.sound he).2).elim
  | outOfFuel => exact absurd rfl hs

/-- The program `x <- [["a"] map sum]`, in which `sum` is given what is no array. -/
def sumProgram : Program :=
  [.assign "x" (.array [.named "map"
    (some (.array [.literal (.str "a") (some ⟨[], 7, 1, 8⟩)] (some ⟨[], 6, 1, 7⟩)))
    (some (.named "sum" none none (some ⟨[], 16, 1, 17⟩))) (some ⟨[], 12, 1, 13⟩)]
    (some ⟨[], 5, 1, 6⟩)) (some ⟨[], 0, 1, 1⟩)]

theorem read_sumProgram : Program.read [] ("x <- [[\"a\"] map sum]" : Text) = .ok sumProgram := by
  set_option maxRecDepth 8000 in
  cbv

theorem World.Reachable.faults_placed_map : (World.initial .empty).Reachable ∧ ∃ g w',
    sumProgram.eval 2 (World.initial .empty) = .error (.fault g) w' ∧
    g.condition? = some .typeMismatch ∧ g.place? = some ⟨[], 12, 1, 13⟩ ∧
    ∃ c ∈ sumProgram.calls, ∃ w₁,
      sumProgram.FailsAt 2 (World.initial .empty) g w' c.node w₁ := by
  have hreach : (World.initial .empty).Reachable := .start rfl rfl
  have heval : sumProgram.eval 2 (World.initial .empty) = .error _ _ := rfl
  refine ⟨hreach, _, _, heval, rfl, rfl, ?_⟩
  obtain ⟨g, hg, hfails⟩ := World.Reachable.faults_placed hreach read_sumProgram nofun heval nofun
  cases hg
  exact hfails

end Tacit
