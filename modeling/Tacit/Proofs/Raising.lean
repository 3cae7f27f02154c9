import Tacit.Proofs.Entering

/-!
# Where a run stops

A run of an expression that gives no value either stops at a part that it has just begun to
evaluate, or it stops by itself (`eval_eq_error_iff`). By itself only a call stops: its name is not
bound, its callee is no function, or its application stops (`Raises`). So every run that stops comes
to one such call (`exists_raises`). All that this call has evaluated gave values, all that encloses
it stops in the same way, and there is no other like it (`Comes.raises_unique`).
-/

namespace Tacit

namespace Expr

variable (fuel : Nat)

/-- A call stops by itself: the name is not bound, operands are given to what is no function, or
the application stops when the callee and the operands are known. -/
inductive Raises : Expr → World → Stop → World → Prop where
  | unbound {name : Text} {lhs rhs : Option Expr} {place : Option Location} {w : World}
      (h : w.names.get? name = none) :
      Raises (.named name lhs rhs place) w (.fault (.unbound place name)) w
  | notCallable {e : Expr} {name : Text} {v : Value} {w w₁ : World} (h : Finds fuel e w name v w₁)
      (hv : ∀ f, v ≠ .func f) (ho : e.operandCount ≠ 0) :
      Raises e w (.fault (.notCallable e.place? name v.type)) w₁
  | applied {e : Expr} {f : Function} {args : List Value} {s : Stop} {w w₁ w₂ w' : World}
      (hf : Callee fuel e w f w₁) (ha : e.operands fuel w₁ = .ok args w₂)
      (h : EvalIn.locating e.place? (apply fuel f args) w₂ = .error s w') : Raises e w s w'

variable {fuel} {w w' : World} {s : Stop}

theorem Raises.isCall {e : Expr} (h : e.Raises fuel w s w') : e.isCall = true := by
  cases h with
  | unbound => rfl
  | notCallable h => exact h.isCall
  | applied hf =>
    obtain ⟨_, h⟩ := hf.finds
    exact h.isCall

theorem Raises.eval_eq {e : Expr} (h : e.Raises fuel w s w') : e.eval fuel w = .error s w' := by
  cases h with
  | unbound h => exact eval_of_unbound h
  | notCallable h hv ho => rw [h.eval_of_not_func hv, if_pos ho]
  | applied hf ha h => rw [hf.eval_of_ok ha, h]

theorem Finds.stops {e : Expr} {name : Text} {v : Value} {w₁ : World}
    (h : e.Finds fuel w name v w₁) (he : e.eval fuel w = .error s w') :
    (∃ c w₂, e.Enters fuel w c w₂ ∧ c.eval fuel w₂ = .error s w') ∨ e.Raises fuel w s w' := by
  by_cases hv : ∃ f, v = .func f
  · obtain ⟨f, rfl⟩ := hv
    have hf := h.callee
    rw [hf.eval_eq] at he
    rcases EvalIn.bind_eq_error he with ho | ⟨args, w₂, ho, ha⟩
    · exact .inl (hf.enters_of_operands ho)
    · exact .inr (.applied hf ho ha)
  · have hv : ∀ f, v ≠ .func f := fun f hf => hv ⟨f, hf⟩
    rw [h.eval_of_not_func hv] at he
    split_ifs at he with ho
    · cases he
      exact .inr (.notCallable h hv ho)

/-- An expression stops at a part that it has begun to evaluate, or by itself. -/
theorem eval_eq_error_iff {e : Expr} : e.eval fuel w = .error s w' ↔
    (∃ c w₁, e.Enters fuel w c w₁ ∧ c.eval fuel w₁ = .error s w') ∨ e.Raises fuel w s w' := by
  constructor
  · intro h
    cases e with
    | literal v place =>
      unfold Expr.eval at h
      cases h
    | array ms place =>
      unfold Expr.eval at h
      rcases EvalIn.bind_eq_error h with h | ⟨vs, w₁, -, h⟩
      · obtain ⟨before, m, after, vs, w₁, rfl, hvs, hm⟩ := evalAll_eq_error h
        exact .inl ⟨m, w₁, .member hvs, hm⟩
      · cases h
    | assign name body place =>
      unfold Expr.eval at h
      rcases EvalIn.bind_eq_error h with h | ⟨v, w₁, -, h⟩
      · exact .inl ⟨body, w, .body, h⟩
      · cases h
    | named name lhs rhs place =>
      rcases hv : w.names.get? name with _ | v
      · rw [eval_of_unbound hv] at h
        cases h
        exact .inr (.unbound hv)
      · exact Finds.stops (.named hv) h
    | called c lhs rhs place =>
      rcases hv : c.eval fuel w with ⟨v, w₁⟩ | ⟨t, w₁⟩
      · exact Finds.stops (.called hv) h
      · have hc : (Expr.called c lhs rhs place).eval fuel w = .error t w₁ :=
          Enters.eval_eq .callee hv
        cases hc.symm.trans h
        exact .inl ⟨c, w, .callee, hv⟩
  · rintro (⟨c, w₁, hc, h⟩ | h)
    · exact hc.eval_eq h
    · exact h.eval_eq

/-- Every run that stops comes to a call that stops by itself. -/
theorem exists_raises : ∀ (e : Expr) {w : World}, e.eval fuel w = .error s w' →
    ∃ n w₁, e.Comes fuel w n w₁ ∧ n.Raises fuel w₁ s w' := by
  refine induct fun e ih => ?_
  intro w h
  rcases eval_eq_error_iff.1 h with ⟨c, w₁, hc, h⟩ | h
  · obtain ⟨n, w₂, hn, hr⟩ := ih c hc.mem_children h
    exact ⟨n, w₂, hc.comes hn, hr⟩
  · exact ⟨e, w, .self e w, h⟩

/-- All that a call which stops by itself has evaluated gave values. -/
theorem Raises.parts {e c : Expr} {w₁ : World} (h : e.Raises fuel w s w')
    (hc : e.Enters fuel w c w₁) : ∃ v w₂, c.eval fuel w₁ = .ok v w₂ := by
  cases h with
  | unbound h =>
    cases hc with
    | lhs hf _ | rhs hf _ _ =>
      cases hf with
      | named hf => cases h.symm.trans hf
  | notCallable h hv ho =>
    have hno : ∀ {f : Function} {u : World}, ¬ e.Callee fuel w f u := by
      intro f u hf
      obtain ⟨_, hf⟩ := hf.finds
      exact hv f (h.unique hf).1
    cases hc with
    | member | body => cases h
    | callee =>
      cases h with
      | called h => exact ⟨_, _, h⟩
    | lhs hf _ | rhs hf _ _ => exact absurd hf hno
  | applied hf ha h =>
    obtain ⟨us, ts, w₃, hus, hts, -⟩ := operands_eq_ok ha
    cases hc with
    | member | body => cases hf
    | callee =>
      cases hf with
      | called hf => exact ⟨_, _, hf⟩
    | lhs hf' ha' =>
      obtain ⟨-, rfl⟩ := hf.unique hf'
      rw [ha'] at hus
      obtain ⟨v, hv, -⟩ := evalOperand_some_eq_ok hus
      exact ⟨v, _, hv⟩
    | rhs hf' hl' hb' =>
      obtain ⟨-, rfl⟩ := hf.unique hf'
      cases hus.symm.trans hl'
      rw [hb'] at hts
      obtain ⟨v, hv, -⟩ := evalOperand_some_eq_ok hts
      exact ⟨v, _, hv⟩

/-- There is only one call that a run comes to and that stops by itself. -/
theorem Comes.raises_unique {e n m : Expr} {t : Stop} {u u' w₁ w₂ : World}
    (hn : e.Comes fuel w n w₁) (hr : n.Raises fuel w₁ s u) (hm : e.Comes fuel w m w₂)
    (hr' : m.Raises fuel w₂ t u') : m = n ∧ w₂ = w₁ := by
  induction hn using Comes.induct with
  | self =>
    rcases hm.cases_enters with h | ⟨c, w₃, hc, hm⟩
    · exact h
    · obtain ⟨v, w₄, hv⟩ := hr.parts hc
      cases hv.symm.trans (hm.eval_eq hr'.eval_eq)
  | step hc hn ih =>
    have hstop := hn.eval_eq hr.eval_eq
    rcases hm.cases_enters with ⟨rfl, rfl⟩ | ⟨c', w₄, hc', hm⟩
    · obtain ⟨v, w₅, hv⟩ := hr'.parts hc
      cases hv.symm.trans hstop
    · obtain ⟨rfl, rfl⟩ := hc.unique hc' hstop (hm.eval_eq hr'.eval_eq)
      exact ih hm

end Expr

namespace Program

/-- Evaluating a program comes to evaluate a part of it in some world. -/
def Comes (fuel : Nat) (p : Program) (w : World) (n : Expr) (w' : World) : Prop :=
  ∃ before e after vs w₁, p = before ++ e :: after ∧ Expr.evalAll fuel before w = .ok vs w₁ ∧
    e.Comes fuel w₁ n w'

variable {fuel : Nat} {w w' : World} {s : Stop}

theorem evalFrom_eq_error_iff : ∀ {p : Program} {v : Value} {w : World},
    evalFrom fuel v p w = .error s w' ↔ Expr.evalAll fuel p w = .error s w'
  | [], v, w => by
    unfold evalFrom Expr.evalAll
    constructor <;> intro h <;> cases h
  | e :: p, v, w => by
    unfold evalFrom Expr.evalAll
    rcases he : e.eval fuel w with ⟨u, w₁⟩ | ⟨t, w₁⟩
    · rw [EvalIn.bind_of_ok he, EvalIn.bind_of_ok he, evalFrom_eq_error_iff]
      refine ⟨EvalIn.bind_of_error, fun h => ?_⟩
      rcases EvalIn.bind_eq_error h with h | ⟨vs, w₂, -, h⟩
      · exact h
      · cases h
    · rw [EvalIn.bind_of_error he, EvalIn.bind_of_error he]
      exact ⟨fun h => by cases h; rfl, fun h => by cases h; rfl⟩

theorem eval_eq_error_iff {p : Program} (hne : p ≠ []) :
    p.eval fuel w = .error s w' ↔ Expr.evalAll fuel p w = .error s w' := by
  cases p with
  | nil => exact absurd rfl hne
  | cons e p =>
    show evalFrom fuel (.str []) (e :: p) w = .error s w' ↔ _
    exact evalFrom_eq_error_iff

theorem exists_raises {p : Program} (hne : p ≠ []) (h : p.eval fuel w = .error s w') :
    ∃ n w₁, p.Comes fuel w n w₁ ∧ n.Raises fuel w₁ s w' := by
  obtain ⟨before, e, after, vs, w₁, rfl, hvs, he⟩ :=
    Expr.evalAll_eq_error ((eval_eq_error_iff hne).1 h)
  obtain ⟨n, w₂, hn, hr⟩ := e.exists_raises he
  exact ⟨n, w₂, ⟨before, e, after, vs, w₁, rfl, hvs, hn⟩, hr⟩

theorem Comes.raises_unique {p : Program} {n m : Expr} {t : Stop} {u u' w₁ w₂ : World}
    (hn : p.Comes fuel w n w₁) (hr : n.Raises fuel w₁ s u) (hm : p.Comes fuel w m w₂)
    (hr' : m.Raises fuel w₂ t u') : m = n ∧ w₂ = w₁ := by
  obtain ⟨before, e, after, vs, w₃, rfl, hvs, hn⟩ := hn
  obtain ⟨before', e', after', vs', w₄, hp, hvs', hm⟩ := hm
  obtain ⟨rfl, rfl⟩ := Expr.evalAll_stop_unique (hn.eval_eq hr.eval_eq) (hm.eval_eq hr'.eval_eq)
    hp hvs hvs'
  exact hn.raises_unique hr hm hr'

theorem Comes.eval_eq {p : Program} {n : Expr} {w₁ : World} (h : p.Comes fuel w n w₁)
    (hn : n.eval fuel w₁ = .error s w') : p.eval fuel w = .error s w' := by
  obtain ⟨before, e, after, vs, w₂, rfl, hvs, h⟩ := h
  rw [eval_eq_error_iff (by simp)]
  exact Expr.evalAll_append_of_error hvs (h.eval_eq hn)

/-- A program that gives a value has come to all its nodes, and they gave values. -/
theorem exists_comes_of_ok {before after : List Expr} {e n : Expr} {v : Value} (hn : n ∈ e.nodes)
    (h : Program.eval fuel (before ++ e :: after) w = .ok v w') :
    ∃ vs w₁ w₂ u w₃, Expr.evalAll fuel before w = .ok vs w₁ ∧ e.Comes fuel w₁ n w₂ ∧
      n.eval fuel w₂ = .ok u w₃ := by
  have hno : ∀ s w₁, Expr.evalAll fuel (before ++ e :: after) w ≠ .error s w₁ := by
    intro s w₁ hs
    cases h.symm.trans ((eval_eq_error_iff (by simp)).2 hs)
  rcases hb : Expr.evalAll fuel before w with ⟨vs, w₁⟩ | ⟨s, w₁⟩
  · rcases he : e.eval fuel w₁ with ⟨u, w₂⟩ | ⟨s, w₂⟩
    · obtain ⟨w₃, t, w₄, hcomes, ht⟩ := e.exists_comes_of_ok hn he
      exact ⟨vs, w₁, w₃, t, w₄, rfl, hcomes, ht⟩
    · exact absurd (Expr.evalAll_append_of_error hb he) (hno s w₂)
  · obtain ⟨before', d, after', us, w₂, rfl, hus, hd⟩ := Expr.evalAll_eq_error hb
    rw [List.append_assoc] at hno
    exact absurd (Expr.evalAll_append_of_error hus hd) (hno s w₁)

/-- A call that a program comes to is one of its calls. -/
theorem Comes.mem_calls {p : Program} {n : Expr} (h : p.Comes fuel w n w') (hn : n.isCall = true) :
    ∃ c ∈ p.calls, c.node = n := by
  obtain ⟨before, e, after, vs, w₁, rfl, -, h⟩ := h
  have hmem : n ∈ (visits (before ++ e :: after)).map (·.node) := by
    rw [map_node_visits]
    exact List.mem_flatMap.2 ⟨e, by simp, h.mem_nodes⟩
  obtain ⟨c, hc, rfl⟩ := List.mem_map.1 hmem
  exact ⟨c, List.mem_filter.2 ⟨hc, hn⟩, rfl⟩

end Program

end Tacit
