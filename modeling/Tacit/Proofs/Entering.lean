import Tacit.Proofs.Running
import Tacit.Proofs.Safety

/-!
# The parts of an expression that a run comes to

Evaluating an expression begins to evaluate some of its direct parts, one after the other
(`Enters`), and so comes to parts further in (`Comes`). A part that stops is the last that was
begun, and the expression stops as it does (`Enters.unique`, `Comes.eval_eq`). An expression that
gives a value has come to all its parts (`exists_comes_of_ok`).
-/

namespace Tacit

namespace Expr

/-- The operand on the left of a call. -/
def lhs? : Expr → Option Expr
  | named _ lhs _ _ | called _ lhs _ _ => lhs
  | _ => none

/-- The operand on the right of a call. -/
def rhs? : Expr → Option Expr
  | named _ _ rhs _ | called _ _ rhs _ => rhs
  | _ => none

variable (fuel : Nat)

/-- The operands of a call. -/
def operands (e : Expr) : Eval (List Value) := do
  return (← evalOperand fuel e.lhs?) ++ (← evalOperand fuel e.rhs?)

/-- What a call finds as its callee, with how messages call it and the world in which it is
known. -/
inductive Finds : Expr → World → Text → Value → World → Prop where
  | named {name : Text} {lhs rhs : Option Expr} {place : Option Location} {w : World} {v : Value}
      (h : w.names.get? name = some v) : Finds (.named name lhs rhs place) w name v w
  | called {c : Expr} {lhs rhs : Option Expr} {place : Option Location} {w w₁ : World} {v : Value}
      (h : c.eval fuel w = .ok v w₁) : Finds (.called c lhs rhs place) w c.calleeSource v w₁

/-- The function that a call gives its operands to, and the world in which it is known. -/
inductive Callee : Expr → World → Function → World → Prop where
  | named {name : Text} {lhs rhs : Option Expr} {place : Option Location} {w : World} {f : Function}
      (h : w.names.get? name = some (.func f)) : Callee (.named name lhs rhs place) w f w
  | called {c : Expr} {lhs rhs : Option Expr} {place : Option Location} {w w₁ : World}
      {f : Function} (h : c.eval fuel w = .ok (.func f) w₁) :
      Callee (.called c lhs rhs place) w f w₁

/-- Evaluating an expression begins to evaluate a direct part of it in some world. -/
inductive Enters : Expr → World → Expr → World → Prop where
  | member {before after : List Expr} {e : Expr} {place : Option Location} {w w₁ : World}
      {vs : List Value} (h : evalAll fuel before w = .ok vs w₁) :
      Enters (.array (before ++ e :: after) place) w e w₁
  | body {name : Text} {e : Expr} {place : Option Location} {w : World} :
      Enters (.assign name e place) w e w
  | callee {c : Expr} {lhs rhs : Option Expr} {place : Option Location} {w : World} :
      Enters (.called c lhs rhs place) w c w
  | lhs {e a : Expr} {f : Function} {w w₁ : World} (hf : Callee fuel e w f w₁)
      (ha : e.lhs? = some a) : Enters e w a w₁
  | rhs {e b : Expr} {f : Function} {vs : List Value} {w w₁ w₂ : World}
      (hf : Callee fuel e w f w₁) (hl : evalOperand fuel e.lhs? w₁ = .ok vs w₂)
      (hb : e.rhs? = some b) : Enters e w b w₂

/-- Evaluating an expression comes to evaluate a part of it in some world. -/
inductive Comes : Expr → World → Expr → World → Prop where
  | self (e : Expr) (w : World) : Comes e w e w
  | member {before after : List Expr} {e n : Expr} {place : Option Location} {w w₁ w₂ : World}
      {vs : List Value} (h : evalAll fuel before w = .ok vs w₁) (hn : Comes e w₁ n w₂) :
      Comes (.array (before ++ e :: after) place) w n w₂
  | body {name : Text} {e n : Expr} {place : Option Location} {w w₁ : World}
      (hn : Comes e w n w₁) : Comes (.assign name e place) w n w₁
  | callee {c n : Expr} {lhs rhs : Option Expr} {place : Option Location} {w w₁ : World}
      (hn : Comes c w n w₁) : Comes (.called c lhs rhs place) w n w₁
  | lhs {e a n : Expr} {f : Function} {w w₁ w₂ : World} (hf : Callee fuel e w f w₁)
      (ha : e.lhs? = some a) (hn : Comes a w₁ n w₂) : Comes e w n w₂
  | rhs {e b n : Expr} {f : Function} {vs : List Value} {w w₁ w₂ w₃ : World}
      (hf : Callee fuel e w f w₁) (hl : evalOperand fuel e.lhs? w₁ = .ok vs w₂)
      (hb : e.rhs? = some b) (hn : Comes b w₂ n w₃) : Comes e w n w₃

variable {fuel} {w w' : World} {s : Stop}

theorem Enters.comes {e c n : Expr} {w₁ w₂ : World} (h : e.Enters fuel w c w₁)
    (hn : c.Comes fuel w₁ n w₂) : e.Comes fuel w n w₂ := by
  cases h with
  | member h => exact .member h hn
  | body => exact .body hn
  | callee => exact .callee hn
  | lhs hf ha => exact .lhs hf ha hn
  | rhs hf hl hb => exact .rhs hf hl hb hn

/-- A part that is come to is the expression itself, or lies in a direct part. -/
theorem Comes.cases_enters {e n : Expr} (h : e.Comes fuel w n w') :
    n = e ∧ w' = w ∨ ∃ c w₁, e.Enters fuel w c w₁ ∧ c.Comes fuel w₁ n w' := by
  cases h with
  | self => exact .inl ⟨rfl, rfl⟩
  | member h hn => exact .inr ⟨_, _, .member h, hn⟩
  | body hn => exact .inr ⟨_, _, .body, hn⟩
  | callee hn => exact .inr ⟨_, _, .callee, hn⟩
  | lhs hf ha hn => exact .inr ⟨_, _, .lhs hf ha, hn⟩
  | rhs hf hl hb hn => exact .inr ⟨_, _, .rhs hf hl hb, hn⟩

theorem Enters.mem_children {e c : Expr} (h : e.Enters fuel w c w') : c ∈ e.children := by
  cases h with
  | member | body | callee => simp [children]
  | lhs hf ha => cases hf <;> simp_all [children, lhs?]
  | rhs hf hl hb => cases hf <;> simp_all [children, rhs?]

/-- Induction on the way to a part, from the part outwards. -/
theorem Comes.induct {n : Expr} {w' : World} {P : ∀ e w, e.Comes fuel w n w' → Prop}
    (self : P n w' (.self n w'))
    (step : ∀ {e c : Expr} {w w₁ : World} (hc : e.Enters fuel w c w₁) (hn : c.Comes fuel w₁ n w'),
      P c w₁ hn → P e w (hc.comes hn)) {e : Expr} {w : World} (h : e.Comes fuel w n w') :
    P e w h := by
  induction h with
  | self => exact self
  | member h hn ih => exact step (.member h) hn (ih self step)
  | body hn ih => exact step .body hn (ih self step)
  | callee hn ih => exact step .callee hn (ih self step)
  | lhs hf ha hn ih => exact step (.lhs hf ha) hn (ih self step)
  | rhs hf hl hb hn ih => exact step (.rhs hf hl hb) hn (ih self step)

theorem mem_nodes_of_child {e c n : Expr} (hc : c ∈ e.children) (hn : n ∈ c.nodes) :
    n ∈ e.nodes := by
  rw [nodes_eq]
  exact List.mem_cons_of_mem _ (List.mem_flatMap.2 ⟨c, hc, hn⟩)

/-- What a run comes to is a node of what is run. -/
theorem Comes.mem_nodes {e n : Expr} (h : e.Comes fuel w n w') : n ∈ e.nodes := by
  induction h using Comes.induct with
  | self =>
    rw [nodes_eq]
    exact List.mem_cons_self
  | step hc _ ih => exact mem_nodes_of_child hc.mem_children ih

theorem Callee.finds {e : Expr} {f : Function} (h : e.Callee fuel w f w') :
    ∃ name, e.Finds fuel w name (.func f) w' := by
  cases h with
  | named h => exact ⟨_, .named h⟩
  | called h => exact ⟨_, .called h⟩

theorem Finds.callee {e : Expr} {name : Text} {f : Function}
    (h : e.Finds fuel w name (.func f) w') : e.Callee fuel w f w' := by
  cases h with
  | named h => exact .named h
  | called h => exact .called h

/-- A call has one callee, in one world. -/
theorem Finds.unique {e : Expr} {name name' : Text} {v v' : Value} {w₁ : World}
    (h : e.Finds fuel w name v w₁) (h' : e.Finds fuel w name' v' w') : v = v' ∧ w₁ = w' := by
  cases h with
  | named h =>
    cases h' with
    | named h' => exact ⟨Option.some.inj (h.symm.trans h'), rfl⟩
  | called h =>
    cases h' with
    | called h' =>
      cases h.symm.trans h'
      exact ⟨rfl, rfl⟩

theorem Callee.unique {e : Expr} {f f' : Function} {w₁ : World} (h : e.Callee fuel w f w₁)
    (h' : e.Callee fuel w f' w') : f = f' ∧ w₁ = w' := by
  obtain ⟨_, h⟩ := h.finds
  obtain ⟨_, h'⟩ := h'.finds
  obtain ⟨hf, hw⟩ := h.unique h'
  exact ⟨Value.func.inj hf, hw⟩

theorem Finds.isCall {e : Expr} {name : Text} {v : Value} (h : e.Finds fuel w name v w') :
    e.isCall = true := by
  cases h <;> rfl

theorem evalAll_eq_error : ∀ {es : List Expr} {w : World}, evalAll fuel es w = .error s w' →
    ∃ before e after vs w₁, es = before ++ e :: after ∧ evalAll fuel before w = .ok vs w₁ ∧
      e.eval fuel w₁ = .error s w'
  | [], _, h => by
    unfold evalAll at h
    cases h
  | e :: es, w, h => by
    unfold evalAll at h
    rcases EvalIn.bind_eq_error h with h | ⟨v, w₁, hv, h⟩
    · exact ⟨[], e, es, [], w, rfl, rfl, h⟩
    · rcases EvalIn.bind_eq_error h with h | ⟨vs, w₂, -, h⟩
      · obtain ⟨before, d, after, us, w₂, rfl, hus, hd⟩ := evalAll_eq_error h
        refine ⟨e :: before, d, after, v :: us, w₂, rfl, ?_, hd⟩
        unfold evalAll
        rw [EvalIn.bind_of_ok hv, EvalIn.bind_of_ok hus]
        rfl
      · cases h

theorem evalAll_cons_eq_ok {e : Expr} {es : List Expr} {vs : List Value}
    (h : evalAll fuel (e :: es) w = .ok vs w') :
    ∃ v us w₁, e.eval fuel w = .ok v w₁ ∧ evalAll fuel es w₁ = .ok us w' ∧ vs = v :: us := by
  unfold evalAll at h
  obtain ⟨v, w₁, hv, h⟩ := EvalIn.bind_eq_ok h
  obtain ⟨us, w₂, hus, h⟩ := EvalIn.bind_eq_ok h
  cases h
  exact ⟨v, us, w₁, hv, hus, rfl⟩

theorem evalAll_append_of_error {e : Expr} {after : List Expr} {w₁ : World} : ∀ {before : List Expr}
    {vs : List Value} {w : World}, evalAll fuel before w = .ok vs w₁ →
      e.eval fuel w₁ = .error s w' → evalAll fuel (before ++ e :: after) w = .error s w'
  | [], _, w, h, he => by
    unfold evalAll at h
    cases h
    simp only [List.nil_append]
    unfold evalAll
    exact EvalIn.bind_of_error he
  | d :: before, _, w, h, he => by
    obtain ⟨v, us, w₂, hv, hus, -⟩ := evalAll_cons_eq_ok h
    simp only [List.cons_append]
    unfold evalAll
    rw [EvalIn.bind_of_ok hv]
    exact EvalIn.bind_of_error (evalAll_append_of_error hus he)

/-- Of expressions that are evaluated in order only one stops. -/
theorem evalAll_stop_unique {e e' : Expr} {after after' : List Expr} {t : Stop}
    {u u' w₁ w₂ : World} (he : e.eval fuel w₁ = .error s u) (he' : e'.eval fuel w₂ = .error t u') :
    ∀ {before before' : List Expr} {vs vs' : List Value} {w : World},
      before ++ e :: after = before' ++ e' :: after' → evalAll fuel before w = .ok vs w₁ →
      evalAll fuel before' w = .ok vs' w₂ → e = e' ∧ w₁ = w₂
  | [], [], _, _, _, heq, h, h' => by
    unfold evalAll at h h'
    cases h
    cases h'
    exact ⟨(List.cons.inj heq).1, rfl⟩
  | [], d :: before', _, _, w, heq, h, h' => by
    obtain ⟨v, _, _, hv, -⟩ := evalAll_cons_eq_ok h'
    unfold evalAll at h
    cases h
    rw [(List.cons.inj heq).1, hv] at he
    cases he
  | d :: before, [], _, _, w, heq, h, h' => by
    obtain ⟨v, _, _, hv, -⟩ := evalAll_cons_eq_ok h
    unfold evalAll at h'
    cases h'
    rw [← (List.cons.inj heq).1, hv] at he'
    cases he'
  | d :: before, d' :: before', _, _, w, heq, h, h' => by
    obtain ⟨rfl, htail⟩ := List.cons.inj heq
    obtain ⟨v, _, w₃, hv, hrest, -⟩ := evalAll_cons_eq_ok h
    obtain ⟨v', _, w₄, hv', hrest', -⟩ := evalAll_cons_eq_ok h'
    cases hv.symm.trans hv'
    exact evalAll_stop_unique he he' htail hrest hrest'

theorem length_evalOperand {o : Option Expr} {vs : List Value}
    (h : evalOperand fuel o w = .ok vs w') : vs.length = o.toList.length := by
  cases o with
  | none =>
    unfold evalOperand at h
    cases h
    rfl
  | some e =>
    unfold evalOperand at h
    obtain ⟨v, w₁, -, h⟩ := EvalIn.bind_eq_ok h
    cases h
    rfl

theorem evalOperand_eq_error {o : Option Expr} (h : evalOperand fuel o w = .error s w') :
    ∃ e, o = some e ∧ e.eval fuel w = .error s w' := by
  cases o with
  | none =>
    unfold evalOperand at h
    cases h
  | some e =>
    unfold evalOperand at h
    rcases EvalIn.bind_eq_error h with h | ⟨v, w₁, -, h⟩
    · exact ⟨e, rfl, h⟩
    · cases h

theorem evalOperand_some_eq_ok {e : Expr} {vs : List Value}
    (h : evalOperand fuel (some e) w = .ok vs w') : ∃ v, e.eval fuel w = .ok v w' ∧ vs = [v] := by
  unfold evalOperand at h
  obtain ⟨v, w₁, hv, h⟩ := EvalIn.bind_eq_ok h
  cases h
  exact ⟨v, hv, rfl⟩

theorem evalOperand_of_error {e : Expr} (h : e.eval fuel w = .error s w') :
    evalOperand fuel (some e) w = .error s w' := by
  unfold evalOperand
  exact EvalIn.bind_of_error h

theorem operands_eq_ok {e : Expr} {vs : List Value} (h : e.operands fuel w = .ok vs w') :
    ∃ us ts w₁, evalOperand fuel e.lhs? w = .ok us w₁ ∧ evalOperand fuel e.rhs? w₁ = .ok ts w' ∧
      vs = us ++ ts := by
  obtain ⟨us, w₁, hus, h⟩ := EvalIn.bind_eq_ok h
  obtain ⟨ts, w₂, hts, h⟩ := EvalIn.bind_eq_ok h
  cases h
  exact ⟨us, ts, w₁, hus, hts, rfl⟩

theorem length_operands {e : Expr} {vs : List Value} (h : e.operands fuel w = .ok vs w') :
    vs.length = e.operandCount := by
  obtain ⟨us, ts, w₁, hus, hts, rfl⟩ := operands_eq_ok h
  rw [List.length_append, length_evalOperand hus, length_evalOperand hts]
  cases e <;> rfl

/-- Operands that stop do so at one that the call has begun to evaluate. -/
theorem Callee.enters_of_operands {e : Expr} {f : Function} {w₁ : World}
    (hf : e.Callee fuel w f w₁) (h : e.operands fuel w₁ = .error s w') :
    ∃ c w₂, e.Enters fuel w c w₂ ∧ c.eval fuel w₂ = .error s w' := by
  rcases EvalIn.bind_eq_error h with h | ⟨vs, w₂, hvs, h⟩
  · obtain ⟨a, ha, h⟩ := evalOperand_eq_error h
    exact ⟨a, w₁, .lhs hf ha, h⟩
  · rcases EvalIn.bind_eq_error h with h | ⟨us, w₃, -, h⟩
    · obtain ⟨b, hb, h⟩ := evalOperand_eq_error h
      exact ⟨b, w₂, .rhs hf hvs hb, h⟩
    · cases h

theorem eval_of_unbound {name : Text} {lhs rhs : Option Expr} {place : Option Location}
    (h : w.names.get? name = none) :
    (Expr.named name lhs rhs place).eval fuel w = .error (.fault (.unbound place name)) w := by
  have hget : (get : Eval World) w = .ok w w := rfl
  unfold Expr.eval
  rw [EvalIn.bind_of_ok hget]
  simp only [h]
  rfl

/-- A call that has found its callee calls it. -/
theorem Finds.eval_eq {e : Expr} {name : Text} {v : Value} {w₁ : World}
    (h : e.Finds fuel w name v w₁) : e.eval fuel w
      = v.call fuel name e.place? (e.lhs?.isSome || e.rhs?.isSome) (e.operands fuel) w₁ := by
  cases h with
  | named h =>
    have hget : (get : Eval World) w = .ok w w := rfl
    unfold Expr.eval
    rw [EvalIn.bind_of_ok hget]
    simp only [h]
    rfl
  | called h =>
    unfold Expr.eval
    rw [EvalIn.bind_of_ok h]
    rfl

/-- A call finds its callee, evaluates its operands and applies the one to the others. -/
theorem Callee.eval_eq {e : Expr} {f : Function} {w₁ : World} (h : e.Callee fuel w f w₁) :
    e.eval fuel w
      = (e.operands fuel >>= fun args => .locating e.place? (apply fuel f args)) w₁ := by
  obtain ⟨_, h⟩ := h.finds
  exact h.eval_eq

theorem Callee.eval_of_error {e : Expr} {f : Function} {w₁ : World} (h : e.Callee fuel w f w₁)
    (ho : e.operands fuel w₁ = .error s w') : e.eval fuel w = .error s w' := by
  rw [h.eval_eq]
  exact EvalIn.bind_of_error ho

theorem Callee.eval_of_ok {e : Expr} {f : Function} {w₁ w₂ : World} {args : List Value}
    (h : e.Callee fuel w f w₁) (ho : e.operands fuel w₁ = .ok args w₂) :
    e.eval fuel w = EvalIn.locating e.place? (apply fuel f args) w₂ := by
  rw [h.eval_eq]
  exact EvalIn.bind_of_ok ho

theorem Finds.hasOperands_iff {e : Expr} {name : Text} {v : Value} (h : e.Finds fuel w name v w') :
    (e.lhs?.isSome || e.rhs?.isSome) = true ↔ e.operandCount ≠ 0 := by
  cases h with
  | @named _ lhs rhs => cases lhs <;> cases rhs <;> simp [lhs?, rhs?, operandCount]
  | @called _ lhs rhs => cases lhs <;> cases rhs <;> simp [lhs?, rhs?, operandCount]

/-- What is no function is the value of a call without operands, and the fault of any other. -/
theorem Finds.eval_of_not_func {e : Expr} {name : Text} {v : Value} {w₁ : World}
    (h : e.Finds fuel w name v w₁) (hv : ∀ f, v ≠ .func f) : e.eval fuel w =
      if e.operandCount ≠ 0 then .error (.fault (.notCallable e.place? name v.type)) w₁
      else .ok v w₁ := by
  rw [h.eval_eq]
  have hops := h.hasOperands_iff
  cases v with
  | func f => exact absurd rfl (hv f)
  | _ =>
    unfold Value.call
    simp only [hops]
    split_ifs <;> rfl

/-! ## Stopping -/

/-- An expression stops as the part does that it has begun to evaluate. -/
theorem Enters.eval_eq {e c : Expr} {w₁ : World} (h : e.Enters fuel w c w₁)
    (hc : c.eval fuel w₁ = .error s w') : e.eval fuel w = .error s w' := by
  cases h with
  | member h =>
    unfold Expr.eval
    exact EvalIn.bind_of_error (evalAll_append_of_error h hc)
  | body | callee =>
    unfold Expr.eval
    exact EvalIn.bind_of_error hc
  | lhs hf ha =>
    refine hf.eval_of_error (EvalIn.bind_of_error ?_)
    rw [ha]
    exact evalOperand_of_error hc
  | rhs hf hl hb =>
    refine hf.eval_of_error ?_
    unfold operands
    rw [EvalIn.bind_of_ok hl]
    refine EvalIn.bind_of_error ?_
    rw [hb]
    exact evalOperand_of_error hc

/-- All that encloses a part which stops does so in the same way. -/
theorem Comes.eval_eq {e n : Expr} {w₁ : World} (h : e.Comes fuel w n w₁)
    (hn : n.eval fuel w₁ = .error s w') : e.eval fuel w = .error s w' := by
  induction h using Comes.induct with
  | self => exact hn
  | step hc _ ih => exact hc.eval_eq ih

theorem Callee.eval_ne_error {d : Expr} {lhs rhs : Option Expr} {place : Option Location}
    {f : Function} {u u' : World} (h : (Expr.called d lhs rhs place).Callee fuel w f u) :
    d.eval fuel w ≠ .error s u' := by
  intro hs
  cases h with
  | called h => cases h.symm.trans hs

theorem Callee.left_ne_error {e a : Expr} {f g : Function} {vs : List Value} {u u' w₁ w₂ : World}
    (hf : e.Callee fuel w f w₁) (hg : e.Callee fuel w g w₂) (ha : e.lhs? = some a)
    (hl : evalOperand fuel e.lhs? w₂ = .ok vs u) : a.eval fuel w₁ ≠ .error s u' := by
  intro hs
  obtain ⟨-, rfl⟩ := hf.unique hg
  rw [ha, evalOperand_of_error hs] at hl
  cases hl

/-- Of the parts that an expression begins to evaluate only one stops. -/
theorem Enters.unique {e c c' : Expr} {t : Stop} {u u' w₁ w₂ : World} (h : e.Enters fuel w c w₁)
    (h' : e.Enters fuel w c' w₂) (hc : c.eval fuel w₁ = .error s u)
    (hc' : c'.eval fuel w₂ = .error t u') : c = c' ∧ w₁ = w₂ := by
  cases h with
  | member h =>
    generalize hms : _ ++ c :: _ = ms at h'
    cases h' with
    | member h' => exact evalAll_stop_unique hc hc' hms h h'
    | lhs hf _ | rhs hf _ _ => cases hf
  | body =>
    cases h' with
    | body => exact ⟨rfl, rfl⟩
    | lhs hf _ | rhs hf _ _ => cases hf
  | callee =>
    cases h' with
    | callee => exact ⟨rfl, rfl⟩
    | lhs hf _ | rhs hf _ _ => exact absurd hc hf.eval_ne_error
  | lhs hf ha =>
    cases h' with
    | member _ | body => cases hf
    | callee => exact absurd hc' hf.eval_ne_error
    | lhs hf' ha' => exact ⟨Option.some.inj (ha.symm.trans ha'), (hf.unique hf').2⟩
    | rhs hf' hl' hb' => exact absurd hc (hf.left_ne_error hf' ha hl')
  | rhs hf hl hb =>
    cases h' with
    | member _ | body => cases hf
    | callee => exact absurd hc' hf.eval_ne_error
    | lhs hf' ha' => exact absurd hc' (hf'.left_ne_error hf ha' hl)
    | rhs hf' hl' hb' =>
      obtain ⟨-, rfl⟩ := hf.unique hf'
      cases hl.symm.trans hl'
      exact ⟨Option.some.inj (hb.symm.trans hb'), rfl⟩

theorem locating_eq_ok {α : Type} {place : Option Location} {x : Eval α} {a : α}
    (h : EvalIn.locating place x w = .ok a w') : x w = .ok a w' := by
  unfold EvalIn.locating at h
  split at h
  · cases h
  · exact h

/-- A call that gives a value has found its callee. -/
theorem exists_finds {e : Expr} (hcall : e.isCall = true) {v : Value}
    (h : e.eval fuel w = .ok v w') : ∃ name u w₁, e.Finds fuel w name u w₁ := by
  cases e with
  | literal | array | assign => cases hcall
  | named name lhs rhs place =>
    rcases hv : w.names.get? name with _ | u
    · rw [eval_of_unbound hv] at h
      cases h
    · exact ⟨name, u, w, .named hv⟩
  | called c lhs rhs place =>
    rcases hv : c.eval fuel w with ⟨u, w₁⟩ | ⟨s, w₁⟩
    · exact ⟨_, u, w₁, .called hv⟩
    · rw [Enters.eval_eq .callee hv] at h
      cases h

/-- A call that gives a value has applied a function to its operands, or it has none and the value
is its callee. -/
theorem Finds.eval_eq_ok {e : Expr} {name : Text} {u v : Value} {w₁ : World}
    (h : e.Finds fuel w name u w₁) (he : e.eval fuel w = .ok v w') :
    (∃ f args w₂, u = .func f ∧ e.operands fuel w₁ = .ok args w₂ ∧
      apply fuel f args w₂ = .ok v w') ∨
    (∀ f, u ≠ .func f) ∧ e.operandCount = 0 ∧ v = u ∧ w' = w₁ := by
  by_cases hu : ∃ f, u = .func f
  · obtain ⟨f, rfl⟩ := hu
    rw [h.callee.eval_eq] at he
    obtain ⟨args, w₂, ho, ha⟩ := EvalIn.bind_eq_ok he
    exact .inl ⟨f, args, w₂, rfl, ho, locating_eq_ok ha⟩
  · have hu : ∀ f, u ≠ .func f := fun f hf => hu ⟨f, hf⟩
    rw [h.eval_of_not_func hu] at he
    split_ifs at he with ho
    cases he
    exact .inr ⟨hu, not_not.1 ho, rfl, rfl⟩

/-- If an expression gives a value, so does each part that its run comes to. -/
theorem Enters.exists_ok {e c : Expr} {v : Value} {w₁ : World} (h : e.Enters fuel w c w₁)
    (he : e.eval fuel w = .ok v w') : ∃ u w₂, c.eval fuel w₁ = .ok u w₂ := by
  rcases hc : c.eval fuel w₁ with ⟨u, w₂⟩ | ⟨s, w₂⟩
  · exact ⟨u, w₂, rfl⟩
  · cases he.symm.trans (h.eval_eq hc)

theorem exists_member_of_ok {m : Expr} : ∀ {es : List Expr} {w : World} {vs : List Value}, m ∈ es →
    evalAll fuel es w = .ok vs w' →
      ∃ before after us w₁, es = before ++ m :: after ∧ evalAll fuel before w = .ok us w₁
  | e :: es, w, vs, hm, h => by
    obtain ⟨v, us, w₁, hv, hus, -⟩ := evalAll_cons_eq_ok h
    rcases List.mem_cons.1 hm with rfl | hm
    · exact ⟨[], es, [], w, rfl, rfl⟩
    · obtain ⟨before, after, ts, w₂, rfl, hts⟩ := exists_member_of_ok hm hus
      refine ⟨e :: before, after, v :: ts, w₂, rfl, ?_⟩
      unfold evalAll
      rw [EvalIn.bind_of_ok hv, EvalIn.bind_of_ok hts]
      rfl

/-- An expression that gives a value has evaluated all its parts. -/
theorem exists_enters_of_ok {e c : Expr} (hc : c ∈ e.children) {v : Value}
    (h : e.eval fuel w = .ok v w') : ∃ w₁, e.Enters fuel w c w₁ := by
  have hcall : e.isCall = true → (c ∈ e.lhs? ∨ c ∈ e.rhs?) → ∃ w₁, e.Enters fuel w c w₁ := by
    intro hcall hc
    have hne : e.operandCount ≠ 0 := by
      cases e <;> simp_all [isCall, lhs?, rhs?, operandCount] <;> grind
    obtain ⟨name, u, w₁, hu⟩ := exists_finds hcall h
    rcases hu.eval_eq_ok h with ⟨f, args, w₂, rfl, ho, -⟩ | ⟨-, hzero, -, -⟩
    · obtain ⟨us, ts, w₃, hus, -, -⟩ := operands_eq_ok ho
      rcases hc with hc | hc
      · exact ⟨w₁, .lhs hu.callee hc⟩
      · exact ⟨w₃, .rhs hu.callee hus hc⟩
    · exact absurd hzero hne
  cases e with
  | literal => cases hc
  | array ms place =>
    unfold Expr.eval at h
    obtain ⟨vs, w₁, hvs, -⟩ := EvalIn.bind_eq_ok h
    obtain ⟨before, after, us, w₂, rfl, hus⟩ := exists_member_of_ok hc hvs
    exact ⟨w₂, .member hus⟩
  | assign name body place =>
    obtain rfl := List.mem_singleton.1 hc
    exact ⟨w, .body⟩
  | named name lhs rhs place => exact hcall rfl (by simpa [children, lhs?, rhs?] using hc)
  | called callee lhs rhs place =>
    simp only [children, List.mem_append, Option.mem_toList, List.mem_singleton] at hc
    rcases hc with (hc | rfl) | hc
    · exact hcall rfl (.inl hc)
    · exact ⟨w, .callee⟩
    · exact hcall rfl (.inr hc)

/-- An expression that gives a value has come to all its nodes, and they gave values. -/
theorem exists_comes_of_ok : ∀ (e : Expr) {n : Expr} {w w' : World} {v : Value}, n ∈ e.nodes →
    e.eval fuel w = .ok v w' →
      ∃ w₁ u w₂, e.Comes fuel w n w₁ ∧ n.eval fuel w₁ = .ok u w₂ := by
  refine induct fun e ih n w w' v hn h => ?_
  rw [nodes_eq] at hn
  rcases List.mem_cons.1 hn with rfl | hn
  · exact ⟨w, v, w', .self n w, h⟩
  · obtain ⟨c, hc, hn⟩ := List.mem_flatMap.1 hn
    obtain ⟨w₁, hent⟩ := exists_enters_of_ok hc h
    obtain ⟨u, w₂, hu⟩ := hent.exists_ok h
    obtain ⟨w₃, t, w₄, hcomes, ht⟩ := ih c hc hn hu
    exact ⟨w₃, t, w₄, hent.comes hcomes, ht⟩

end Expr

end Tacit
