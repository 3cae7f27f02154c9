import Mathlib.Tactic.SplitIfs
import Tacit.Reading

/-!
# Reading with tables and reading without give the same

The rules are run in two monads, and in both with a bound on how deep they nest. A `Simulation`
relates what two monads do, and every rule carries such a relation from the two rules it is
written against to itself, provided that these are related on the tokens it hands them, which
are always fewer than its own (`Leaves`). So a bound above the number of tokens makes no
difference (`expression_eq_grammar`), and neither do tables that hold what the grammar gives
(`tabledExpression_eq`).
-/

namespace Tacit.Reading

/-- `us` is what is left of `ts` when a token at least is taken off its front. -/
def Leaves (ts us : List Token) : Prop := us <:+ ts ∧ us.length < ts.length

theorem Leaves.cons (t : Token) (ts : List Token) : Leaves (t :: ts) ts :=
  ⟨List.suffix_cons t ts, by simp⟩

theorem Leaves.trans_suffix {ts us vs : List Token} (h : Leaves ts us) (hv : vs <:+ us) :
    Leaves ts vs :=
  ⟨hv.trans h.1, Nat.lt_of_le_of_lt hv.length_le h.2⟩

theorem Leaves.trans {ts us vs : List Token} (h : Leaves ts us) (hv : Leaves us vs) :
    Leaves ts vs := h.trans_suffix hv.1

theorem Leaves.of_suffix {ts us vs : List Token} (h : us <:+ ts) (hv : Leaves us vs) :
    Leaves ts vs := ⟨hv.1.trans h, Nat.lt_of_lt_of_le hv.2 h.length_le⟩

/-- What a rule gives for `ts` takes a token at least. -/
def Advances (ts : List Token) (r : Result) : Prop :=
  ∀ e rest, r = some (e, rest) → Leaves ts rest

theorem Advances.none (ts : List Token) : Advances ts none := fun _ _ h => by simp at h

theorem Advances.some {ts rest : List Token} {e : Expr} (h : Leaves ts rest) :
    Advances ts (some (e, rest)) := fun _ _ he => by
  simp only [Option.some.injEq, Prod.mk.injEq] at he
  exact he.2 ▸ h

/-- A relation between what is done in two monads, for what holds of the outcome, that outcomes
without effect and sequences keep. -/
structure Simulation (m n : Type → Type) [Monad m] [Monad n] where
  rel : {α : Type} → (α → Prop) → m α → n α → Prop
  pure : ∀ {α : Type} {P : α → Prop} {a : α}, P a → rel P (pure a) (pure a)
  bind : ∀ {α β : Type} {P : α → Prop} {Q : β → Prop} {x : m α} {y : n α} {f : α → m β}
    {g : α → n β}, rel P x y → (∀ a, P a → rel Q (f a) (g a)) → rel Q (x >>= f) (y >>= g)

theorem nullary_advances (ts : List Token) : Advances ts (nullary ts) := by
  rcases ts with _ | ⟨t, rest⟩
  · exact .none _
  · simp only [nullary]
    split_ifs
    · exact .some (.cons t rest)
    · exact .none _

theorem literal_advances (ts : List Token) : Advances ts (literal ts) := by
  rcases ts with _ | ⟨t, rest⟩
  · exact .none _
  · simp only [literal]
    split
    · intro e us h
      obtain ⟨x, -, hx⟩ := Option.map_eq_some_iff.1 h
      simp only [Prod.mk.injEq] at hx
      exact hx.2 ▸ .cons t rest
    · exact .some (.cons t rest)
    · exact .none _

section Rules

variable {m n : Type → Type} [Monad m] [Monad n] (S : Simulation m n)

/-- Two rules are related on `ts`. -/
abbrev Simulation.At (f : Rule m) (g : Rule n) (ts : List Token) : Prop :=
  S.rel (Advances ts) (f ts) (g ts)

variable {expr paren : Rule m} {expr' paren' : Rule n} {ts : List Token}

theorem sim_orElse {P : Result → Prop} {a b : m Result} {a' b' : n Result}
    (ha : S.rel P a a') (hb : S.rel P b b') : S.rel P (orElse a b) (orElse a' b') := by
  refine S.bind ha fun r hr => ?_
  rcases r with _ | r
  · exact hb
  · exact S.pure hr

theorem sim_members (hexpr : ∀ us, us <:+ ts → S.At expr expr' us) :
    ∀ (k : Nat) (read : List Expr) (us : List Token), us <:+ ts →
      S.rel (fun r => r.2 <:+ ts) (members expr k read us) (members expr' k read us)
  | 0, read, us, hu => S.pure hu
  | k + 1, read, us, hu => by
    refine S.bind (hexpr us hu) fun r hr => ?_
    rcases r with _ | ⟨e, rest⟩
    · exact S.pure hu
    · exact sim_members hexpr k (e :: read) rest ((hr e rest rfl).1.trans hu)

theorem sim_array (hexpr : ∀ us, Leaves ts us → S.At expr expr' us) :
    S.At (array expr) (array expr') ts := by
  rcases ts with _ | ⟨t, rest⟩
  · exact S.pure (.none _)
  · have hrest : ∀ us, us <:+ rest → S.At expr expr' us :=
      fun us hu => hexpr us ((Leaves.cons t rest).trans_suffix hu)
    simp only [Simulation.At, array]
    split_ifs
    · refine S.bind (sim_members S hrest _ [] rest (List.suffix_refl _)) fun r hr => ?_
      obtain ⟨es, _ | ⟨o, us⟩⟩ := r
      · exact S.pure (.none _)
      · simp only
        split_ifs
        · have hsuffix := (List.suffix_cons o us).trans hr
          exact S.pure (.some ((Leaves.cons t rest).trans_suffix hsuffix))
        · exact S.pure (.none _)
    · exact S.pure (.none _)

theorem sim_between (hexpr : ∀ us, Leaves ts us → S.At expr expr' us) :
    S.At (between expr) (between expr') ts := by
  rcases ts with _ | ⟨t, rest⟩
  · exact S.pure (.none _)
  · simp only [Simulation.At, between]
    split_ifs
    · refine S.bind (hexpr rest (.cons t rest)) fun r hr => ?_
      rcases r with _ | ⟨e, _ | ⟨o, us⟩⟩
      · exact S.pure (.none _)
      · exact S.pure (.none _)
      · simp only
        split_ifs
        · exact S.pure (.some ((Leaves.cons t rest).trans ((hr e _ rfl).trans (.cons o us))))
        · exact S.pure (.none _)
    · exact S.pure (.none _)

variable (hexpr : ∀ us, Leaves ts us → S.At expr expr' us)
  (hparen : ∀ us, us <:+ ts → S.At paren paren' us)

include hexpr hparen in
theorem sim_operand {us : List Token} (hu : us <:+ ts) :
    S.At (operand expr paren) (operand expr' paren') us := by
  refine sim_orElse S (S.pure (literal_advances us)) (sim_orElse S ?_
    (sim_orElse S (hparen us hu) (S.pure (nullary_advances us))))
  exact sim_array S fun vs hv => hexpr vs (.of_suffix hu hv)

include hparen in
theorem sim_callee {us : List Token} (hu : us <:+ ts) :
    S.rel (fun c => ∀ d, c = some d → Leaves us d.rest) (callee paren us) (callee paren' us) := by
  rcases us with _ | ⟨t, rest⟩
  · exact S.pure fun _ h => by simp at h
  · simp only [callee]
    split
    · refine S.pure fun d h => ?_
      simp only [Option.some.injEq] at h
      exact h ▸ .cons t rest
    · refine S.bind (hparen _ hu) fun r hr => ?_
      rcases r with _ | ⟨e, vs⟩
      · exact S.pure fun _ h => by simp at h
      · refine S.pure fun d h => ?_
        simp only [Option.some.injEq] at h
        exact h ▸ hr e vs rfl
    · exact S.pure fun _ h => by simp at h

include hexpr hparen in
theorem sim_infixCall {rhs : Expr} {us : List Token} (hu : Leaves ts us) :
    S.rel (Advances ts) (infixCall expr paren rhs us) (infixCall expr' paren' rhs us) := by
  refine S.bind (sim_callee S hparen hu.1) fun c hc => ?_
  rcases c with _ | c
  · exact S.pure (.none _)
  · refine S.bind (hexpr c.rest (hu.trans (hc c rfl))) fun r hr => ?_
    rcases r with _ | ⟨lhs, rest⟩
    · exact S.pure (.none _)
    · exact S.pure (.some (hu.trans ((hc c rfl).trans (hr lhs rest rfl))))

include hexpr hparen in
theorem sim_leadingCall {rhs : Expr} {us : List Token} (hu : Leaves ts us) :
    S.rel (Advances ts) (leadingCall expr paren rhs us) (leadingCall expr' paren' rhs us) := by
  refine S.bind (sim_operand S hexpr hparen hu.1) fun r hr => ?_
  rcases r with _ | ⟨lhs, vs⟩
  · exact S.pure (.none _)
  · have hv := hu.trans (hr lhs vs rfl)
    refine S.bind (sim_callee S hparen hv.1) fun c hc => ?_
    rcases c with _ | c
    · exact S.pure (.none _)
    · exact S.pure (.some (hv.trans (hc c rfl)))

include hexpr hparen in
theorem sim_binaryCall : S.At (binaryCall expr paren) (binaryCall expr' paren') ts := by
  refine S.bind (sim_operand S hexpr hparen (List.suffix_refl _)) fun r hr => ?_
  rcases r with _ | ⟨rhs, us⟩
  · exact S.pure (.none _)
  · exact sim_orElse S (sim_infixCall S hexpr hparen (hr rhs us rfl))
      (sim_leadingCall S hexpr hparen (hr rhs us rfl))

include hexpr hparen in
theorem sim_callOnRight : S.At (callOnRight expr paren) (callOnRight expr' paren') ts := by
  refine S.bind (sim_operand S hexpr hparen (List.suffix_refl _)) fun r hr => ?_
  rcases r with _ | ⟨x, us⟩
  · exact S.pure (.none _)
  · have hu := hr x us rfl
    refine S.bind (sim_callee S hparen hu.1) fun c hc => ?_
    rcases c with _ | c
    · exact S.pure (.none _)
    · exact S.pure (.some (hu.trans (hc c rfl)))

include hexpr hparen in
theorem sim_callOnLeft : S.At (callOnLeft expr paren) (callOnLeft expr' paren') ts := by
  refine S.bind (sim_callee S hparen (List.suffix_refl _)) fun c hc => ?_
  rcases c with _ | c
  · exact S.pure (.none _)
  · refine S.bind (hexpr c.rest (hc c rfl)) fun r hr => ?_
    rcases r with _ | ⟨x, rest⟩
    · exact S.pure (.none _)
    · exact S.pure (.some ((hc c rfl).trans (hr x rest rfl)))

include hexpr hparen in
/-- The alternatives are related where the two rules they are written against are: the rule for
an expression on what they leave, the rule for parentheses on all they are given. -/
theorem sim_alternatives : S.At (alternatives expr paren) (alternatives expr' paren') ts :=
  sim_orElse S (sim_binaryCall S hexpr hparen) <|
  sim_orElse S (sim_orElse S (sim_callOnRight S hexpr hparen) (sim_callOnLeft S hexpr hparen)) <|
  sim_orElse S (S.pure (nullary_advances ts)) <|
  sim_orElse S (S.pure (literal_advances ts)) <|
  sim_orElse S (sim_array S hexpr) (hparen ts (List.suffix_refl _))

end Rules

/-- Equal outcomes of which something holds. -/
def equality : Simulation Id Id where
  rel P x y := x = y ∧ P x
  pure h := ⟨rfl, h⟩
  bind := by
    rintro α β P Q x y f g ⟨rfl, hx⟩ hf
    exact hf x hx

/-- The grammar, with rules nesting as deep as the tokens can make them. -/
def grammar (ts : List Token) : Result := expression (ts.length + 1) ts

/-- Bounds above the number of tokens all give the same. -/
theorem expression_eq_of_lt : ∀ (d d' : Nat) (ts : List Token), ts.length < d → ts.length < d' →
    equality.At (expression d) (expression d') ts
  | 0, _, _, h, _ => by omega
  | _ + 1, 0, _, _, h => by omega
  | d + 1, d' + 1, ts, h, h' => by
    have hexpr : ∀ us, Leaves ts us → equality.At (expression d) (expression d') us := by
      intro us hu
      have := hu.2
      exact expression_eq_of_lt d d' us (by omega) (by omega)
    exact sim_alternatives equality hexpr fun us hu =>
      sim_between equality fun vs hv => hexpr vs (.of_suffix hu hv)

/-- With rules nesting deeper than there are tokens, an expression is what the grammar gives. -/
theorem expression_eq_grammar {d : Nat} {ts : List Token} (h : ts.length < d) :
    expression d ts = grammar ts :=
  (expression_eq_of_lt d (ts.length + 1) ts h (by omega)).1

theorem grammar_advances (ts : List Token) : Advances ts (grammar ts) :=
  (expression_eq_of_lt _ (ts.length + 1) ts (by omega) (by omega)).2

/-- The grammar is the alternatives written against itself. -/
theorem grammar_eq (ts : List Token) :
    grammar ts = alternatives (m := Id) grammar (between (m := Id) grammar) ts := by
  have hexpr : ∀ us, Leaves ts us → equality.At (expression ts.length) grammar us := by
    intro us hu
    rw [Simulation.At, expression_eq_grammar hu.2]
    exact ⟨rfl, grammar_advances us⟩
  exact (sim_alternatives equality hexpr fun us hu =>
    sim_between equality fun vs hv => hexpr vs (.of_suffix hu hv)).1

/-- A table holds what `f` gives for the ends of `ts` it has entries for. -/
def Holds (ts : List Token) (f : List Token → Result) (table : Std.HashMap Nat Result) : Prop :=
  ∀ us, us <:+ ts → ∀ r, table[us.length]? = some r → r = f us

/-- Of two ends of a list, one as long as the other is the other. -/
theorem suffix_eq_of_length {ts us vs : List Token} (hu : us <:+ ts) (hv : vs <:+ ts)
    (h : us.length = vs.length) : us = vs := by
  obtain ⟨a, rfl⟩ := hu
  obtain ⟨b, hb⟩ := hv
  exact (List.append_inj' hb.symm h).2

/-- A table holds what is right when what is right is put into it. -/
theorem Holds.insert {ts us : List Token} {f : List Token → Result}
    {table : Std.HashMap Nat Result} {r : Result} (h : Holds ts f table) (hu : us <:+ ts)
    (hr : r = f us) : Holds ts f (table.insert us.length r) := by
  intro vs hv q hq
  rw [Std.HashMap.getElem?_insert] at hq
  split_ifs at hq with heq
  · cases suffix_eq_of_length hu hv (by simpa using heq)
    rw [← Option.some.inj hq, hr]
  · exact h vs hv q hq

/-- The tables hold what the grammar gives for the ends of `ts`. -/
structure Tables.Right (ts : List Token) (t : Tables) : Prop where
  exprs : Holds ts grammar t.exprs
  parens : Holds ts (between (m := Id) grammar) t.parens

theorem Tables.empty_right (ts : List Token) : Tables.empty.Right ts :=
  ⟨fun _ _ _ h => by simp [Tables.empty] at h, fun _ _ _ h => by simp [Tables.empty] at h⟩

/-- Run with right tables, the first gives what the second is and leaves right tables. -/
def tabling (ts : List Token) : Simulation Tabled Id where
  rel P x y := P y ∧ ∀ t : Tables, t.Right ts → (x t).1 = y ∧ (x t).2.Right ts
  pure h := ⟨h, fun _ ht => ⟨rfl, ht⟩⟩
  bind := by
    rintro α β P Q x y f g ⟨hy, hx⟩ hf
    obtain ⟨hg, hfg⟩ := hf y hy
    refine ⟨hg, fun t ht => ?_⟩
    obtain ⟨h1, h2⟩ := hx t ht
    have := hfg (x t).2 h2
    rw [← h1] at this ⊢
    exact this

section Tabled

variable {ts us : List Token} {rule : Rule Tabled} (hu : us <:+ ts)
include hu

theorem sim_tabledParen (h : (tabling ts).At rule (between (m := Id) grammar) us) :
    (tabling ts).At (tabledParen rule) (between (m := Id) grammar) us := by
  refine ⟨h.1, fun t ht => ?_⟩
  rcases hl : t.parens[us.length]? with _ | r
  · obtain ⟨h1, h2⟩ := h.2 t ht
    have hrun : tabledParen rule us t = ((rule us t).1, ⟨(rule us t).2.exprs,
        (rule us t).2.parens.insert us.length (rule us t).1⟩) := by
      simp only [tabledParen, bind, StateT.bind, get, getThe, MonadStateOf.get, StateT.get, pure,
        hl, modify, modifyGet, MonadStateOf.modifyGet, StateT.modifyGet]
      rfl
    rw [hrun]
    exact ⟨h1, h2.exprs, h2.parens.insert hu h1⟩
  · have hrun : tabledParen rule us t = (r, t) := by
      simp only [tabledParen, bind, StateT.bind, get, getThe, MonadStateOf.get, StateT.get, pure,
        hl]
      rfl
    rw [hrun]
    exact ⟨ht.parens us hu r hl, ht⟩

theorem sim_tabledExpr (h : (tabling ts).At rule grammar us) :
    (tabling ts).At (tabledExpr rule) grammar us := by
  refine ⟨h.1, fun t ht => ?_⟩
  rcases hl : t.exprs[us.length]? with _ | r
  · obtain ⟨h1, h2⟩ := h.2 t ht
    have hrun : tabledExpr rule us t = ((rule us t).1,
        ⟨(rule us t).2.exprs.insert us.length (rule us t).1, (rule us t).2.parens⟩) := by
      simp only [tabledExpr, bind, StateT.bind, get, getThe, MonadStateOf.get, StateT.get, pure,
        hl, modify, modifyGet, MonadStateOf.modifyGet, StateT.modifyGet]
      rfl
    rw [hrun]
    exact ⟨h1, h2.exprs.insert hu h1, h2.parens⟩
  · have hrun : tabledExpr rule us t = (r, t) := by
      simp only [tabledExpr, bind, StateT.bind, get, getThe, MonadStateOf.get, StateT.get, pure,
        hl]
      rfl
    rw [hrun]
    exact ⟨ht.exprs us hu r hl, ht⟩

end Tabled

/-- Reading with tables and without gives the same, at any depth that suffices for the
tokens left. -/
theorem sim_tabledExpression (ts : List Token) : ∀ (d : Nat) (us : List Token), us <:+ ts →
    us.length < d → (tabling ts).At (tabledExpression d) grammar us
  | 0, _, _, h => by omega
  | d + 1, us, hu, h => by
    have hexpr : ∀ vs, Leaves us vs → (tabling ts).At (tabledExpression d) grammar vs := by
      intro vs hv
      have := hv.2
      exact sim_tabledExpression ts d vs (hv.1.trans hu) (by omega)
    have hparen : ∀ vs, vs <:+ us → (tabling ts).At (tabledParen (between (tabledExpression d)))
        (between (m := Id) grammar) vs := fun vs hv =>
      sim_tabledParen (hv.trans hu) (sim_between (tabling ts) fun ws hw =>
        hexpr ws (.of_suffix hv hw))
    refine sim_tabledExpr hu ?_
    have := sim_alternatives (tabling ts) hexpr hparen
    rwa [Simulation.At, ← grammar_eq] at this

/-- Reading with right tables gives what the grammar gives. -/
theorem tabledExpression_eq {d : Nat} {ts : List Token} {t : Tables} (h : ts.length < d)
    (ht : t.Right ts) : ((tabledExpression d ts).run t).1 = grammar ts :=
  ((sim_tabledExpression ts d ts (List.suffix_refl _) h).2 t ht).1

end Tacit.Reading
