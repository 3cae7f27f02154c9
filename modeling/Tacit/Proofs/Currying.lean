import Tacit.Proofs.Composition
import Tacit.Proofs.Following

/-!
# One operand at a time

A function of two operands that gets them one after the other does as if it got both at once. The
continuation in between runs the function later and under a name of its own, so runs are compared
by the functions they run that are no continuations (`Event.run?`). When the second operand is
pending, both ways give continuations, of different functions; these are related by `Curry`, which
every further application keeps (`apply_currying`).

A function without operands is the exception: it is run when it is taken as an operand, and what it
gives is looked at on one way only. So the runs compared are those that run none.
-/

namespace Tacit

open Builtin (Applier)

/-- The function that begins to run and its operands, unless it is a continuation. -/
def Event.run? : Event → Option (Function × List Value)
  | .entered f args => if f.curried then none else some (f, args)
  | _ => none

/-- Whether an event is no run of a function without operands. -/
def Event.Plain : Event → Prop
  | .entered f _ => f.arity ≠ 0
  | _ => True

namespace Outcome

variable {α β γ : Type}

/-- All that a run from `w` has recorded is `ok`. -/
def Keeps (ok : Event → Prop) (w : World) (r : Outcome α) : Prop :=
  ∀ es, w.Adds r.world es → ∀ e ∈ es, ok e

theorem Alike.symm {seen : Event → Option γ} {V : α → β → Prop} {S : Stop → Stop → Prop}
    {w w' : World} {r : Outcome α} {r' : Outcome β} (h : Alike seen V S w w' r r') :
    Alike seen (flip V) (flip S) w' w r' r := by
  cases h with
  | ok h hw => exact .ok h hw.symm
  | error h hw => exact .error h hw.symm

theorem Alike.finished {seen : Event → Option γ} {V : α → β → Prop} {S : Stop → Stop → Prop}
    {w w' : World} {r : Outcome α} {r' : Outcome β} (h : Alike seen V S w w' r r')
    (hS : ∀ s, S s .outOfFuel → s = .outOfFuel) (hr : r.Finished) : r'.Finished := by
  intro u hu
  subst hu
  cases h with
  | error hs hw =>
    rw [hS _ hs] at hr
    exact hr _ rfl

end Outcome

/-- A run only adds to the record. -/
theorem Repeats.adds {α : Type} {x : Eval α} (h : Repeats x x) {w : World}
    (hfin : Outcome.Finished (x w)) : ∃ es, w.Adds (Outcome.world (x w)) es := by
  obtain ⟨es, -, hes, -, -⟩ := (h (.refl w) hfin).moves.events
  exact ⟨es, hes⟩

/-- Unless the first run is given up or records something that is not `ok`, the second ends
alike. -/
def Tracks {α β : Type} (ok : Event → Prop) (V : α → β → Prop) (S : Stop → Stop → Prop)
    (x : Eval α) (y : Eval β) : Prop :=
  ∀ ⦃w w' : World⦄, w.Like w' → Outcome.Finished (x w) → Outcome.Keeps ok w (x w) →
    Outcome.Alike Event.run? V S w w' (x w) (y w')

namespace Tracks

variable {α β : Type} {ok : Event → Prop} {V : α → β → Prop} {S : Stop → Stop → Prop}

theorem of_follows {x : Eval α} {y : Eval β} (h : Follows Event.run? V S x y) :
    Tracks ok V S x y :=
  fun _ _ hw hfin _ => h hw hfin

theorem of_repeats {x y : Eval α} {V : α → α → Prop} (h : Repeats x y) (hV : ∀ a, V a a)
    (hS : ∀ s, S s s) : Tracks ok V S x y :=
  fun _ _ hw hfin _ => (h hw hfin).imp Moves.weaken (fun a _ h => h ▸ hV a) fun s _ h => h ▸ hS s

theorem bind {α' β' : Type} {P : α' → β' → Prop} {x : Eval α'} {y : Eval β'} {f : α' → Eval α}
    {g : β' → Eval β} (hx : Tracks ok P S x y) (hf : ∀ a b, P a b → Tracks ok V S (f a) (g b))
    (gx : Repeats x x) (gf : ∀ a, Repeats (f a) (f a)) :
    Tracks ok V S (x >>= f) (y >>= g) := by
  intro w w' hw hfin hok
  have h := hx hw
  rcases hr : x w with ⟨a, u⟩ | ⟨s, u⟩ <;> rw [hr] at h
  · rw [EvalIn.bind_of_ok hr] at hfin hok ⊢
    obtain ⟨es, hes⟩ := gx.adds (w := w) (by rw [hr]; exact fun _ => nofun)
    obtain ⟨fs, hfs⟩ := (gf a).adds hfin
    rw [hr] at hes
    have h := h (fun _ => nofun) fun es' hes' e he =>
      hok _ (hes'.trans hfs) e (List.mem_append_left _ he)
    rcases hr' : y w' with ⟨b, u'⟩ | ⟨t, u'⟩ <;> rw [hr'] at h <;> cases h
    rename_i hab hm
    rw [EvalIn.bind_of_ok hr']
    refine (hf a b hab hm.like hfin fun fs' hfs' e he => ?_).behind hm
    exact hok _ (hes.trans hfs') e (List.mem_append_right _ he)
  · rw [EvalIn.bind_of_error hr] at hfin hok ⊢
    have h := h (fun v hv => hfin v (by cases hv; rfl)) hok
    rcases hr' : y w' with ⟨b, u'⟩ | ⟨t, u'⟩ <;> rw [hr'] at h <;> cases h
    rw [EvalIn.bind_of_error hr']
    exact .error ‹_› ‹_›

/-- A run that begins with a function without operands is none to follow. -/
theorem of_nullary {g : Function} (hg : g.arity = 0) {args : List Value} {x : Eval α} {y : Eval β}
    (gx : Repeats x x) : Tracks Event.Plain V S (do .note (.entered g args); x) y := by
  intro w w' hw hfin hok
  have hnote := EvalIn.note_eq (.entered g args) w
  rw [EvalIn.bind_of_ok hnote] at hfin hok
  obtain ⟨es, hes⟩ := gx.adds hfin
  exact absurd hg (hok _ ((w.adds_noted _).trans hes) _ List.mem_cons_self)

end Tracks

/-- Runs something as the function `k` would. -/
def Function.around (k : Function) (args : List Value) (x : Eval Value) : Eval Value := do
  .note (.entered k args)
  .leaving k x

section Around

variable {k : Function} {args : List Value} {x y : Eval Value} {w u : World}

theorem around_of_ok {v : Value} (h : x (w.noted (.entered k args)) = .ok v u) :
    k.around args x w = .ok v (u.noted (.left k (some v))) := by
  unfold Function.around
  rw [EvalIn.bind_of_ok (EvalIn.note_eq _ w), EvalIn.leaving_of_ok h]

theorem around_of_error {s : Stop} (h : x (w.noted (.entered k args)) = .error s u) :
    k.around args x w = .error s (u.noted (.left k none)) := by
  unfold Function.around
  rw [EvalIn.bind_of_ok (EvalIn.note_eq _ w), EvalIn.leaving_of_error h]

theorem Moves.noted_left {γ : Type} {seen : Event → Option γ} {w u w' u' : World} {e : Event}
    (h : Moves seen w u w' u') (he : seen e = none) : Moves seen w (u.noted e) w' u' := by
  obtain ⟨es, es', h₁, h₂, h₃⟩ := h.events
  refine ⟨⟨h.like.names, h.like.files, h.like.reads, h.like.serial⟩, es ++ [e], es',
    h₁.trans (u.adds_noted e), h₂, ?_⟩
  rw [List.filterMap_append, ← h₃, List.filterMap_cons_none he, List.filterMap_nil, List.append_nil]

variable {ok : Event → Prop} {V : Value → Value → Prop} {S : Stop → Stop → Prop}

/-- That a continuation runs something is not seen. -/
theorem Tracks.around_left (hk : k.curried = true) (h : Tracks ok V S x y) :
    Tracks ok V S (k.around args x) y := by
  intro w w' hw hfin hok
  have hseen : Event.run? (.entered k args) = none := by simp [Event.run?, hk]
  have hbegin : Moves Event.run? w (w.noted (.entered k args)) w' w' :=
    (Moves.stay hw).noted_left hseen
  have h := h hbegin.like
  rcases hr : x (w.noted (.entered k args)) with ⟨v, u⟩ | ⟨s, u⟩ <;> rw [hr] at h
  · rw [around_of_ok hr] at hok ⊢
    have h := h (fun _ => nofun) fun es hes e he =>
      hok _ (((w.adds_noted _).trans hes).trans (u.adds_noted _)) e (by simp [he])
    rcases hr' : y w' with ⟨b, u'⟩ | ⟨t, u'⟩ <;> rw [hr'] at h <;> cases h
    exact .ok ‹_› ((hbegin.trans ‹_›).noted_left rfl)
  · rw [around_of_error hr] at hfin hok ⊢
    have h := h (fun v hv => hfin _ (by cases hv; rfl)) fun es hes e he =>
      hok _ (((w.adds_noted _).trans hes).trans (u.adds_noted _)) e (by simp [he])
    rcases hr' : y w' with ⟨b, u'⟩ | ⟨t, u'⟩ <;> rw [hr'] at h <;> cases h
    exact .error ‹_› ((hbegin.trans ‹_›).noted_left rfl)

theorem Tracks.around_right (hk : k.curried = true) (h : Tracks ok V S x y) :
    Tracks ok V S x (k.around args y) := by
  intro w w' hw hfin hok
  have hseen : Event.run? (.entered k args) = none := by simp [Event.run?, hk]
  have hbegin : Moves Event.run? w w w' (w'.noted (.entered k args)) :=
    ((Moves.stay hw.symm).noted_left hseen).symm
  have h := (h hbegin.like hfin hok).behind hbegin
  generalize x w = r at h ⊢
  rcases hr : y (w'.noted (.entered k args)) with ⟨v, u⟩ | ⟨s, u⟩ <;> rw [hr] at h
  · rw [around_of_ok hr]
    cases h with
    | ok hv hm => exact .ok hv (hm.symm.noted_left rfl).symm
  · rw [around_of_error hr]
    cases h with
    | error hs hm => exact .error hs (hm.symm.noted_left rfl).symm

end Around

/-- Stops that tell the same, of functions of any name and operands at any place. -/
inductive Stop.Agrees : Stop → Stop → Prop where
  | refl (s : Stop) : Agrees s s
  | mismatch (fn fn' : Text) (i i' : Int) (expected actual : TypeDesc) (operand : Option Text) :
      Agrees (.fault (.mismatch none fn i expected actual operand))
        (.fault (.mismatch none fn' i' expected actual operand))
  | arity (fn fn' : Text) (takes received : Int) :
      Agrees (.fault (.arity none fn takes received)) (.fault (.arity none fn' takes received))

theorem Stop.Agrees.symm {s t : Stop} (h : s.Agrees t) : t.Agrees s := by
  cases h with
  | refl => exact .refl _
  | mismatch => exact .mismatch ..
  | arity => exact .arity ..

/-- The same value, or functions in the relation `R`. -/
inductive Value.Alike (R : Function → Function → Prop) : Value → Value → Prop where
  | refl (v : Value) : Alike R v v
  | func {g h : Function} (hgh : R g h) : Alike R (.func g) (.func h)

/-- `g` with the operands `pre` supplied stands for `h` with `pre'` supplied: one is a function of
two operands and the other its continuation with one of them, or both are continuations of the
like. -/
inductive Curry : List Value → Function → List Value → Function → Prop where
  | one {f : Function} {a : Value} {p q : TypeDesc} (serial : Nat) (hf : f.params = [p, q])
      (ha : a.fits p = true) : Curry [] (continuation f [.value a] serial) [a] f
  | both {f : Function} {a : Value} {p q : TypeDesc} (serial : Nat) (hf : f.params = [p, q])
      (ha : a.fits p = true) : Curry [a] f [] (continuation f [.value a] serial)
  | later {pre pre' : List Value} {g h : Function} {slots : List Slot} (serial : Nat)
      (hgh : Curry pre g pre' h) (hslots : slots ≠ [])
      (hlen : pre.length + slots.length ≤ g.arity)
      (hpos : ∀ z, .pending z ∈ slots → 0 < z.arity) :
      Curry [] (continuation g (pre.map .value ++ slots) serial)
        [] (continuation h (pre'.map .value ++ slots) serial)

/-- The groups that two applications with the same parameters to come leave open are the same. -/
theorem openGroups_append {g h : Function} {pre pre' : List Value} {ps ps' qs : List TypeDesc}
    (hps : AllFit pre ps) (hps' : AllFit pre' ps') (hg : g.params = ps ++ qs)
    (hh : h.params = ps' ++ qs) (slots : List Slot) :
    openGroups g (pre.map .value ++ slots) = openGroups h (pre'.map .value ++ slots) := by
  have hpend : ∀ us : List Value, pendingGroups (us.map .value ++ slots) = pendingGroups slots := by
    intro us
    have := pendingGroups_values us
    unfold pendingGroups at this ⊢
    rw [List.filterMap_append, this, List.nil_append]
  rw [openGroups_eq, openGroups_eq, hpend, hpend, hg, hh, List.length_append, List.length_append,
    List.length_map, List.length_map, hps.length_eq, hps'.length_eq,
    List.drop_length_add_append, List.drop_length_add_append]

/-- What a continuation has after one operand of two. -/
theorem continuation_one {f : Function} {p q : TypeDesc} (hf : f.params = [p, q]) (a : Value)
    (serial : Nat) : (continuation f [.value a] serial).params = [q] ∧
      (continuation f [.value a] serial).returns = f.returns := by
  have hopen : openGroups f [.value a] = [[q]] := by
    rw [openGroups_eq, hf]
    rfl
  rw [continuation_params, continuation_returns, hopen]
  exact ⟨rfl, rfl⟩

namespace Curry

variable {pre pre' : List Value} {g h : Function}

/-- The operands supplied fit, the parameters to come are the same, and so is the result. -/
theorem signature (hc : Curry pre g pre' h) : ∃ ps ps' qs, AllFit pre ps ∧ AllFit pre' ps' ∧
    g.params = ps ++ qs ∧ h.params = ps' ++ qs ∧ g.returns = h.returns := by
  induction hc with
  | @one f a p q serial hf ha =>
    obtain ⟨hparams, hreturns⟩ := continuation_one hf a serial
    exact ⟨[], [p], [q], .nil, .cons ha .nil, hparams, hf, hreturns⟩
  | @both f a p q serial hf ha =>
    obtain ⟨hparams, hreturns⟩ := continuation_one hf a serial
    exact ⟨[p], [], [q], .cons ha .nil, .nil, hf, hparams, hreturns.symm⟩
  | @later pre pre' g h slots serial _ _ _ _ ih =>
    obtain ⟨ps, ps', qs, hps, hps', hg, hh, hret⟩ := ih
    have hopen := openGroups_append hps hps' hg hh slots
    refine ⟨[], [], _, .nil, .nil, continuation_params .., ?_, ?_⟩
    · rw [List.nil_append, continuation_params, hopen]
    · rw [continuation_returns, continuation_returns, hopen, hret]

/-- As many operands are to come to one as to the other. -/
theorem arity_add (hc : Curry pre g pre' h) : pre'.length + g.arity = pre.length + h.arity := by
  obtain ⟨ps, ps', qs, hps, hps', hg, hh, -⟩ := hc.signature
  unfold Function.arity
  rw [hg, hh, List.length_append, List.length_append, hps.length_eq, hps'.length_eq]
  omega

theorem symm (hc : Curry pre g pre' h) : Curry pre' h pre g := by
  induction hc with
  | one serial hf ha => exact .both serial hf ha
  | both serial hf ha => exact .one serial hf ha
  | later serial hgh hslots hlen hpos ih =>
    have := hgh.arity_add
    exact .later serial ih hslots (by omega) hpos

theorem layers_eq (hc : Curry [] g [] h) : g.layers = h.layers := by
  cases hc with
  | later serial hgh _ _ _ =>
    obtain ⟨ps, ps', qs, hps, hps', hg, hh, -⟩ := hgh.signature
    rw [continuation_layers, continuation_layers, openGroups_append hps hps' hg hh]

end Curry

/-! ## One application -/

theorem unused_append (vs : List Value) (slots : List Slot) (n : Nat) :
    unused (vs.map .value ++ slots) n = unused slots n := by
  induction vs with
  | nil => rfl
  | cons v vs ih => exact ih

theorem combine_append (call : Applier) (vs : List Value) (slots : List Slot) (args : List Value) :
    Slot.combine call (vs.map .value ++ slots) args = do
      let us ← Slot.combine call slots args
      return vs ++ us := by
  induction vs with
  | nil => simp
  | cons v vs ih => simp [Slot.combine, ih]

theorem length_of_combine (call : Applier) : ∀ {slots : List Slot} {args us : List Value}
    {w w' : World}, Slot.combine call slots args w = .ok us w' →
      us.length = slots.length + unused slots args.length
  | [], args, us, w, w', h => by
    cases h
    simp [unused]
  | .value v :: slots, args, us, w, w', h => by
    obtain ⟨rest, w₁, hrest, h⟩ := EvalIn.bind_eq_ok h
    cases h
    have := length_of_combine call hrest
    simp only [unused, List.length_cons]
    omega
  | .pending f :: slots, args, us, w, w', h => by
    unfold Slot.combine at h
    split_ifs at h with hlt
    · obtain ⟨rest, w₁, hrest, h⟩ := EvalIn.bind_eq_ok h
      cases h
      have := length_of_combine call hrest
      simp only [unused, if_pos hlt, List.length_cons]
      omega
    · obtain ⟨v, w₁, -, h⟩ := EvalIn.bind_eq_ok h
      obtain ⟨rest, w₂, hrest, h⟩ := EvalIn.bind_eq_ok h
      cases h
      have := length_of_combine call hrest
      rw [List.length_drop] at this
      simp only [unused, if_neg hlt, List.length_cons]
      omega

theorem Tracks.and_ok {α β : Type} {ok : Event → Prop} {V : α → β → Prop}
    {S : Stop → Stop → Prop} {Q : α → Prop} {x : Eval α} {y : Eval β} (h : Tracks ok V S x y)
    (hq : ∀ w a u, x w = .ok a u → Q a) : Tracks ok (fun a b => V a b ∧ Q a) S x y := by
  intro w w' hw hfin hok
  have h := h hw hfin hok
  rcases hr : x w with ⟨a, u⟩ | ⟨s, u⟩ <;> rw [hr] at h <;> generalize y w' = r at h ⊢
  · cases h with
    | ok hv hm => exact .ok ⟨hv, hq w a u hr⟩ hm
  · cases h with
    | error hs hm => exact .error hs hm

/-- If some operand is pending or missing, a continuation is made. -/
theorem Taken.proceed_append (call : Applier) {fn : Function} {pre args : List Value}
    {ps qs : List TypeDesc} {slots : List Slot} (h : Taken qs args slots) (hps : AllFit pre ps)
    (hfn : fn.params = ps ++ qs) (hfit : ¬AllFit args qs) :
    proceed call fn (pre.map .value ++ slots) = suspend fn (pre.map .value ++ slots) := by
  have htaken : Taken fn.params (pre ++ args) (pre.map .value ++ slots) := hfn ▸ h.append hps
  refine htaken.proceed_eq call fun hnil => hfit ?_
  have hall := htaken.openGroups_eq_nil.1 hnil
  rw [hfn] at hall
  have := List.forall₂_drop_append _ _ _ hall
  rwa [← hps.length_eq, List.drop_left] at this

theorem applyOnce_nil (call : Applier) {fn : Function} (h : 0 < fn.arity) :
    applyOnce call fn [] = pure (.func fn) := by
  unfold applyOnce
  rw [if_neg (by simp), if_neg (by omega)]
  rfl

/-- Two continuations made in worlds that differ in their records at most have the same number. -/
theorem suspend_follows {S : Stop → Stop → Prop} (g h : Function) (slots slots' : List Slot) :
    Follows Event.run? (fun v v' => ∃ serial, v = .func (continuation g slots serial) ∧
      v' = .func (continuation h slots' serial)) S (suspend g slots) (suspend h slots') := by
  refine Follows.bind .drawSerial ?_
  rintro serial _ rfl
  exact Follows.bind (.note rfl) fun _ _ _ => .pure ⟨serial, rfl, rfl⟩

section Step

variable {call call' : Applier} (hcall : Extends call call)
include hcall

/-- Taking operands goes the same way for functions of the same parameters. An operand that is run
at once is none to compare. -/
theorem classifyAll_tracks (fn fn' : Function) : ∀ (i j : Nat) (ps : List TypeDesc)
    (vs : List Value), vs.length ≤ ps.length →
      Tracks Event.Plain (fun slots slots' => slots' = slots ∧ Taken ps vs slots) Stop.Agrees
        (classifyAll call fn i ps vs) (classifyAll call' fn' j ps vs)
  | _, _, ps, [], _ => by
    cases ps <;> exact .of_follows (.pure ⟨rfl, .nil _⟩)
  | _, _, [], _ :: _, h => by simp at h
  | i, j, p :: ps, v :: vs, h => by
    have hgrow := Repeats.call_rules.classifyAll hcall fn (i + 1) ps vs
    have ih := classifyAll_tracks fn fn' (i + 1) (j + 1) ps vs (by simpa using h)
    unfold classifyAll
    by_cases hfit : v.fits p = true
    · rw [classify_of_fits call fn i hfit, classify_of_fits call' fn' j hfit, pure_bind, pure_bind]
      refine ih.bind (fun slots _ hs => ?_) hgrow fun _ => .pure _
      obtain ⟨rfl, htaken⟩ := hs
      exact .of_follows (.pure ⟨rfl, .value hfit htaken⟩)
    · by_cases hp : ∃ g, v.Pends p g
      · obtain ⟨g, hg⟩ := hp
        obtain rfl := hg.eq
        rw [classify_of_pends call fn i hg, classify_of_pends call' fn' j hg]
        by_cases hzero : g.arity = 0
        · rw [if_pos hzero]
          unfold Function.invoke
          rw [bind_assoc, bind_assoc]
          exact .of_nullary hzero ((Repeats.leaving g (Body.run_repeats hcall [] g.body)).bind
            fun _ => (Repeats.pure _).bind fun _ => hgrow.bind fun _ => .pure _)
        · rw [if_neg hzero, if_neg hzero, bind_assoc, bind_assoc]
          refine Tracks.bind (.of_follows (.note rfl)) (fun _ _ _ => ?_) (.note _) fun _ => ?_
          · rw [pure_bind, pure_bind]
            refine ih.bind (fun slots _ hs => ?_) hgrow fun _ => .pure _
            obtain ⟨rfl, htaken⟩ := hs
            exact .of_follows (.pure ⟨rfl, .pending hg hzero htaken⟩)
          · exact (Repeats.pure _).bind fun _ => hgrow.bind fun _ => .pure _
      · rw [Bool.not_eq_true] at hfit
        rw [classify_of_not_pends call fn i hfit (not_exists.1 hp),
          classify_of_not_pends call' fn' j hfit (not_exists.1 hp)]
        exact .of_follows (Follows.bind (P := fun _ _ => False) (.throw (.mismatch ..))
          fun _ _ h => h.elim)

end Step

/-- A continuation goes on with the operands it was made with in front. -/
theorem continuation_invoke (call : Applier) (fn : Function) (us : List Value) (slots : List Slot)
    (serial : Nat) (args : List Value) :
    (continuation fn (us.map .value ++ slots) serial).invoke call args =
      (continuation fn (us.map .value ++ slots) serial).around args (do
        let vs ← Slot.combine call slots args
        call fn (us ++ vs)) := by
  have hbody : (continuation fn (us.map .value ++ slots) serial).body
      = .resume fn (us.map .value ++ slots) := rfl
  unfold Function.invoke Function.around
  simp only [hbody, Body.run, combine_append, bind_assoc, pure_bind]

theorem continuation_one_invoke (call : Applier) (fn : Function) (a : Value) (serial : Nat)
    (args : List Value) : (continuation fn [.value a] serial).invoke call args =
      (continuation fn [.value a] serial).around args (call fn ([a] ++ args)) := by
  have h := continuation_invoke call fn [a] [] serial args
  simp only [Slot.combine, pure_bind] at h
  exact h

/-- What all further applications of two functions that stand for one another come to. -/
abbrev Currying (call call' : Applier) : Prop :=
  ∀ ⦃pre pre' : List Value⦄ ⦃g h : Function⦄ ⦃args : List Value⦄, Curry pre g pre' h →
    pre = [] ∧ pre' = [] ∨ args ≠ [] ∧ pre.length + args.length ≤ g.arity →
      Tracks Event.Plain (Value.Alike fun g h => Curry [] g [] h) Stop.Agrees
        (call g (pre ++ args)) (call' h (pre' ++ args))

section Step

variable {n m : Nat} (hnm : n < m) (hcurry : Currying (apply n) (apply m))
  {pre pre' : List Value} {g h : Function} {args : List Value} (hc : Curry pre g pre' h)
include hnm hcurry hc

/-- Running two functions that stand for one another. Both run the same pending functions, and then
go on with no operand too many. -/
theorem invoke_tracks (hg : AllFit (pre ++ args) g.params) (hh : AllFit (pre' ++ args) h.params) :
    Tracks Event.Plain (Value.Alike fun g h => Curry [] g [] h) Stop.Agrees
      (g.invoke (apply n) (pre ++ args)) (h.invoke (apply m) (pre' ++ args)) := by
  cases hc with
  | @one f a p q serial hf ha =>
    have hdirect : (h.invoke (apply m) ([a] ++ args) : Eval Value) =
        apply (m + 1) h ([a] ++ args) :=
      (applyOnce_of_fits (apply m) hh).symm
    have hext : Extends (apply n) (apply (m + 1)) := apply_extends (by omega)
    rw [hdirect, List.nil_append, continuation_one_invoke]
    exact Tracks.around_left rfl (.of_repeats (hext h _) .refl .refl)
  | @both f a p q serial hf ha =>
    have hdirect : (g.invoke (apply n) ([a] ++ args) : Eval Value) =
        apply (n + 1) g ([a] ++ args) :=
      (applyOnce_of_fits (apply n) hg).symm
    have hext : Extends (apply (n + 1)) (apply m) := apply_extends (by omega)
    rw [hdirect, List.nil_append, continuation_one_invoke]
    exact Tracks.around_right rfl (.of_repeats (hext g _) .refl .refl)
  | @later pre pre' g h slots serial hc hslots hlen hpos =>
    have hpos' : ∀ z, .pending z ∈ pre.map .value ++ slots → 0 < z.arity := by
      intro z hz
      rcases List.mem_append.1 hz with hz | hz
      · simp at hz
      · exact hpos z hz
    have hunused := unused_le g serial hpos'
    have hargs : args.length = (continuation g (pre.map .value ++ slots) serial).arity :=
      hg.length_eq
    rw [unused_append, ← hargs, List.length_append, List.length_map] at hunused
    rw [List.nil_append, continuation_invoke, continuation_invoke]
    refine Tracks.around_left rfl (Tracks.around_right rfl ?_)
    have hcombine : Tracks Event.Plain (· = ·) Stop.Agrees (Slot.combine (apply n) slots args)
        (Slot.combine (apply m) slots args) :=
      .of_repeats (Repeats.rules.combine (apply_extends hnm.le) slots args) (fun _ => rfl) .refl
    refine (hcombine.and_ok fun w us u => length_of_combine (apply n)).bind ?_
      (Repeats.rules.combine (apply_extends le_rfl) slots args) fun us => apply_extends le_rfl g _
    rintro us _ ⟨rfl, hus⟩
    have hpos := List.length_pos_iff.2 hslots
    refine hcurry hc (.inr ⟨List.ne_nil_of_length_pos (by omega), by omega⟩)

/-- One application of two functions that stand for one another, by the parameters to come and the
operands for them. -/
theorem applyOnce_tracks
    (hargs : pre = [] ∧ pre' = [] ∨ args ≠ [] ∧ pre.length + args.length ≤ g.arity) :
    Tracks Event.Plain (Value.Alike fun g h => Curry [] g [] h) Stop.Agrees
      (applyOnce (apply n) g (pre ++ args)) (applyOnce (apply m) h (pre' ++ args)) := by
  obtain ⟨ps, ps', qs, hps, hps', hg, hh, -⟩ := hc.signature
  have hgcount := arity_eq hps hg
  have hhcount := arity_eq hps' hh
  by_cases hfit : AllFit args qs
  · have hgfit : AllFit (pre ++ args) g.params := hg ▸ List.rel_append hps hfit
    have hhfit : AllFit (pre' ++ args) h.params := hh ▸ List.rel_append hps' hfit
    rw [applyOnce_of_fits _ hgfit, applyOnce_of_fits _ hhfit]
    exact invoke_tracks hnm hcurry hc hgfit hhfit
  by_cases hmany : qs.length < args.length
  · obtain ⟨rfl, rfl⟩ : pre = [] ∧ pre' = [] := hargs.resolve_right fun h => by omega
    rw [List.length_nil, Nat.zero_add] at hgcount hhcount
    unfold applyOnce
    rw [List.nil_append, hgcount, hhcount, if_pos hmany, if_pos hmany]
    exact .of_follows (.throw (.arity ..))
  by_cases hempty : args = []
  · obtain ⟨rfl, rfl⟩ : pre = [] ∧ pre' = [] := hargs.resolve_right fun h => h.1 hempty
    have hqs : qs ≠ [] := fun hnil => hfit (hempty ▸ hnil ▸ .nil)
    have hpos := List.length_pos_iff.2 hqs
    rw [List.length_nil, Nat.zero_add] at hgcount hhcount
    rw [hempty, List.append_nil, applyOnce_nil _ (by omega), applyOnce_nil _ (by omega)]
    exact .of_follows (.pure (.func hc))
  · rw [applyOnce_append (apply n) hps hg (by omega) (by simp [hempty]),
      applyOnce_append (apply m) hps' hh (by omega) (by simp [hempty])]
    have hext : Extends (apply n) (apply n) := apply_extends le_rfl
    refine (classifyAll_tracks hext g h _ _ qs args (by omega)).bind ?_
      (Repeats.call_rules.classifyAll hext g _ qs args) fun _ => Repeats.call_rules.proceed hext g _
    rintro _ slots ⟨rfl, htaken⟩
    rw [htaken.proceed_append (apply n) hps hg hfit, htaken.proceed_append (apply m) hps' hh hfit]
    have hlen := htaken.length_eq
    have hslots : slots ≠ [] := by
      rintro rfl
      exact hempty (List.eq_nil_of_length_eq_zero hlen.symm)
    refine .of_follows ((suspend_follows g h _ _).imp ?_ fun _ _ hs => hs)
    rintro _ _ ⟨serial, rfl, rfl⟩
    exact .func (.later serial hc hslots (by omega) htaken.arity_pos)

end Step

/-- All further applications of functions that stand for one another come to the same, or to
functions that do too. A continuation goes on one application further in, so the run that follows
has more fuel. -/
theorem apply_currying : ∀ {n m : Nat}, n < m → Currying (apply n) (apply m)
  | 0, _, _ => fun _ _ _ _ _ _ _ => .of_follows .outOfFuel
  | n + 1, 0, h => by omega
  | n + 1, m + 1, h => fun _ _ _ _ _ hc hargs =>
    applyOnce_tracks (by omega) (apply_currying (by omega)) hc hargs

/-- With fuel enough, applying a function to operands in a world ends so. -/
structure Function.Ends (f : Function) (args : List Value) (w : World) (r : Outcome Value) :
    Prop where
  finished : r.Finished
  reached : ∃ fuel, apply fuel f args w = r

/-- If one of two applications ends, having recorded nothing but what is `ok`, the other ends
alike. -/
structure Matches (ok : Event → Prop) (V : Value → Value → Prop) (S : Stop → Stop → Prop)
    (g : Function) (args : List Value) (w : World) (h : Function) (args' : List Value)
    (w' : World) : Prop where
  there : ∀ r, g.Ends args w r → r.Keeps ok w →
    ∃ r', h.Ends args' w' r' ∧ Outcome.Alike Event.run? V S w w' r r'
  back : ∀ r', h.Ends args' w' r' → r'.Keeps ok w' →
    ∃ r, g.Ends args w r ∧ Outcome.Alike Event.run? V S w w' r r'

section Matches

variable {ok : Event → Prop} {V : Value → Value → Prop} {S : Stop → Stop → Prop}
  {g h : Function} {args args' : List Value} {w w' : World}

/-- How an application ends, one that tracks it ends too. -/
theorem ends_of_tracks (hS : ∀ s, S s .outOfFuel → s = .outOfFuel)
    (ht : ∀ n, ∃ m, Tracks ok V S (apply n g args) (apply m h args')) (hw : w.Like w')
    {r : Outcome Value} (hr : g.Ends args w r) (hok : r.Keeps ok w) :
    ∃ r', h.Ends args' w' r' ∧ Outcome.Alike Event.run? V S w w' r r' := by
  obtain ⟨hfin, fuel, rfl⟩ := hr
  obtain ⟨m, ht⟩ := ht fuel
  have halike := ht hw hfin hok
  exact ⟨_, ⟨halike.finished hS hfin, m, rfl⟩, halike⟩

theorem matches_of_tracks (hV : ∀ a b, V a b → V b a) (hS : ∀ s t, S s t → S t s)
    (hfuel : ∀ s, S s .outOfFuel → s = .outOfFuel)
    (ht : ∀ n, ∃ m, Tracks ok V S (apply n g args) (apply m h args'))
    (ht' : ∀ n, ∃ m, Tracks ok V S (apply n h args') (apply m g args)) (hw : w.Like w') :
    Matches ok V S g args w h args' w' := by
  refine ⟨fun r hr hok => ends_of_tracks hfuel ht hw hr hok, fun r' hr' hok => ?_⟩
  obtain ⟨r, hr, halike⟩ := ends_of_tracks hfuel ht' hw.symm hr' hok
  exact ⟨r, hr, halike.symm.imp id (fun a b hab => hV b a hab) fun s t hst => hS t s hst⟩

end Matches

/-- Functions in the relation `R` take the same and promise the same, and applying them to the same
operands comes to the same, or to functions in `R` again. -/
structure Agreement (R : Function → Function → Prop) : Prop where
  params : ∀ {g h : Function}, R g h → g.params = h.params
  returns : ∀ {g h : Function}, R g h → g.returns = h.returns
  layers : ∀ {g h : Function}, R g h → g.layers = h.layers
  applied : ∀ {g h : Function}, R g h → ∀ (args : List Value) {w w' : World}, w.Like w' →
    Matches Event.Plain (Value.Alike R) Stop.Agrees g args w h args w'

/-- Functions that agree however often they are applied. -/
def Function.Agrees (g h : Function) : Prop := ∃ R, Agreement R ∧ R g h

theorem Stop.Agrees.outOfFuel {s : Stop} (h : s.Agrees .outOfFuel) : s = .outOfFuel := by
  cases h
  rfl

theorem agreement_curry : Agreement fun g h => Curry [] g [] h where
  params hc := by
    obtain ⟨_, _, _, hps, hps', hg, hh, -⟩ := hc.signature
    cases hps
    cases hps'
    rw [hg, hh]
  returns hc := by
    obtain ⟨_, _, _, -, -, -, -, hret⟩ := hc.signature
    exact hret
  layers hc := hc.layers_eq
  applied hc args w w' hw := by
    refine matches_of_tracks ?_ (fun s t => .symm) (fun s => Stop.Agrees.outOfFuel) ?_ ?_ hw
    · rintro _ _ (_ | hc)
      · exact .refl _
      · exact .func hc.symm
    · exact fun n => ⟨n + 1, apply_currying (by omega) hc (.inl ⟨rfl, rfl⟩)⟩
    · exact fun n => ⟨n + 1, apply_currying (by omega) hc.symm (.inl ⟨rfl, rfl⟩)⟩

section Second

variable {pre : List Value} {fn : Function} {ps : List TypeDesc} {q : TypeDesc}
  (call : Applier) (hps : AllFit pre ps) (hfn : fn.params = ps ++ [q]) {b : Value}
include hps hfn

/-- A continuation is made of the last operand, if that is pending. -/
theorem applyOnce_pending {g : Function} (hb : b.Pends q g) (hg : g.arity ≠ 0) :
    applyOnce call fn (pre ++ [b]) = (do
      .note (.composed fn.name g.text pre.length)
      suspend fn (pre.map .value ++ [.pending g])) := by
  have htaken : Taken [q] [b] [.pending g] := by
    obtain rfl := hb.eq
    exact .pending hb hg (.nil [])
  have hfit : ¬AllFit [b] [q] := by
    intro hall
    cases hall with
    | cons hfit _ => exact absurd hb.misfit (by rw [hfit]; decide)
  rw [applyOnce_append call hps hfn le_rfl (by simp)]
  simp only [classifyAll, classify_of_pends call fn pre.length hb, if_neg hg, bind_assoc, pure_bind,
    htaken.proceed_append call hps hfn hfit]

theorem applyOnce_mismatch (hfit : b.fits q = false) (hb : ∀ g, ¬b.Pends q g) :
    applyOnce call fn (pre ++ [b]) =
      .fail (.mismatch none fn.text pre.length q b.type (some b.text)) := by
  rw [applyOnce_append call hps hfn le_rfl (by simp)]
  simp only [classifyAll, classify_of_not_pends call fn pre.length hfit hb]
  rfl

end Second

/-- What a function of two operands makes of one that fits. -/
theorem applyOnce_one (call : Applier) {f : Function} {a : Value} {p q : TypeDesc}
    (hf : f.params = [p, q]) (ha : a.fits p = true) :
    applyOnce call f [a] = suspend f [.value a] := by
  have htaken : Taken [q] [] [] := .nil _
  have hps : AllFit [a] [p] := .cons ha .nil
  have happend : applyOnce call f ([a] ++ []) = _ :=
    applyOnce_append call hps hf (by simp) (by simp)
  simp only [classifyAll, pure_bind, List.append_nil] at happend
  have hopen : ¬AllFit [] [q] := by
    intro h
    cases h
  rw [happend]
  exact htaken.proceed_append call hps hf hopen

theorem pending_follows {pre pre' : List Value} {g h z : Function} {ps ps' : List TypeDesc}
    {q : TypeDesc} {b : Value} {S : Stop → Stop → Prop} (call : Applier) (hps : AllFit pre ps)
    (hps' : AllFit pre' ps') (hg : g.params = ps ++ [q]) (hh : h.params = ps' ++ [q])
    (hb : b.Pends q z) (hz : z.arity ≠ 0) :
    Follows Event.run? (fun v v' => ∃ serial,
        v = .func (continuation g (pre.map .value ++ [.pending z]) serial) ∧
        v' = .func (continuation h (pre'.map .value ++ [.pending z]) serial)) S
      (applyOnce call g (pre ++ [b])) (applyOnce call h (pre' ++ [b])) := by
  rw [applyOnce_pending call hps hg hb hz, applyOnce_pending call hps' hh hb hz]
  exact Follows.bind (.note rfl) fun _ _ _ => suspend_follows g h _ _

section Curried

variable {f : Function} {p q : TypeDesc} {a b : Value} (hf : f.params = [p, q]) (serial : Nat)
  {w w' : World} (hw : w.Like w')
include hf hw

/-- With a second operand that fits, a continuation does as the function on both. -/
theorem matches_of_fits (hb : b.fits q = true) :
    Matches (fun _ => True) (· = ·) (· = ·) (continuation f [.value a] serial) [b] w
      f [a, b] w' := by
  have hrun : ∀ n, apply (n + 1) (continuation f [.value a] serial) [b]
      = (continuation f [.value a] serial).around [b] (apply n f [a, b]) := by
    intro n
    have hall : AllFit [b] (continuation f [.value a] serial).params :=
      (continuation_one hf a serial).1 ▸ .cons hb .nil
    exact (applyOnce_of_fits (apply n) hall).trans
      (continuation_one_invoke (apply n) f a serial [b])
  have hsame : ∀ n, Tracks (fun _ => True) (· = ·) (· = ·) (apply n f [a, b]) (apply n f [a, b]) :=
    fun n => .of_repeats (apply_extends le_rfl f _) (fun _ => rfl) fun _ => rfl
  refine matches_of_tracks (fun _ _ => Eq.symm) (fun _ _ => Eq.symm) (fun _ => id)
    (fun n => ?_) (fun n => ⟨n + 1, ?_⟩) hw
  · obtain _ | n := n
    · exact ⟨0, .of_follows .outOfFuel⟩
    · exact ⟨n, hrun n ▸ (hsame n).around_left rfl⟩
  · exact hrun n ▸ (hsame n).around_right rfl

/-- With a second operand that is pending, a continuation gives a function that agrees with what the
function gives on both. -/
theorem agrees_of_pends (ha : a.fits p = true) {g : Function} (hb : b.Pends q g)
    (hg : g.arity ≠ 0) : ∃ k₁ k₂ u u',
      (continuation f [.value a] serial).Ends [b] w (.ok (.func k₁) u) ∧
        f.Ends [a, b] w' (.ok (.func k₂) u') ∧ Moves Event.run? w u w' u' ∧ k₁.Agrees k₂ := by
  have hk : (continuation f [.value a] serial).params = [] ++ [q] :=
    (continuation_one hf a serial).1
  have hps : AllFit [a] [p] := .cons ha .nil
  have hfollow := pending_follows (S := fun _ _ => False) (apply 0) .nil hps hk hf hb hg
  have hgives : ∃ v u, applyOnce (apply 0) (continuation f [.value a] serial) [b] w = .ok v u :=
    ⟨_, _, (congrFun (applyOnce_pending (apply 0) .nil hk hb hg) w).trans
      ((EvalIn.bind_of_ok (EvalIn.note_eq _ w)).trans (suspend_eq ..))⟩
  obtain ⟨v, u, hv⟩ := hgives
  have halike := hfollow hw (hv ▸ fun _ => nofun)
  rcases hr : applyOnce (apply 0) f ([a] ++ [b]) w' with ⟨v', u'⟩ | ⟨t, u'⟩ <;>
    rw [List.nil_append, hv, hr] at halike
  · cases halike with
    | ok hcont hm =>
      obtain ⟨serial', rfl, rfl⟩ := hcont
      have hpos : ∀ z, .pending z ∈ [Slot.pending g] → 0 < z.arity := by
        intro z hz
        cases List.mem_singleton.1 hz
        omega
      have hlen : ([] : List Value).length + [Slot.pending g].length
          ≤ (continuation f [.value a] serial).arity := (arity_eq .nil hk).ge
      exact ⟨_, _, u, u', ⟨fun _ => nofun, 1, hv⟩, ⟨fun _ => nofun, 1, hr⟩, hm, _, agreement_curry,
        .later serial' (.one serial hf ha) (by simp) hlen hpos⟩
  · cases halike

omit hw in
/-- With a second operand that does not fit, both stop at it. -/
theorem mismatch_of_not_pends (ha : a.fits p = true) (hfit : b.fits q = false)
    (hb : ∀ g, ¬b.Pends q g) :
    (continuation f [.value a] serial).Ends [b] w
      (.error (.fault (.mismatch none (continuation f [.value a] serial).text 0 q b.type
        (some b.text))) w) ∧
    f.Ends [a, b] w' (.error (.fault (.mismatch none f.text 1 q b.type (some b.text))) w') := by
  have hk : (continuation f [.value a] serial).params = [] ++ [q] :=
    (continuation_one hf a serial).1
  have hps : AllFit [a] [p] := .cons ha .nil
  exact ⟨⟨fun _ => nofun, 1, congrFun (applyOnce_mismatch (apply 0) .nil hk hfit hb) w⟩,
    ⟨fun _ => nofun, 1, congrFun (applyOnce_mismatch (apply 0) hps hf hfit hb) w'⟩⟩

end Curried

/-- A function of two operands, given one that fits and then another, does as if given both: it
gives or stops with the same and runs the same functions, or it gives a function that agrees with
what it gives for both, or either way the second operand does not fit. -/
theorem apply_curried {f : Function} {p q : TypeDesc} {a : Value} (hf : f.params = [p, q])
    (ha : a.fits p = true) (w₀ : World) :
    ∃ k w₁, (∀ n, apply (n + 1) f [a] w₀ = .ok (.func k) w₁) ∧
      ∀ (b : Value) (w w' : World), w.Like w' →
        (b.fits q = true → Matches (fun _ => True) (· = ·) (· = ·) k [b] w f [a, b] w') ∧
        (∀ g, b.Pends q g → g.arity ≠ 0 → ∃ k₁ k₂ u u',
          k.Ends [b] w (.ok (.func k₁) u) ∧ f.Ends [a, b] w' (.ok (.func k₂) u') ∧
            Moves Event.run? w u w' u' ∧ k₁.Agrees k₂) ∧
        (b.fits q = false → (∀ g, ¬b.Pends q g) →
          k.Ends [b] w (.error (.fault (.mismatch none k.text 0 q b.type (some b.text))) w) ∧
          f.Ends [a, b] w'
            (.error (.fault (.mismatch none f.text 1 q b.type (some b.text))) w')) := by
  have hmake : ∀ n, apply (n + 1) f [a] w₀ = suspend f [.value a] w₀ := fun n =>
    congrFun (applyOnce_one (apply n) hf ha) w₀
  refine ⟨_, _, fun n => (hmake n).trans (suspend_eq f _ w₀), fun b w w' hw => ⟨?_, ?_, ?_⟩⟩
  · exact matches_of_fits hf _ hw
  · exact fun g hb hg => agrees_of_pends hf _ hw ha hb hg
  · exact fun hfit hb => mismatch_of_not_pends hf _ ha hfit hb

theorem apply_curried_plus :
    Builtin.plus.function.params = [.num, .num] ∧ (Value.num (.ofNat 2)).fits .num = true ∧
    ∃ k w, (∀ n, apply (n + 1) Builtin.plus.function [.num (.ofNat 2)] (.initial .empty)
        = .ok (.func k) w) ∧
      Matches (fun _ => True) (· = ·) (· = ·) k [.num (.ofNat 3)] w
        Builtin.plus.function [.num (.ofNat 2), .num (.ofNat 3)] w ∧
      (∃ k₁ k₂ u u', k.Ends [.func Builtin.times.function] w (.ok (.func k₁) u) ∧
        Builtin.plus.function.Ends [.num (.ofNat 2), .func Builtin.times.function] w
          (.ok (.func k₂) u') ∧ k₁.Agrees k₂) ∧
      ∃ s s', k.Ends [.bool true] w (.error s w) ∧
        Builtin.plus.function.Ends [.num (.ofNat 2), .bool true] w (.error s' w) := by
  have hf : Builtin.plus.function.params = [.num, .num] := rfl
  have ha : (Value.num (.ofNat 2)).fits .num = true := rfl
  obtain ⟨k, w, hk, hcurried⟩ := apply_curried hf ha (.initial .empty)
  have htimes : (Value.func Builtin.times.function).Pends .num Builtin.times.function :=
    ⟨rfl, rfl, rfl⟩
  obtain ⟨k₁, k₂, u, u', hend, hend', -, hagree⟩ :=
    (hcurried (.func Builtin.times.function) w w (.refl w)).2.1 _ htimes (by decide)
  have hstop := (hcurried (.bool true) w w (.refl w)).2.2 rfl fun g hg => by cases hg.eq
  exact ⟨hf, ha, k, w, hk, (hcurried (.num (.ofNat 3)) w w (.refl w)).1 rfl,
    ⟨k₁, k₂, u, u', hend, hend', hagree⟩, _, _, hstop⟩

end Tacit
