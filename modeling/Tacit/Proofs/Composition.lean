import Mathlib.Algebra.Order.Group.Nat
import Tacit.Proofs.SafeApply
import Tacit.Proofs.Taking

/-!
# Continuations compose

A continuation declares parameters when it is made, and counts operands off when it runs. The two
agree: given operands that fit its parameters, it deals them out, in order and each once, to the
pending functions that its parameters cover and to the parameters that had no operand (`Deal`), and
goes on with the application it came from.
-/

namespace Tacit

open Builtin (Applier)

/-- The operands that do not fit but are functions, each with the parameter it is for. -/
def pendings : List TypeDesc → List Value → List (TypeDesc × Function)
  | p :: ps, v :: vs => (if v.fits p then [] else (v.func?.map (p, ·)).toList) ++ pendings ps vs
  | _, _ => []

/-- The operands with results in place of the first that do not fit. -/
def fill : List TypeDesc → List Value → List Value → List Value
  | p :: ps, v :: vs, r :: rs => if v.fits p then v :: fill ps vs (r :: rs) else r :: fill ps vs rs
  | _, vs, _ => vs

/-- How new operands are dealt out by a continuation `k` of an application of `fn` to `args`. -/
structure Deal (fn : Function) (args : List Value) (k : Function) (new : List Value) where
  /-- The pending functions whose operands the parameters of `k` ask for. -/
  covered : List (TypeDesc × Function)
  kept : List (TypeDesc × Function)
  shares : List (List Value)
  rest : List Value
  /-- The parameters of `fn` that the rest is for. -/
  unsupplied : List TypeDesc
  pendings_eq : pendings fn.params args = covered ++ kept
  params_eq : k.params = (covered.map (·.2.params)).flatten ++ unsupplied
  unsupplied_eq : unsupplied = [] ∨ kept = [] ∧ unsupplied = fn.params.drop args.length
  new_eq : new = shares.flatten ++ rest
  shares_fit : List.Forall₂ (fun c share => AllFit share c.2.params) covered shares
  rest_fits : AllFit rest unsupplied

/-- The operands that the application goes on with, given the results of what is covered. -/
def Deal.combined {fn k : Function} {args new : List Value} (d : Deal fn args k new)
    (results : List Value) : List Value := fill fn.params args results ++ d.rest

/-- Runs what is covered, each on its share, and goes on with the application. -/
def Deal.resume {fn k : Function} {args new : List Value} (d : Deal fn args k new)
    (call : Applier) : Eval Value := do
  let results ← (d.covered.zip d.shares).mapM fun (c, share) => call c.2 share
  call fn (d.combined results)

theorem fill_nil (ps : List TypeDesc) (vs : List Value) : fill ps vs [] = vs := by
  cases ps <;> cases vs <;> rfl

theorem fill_of_fits {p : TypeDesc} {v : Value} (h : v.fits p = true) (ps : List TypeDesc)
    (vs rs : List Value) : fill (p :: ps) (v :: vs) rs = v :: fill ps vs rs := by
  cases rs with
  | nil => rw [fill_nil, fill_nil]
  | cons r rs => simp only [fill, h, if_true]

section Taken

variable {ps : List TypeDesc} {args : List Value} {slots : List Slot}

/-- When a continuation runs, it deals operands out to what is pending by count. A pending function
that is kept gets none. -/
theorem Taken.combine (call : Applier) (h : Taken ps args slots) :
    ∀ {covered kept : List (TypeDesc × Function)} {shares : List (List Value)} {rest : List Value},
      pendings ps args = covered ++ kept →
      List.Forall₂ (fun c share => share.length = c.2.arity) covered shares →
      (kept ≠ [] → rest = []) →
      Slot.combine call slots (shares.flatten ++ rest) = do
        let results ← (covered.zip shares).mapM fun (c, share) => call c.2 share
        return fill ps args results ++ rest := by
  induction h with
  | nil ps =>
    intro covered kept shares rest hp hs _
    obtain ⟨rfl, -⟩ := List.append_eq_nil_iff.1 (hp.symm.trans (by cases ps <;> rfl))
    cases hs
    simp [Slot.combine, fill_nil]
  | @value p ps v vs slots hv _ ih =>
    intro covered kept shares rest hp hs hr
    have hp' : pendings ps vs = covered ++ kept := by simpa [pendings, hv] using hp
    simp only [Slot.combine, ih hp' hs hr, bind_assoc, pure_bind, fill_of_fits hv,
      List.cons_append]
  | @pending p ps g vs slots hg har _ ih =>
    intro covered kept shares rest hp hs hr
    have hp' : (p, g) :: pendings ps vs = covered ++ kept := by
      simpa [pendings, hg.misfit, Value.func?] using hp
    rcases List.cons_eq_append_iff.1 hp' with ⟨rfl, rfl⟩ | ⟨covered', rfl, hp''⟩
    · cases hs
      obtain rfl := hr (by simp)
      have hpos : (([] : List (List Value)).flatten ++ []).length < g.arity := by
        simp only [List.flatten_nil, List.append_nil, List.length_nil]
        omega
      have hnext := @ih [] (pendings ps vs) [] [] rfl .nil fun _ => rfl
      simp only [Slot.combine, if_pos hpos, hnext, List.zip_nil_left, List.mapM_nil, pure_bind,
        fill_nil, List.cons_append]
    · cases hs with
      | @cons _ share _ shares hlen hs =>
        have hlen' : share.length = g.arity := hlen
        have hall : (share :: shares).flatten ++ rest = share ++ (shares.flatten ++ rest) := by
          rw [List.flatten_cons, List.append_assoc]
        have hle : ¬(share ++ (shares.flatten ++ rest)).length < share.length := by
          rw [List.length_append]
          omega
        rw [hall]
        simp only [Slot.combine, ← hlen', if_neg hle, List.take_left, List.drop_left,
          ih hp'' hs hr, List.zip_cons_cons, List.mapM_cons, bind_assoc, pure_bind, fill, hg.misfit,
          Bool.false_eq_true, if_false, List.cons_append]

theorem Taken.pendingGroups_eq (h : Taken ps args slots) :
    pendingGroups slots = (pendings ps args).map (·.2.params) := by
  induction h with
  | nil ps => cases ps <;> rfl
  | value hv _ ih =>
    unfold pendingGroups at ih ⊢
    rw [List.filterMap_cons_none rfl, ih]
    simp [pendings, hv]
  | pending hg _ _ ih =>
    unfold pendingGroups at ih ⊢
    rw [List.filterMap_cons, ih]
    simp [pendings, hg.misfit, Value.func?, Slot.params?]

theorem Taken.func_mem (h : Taken ps args slots) {g : Function} (hg : .pending g ∈ slots) :
    .func g ∈ args := by
  induction h with
  | nil => simp at hg
  | value _ _ ih =>
    rcases List.mem_cons.1 hg with hg | hg
    · cases hg
    · exact List.mem_cons_of_mem _ (ih hg)
  | pending _ _ _ ih =>
    rcases List.mem_cons.1 hg with hg | hg
    · cases hg
      exact List.mem_cons_self
    · exact List.mem_cons_of_mem _ (ih hg)

/-- Operands that fit are taken as they are. -/
theorem taken_of_fits {vs : List Value} {qs : List TypeDesc} (h : AllFit vs qs)
    (others : List TypeDesc) :
    Taken (qs ++ others) vs (vs.map .value) := by
  induction h with
  | nil => exact .nil _
  | cons hv _ ih => exact .value hv ih

theorem pendingGroups_values (vs : List Value) : pendingGroups (vs.map .value) = [] := by
  unfold pendingGroups
  rw [List.filterMap_eq_nil_iff]
  simp [Slot.params?]

/-- With fitting results for what is covered, only what is kept is pending still. -/
theorem Taken.filled (h : Taken ps args slots) : ∀ {covered kept : List (TypeDesc × Function)}
    {results rest : List Value} {unsupplied others : List TypeDesc},
      pendings ps args = covered ++ kept →
      List.Forall₂ (fun c r => r.fits c.1 = true) covered results →
      ps.drop args.length = unsupplied ++ others →
      AllFit rest unsupplied →
      ∃ slots', Taken ps (fill ps args results ++ rest) slots' ∧
        pendingGroups slots' = kept.map (·.2.params) := by
  induction h with
  | nil ps =>
    intro covered kept results rest unsupplied others hp hr hps hrest
    obtain ⟨rfl, rfl⟩ := List.append_eq_nil_iff.1 (hp.symm.trans (by cases ps <;> rfl))
    cases hr
    obtain rfl : ps = unsupplied ++ others := hps
    rw [fill_nil, List.nil_append]
    exact ⟨_, taken_of_fits hrest others, pendingGroups_values rest⟩
  | @value p ps v vs slots hv _ ih =>
    intro covered kept results rest unsupplied others hp hr hps hrest
    have hp' : pendings ps vs = covered ++ kept := by simpa [pendings, hv] using hp
    obtain ⟨slots', htaken, hgroups⟩ := ih hp' hr hps hrest
    rw [fill_of_fits hv, List.cons_append]
    exact ⟨_, .value hv htaken, hgroups⟩
  | @pending p ps g vs slots hg har _ ih =>
    intro covered kept results rest unsupplied others hp hr hps hrest
    have hp' : (p, g) :: pendings ps vs = covered ++ kept := by
      simpa [pendings, hg.misfit, Value.func?] using hp
    rcases List.cons_eq_append_iff.1 hp' with ⟨rfl, rfl⟩ | ⟨covered', rfl, hp''⟩
    · cases hr
      obtain ⟨slots', htaken, hgroups⟩ := @ih [] _ [] rest unsupplied others rfl .nil hps hrest
      rw [fill_nil] at htaken ⊢
      rw [List.cons_append]
      refine ⟨_, .pending hg har htaken, ?_⟩
      rw [List.map_cons, ← hgroups]
      rfl
    · cases hr with
      | @cons _ r _ results hfit hr =>
        obtain ⟨slots', htaken, hgroups⟩ := ih hp'' hr hps hrest
        have hfill : fill (p :: ps) (.func g :: vs) (r :: results) = r :: fill ps vs results := by
          simp only [fill, hg.misfit, Bool.false_eq_true, if_false]
        rw [hfill, List.cons_append]
        exact ⟨_, .value hfit htaken, hgroups⟩

end Taken

theorem length_fill (ps : List TypeDesc) (vs rs : List Value) :
    (fill ps vs rs).length = vs.length := by
  fun_induction fill ps vs rs with
  | case1 p ps v vs r rs _ ih | case2 p ps v vs r rs _ ih =>
    rw [List.length_cons, List.length_cons, ih]
  | case3 => rfl

/-- Parameters as a group, if there are any. -/
def remaining (ps : List TypeDesc) : List (List TypeDesc) := if ps.isEmpty then [] else [ps]

theorem flatten_remaining (ps : List TypeDesc) : (remaining ps).flatten = ps := by
  cases ps <;> simp [remaining]

theorem openGroups_eq (fn : Function) (slots : List Slot) :
    openGroups fn slots = pendingGroups slots ++ remaining (fn.params.drop slots.length) := rfl

theorem remaining_eq_append {ps : List TypeDesc} {more left : List (List TypeDesc)}
    (h : remaining ps = more ++ left) :
    more = [] ∧ left = remaining ps ∨ more.flatten = ps ∧ left = [] := by
  rcases more with _ | ⟨g, more⟩
  · exact .inl ⟨rfl, h.symm⟩
  · unfold remaining at h
    split_ifs at h
    · cases h
    · obtain ⟨rfl, hnil⟩ := List.cons.inj h
      obtain ⟨rfl, rfl⟩ := List.append_eq_nil_iff.1 hnil.symm
      exact .inr ⟨by simp, rfl⟩

theorem pendings_of_fits {args : List Value} {ps : List TypeDesc} (h : AllFit args ps) :
    pendings ps args = [] := by
  induction h with
  | nil => rfl
  | cons hv _ ih => simp [pendings, hv, ih]

variable {fn : Function} {args : List Value} {slots : List Slot}

/-- Nothing is waited for just if all operands are there and fit. -/
theorem Taken.openGroups_eq_nil (h : Taken fn.params args slots) :
    openGroups fn slots = [] ↔ AllFit args fn.params := by
  rw [openGroups_eq, List.append_eq_nil_iff, h.length_eq]
  refine ⟨fun ⟨hp, hr⟩ => ?_, fun hfit => ?_⟩
  · have hall : fn.params.take args.length = fn.params := by
      rw [List.take_of_length_le]
      have := congrArg List.length (flatten_remaining (fn.params.drop args.length))
      rw [hr, List.length_drop, List.flatten_nil, List.length_nil] at this
      omega
    rcases hm : slots.mapM Slot.value? with _ | us
    · obtain ⟨g, hg⟩ := exists_pending hm
      have : g.params ∈ pendingGroups slots := List.mem_filterMap.2 ⟨_, hg, rfl⟩
      rw [hp] at this
      cases this
    · have := (h.values hm).2
      rwa [hall] at this
  · rw [h.pendingGroups_eq, pendings_of_fits hfit, hfit.length_eq, List.drop_length]
    exact ⟨rfl, rfl⟩

/-! ## Dealing operands out -/

/-- The parameters of a continuation are those of the pending functions it covers and, if it covers
all that is pending and they fit too, those that had no operand. -/
theorem Taken.covers (h : Taken fn.params args slots) (serial : Nat) :
    ∃ covered kept unsupplied, pendings fn.params args = covered ++ kept ∧
      (continuation fn slots serial).params
        = (covered.map (·.2.params)).flatten ++ unsupplied ∧
      (unsupplied = [] ∧ (coverGroups [] (openGroups fn slots)).2
          = kept.map (·.2.params) ++ remaining (fn.params.drop args.length) ∨
        kept = [] ∧ unsupplied = fn.params.drop args.length ∧
          (coverGroups [] (openGroups fn slots)).2 = []) := by
  obtain ⟨groups, hsplit, hparams, -, -⟩ := coverGroups_spec (openGroups fn slots) [] (by simp)
  rw [List.nil_append] at hparams
  rw [continuation_params, hparams]
  generalize (coverGroups [] (openGroups fn slots)).2 = left at hsplit
  rw [openGroups_eq, h.pendingGroups_eq, h.length_eq] at hsplit
  rcases List.append_eq_append_iff.1 hsplit with ⟨more, rfl, hmore⟩ | ⟨more, hp, rfl⟩
  · rcases remaining_eq_append hmore with ⟨rfl, rfl⟩ | ⟨hdrop, rfl⟩
    · exact ⟨pendings fn.params args, [], [], by simp, by simp, .inl ⟨rfl, by simp⟩⟩
    · exact ⟨pendings fn.params args, [], more.flatten, by simp, by simp, .inr ⟨rfl, hdrop, rfl⟩⟩
  · obtain ⟨covered, kept, hpend, rfl, rfl⟩ := List.map_eq_append_iff.1 hp
    exact ⟨covered, kept, [], hpend, by simp, .inl ⟨rfl, rfl⟩⟩

/-- Operands that fit the parameters of a continuation fall into the shares of what it covers. -/
theorem exists_shares {unsupplied : List TypeDesc} :
    ∀ {covered : List (TypeDesc × Function)} {new : List Value},
      AllFit new
        ((covered.map (·.2.params)).flatten ++ unsupplied) →
      ∃ shares rest, new = shares.flatten ++ rest ∧
        List.Forall₂ (fun c share => AllFit share c.2.params) covered shares ∧
        AllFit rest unsupplied
  | [], new, h => ⟨[], new, by simp, .nil, by simpa using h⟩
  | c :: covered, new, h => by
    rw [List.map_cons, List.flatten_cons, List.append_assoc] at h
    obtain ⟨shares, rest, hnew, hshares, hrest⟩ :=
      exists_shares (List.forall₂_drop_append _ _ _ h)
    refine ⟨new.take c.2.params.length :: shares, rest, ?_,
      .cons (List.forall₂_take_append _ _ _ h) hshares, hrest⟩
    rw [List.flatten_cons, List.append_assoc, ← hnew, List.take_append_drop]

/-- Operands that fit the parameters of a continuation are dealt out, and what is left open is what
an application to the combined operands leaves open. -/
theorem Taken.exists_deal (h : Taken fn.params args slots) (serial : Nat) {new : List Value}
    (hnew : AllFit new (continuation fn slots serial).params) :
    ∃ d : Deal fn args (continuation fn slots serial) new,
      (coverGroups [] (openGroups fn slots)).2 = d.kept.map (·.2.params) ++
        remaining (fn.params.drop (args.length + d.rest.length)) := by
  obtain ⟨covered, kept, unsupplied, hp, hparams, hleft⟩ := h.covers serial
  rw [hparams] at hnew
  obtain ⟨shares, rest, hsplit, hshares, hrest⟩ := exists_shares hnew
  refine ⟨⟨covered, kept, shares, rest, unsupplied, hp, hparams, ?_, hsplit, hshares, hrest⟩, ?_⟩
  · exact hleft.imp (·.1) fun h => ⟨h.1, h.2.1⟩
  · rcases hleft with ⟨rfl, hleft⟩ | ⟨rfl, rfl, hleft⟩
    · cases hrest
      exact hleft
    · have hnone : fn.params.drop (args.length + rest.length) = [] := by
        rw [List.drop_eq_nil_iff, hrest.length_eq, List.length_drop]
        omega
      exact hleft.trans (congrArg remaining hnone).symm

section Apply

variable (call : Applier)

theorem Taken.proceed_eq (h : Taken fn.params args slots) (hopen : openGroups fn slots ≠ []) :
    proceed call fn slots = suspend fn slots := by
  unfold proceed
  split
  · rename_i values hvalues
    obtain ⟨rfl, hfit⟩ := h.values hvalues
    split_ifs with hlen
    · have hall : fn.params.take values.length = fn.params := List.take_of_length_le hlen.ge
      rw [hall] at hfit
      exact absurd (h.openGroups_eq_nil.2 hfit) hopen
    · rfl
  · rfl

theorem Taken.applyOnce_eq_ok (h : Taken fn.params args slots) (hargs : args ≠ [])
    (hopen : openGroups fn slots ≠ []) (w : World) :
    ∃ serial w', applyOnce call fn args w = .ok (.func (continuation fn slots serial)) w' := by
  have hle := h.length_le
  have hpos := List.length_pos_iff.2 hargs
  obtain ⟨w', hw'⟩ := classifyAll_of_taken call fn h 0 w
  unfold applyOnce Function.arity
  rw [if_neg (by omega), if_neg (by omega), if_neg (by simpa using hargs), EvalIn.bind_of_ok hw',
    h.proceed_eq call hopen]
  exact ⟨_, _, suspend_eq fn slots w'⟩

/-- If an application gives a function, then its operands were taken and it waits for more. -/
theorem taken_of_applyOnce {k : Function} {w w' : World} (hargs : args ≠ [])
    (hzero : ∀ g, .func g ∈ args → g.arity ≠ 0) (hfit : ¬AllFit args fn.params)
    (hfn : fn.arity ≠ 0) (h : applyOnce call fn args w = .ok (.func k) w') :
    ∃ slots serial, Taken fn.params args slots ∧ openGroups fn slots ≠ [] ∧
      k = continuation fn slots serial := by
  unfold applyOnce at h
  split_ifs at h with hlen hempty
  · cases h
  · exact absurd (List.isEmpty_iff.1 hempty) hargs
  · obtain ⟨slots, w₁, hslots, h⟩ := EvalIn.bind_eq_ok h
    have htaken := taken_of_classifyAll call fn hzero (by unfold Function.arity at hlen; omega) hslots
    have hopen : openGroups fn slots ≠ [] := fun hnil => hfit (htaken.openGroups_eq_nil.1 hnil)
    rw [htaken.proceed_eq call hopen] at h
    cases h
    exact ⟨slots, _, htaken, hopen, rfl⟩

/-- A continuation that has its operands goes on with the application it came from. -/
theorem Taken.apply_eq (h : Taken fn.params args slots) {serial : Nat} {new : List Value}
    (hnew : AllFit new (continuation fn slots serial).params)
    (d : Deal fn args (continuation fn slots serial) new) :
    applyOnce call (continuation fn slots serial) new = (do
      .note (.entered (continuation fn slots serial) new)
      .leaving (continuation fn slots serial) (d.resume call)) := by
  have hlen : List.Forall₂ (fun c share => share.length = c.2.arity) d.covered d.shares :=
    d.shares_fit.imp fun _ _ hfit => hfit.length_eq
  have hrest : d.kept ≠ [] → d.rest = [] := by
    intro hkept
    rcases d.unsupplied_eq with hnil | ⟨hnil, -⟩
    · exact List.forall₂_nil_right_iff.1 (hnil ▸ d.rest_fits)
    · exact absurd hnil hkept
  rw [applyOnce_of_fits call hnew]
  unfold Function.invoke
  have hbody : (continuation fn slots serial).body = .resume fn slots := rfl
  have hcombine := h.combine call d.pendings_eq hlen hrest
  rw [← d.new_eq] at hcombine
  simp only [hbody, Body.run, hcombine, bind_assoc, pure_bind, Deal.resume, Deal.combined]

end Apply

theorem length_remaining_le (ps : List TypeDesc) : (remaining ps).length ≤ ps.length := by
  cases ps <;> simp [remaining]

/-- Of the two groups at most that an application of a function leaves open, a continuation takes
one. -/
theorem length_left_le (hfn : fn.arity = 1 ∨ fn.arity = 2) (hlen : slots.length ≤ fn.arity)
    (hg : ∀ g ∈ openGroups fn slots, g.length = 1 ∨ g.length = 2) :
    (coverGroups [] (openGroups fn slots)).2.length ≤ 1 := by
  obtain ⟨groups, hsplit, hparams, -, -⟩ := coverGroups_spec (openGroups fn slots) [] (by simp)
  have hcount : (openGroups fn slots).length ≤ 2 := by
    have hp : (pendingGroups slots).length ≤ slots.length := List.length_filterMap_le _ _
    have hr := length_remaining_le (fn.params.drop slots.length)
    rw [openGroups_eq, List.length_append]
    rw [List.length_drop] at hr
    unfold Function.arity at hfn hlen
    omega
  rcases ho : openGroups fn slots with _ | ⟨g, gs⟩
  · simp [coverGroups]
  · have hgl := hg g (by simp [ho])
    have hmax : maxArity = 2 := rfl
    have hne : g ≠ [] := by
      rintro rfl
      simp at hgl
    have hsome : (coverGroups [] (g :: gs)).1 ≠ [] := coverGroups_ne_nil hne (by omega)
    rw [ho] at hsplit hparams hcount
    have hgroups : groups ≠ [] := by
      rintro rfl
      exact hsome hparams
    have := List.length_pos_iff.2 hgroups
    rw [hsplit, List.length_append] at hcount
    omega

/-- If a continuation leaves groups for later, it leaves just one, which a function can take. -/
theorem left_eq_singleton (hfn : fn.arity = 1 ∨ fn.arity = 2) (hlen : slots.length ≤ fn.arity)
    (hg : ∀ g ∈ openGroups fn slots, g.length = 1 ∨ g.length = 2)
    (hpos : 0 < (coverGroups [] (openGroups fn slots)).2.length) :
    ∃ g, (coverGroups [] (openGroups fn slots)).2 = [g] ∧ g.length ≤ maxArity := by
  obtain ⟨g, hleft⟩ := List.length_eq_one_iff.1
    (Nat.le_antisymm (length_left_le hfn hlen hg) hpos)
  obtain ⟨groups, hsplit, -⟩ := coverGroups_spec (openGroups fn slots) [] (by simp)
  have hmem : g ∈ openGroups fn slots := by
    rw [hsplit, hleft]
    simp
  have hmax : maxArity = 2 := rfl
  have hlens := hg g hmem
  exact ⟨g, hleft, by omega⟩

theorem continuation_type {g : List TypeDesc} (h : openGroups fn slots = [g])
    (hg : g.length ≤ maxArity) (serial : Nat) :
    (continuation fn slots serial).type = .func g fn.returns := by
  unfold Function.type
  rw [continuation_params, continuation_returns, h]
  simp [coverGroups, hg, layered]

theorem Deal.combined_ne_nil {k : Function} {new : List Value} (d : Deal fn args k new)
    (hargs : args ≠ []) (results : List Value) : d.combined results ≠ [] := by
  have hpos := List.length_pos_iff.2 hargs
  unfold Deal.combined
  rw [← List.length_pos_iff, List.length_append, length_fill]
  omega

/-- The application that a continuation goes on with leaves open just what the continuation left
for later. -/
theorem Deal.openGroups_combined {serial : Nat} {new : List Value} (h : Taken fn.params args slots)
    (d : Deal fn args (continuation fn slots serial) new)
    (hleft : (coverGroups [] (openGroups fn slots)).2 = d.kept.map (·.2.params) ++
      remaining (fn.params.drop (args.length + d.rest.length)))
    {results : List Value} (hr : List.Forall₂ (fun c r => r.fits c.1 = true) d.covered results) :
    ∃ slots', Taken fn.params (d.combined results) slots' ∧
      openGroups fn slots' = (coverGroups [] (openGroups fn slots)).2 := by
  have hothers : ∃ others, fn.params.drop args.length = d.unsupplied ++ others := by
    rcases d.unsupplied_eq with hnil | ⟨-, hall⟩
    · exact ⟨_, by rw [hnil, List.nil_append]⟩
    · exact ⟨[], by rw [hall, List.append_nil]⟩
  obtain ⟨others, hothers⟩ := hothers
  obtain ⟨slots', htaken, hgroups⟩ := h.filled d.pendings_eq hr hothers d.rest_fits
  refine ⟨slots', htaken, ?_⟩
  rw [openGroups_eq, hgroups, htaken.length_eq, List.length_append, length_fill, hleft]

/-- A continuation, given operands that fit, does as the function it came from on the combined
operands. If it left groups for later, it gives a function of the type it promised; otherwise it
gives what the function does with the combined operands. -/
theorem apply_continuation {fn k : Function} {args new : List Value} {fuel : Nat} {w₀ w₁ : World}
    (hfn : fn.arity = 1 ∨ fn.arity = 2) (hargs : args ≠ [])
    (hfuncs : ∀ g, .func g ∈ args → g.arity = 1 ∨ g.arity = 2)
    (hk : apply fuel fn args w₀ = .ok (.func k) w₁) (hopen : ¬AllFit args fn.params)
    (hnew : AllFit new k.params) :
    ∃ d : Deal fn args k new,
      (∀ n, apply (n + 1) k new = do
        .note (.entered k new)
        .leaving k (d.resume (apply n))) ∧
      ∀ results, List.Forall₂ (fun c r => r.fits c.1 = true) d.covered results → ∀ n,
        (0 < k.layers → ∀ w : World, ∃ j w',
          apply (n + 1) fn (d.combined results) w = .ok (.func j) w' ∧ j.type = k.returns) ∧
        (k.layers = 0 →
          (apply (n + 1) fn (d.combined results) : Eval Value) =
            fn.invoke (apply n) (d.combined results)) := by
  obtain _ | fuel := fuel
  · cases hk
  obtain ⟨slots, serial, htaken, hne, rfl⟩ := taken_of_applyOnce (apply fuel) hargs
    (fun g hg => by have := hfuncs g hg; omega) hopen (by omega) hk
  obtain ⟨d, hleft⟩ := htaken.exists_deal serial hnew
  refine ⟨d, fun n => htaken.apply_eq (apply n) hnew d, fun results hr n => ?_⟩
  obtain ⟨slots', htaken', hgroups⟩ := d.openGroups_combined htaken hleft hr
  rw [continuation_layers, continuation_returns]
  refine ⟨fun hpos w => ?_, fun hzero => ?_⟩
  · have hlens := length_openGroups hfn fun g hg => hfuncs g (htaken.func_mem hg)
    have hle : slots.length ≤ fn.arity := by
      rw [htaken.length_eq]
      exact htaken.length_le
    obtain ⟨g, hg, hglen⟩ := left_eq_singleton hfn hle hlens hpos
    rw [hg] at hgroups ⊢
    obtain ⟨serial', w', hw'⟩ := htaken'.applyOnce_eq_ok (apply n) (d.combined_ne_nil hargs results)
      (by simp [hgroups]) w
    exact ⟨_, w', hw', continuation_type hgroups hglen serial'⟩
  · rw [List.length_eq_zero_iff.1 hzero] at hgroups
    exact applyOnce_of_fits (apply n) (htaken'.openGroups_eq_nil.1 hgroups)

/-- What `plus` makes of `times` and `length`: it takes the operands of `times` first. -/
def productPlusLength : Function :=
  continuation Builtin.plus.function
    [.pending Builtin.times.function, .pending Builtin.length.function] 0

theorem apply_continuation_productPlusLength :
    AllFit [.num (.ofNat 2), .num (.ofNat 3)] productPlusLength.params ∧
    ∃ d : Deal Builtin.plus.function [.func Builtin.times.function, .func Builtin.length.function]
        productPlusLength [.num (.ofNat 2), .num (.ofNat 3)],
      (∀ n, apply (n + 1) productPlusLength [.num (.ofNat 2), .num (.ofNat 3)] = do
        .note (.entered productPlusLength [.num (.ofNat 2), .num (.ofNat 3)])
        .leaving productPlusLength (d.resume (apply n))) ∧
      ∀ results, List.Forall₂ (fun c r => r.fits c.1 = true) d.covered results →
        ∀ (n : Nat) (w : World), ∃ j w',
          apply (n + 1) Builtin.plus.function (d.combined results) w = .ok (.func j) w' ∧
            j.type = .func Builtin.length.params .num := by
  have hnew : AllFit [.num (.ofNat 2), .num (.ofNat 3)] productPlusLength.params :=
    .cons rfl (.cons rfl .nil)
  have hfuncs : ∀ g, Value.func g ∈
      [.func Builtin.times.function, .func Builtin.length.function] →
      g.arity = 1 ∨ g.arity = 2 := by
    intro g hg
    rcases List.mem_cons.1 hg with hg | hg
    · cases hg
      exact .inr rfl
    · cases List.mem_singleton.1 hg
      exact .inl rfl
  have hopen : ¬AllFit [.func Builtin.times.function, .func Builtin.length.function]
      Builtin.plus.function.params := by
    intro h
    cases h with
    | cons h _ => cases h
  obtain ⟨d, hrun, hlater⟩ := apply_continuation (.inr rfl) (by simp) hfuncs
    (rfl : apply 1 Builtin.plus.function _ default = .ok (.func productPlusLength) _) hopen hnew
  exact ⟨hnew, d, hrun, fun results hr n => (hlater results hr n).1 (by decide)⟩

end Tacit
