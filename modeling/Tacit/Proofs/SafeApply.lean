import Tacit.Proofs.SafeBuiltins

/-!
# Applying functions keeps a world sound

An application to no more operands than the function takes is safe (`apply_raw`), whatever it
comes to: operands that suit their parameters run the function, and any others make a
continuation. When a continuation has its operands, they are the operands of whole groups, so the
application it goes on with gets no more operands than there are parameters (`unused_le`).
-/

namespace Tacit

open Builtin (Applier Applies)

/-- How many of `n` new operands are left over when slots have taken their share. -/
def unused : List Slot → Nat → Nat
  | [], n => n
  | .value _ :: slots, n => unused slots n
  | .pending f :: slots, n => if n < f.arity then unused slots n else unused slots (n - f.arity)

theorem combine_safe {call : Applier} (hcall : Applies call) :
    ∀ {slots : List Slot} {args : List Value}, (∀ v, .value v ∈ slots → v.Made) →
      (∀ f, .pending f ∈ slots → f.Made) → (∀ v ∈ args, v.Made) →
      Safe Stop.Raw (Slot.combine call slots args) fun vs =>
        (∀ v ∈ vs, v.Made) ∧ vs.length = slots.length + unused slots args.length
  | [], args, _, _, ha => .pure ⟨ha, by simp [unused]⟩
  | .value v :: slots, args, hv, hp, ha => by
    refine (combine_safe hcall (fun u hu => hv u (by simp [hu])) (fun f hf => hp f (by simp [hf]))
      ha).bind fun vs hvs => .pure ⟨List.forall_mem_cons.2 ⟨hv v (by simp), hvs.1⟩, ?_⟩
    simp only [unused, List.length_cons, hvs.2]
    omega
  | .pending f :: slots, args, hv, hp, ha => by
    have hf := hp f (by simp)
    have ih : ∀ us : List Value, (∀ v ∈ us, v.Made) →
        Safe Stop.Raw (Slot.combine call slots us) fun vs =>
          (∀ v ∈ vs, v.Made) ∧ vs.length = slots.length + unused slots us.length :=
      fun us hus => combine_safe hcall (fun u hu => hv u (by simp [hu]))
        (fun g hg => hp g (by simp [hg])) hus
    unfold Slot.combine
    split_ifs with hlt
    · refine (ih args ha).bind fun vs hvs => .pure ⟨List.forall_mem_cons.2 ⟨hf, hvs.1⟩, ?_⟩
      simp only [unused, if_pos hlt, List.length_cons, hvs.2]
      omega
    · refine (hcall f _ hf (fun v hv => ha v (List.mem_of_mem_take hv)) ?_).bind fun u hu => ?_
      · rw [List.length_take]
        omega
      · refine (ih _ fun v hv => ha v (List.mem_of_mem_drop hv)).bind fun vs hvs =>
          .pure ⟨List.forall_mem_cons.2 ⟨hu, hvs.1⟩, ?_⟩
        simp only [unused, if_neg hlt, List.length_cons, hvs.2, List.length_drop]
        omega

/-- The groups of what is pending. -/
def pendingGroups (slots : List Slot) : List (List TypeDesc) := slots.filterMap Slot.params?

/-- Operands for some of the leading groups are all taken. -/
theorem unused_eq_zero : ∀ {slots : List Slot} {covered left : List (List TypeDesc)},
    (∀ f, .pending f ∈ slots → 0 < f.arity) → pendingGroups slots = covered ++ left →
      unused slots covered.flatten.length = 0
  | [], covered, left, _, h => by
    obtain ⟨rfl, -⟩ := List.append_eq_nil_iff.1 h.symm
    rfl
  | .value v :: slots, covered, left, hp, h => by
    have h' : pendingGroups slots = covered ++ left := h
    unfold unused
    exact unused_eq_zero (fun f hf => hp f (by simp [hf])) h'
  | .pending f :: slots, [], left, hp, _ => by
    have hf := hp f (by simp)
    unfold unused
    rw [if_pos (by simpa using hf)]
    have h' : pendingGroups slots = [] ++ pendingGroups slots := rfl
    exact unused_eq_zero (fun g hg => hp g (by simp [hg])) h'
  | .pending f :: slots, g :: covered, left, hp, h => by
    obtain ⟨hg, h⟩ := List.cons.inj h
    have hlen : (g :: covered).flatten.length = f.arity + covered.flatten.length := by
      rw [List.flatten_cons, List.length_append, ← hg]
      rfl
    unfold unused
    rw [hlen, if_neg (by omega), Nat.add_sub_cancel_left]
    exact unused_eq_zero (fun g hg => hp g (by simp [hg])) h

theorem unused_add : ∀ (slots : List Slot) (n : Nat),
    unused slots ((pendingGroups slots).flatten.length + n) = n
  | [], n => by simp [unused, pendingGroups]
  | .value v :: slots, n => unused_add slots n
  | .pending f :: slots, n => by
    have hlen : (pendingGroups (.pending f :: slots)).flatten.length
        = f.arity + (pendingGroups slots).flatten.length := by
      simp [pendingGroups, Slot.params?, Function.arity]
    unfold unused
    rw [hlen, if_neg (by omega), Nat.add_assoc, Nat.add_sub_cancel_left]
    exact unused_add slots n

/-- Of the operands of a continuation no more are left over than parameters, as all that is pending
gets its own. -/
theorem unused_le (fn : Function) {slots : List Slot} (serial : Nat)
    (hp : ∀ f, .pending f ∈ slots → 0 < f.arity) :
    unused slots (continuation fn slots serial).arity ≤ fn.arity - slots.length := by
  obtain ⟨covered, hsplit, htaken, -, -⟩ := coverGroups_spec (openGroups fn slots) [] (by simp)
  have har : (continuation fn slots serial).arity = covered.flatten.length := by
    unfold Function.arity
    rw [continuation_params, htaken, List.nil_append]
  have hrest : ((if (fn.params.drop slots.length).isEmpty then [] else
      [fn.params.drop slots.length] : List (List TypeDesc))).flatten.length
      = fn.arity - slots.length := by
    split_ifs with he
    · have := congrArg List.length (List.isEmpty_iff.1 he)
      rw [List.length_drop] at this
      exact this.symm
    · simp [Function.arity]
  rw [har]
  unfold openGroups at hsplit
  rcases List.append_eq_append_iff.1 hsplit with ⟨more, hcov, hmore⟩ | ⟨more, hpend, -⟩
  · have hle : more.flatten.length ≤ fn.arity - slots.length := by
      rw [← hrest, hmore, List.flatten_append, List.length_append]
      omega
    rw [hcov, List.flatten_append, List.length_append]
    exact Nat.le_trans (Nat.le_of_eq (unused_add slots more.flatten.length)) hle
  · rw [unused_eq_zero hp hpend]
    omega

/-- A slot that has taken an operand for a parameter. -/
def Slot.Takes (p : TypeDesc) : Slot → Prop
  | .value v => v.Made ∧ v.Suits p
  | .pending f => f.Made

theorem classify_safe {call : Applier} {fn : Function} {position : Nat} {p : TypeDesc} {arg : Value}
    (harg : arg.Made) :
    Safe Stop.Raw (classify call fn position p arg) fun s => s.Takes p := by
  unfold classify
  simp only
  split_ifs with hfits
  · exact .pure ⟨harg, harg.suits_of_fits hfits⟩
  · split
    · rename_i f
      split_ifs with hsame hret hzero
      · rw [Bool.and_eq_true] at hsame
        exact .pure ⟨harg, Value.suits_of_same hsame.1 hsame.2⟩
      · have := harg.arity
        omega
      · refine Safe.bind (Safe.note ?_) fun _ _ => .pure harg
        exact trivial
      · exact .throw trivial
    · exact .throw trivial

theorem classifyAll_safe {call : Applier} {fn : Function} : ∀ {params : List TypeDesc}
    {args : List Value} {position : Nat}, (∀ v ∈ args, v.Made) → args.length ≤ params.length →
      Safe Stop.Raw (classifyAll call fn position params args) fun slots =>
        List.Forall₂ (fun s p => s.Takes p) slots (params.take args.length)
  | params, [], _, _, _ => by
    cases params <;> exact .pure .nil
  | [], _ :: _, _, _, h => by simp at h
  | p :: params, arg :: args, _, hm, h => by
    refine (classify_safe (hm arg (by simp))).bind fun s hs => ?_
    refine (classifyAll_safe (fun v hv => hm v (by simp [hv])) (by simpa using h)).bind
      fun slots hslots => ?_
    exact .pure (.cons hs hslots)

section Slots

variable {slots : List Slot} {ps : List TypeDesc}
  (h : List.Forall₂ (fun s p => s.Takes p) slots ps)
include h

theorem made_of_takes :
    (∀ v, .value v ∈ slots → v.Made) ∧ ∀ f, .pending f ∈ slots → f.Made := by
  induction h with
  | nil => simp
  | @cons s p slots ps hs _ ih =>
    refine ⟨fun v hv => ?_, fun f hf => ?_⟩
    · rcases List.mem_cons.1 hv with rfl | hv
      · exact hs.1
      · exact ih.1 v hv
    · rcases List.mem_cons.1 hf with rfl | hf
      · exact hs
      · exact ih.2 f hf

/-- Slots of which none is pending hold values that suit the parameters. -/
theorem suits_of_takes {vs : List Value} (hvs : slots.mapM Slot.value? = some vs) :
    List.Forall₂ Value.Suits vs ps ∧ ∀ v ∈ vs, v.Made := by
  induction h generalizing vs with
  | nil =>
    obtain rfl : vs = [] := by simpa [List.mapM_nil] using hvs.symm
    exact ⟨.nil, by simp⟩
  | @cons s p slots ps hs _ ih =>
    rw [List.mapM_cons] at hvs
    cases s with
    | pending f => simp [Slot.value?] at hvs
    | value v =>
      rcases hm : slots.mapM Slot.value? with _ | us
      · simp [Slot.value?, hm] at hvs
      · obtain rfl : vs = v :: us := by simpa [Slot.value?, hm] using hvs.symm
        exact ⟨.cons hs.2 (ih hm).1, List.forall_mem_cons.2 ⟨hs.1, (ih hm).2⟩⟩

end Slots

theorem exists_pending : ∀ {slots : List Slot}, slots.mapM Slot.value? = none →
    ∃ f, .pending f ∈ slots
  | [], h => by simp [List.mapM_nil] at h
  | .pending f :: slots, _ => ⟨f, by simp⟩
  | .value v :: slots, h => by
    rw [List.mapM_cons] at h
    rcases hm : slots.mapM Slot.value? with _ | us
    · obtain ⟨f, hf⟩ := exists_pending hm
      exact ⟨f, by simp [hf]⟩
    · simp [Slot.value?, hm] at h

/-- An application waits for operands if one is pending or if some were not given. -/
theorem openGroups_ne_nil {fn : Function} {slots : List Slot}
    (h : (∃ f, .pending f ∈ slots) ∨ slots.length < fn.arity) : openGroups fn slots ≠ [] := by
  intro he
  unfold openGroups at he
  obtain ⟨hpend, hrest⟩ := List.append_eq_nil_iff.1 he
  rcases h with ⟨f, hf⟩ | hlt
  · have : f.params ∈ slots.filterMap Slot.params? := List.mem_filterMap.2 ⟨_, hf, rfl⟩
    rw [hpend] at this
    simp at this
  · unfold Function.arity at hlt
    split_ifs at hrest with hempty
    have := congrArg List.length (List.isEmpty_iff.1 hempty)
    rw [List.length_drop, List.length_nil] at this
    omega

theorem leaving_safe {fn : Function} (hfn : fn.Made) {x : Eval Value}
    (hx : Safe Stop.Raw x Value.Made) : Safe Stop.Raw (.leaving fn x) Value.Made := by
  have hpush : ∀ (w : World) (o : Option Value), w.Sound → (∀ v ∈ o, v.Made) →
      World.Sound { w with record := w.record.push (.left fn o) } := by
    intro w o hw ho
    refine ⟨hw.names, fun e he => ?_⟩
    rcases Array.mem_push.1 he with he | rfl
    · exact hw.record e he
    · exact ⟨hfn, ho⟩
  intro w hw
  have h := hx w hw
  unfold EvalIn.leaving
  rcases hr : x w with ⟨v, w'⟩ | ⟨s, w'⟩ <;> rw [hr] at h
  · refine ⟨hpush w' (some v) h.1 ?_, h.2⟩
    rintro _ ⟨⟩
    exact h.2
  · exact ⟨hpush w' none h.1 (by simp), h.2⟩

section Apply

variable {call : Applier} (hcall : Applies call)
include hcall

/-- What the body of a function does with operands that suit its parameters. -/
theorem body_safe {fn : Function} (hfn : fn.Made) {args : List Value} (hm : ∀ v ∈ args, v.Made)
    (hs : List.Forall₂ Value.Suits args fn.params) :
    Safe Stop.Raw (fn.body.run call args) Value.Made := by
  cases hfn with
  | builtin b => exact Builtin.run_safe hcall b hm hs
  | @continuation fn slots hfn hv hp hlen hopen serial =>
    refine (combine_safe hcall hv hp hm).bind fun vs hvs => hcall fn vs hfn hvs.1 ?_
    have hargs : args.length = (continuation fn slots serial).arity := hs.length_eq
    have := unused_le fn serial fun f hf => by
      have := (hp f hf).arity
      omega
    rw [hvs.2, hargs]
    omega
  | @shared a b ha hb ha2 hb1 serial =>
    obtain ⟨c, rfl, -⟩ := Builtin.suits_one hs
    have hc := hm c (by simp)
    refine (hcall b [c] hb (by simp [hc]) (by simp [hb1])).bind fun bc hbc => ?_
    exact hcall a [c, bc] ha (by simp [hc, hbc]) (by simp [ha2])

/-- Running a function on operands that suit it is safe. -/
theorem invoke_safe {fn : Function} (hfn : fn.Made) {args : List Value} (hm : ∀ v ∈ args, v.Made)
    (hs : List.Forall₂ Value.Suits args fn.params) :
    Safe Stop.Raw (fn.invoke call args) Value.Made := by
  have hentered : (Event.entered fn args).Sound := ⟨hfn, hm, hs.imp fun _ _ h => h.admits⟩
  exact (Safe.note hentered).bind fun _ _ => leaving_safe hfn (body_safe hcall hfn hm hs)

omit hcall in
theorem suspend_safe {fn : Function} {slots : List Slot} (hfn : fn.Made)
    (hv : ∀ v, .value v ∈ slots → v.Made) (hp : ∀ f, .pending f ∈ slots → f.Made)
    (hlen : slots.length ≤ fn.arity) (hopen : openGroups fn slots ≠ []) :
    Safe Stop.Raw (suspend fn slots) Value.Made := by
  refine Safe.drawSerial.bind fun serial _ => ?_
  have hcont : (continuation fn slots serial).Made := .continuation hfn hv hp hlen hopen serial
  refine Safe.bind (Safe.note ?_) fun _ _ => .pure hcont
  exact hcont

theorem proceed_safe {fn : Function} {slots : List Slot} (hfn : fn.Made)
    (hlen : slots.length ≤ fn.arity)
    (hs : List.Forall₂ (fun s p => s.Takes p) slots (fn.params.take slots.length)) :
    Safe Stop.Raw (proceed call fn slots) Value.Made := by
  obtain ⟨hv, hp⟩ := made_of_takes hs
  unfold proceed
  split
  · rename_i vs hvs
    obtain ⟨hsuits, hm⟩ := suits_of_takes hs hvs
    have hcount : vs.length = slots.length := by
      rw [hsuits.length_eq, List.length_take]
      exact Nat.min_eq_left hlen
    split_ifs with hall
    · have htake : fn.params.take slots.length = fn.params :=
        List.take_of_length_le (by rw [← hcount, hall]; exact Nat.le_refl _)
      exact invoke_safe hcall hfn hm (htake ▸ hsuits)
    · exact suspend_safe hfn hv hp hlen (openGroups_ne_nil (.inr (by omega)))
  · rename_i hnone
    exact suspend_safe hfn hv hp hlen (openGroups_ne_nil (.inl (exists_pending hnone)))

/-- One application is safe if those further in are. -/
theorem applyOnce_applies : Applies (applyOnce call) := by
  intro fn args hfn hm hlen
  have har := hfn.arity
  unfold applyOnce
  rw [if_neg (by omega), if_neg (by omega)]
  split_ifs
  · exact .pure hfn
  · refine (classifyAll_safe hm hlen).bind fun slots hslots => ?_
    have hcount : slots.length = args.length := by
      rw [hslots.length_eq, List.length_take]
      exact Nat.min_eq_left hlen
    exact proceed_safe hcall hfn (by omega) (hcount ▸ hslots)

end Apply

/-- All applications are safe, by induction on the fuel. -/
theorem apply_raw : ∀ fuel : Nat, Applies (apply fuel)
  | 0 => fun _ _ _ _ _ => .throw trivial
  | fuel + 1 => applyOnce_applies (apply_raw fuel)

/-- Only the application itself can be given too many operands, none further in. -/
theorem apply_applies (fuel : Nat) (f : Function) (args : List Value) (hf : f.Made)
    (hm : ∀ v ∈ args, v.Made) (hlen : args.length ≤ f.arity) :
    Safe Stop.Tame (apply fuel f args) Value.Made :=
  (apply_raw fuel f args hf hm hlen).weaken fun _ => Stop.Raw.tame

end Tacit
