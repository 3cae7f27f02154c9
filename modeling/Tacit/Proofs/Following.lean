import Tacit.Proofs.Judging

/-!
# What a run depends on

The record is written but never read, and fuel only bounds how long a run may take. So a run that
is not given up ends the same way with more fuel, and in a world with another record
(`apply_extends`). `Follows` says so of any two runs, for what they give, how they stop, and what
is seen of what they record; it is kept by all the ways in which runs are put together.
-/

namespace Tacit

/-- Not given up for want of fuel. -/
def Outcome.Finished {α : Type} (r : Outcome α) : Prop := ∀ w, r ≠ .error .outOfFuel w

/-- Worlds that differ in their records at most. -/
structure World.Like (w w' : World) : Prop where
  names : w.names = w'.names
  files : w.files = w'.files
  reads : w.reads = w'.reads
  serial : w.serial = w'.serial

theorem World.Like.refl (w : World) : w.Like w := ⟨rfl, rfl, rfl, rfl⟩

theorem World.Like.symm {w w' : World} (h : w.Like w') : w'.Like w :=
  ⟨h.names.symm, h.files.symm, h.reads.symm, h.serial.symm⟩

section Moves

variable {γ : Type} (seen : Event → Option γ)

/-- From `w` and `w'`, two runs have come to worlds that differ in their records at most, and
what is seen of what they recorded is the same. -/
structure Moves (w u w' u' : World) : Prop where
  like : u.Like u'
  events : ∃ es es', w.Adds u es ∧ w'.Adds u' es' ∧ es.filterMap seen = es'.filterMap seen

variable {seen} {w u w' u' : World}

theorem Moves.stay (h : w.Like w') : Moves seen w w w' w' :=
  ⟨h, [], [], by simp [World.Adds], by simp [World.Adds], rfl⟩

theorem Moves.trans {v v' : World} (h : Moves seen w u w' u') (hv : Moves seen u v u' v') :
    Moves seen w v w' v' := by
  obtain ⟨es, es', h₁, h₂, h₃⟩ := h.events
  obtain ⟨fs, fs', g₁, g₂, g₃⟩ := hv.events
  refine ⟨hv.like, es ++ fs, es' ++ fs', h₁.trans g₁, h₂.trans g₂, ?_⟩
  rw [List.filterMap_append, List.filterMap_append, h₃, g₃]

theorem Moves.symm (h : Moves seen w u w' u') : Moves seen w' u' w u := by
  obtain ⟨es, es', h₁, h₂, h₃⟩ := h.events
  exact ⟨h.like.symm, es', es, h₂, h₁, h₃.symm⟩

/-- Where all is seen, less is. -/
theorem Moves.weaken (h : Moves some w u w' u') : Moves seen w u w' u' := by
  obtain ⟨es, es', h₁, h₂, h₃⟩ := h.events
  rw [List.filterMap_some, List.filterMap_some] at h₃
  exact ⟨h.like, es, es', h₁, h₂, by rw [h₃]⟩

theorem Moves.noted {e e' : Event} (h : Moves seen w u w' u') (he : seen e = seen e') :
    Moves seen w (u.noted e) w' (u'.noted e') := by
  obtain ⟨es, es', h₁, h₂, h₃⟩ := h.events
  refine ⟨⟨h.like.names, h.like.files, h.like.reads, h.like.serial⟩, es ++ [e], es' ++ [e'],
    h₁.trans (u.adds_noted e), h₂.trans (u'.adds_noted e'), ?_⟩
  simp [List.filterMap_append, h₃, List.filterMap_cons, he]

end Moves

namespace Outcome

variable {α β γ : Type} (seen : Event → Option γ) (V : α → β → Prop) (S : Stop → Stop → Prop)

/-- Two outcomes of runs from `w` and `w'`: both gave something, in the relation `V`, or both
stopped, in the relation `S`. -/
inductive Alike (w w' : World) : Outcome α → Outcome β → Prop where
  | ok {a : α} {b : β} {u u' : World} (h : V a b) (hw : Moves seen w u w' u') :
      Alike w w' (.ok a u) (.ok b u')
  | error {s t : Stop} {u u' : World} (h : S s t) (hw : Moves seen w u w' u') :
      Alike w w' (.error s u) (.error t u')

variable {seen V S}

theorem Alike.moves {w w' : World} {r : Outcome α} {r' : Outcome β}
    (h : Alike seen V S w w' r r') : Moves seen w r.world w' r'.world := by
  cases h with
  | ok _ hw => exact hw
  | error _ hw => exact hw

theorem Alike.behind {w u w' u' : World} {r : Outcome α} {r' : Outcome β}
    (h : Alike seen V S u u' r r') (hm : Moves seen w u w' u') : Alike seen V S w w' r r' := by
  cases h with
  | ok h hw => exact .ok h (hm.trans hw)
  | error h hw => exact .error h (hm.trans hw)

theorem Alike.imp {δ : Type} {seen' : Event → Option δ} {V' : α → β → Prop}
    {S' : Stop → Stop → Prop} {w w' : World} {r : Outcome α} {r' : Outcome β}
    (h : Alike seen V S w w' r r')
    (hm : ∀ {u u'}, Moves seen w u w' u' → Moves seen' w u w' u')
    (hV : ∀ a b, V a b → V' a b) (hS : ∀ s t, S s t → S' s t) : Alike seen' V' S' w w' r r' := by
  cases h with
  | ok h hw => exact .ok (hV _ _ h) (hm hw)
  | error h hw => exact .error (hS _ _ h) (hm hw)

end Outcome

/-- Unless the first run is given up, the second ends alike. -/
def Follows {α β γ : Type} (seen : Event → Option γ) (V : α → β → Prop) (S : Stop → Stop → Prop)
    (x : Eval α) (y : Eval β) : Prop :=
  ∀ ⦃w w' : World⦄, w.Like w' → Outcome.Finished (x w) →
    Outcome.Alike seen V S w w' (x w) (y w')

namespace Follows

variable {α β γ : Type} {seen : Event → Option γ} {V : α → β → Prop} {S : Stop → Stop → Prop}

/-- A run that is given up at once is followed by any. -/
theorem outOfFuel {y : Eval β} : Follows seen V S (throw .outOfFuel : Eval α) y :=
  fun w _ _ hfin => (hfin w rfl).elim

theorem pure {a : α} {b : β} (h : V a b) : Follows seen V S (pure a) (pure b) :=
  fun _ _ hw _ => .ok h (.stay hw)

theorem throw {s t : Stop} (h : S s t) : Follows seen V S (throw s) (throw t) :=
  fun _ _ hw _ => .error h (.stay hw)

theorem bind {α' β' : Type} {P : α' → β' → Prop} {x : Eval α'} {y : Eval β'} {f : α' → Eval α}
    {g : β' → Eval β} (hx : Follows seen P S x y)
    (hf : ∀ a b, P a b → Follows seen V S (f a) (g b)) :
    Follows seen V S (x >>= f) (y >>= g) := by
  intro w w' hw hfin
  have h := hx hw
  rcases hr : x w with ⟨a, u⟩ | ⟨s, u⟩ <;> rw [hr] at h
  · rw [EvalIn.bind_of_ok hr] at hfin ⊢
    have h := h fun _ => nofun
    rcases hr' : y w' with ⟨b, u'⟩ | ⟨t, u'⟩ <;> rw [hr'] at h <;> cases h
    rename_i hab hm
    rw [EvalIn.bind_of_ok hr']
    exact (hf a b hab hm.like hfin).behind hm
  · rw [EvalIn.bind_of_error hr] at hfin ⊢
    have h := h fun v hv => hfin v (by cases hv; rfl)
    rcases hr' : y w' with ⟨b, u'⟩ | ⟨t, u'⟩ <;> rw [hr'] at h <;> cases h
    rw [EvalIn.bind_of_error hr']
    exact .error ‹_› ‹_›

theorem imp {V' : α → β → Prop} {S' : Stop → Stop → Prop} {x : Eval α} {y : Eval β}
    (h : Follows seen V S x y) (hV : ∀ a b, V a b → V' a b) (hS : ∀ s t, S s t → S' s t) :
    Follows seen V' S' x y :=
  fun _ _ hw hfin => (h hw hfin).imp id hV hS

theorem note {e e' : Event} (h : seen e = seen e') :
    Follows seen (fun _ _ => True) S (.note e) (.note e') := by
  intro w w' hw _
  exact .ok trivial (Moves.noted (.stay hw) h)

theorem drawSerial : Follows seen (· = ·) S .drawSerial .drawSerial := by
  intro w w' hw _
  refine .ok hw.serial ⟨⟨hw.names, hw.files, hw.reads, ?_⟩, [], [], ?_, ?_, rfl⟩
  · simp [hw.serial]
  · simp [World.Adds]
  · simp [World.Adds]

/-- Something that depends on the world it runs in, but not on its record. -/
theorem get {f : World → Eval α} {g : World → Eval β}
    (h : ∀ w w' : World, w.Like w' → Follows seen V S (f w) (g w')) :
    Follows seen V S (MonadState.get >>= f) (MonadState.get >>= g) :=
  fun w w' hw hfin => h w w' hw hw hfin

theorem leaving {V : Value → Value → Prop} {x y : Eval Value} {fn fn' : Function}
    (hs : ∀ r r', V r r' → seen (.left fn (some r)) = seen (.left fn' (some r')))
    (hn : seen (.left fn none) = seen (.left fn' none)) (h : Follows seen V S x y) :
    Follows seen V S (.leaving fn x) (.leaving fn' y) := by
  intro w w' hw hfin
  have h := h hw
  rcases hr : x w with ⟨a, u⟩ | ⟨s, u⟩ <;> rw [hr] at h
  · rw [EvalIn.leaving_of_ok hr]
    rcases hr' : y w' with ⟨b, u'⟩ | ⟨t, u'⟩ <;> rw [hr'] at h <;> cases h fun _ => nofun
    rename_i hv hm
    rw [EvalIn.leaving_of_ok hr']
    exact .ok hv (hm.noted (hs a b hv))
  · rw [EvalIn.leaving_of_error hr] at hfin ⊢
    have h := h fun v hv => hfin _ (by cases hv; rfl)
    rcases hr' : y w' with ⟨b, u'⟩ | ⟨t, u'⟩ <;> rw [hr'] at h <;> cases h
    rename_i hst hm
    rw [EvalIn.leaving_of_error hr']
    exact .error hst (hm.noted hn)

end Follows

/-- Unless the first run is given up, the second gives or stops with the very same, and records the
same. -/
abbrev Repeats {α : Type} (x y : Eval α) : Prop := Follows some (· = ·) (· = ·) x y

namespace Repeats

variable {α β : Type}

theorem pure (a : α) : Repeats (pure a) (pure a) := Follows.pure rfl

theorem throw (s : Stop) : Repeats (throw s : Eval α) (throw s) := Follows.throw rfl

theorem bind {x y : Eval α} {f g : α → Eval β} (hx : Repeats x y) (hf : ∀ a, Repeats (f a) (g a)) :
    Repeats (x >>= f) (y >>= g) :=
  Follows.bind hx fun a _ h => h ▸ hf a

theorem note (e : Event) : Repeats (.note e) (.note e) :=
  (Follows.note rfl).imp (fun _ _ _ => rfl) fun _ _ h => h

theorem leaving {x y : Eval Value} (fn : Function) (h : Repeats x y) :
    Repeats (.leaving fn x) (.leaving fn y) :=
  Follows.leaving (fun _ _ h => h ▸ rfl) rfl h

end Repeats

/-- A way to apply functions that does as another, unless that gives up. -/
def Extends (call call' : Builtin.Applier) : Prop :=
  ∀ f args, Repeats (call f args) (call' f args)

theorem Repeats.rules : EvalIn.Rules @Repeats where
  pure := .pure
  throw _ := .throw _
  bind := .bind
  get hf := Follows.get fun w w' hw => hf w w' hw.names
  drawSerial := Follows.drawSerial

theorem Builtin.readFile_repeats (call call' : Applier) (args : List Value) :
    Repeats (readFile.run call args) (readFile.run call' args) := by
  by_cases hlen : args.length = readFile.params.length
  · obtain ⟨path, rfl⟩ := List.length_eq_one_iff.1 hlen
    refine Follows.get fun w w' hw => ?_
    simp only [World.seen_still, hw.files]
    split
    · exact .throw rfl
    · split
      · exact .pure rfl
      · exact .throw rfl
  · rw [run_of_length_ne call hlen, run_of_length_ne call' hlen]
    exact .throw _

/-- A body that ran without fuel running out does the same when applications go on further. -/
theorem Body.run_repeats {call call' : Builtin.Applier} (hcall : Extends call call')
    (args : List Value) (body : Body) : Repeats (body.run call args) (body.run call' args) := by
  by_cases hread : body = .builtin .readFile
  · rw [hread]
    exact Builtin.readFile_repeats call call' args
  · by_cases hb : ∃ f, body = .host (.fail f)
    · obtain ⟨f, rfl⟩ := hb
      exact .throw _
    · exact Repeats.rules.body hcall args (not_exists.1 hb) hread

theorem Repeats.call_rules : EvalIn.CallRules @Repeats where
  toRules := Repeats.rules
  aside _ := .note _
  around fn _ h := (Repeats.note _).bind fun _ => .leaving fn h
  failing fn _ _ _ := (Repeats.note _).bind fun _ => .leaving fn (.throw _)
  reading call call' fn args hb := by
    unfold Function.invoke
    rw [hb]
    exact (Repeats.note _).bind fun _ => .leaving fn (Builtin.readFile_repeats call call' args)
  mismatch _ _ _ _ _ := .throw _

/-- More fuel changes nothing about a run that is not given up, nor does another record. -/
theorem apply_extends : ∀ {n m : Nat}, n ≤ m → Extends (apply n) (apply m)
  | 0, _, _ => fun _ _ => Follows.outOfFuel
  | n + 1, 0, h => by omega
  | n + 1, m + 1, h => Repeats.call_rules.applyOnce (apply_extends (by omega))

end Tacit
