import Tacit.Profile.Trace
import Tacit.Proofs.Judging

/-!
# A run records trees of calls

A function is entered and left in the same place, however its call ends. So what a run records are
calls one after another, each of which holds the calls that were made while it ran (`Recorded`), and
this is all there is to it: apart from that a run draws serial numbers and binds names
(`RunsTo`). It goes for everything that can be evaluated, in any world, whether it gives a value,
stops, or is given up (`Program.eval_nests`).
-/

namespace Tacit

namespace Profile.Trace

/-- Some events are those of some calls, one after another: a function begins to run, what is inside
the call happens, and the function stops. -/
inductive Recorded : List Trace → List Event → Prop where
  | nil : Recorded [] []
  | aside {e : Event} {ts : List Trace} {es : List Event} (he : e.isAside = true)
      (h : Recorded ts es) : Recorded ts (e :: es)
  | call {fn : Function} {args : List Value} {result : Option Value} {inner ts : List Trace}
      {es fs : List Event} (hi : Recorded inner es) (h : Recorded ts fs) :
      Recorded (.call fn inner :: ts) (.entered fn args :: (es ++ .left fn result :: fs))

theorem Recorded.append {ts us : List Trace} {es fs : List Event} (h : Recorded ts es)
    (hu : Recorded us fs) : Recorded (ts ++ us) (es ++ fs) := by
  induction h with
  | nil => exact hu
  | aside he _ ih => exact .aside he ih
  | call hi _ _ ih =>
    simp only [List.cons_append, List.append_assoc]
    exact .call hi ih

theorem Recorded.one {fn : Function} {args : List Value} {result : Option Value}
    {inner : List Trace} {es : List Event} (h : Recorded inner es) :
    Recorded [.call fn inner] (.entered fn args :: (es ++ [.left fn result])) :=
  .call h .nil

end Profile.Trace

open Profile (Trace)

variable {view : View}

/-- A run can lead from one world to another. -/
structure World.RunsTo (w u : World view) : Prop where
  files : u.files = w.files
  reads : u.reads = w.reads
  calls : ∃ ts es, w.Adds u es ∧ Trace.Recorded ts es

namespace World.RunsTo

variable {w u v : World view}

theorem refl (w : World view) : w.RunsTo w := ⟨rfl, rfl, [], [], (List.append_nil _).symm, .nil⟩

theorem trans (h : w.RunsTo u) (hv : u.RunsTo v) : w.RunsTo v := by
  obtain ⟨ts, es, hes, hts⟩ := h.calls
  obtain ⟨us, fs, hfs, hus⟩ := hv.calls
  exact ⟨hv.files.trans h.files, hv.reads.trans h.reads, ts ++ us, es ++ fs, hes.trans hfs,
    hts.append hus⟩

theorem aside {e : Event} (he : e.isAside = true) (w : World view) : w.RunsTo (w.noted e) :=
  ⟨rfl, rfl, [], [e], w.adds_noted e, .aside he .nil⟩

/-- From where a function is entered to where it is left. -/
theorem around {fn : Function} {args : List Value} (h : (w.noted (.entered fn args)).RunsTo u)
    (result : Option Value) : w.RunsTo (u.noted (.left fn result)) := by
  obtain ⟨ts, es, hes, hts⟩ := h.calls
  refine ⟨h.files, h.reads, [.call fn ts], .entered fn args :: (es ++ [.left fn result]), ?_,
    .one hts⟩
  exact (w.adds_noted _).trans (hes.trans (u.adds_noted _))

end World.RunsTo

/-- Leads from any world only to such as a run can lead to. -/
def EvalIn.Nests {α : Type} (x : EvalIn view α) : Prop :=
  ∀ w : World view, w.RunsTo (Outcome.world (x w))

namespace EvalIn.Nests

variable {α β : Type} {x : EvalIn view α}

theorem pure (a : α) : EvalIn.Nests (pure a : EvalIn view α) := World.RunsTo.refl

theorem throw (s : Stop) : EvalIn.Nests (throw s : EvalIn view α) := World.RunsTo.refl

theorem bind {f : α → EvalIn view β} (hx : x.Nests) (hf : ∀ a, (f a).Nests) :
    EvalIn.Nests (x >>= f) := by
  intro w
  have h := hx w
  rcases hr : x w with ⟨a, u⟩ | ⟨s, u⟩ <;> rw [hr] at h
  · rw [bind_of_ok hr]
    exact h.trans (hf a u)
  · rw [bind_of_error hr]
    exact h

theorem get {f : World view → EvalIn view α} (hf : ∀ w, (f w).Nests) :
    EvalIn.Nests (MonadState.get >>= f) := fun w => hf w w

theorem note {e : Event} (he : e.isAside = true) : EvalIn.Nests (.note e : EvalIn view Unit) :=
  World.RunsTo.aside he

theorem drawSerial : EvalIn.Nests (.drawSerial : EvalIn view Nat) :=
  fun _ => ⟨rfl, rfl, [], [], (List.append_nil _).symm, .nil⟩

theorem bindName (name : Text) (v : Value) : EvalIn.Nests (.bindName name v : EvalIn view Unit) :=
  fun _ => ⟨rfl, rfl, [], [], (List.append_nil _).symm, .nil⟩

theorem locating (place : Option Location) (hx : x.Nests) : EvalIn.Nests (.locating place x) := by
  intro w
  have h := hx w
  unfold EvalIn.locating
  rcases hr : x w with ⟨a, u⟩ | ⟨f | m, u⟩ <;> rw [hr] at h <;> exact h

/-- Running something for a function, from when it begins to when it stops. -/
theorem around {x : EvalIn view Value} (hx : x.Nests) (fn : Function) (args : List Value) :
    EvalIn.Nests (do .note (.entered fn args); .leaving fn x) := by
  intro w
  have h := hx (w.noted (.entered fn args))
  rw [bind_of_ok (note_eq _ w)]
  rcases hr : x (w.noted (.entered fn args)) with ⟨v, u⟩ | ⟨s, u⟩ <;> rw [hr] at h
  · rw [leaving_of_ok hr]
    exact h.around _
  · rw [leaving_of_error hr]
    exact h.around _

end EvalIn.Nests

open EvalIn (Nests)

theorem EvalIn.nests_rules : EvalIn.Rules (EvalIn.Alone (@Nests view)) where
  pure := .pure
  throw _ := .throw _
  bind := .bind
  get hf := .get fun w => hf w w rfl
  drawSerial := .drawSerial

theorem EvalIn.nests_program_rules : EvalIn.ProgramRules (EvalIn.Alone (@Nests view)) where
  toRules := EvalIn.nests_rules
  aside := .note
  around fn args hx := hx.around fn args
  failing fn args _ _ := (Nests.throw _).around fn args
  reading call _ fn args hb := by
    have h := Nests.around (EvalIn.nests_rules.readFile call args) fn args
    unfold Function.invoke
    rwa [hb]
  mismatch _ _ _ _ _ := .throw _
  bindName := .bindName
  locating place hx := hx.locating place

/-- Within a law, what is recorded are calls. -/
theorem Law.Keeps.recorded {L : Law} {past : List Event} {α : Type} {x : Eval α}
    {Q : List Event → α → Prop} (h : L.Keeps past x Q) (hx : x.Nests) :
    L.Keeps past x fun es a =>
      Q es a ∧ ∃ ts added, es = past ++ added ∧ Trace.Recorded ts added := by
  intro w
  obtain ⟨es, hadds, hall, hok, herr⟩ := h w
  obtain ⟨ts, es', hadds', hts⟩ := (hx w).calls
  obtain rfl : es = es' := List.append_cancel_left (hadds.symm.trans hadds')
  exact ⟨es, hadds, hall, fun a u ha => ⟨hok a u ha, ts, es, rfl, hts⟩, herr⟩

/-- What a program records are calls, each from its beginning to its end. -/
theorem Program.eval_nests {fuel : Nat} (p : Program) : Nests (p.eval fuel : EvalIn view Value) :=
  EvalIn.nests_program_rules.program p

end Tacit
