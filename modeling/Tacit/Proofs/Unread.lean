import Tacit.Proofs.CallTrees

/-!
# A file that is not read

While a program runs, a file may be written to from outside. That does not show in a run in which
the file is not read (`Program.eval_unread`), and it is read only by the function for it, so the
record tells (`Event.Reads`).
-/

namespace Tacit

open FileSystem (key)

variable {view view' : View}

/-- Tells that a file begins to be read. -/
def Event.Reads (path : Text) : Event → Prop
  | .entered fn [v] => fn.body = .builtin .readFile ∧ key v.asText = key path
  | _ => False

instance (path : Text) : DecidablePred (Event.Reads path)
  | .entered fn [v] =>
    match hb : fn.body with
    | .builtin b => decidable_of_iff (b = .readFile ∧ key v.asText = key path)
        (by simp [Event.Reads, hb])
    | .resume .. | .share .. | .host _ => isFalse (by simp [Event.Reads, hb])
  | .entered _ [] | .entered _ (_ :: _ :: _) | .left .. | .composed .. | .curried .. => isFalse id

/-- Whatever has happened, two views show the same of files, but for one of them. -/
def View.AlikeBut (path : Text) (files : FileSystem) (view view' : View) : Prop :=
  ∀ record other, key other ≠ key path →
    (view record files).read other = (view' record files).read other

/-- How a run ended, as if it had been under another view. -/
def Outcome.under {α : Type} (r : Outcome α view) (view' : View) : Outcome α view' :=
  match r with
  | .ok a w => .ok a (w.under view')
  | .error s w => .error s (w.under view')

namespace Outcome

variable {α : Type} (r : Outcome α view)

theorem result_under (view' : View) : (Outcome.under r view').result = r.result := by
  cases r <;> rfl

theorem world_under (view' : View) : (Outcome.under r view').world = r.world.under view' := by
  cases r <;> rfl

end Outcome

/-- If nothing but a file may be seen otherwise, what is run under one view does not read it, then
under the other view it does the same. -/
structure EvalIn.Unread (path : Text) {α : Type} (x : EvalIn view α) (y : EvalIn view' α) :
    Prop where
  nests : x.Nests
  eq : ∀ {w : World view} {es : List Event}, (∀ files ∈ w.files, view.AlikeBut path files view') →
    w.Adds (Outcome.world (x w)) es → (∀ e ∈ es, ¬e.Reads path) →
      y (w.under view') = Outcome.under (x w) view'

theorem Builtin.readFile_eq (call : Applier view) (path : Value) (w : World view) :
    readFile.run call [path] w =
      match w.seen with
      | none => .error (.fault (readFile.fault "no filesystem available")) w
      | some files =>
        match files.read path.asText with
        | .ok content => .ok (.str content) w
        | .error f => .error (.fault (.builtin none readFile.name f)) w := by
  show (MonadState.get >>= _ : EvalIn view Value) w = _
  rw [EvalIn.bind_of_ok (show (MonadState.get : EvalIn view (World view)) w = .ok w w from rfl)]
  rcases w.seen with _ | files
  · rfl
  · dsimp only
    rcases files.read path.asText with f | content <;> rfl

namespace EvalIn.Unread

variable {path : Text} {α β : Type}

theorem bind {x : EvalIn view α} {y : EvalIn view' α} {f : α → EvalIn view β}
    {g : α → EvalIn view' β} (hx : Unread path x y) (hf : ∀ a, Unread path (f a) (g a)) :
    Unread path (x >>= f) (y >>= g) := by
  refine ⟨hx.nests.bind fun a => (hf a).nests, fun {w es} hfiles hes hno => ?_⟩
  have hruns := hx.nests w
  obtain ⟨-, es₁, hes₁, -⟩ := hruns.calls
  have heq := hx.eq hfiles hes₁
  rcases hr : x w with ⟨a, u⟩ | ⟨s, u⟩ <;> rw [hr] at hruns hes₁ heq
  · rw [bind_of_ok hr] at hes ⊢
    obtain ⟨-, es₂, hes₂, -⟩ := ((hf a).nests u).calls
    obtain rfl : es = es₁ ++ es₂ := List.append_cancel_left (hes.symm.trans (hes₁.trans hes₂))
    rw [bind_of_ok (heq fun e he => hno e (List.mem_append_left _ he))]
    exact (hf a).eq (hruns.files ▸ hfiles) hes₂ fun e he => hno e (List.mem_append_right _ he)
  · rw [bind_of_error hr] at hes ⊢
    obtain rfl : es = es₁ := List.append_cancel_left (hes.symm.trans hes₁)
    rw [bind_of_error (heq hno)]
    rfl

theorem locating {x : EvalIn view Value} {y : EvalIn view' Value} (place : Option Location)
    (h : Unread path x y) : Unread path (.locating place x) (.locating place y) := by
  refine ⟨h.nests.locating place, fun {w es} hfiles hes hno => ?_⟩
  unfold EvalIn.locating at hes ⊢
  rcases hr : x w with ⟨v, u⟩ | ⟨f | m, u⟩ <;> rw [hr] at hes <;>
    rw [h.eq hfiles (hr ▸ hes) hno, hr] <;> rfl

/-- Running something for a function, where it matters only if the function does not begin to read
the file. -/
theorem around {x : EvalIn view Value} {y : EvalIn view' Value} {fn : Function}
    {args : List Value} (hx : x.Nests)
    (h : ¬(Event.entered fn args).Reads path → Unread path x y) :
    Unread path (do .note (.entered fn args); .leaving fn x)
      (do .note (.entered fn args); .leaving fn y) := by
  refine ⟨hx.around fn args, fun {w es} hfiles hes hno => ?_⟩
  obtain ⟨-, inner, hinner, -⟩ := (hx (w.noted (.entered fn args))).calls
  rw [bind_of_ok (note_eq _ w)] at hes ⊢
  rw [bind_of_ok (note_eq _ (w.under view'))]
  have hes' : ∃ result, es = [.entered fn args] ++ (inner ++ [.left fn result]) := by
    rcases hr : x (w.noted (.entered fn args)) with ⟨v, u⟩ | ⟨s, u⟩ <;> rw [hr] at hinner
    · rw [leaving_of_ok hr] at hes
      exact ⟨_, List.append_cancel_left (hes.symm.trans
        ((w.adds_noted _).trans (hinner.trans (u.adds_noted _))))⟩
    · rw [leaving_of_error hr] at hes
      exact ⟨_, List.append_cancel_left (hes.symm.trans
        ((w.adds_noted _).trans (hinner.trans (u.adds_noted _))))⟩
  obtain ⟨result, rfl⟩ := hes'
  have heq := (h (hno _ (by simp))).eq (w := w.noted (.entered fn args)) hfiles hinner
    fun e he => hno e (by simp [he])
  rcases hr : x (w.noted (.entered fn args)) with ⟨v, u⟩ | ⟨s, u⟩ <;> rw [hr] at heq
  · rw [leaving_of_ok hr]
    exact leaving_of_ok heq
  · rw [leaving_of_error hr]
    exact leaving_of_error heq

/-- Reading another file. -/
theorem readFile (call : Builtin.Applier view) (call' : Builtin.Applier view') {fn : Function}
    {args : List Value} (hb : fn.body = .builtin .readFile)
    (hno : ¬(Event.entered fn args).Reads path) :
    Unread path (Builtin.readFile.run call args) (Builtin.readFile.run call' args) := by
  refine ⟨nests_rules.readFile call args, fun {w es} hfiles _ _ => ?_⟩
  by_cases hlen : args.length = Builtin.readFile.params.length
  · obtain ⟨other, rfl⟩ := List.length_eq_one_iff.1 hlen
    have hother : key other.asText ≠ key path := fun h => hno ⟨hb, h⟩
    rw [Builtin.readFile_eq, Builtin.readFile_eq]
    rcases hf : w.files with _ | files
    · rw [show w.seen = none from congrArg (Option.map _) hf,
        show (w.under view').seen = none from congrArg (Option.map _) hf]
      rfl
    · rw [show w.seen = some _ from congrArg (Option.map _) hf,
        show (w.under view').seen = some _ from congrArg (Option.map _) hf]
      dsimp only [World.under]
      rw [hfiles files hf w.record.toList _ hother]
      rcases (view' w.record.toList files).read other.asText with f | content <;> rfl
  · rw [Builtin.run_of_length_ne call hlen, Builtin.run_of_length_ne call' hlen]
    rfl

end EvalIn.Unread

open EvalIn (Unread)

/-- Whatever does not begin to read a file does the same under two views that differ in that file
only. -/
theorem EvalIn.unread_rules (path : Text) : EvalIn.ProgramRules
    (fun ⦃_⦄ (x : EvalIn view _) (y : EvalIn view' _) => Unread path x y) where
  pure _ := ⟨.pure _, fun _ _ _ => rfl⟩
  throw _ := ⟨.throw _, fun _ _ _ => rfl⟩
  bind := .bind
  get hf := ⟨.get fun w => (hf w (w.under _) rfl).nests,
    fun hfiles hes hno => (hf _ _ rfl).eq hfiles hes hno⟩
  drawSerial := ⟨.drawSerial, fun _ _ _ => rfl⟩
  aside he := ⟨.note he, fun _ _ _ => rfl⟩
  around fn args hx := .around hx.nests fun _ => hx
  failing fn args _ _ := .around (.throw _) fun _ => ⟨.throw _, fun _ _ _ => rfl⟩
  reading call call' fn args hb := by
    have h : Unread path _ _ :=
      .around (nests_rules.readFile call args) (Unread.readFile call call' hb)
    unfold Function.invoke
    rwa [hb]
  mismatch _ _ _ _ _ := ⟨.throw _, fun _ _ _ => rfl⟩
  bindName name v := ⟨.bindName name v, fun _ _ _ => rfl⟩
  locating place h := h.locating place

/-- A program that does not read a file runs as it does when something else is written to it. -/
theorem Program.eval_unread {path : Text} {fuel : Nat} (p : Program) :
    Unread path (p.eval fuel : EvalIn view Value) (p.eval fuel : EvalIn view' Value) :=
  (EvalIn.unread_rules path).program p

end Tacit
