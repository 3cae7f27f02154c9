import Mathlib.Data.Option.Basic
import Tacit.Evaluation

/-!
# Running something in a world

When things are run one after another, the last gives the value, or the first that stops ends it.
What happens is recorded behind what happened before (`World.Adds`).
-/

namespace Tacit

variable {view : View}

/-- How a run ended, and the world that it left. -/
abbrev Outcome (α : Type) (view : View := .still) : Type := EStateM.Result Stop (World view) α

/-- The world at the end. -/
def Outcome.world {α : Type} : Outcome α view → World view
  | .ok _ w | .error _ w => w

/-- The value, or why there is none. -/
def Outcome.result {α : Type} : Outcome α view → Except Stop α
  | .ok a _ => .ok a
  | .error s _ => .error s

namespace World

/-- When nothing outside writes, the files to read are those there are. -/
theorem seen_still (w : World) : w.seen = w.files := Option.map_id_apply

/-- A world after something has been recorded. -/
def noted (w : World view) (e : Event) : World view := { w with record := w.record.push e }

/-- What was recorded between two worlds. -/
def Adds (w u : World view) (es : List Event) : Prop := u.record.toList = w.record.toList ++ es

theorem Adds.trans {w u v : World view} {es fs : List Event} (h : w.Adds u es)
    (hv : u.Adds v fs) : w.Adds v (es ++ fs) := by
  unfold Adds at *
  rw [hv, h, List.append_assoc]

theorem adds_noted (w : World view) (e : Event) : w.Adds (w.noted e) [e] := by
  simp [Adds, noted]

end World

namespace EvalIn

variable {α β : Type} {x : EvalIn view α} {f : α → EvalIn view β} {w w' : World view}

theorem bind_eq_error {s : Stop} (h : (x >>= f) w = .error s w') :
    x w = .error s w' ∨ ∃ a w₁, x w = .ok a w₁ ∧ f a w₁ = .error s w' := by
  change EStateM.bind x f w = .error s w' at h
  unfold EStateM.bind at h
  split at h
  · rename_i a w₁ hx
    exact .inr ⟨a, w₁, hx, h⟩
  · rename_i t w₁ hx
    cases h
    exact .inl hx

theorem bind_eq_ok {b : β} (h : (x >>= f) w = .ok b w') :
    ∃ a w₁, x w = .ok a w₁ ∧ f a w₁ = .ok b w' := by
  change EStateM.bind x f w = .ok b w' at h
  unfold EStateM.bind at h
  split at h
  · rename_i a w₁ hx
    exact ⟨a, w₁, hx, h⟩
  · cases h

theorem bind_of_ok {a : α} {w₁ : World view} (h : x w = .ok a w₁) : (x >>= f) w = f a w₁ := by
  change EStateM.bind x f w = f a w₁
  unfold EStateM.bind
  rw [h]

theorem bind_of_error {s : Stop} (h : x w = .error s w') : (x >>= f) w = .error s w' := by
  change EStateM.bind x f w = .error s w'
  unfold EStateM.bind
  rw [h]

theorem note_eq (e : Event) (w : World view) : EvalIn.note e w = .ok () (w.noted e) := rfl

section Leaving

variable {fn : Function} {x : EvalIn view Value} {u : World view}

theorem leaving_of_ok {v : Value} (h : x w = .ok v u) :
    EvalIn.leaving fn x w = .ok v (u.noted (.left fn (some v))) := by
  unfold EvalIn.leaving
  rw [h]
  rfl

theorem leaving_of_error {s : Stop} (h : x w = .error s u) :
    EvalIn.leaving fn x w = .error s (u.noted (.left fn none)) := by
  unfold EvalIn.leaving
  rw [h]
  rfl

end Leaving

theorem locating_eq_fault {place : Option Location} {g : Fault}
    (h : EvalIn.locating place x w = .error (.fault g) w') :
    ∃ g₀, x w = .error (.fault g₀) w' ∧ g = g₀.placedAt place := by
  unfold EvalIn.locating at h
  split at h
  · rename_i g₀ w₁ hx
    cases h
    exact ⟨g₀, hx, rfl⟩
  · rename_i hno
    exact absurd h (hno g w')

end EvalIn

end Tacit
