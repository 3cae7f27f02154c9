import Tacit.Proofs.Running
import Tacit.Proofs.SafeBuiltins

/-!
# How operands are taken

A parameter takes an operand that fits, and a function that will fit once it has its own operands
(`Value.Pends`). It takes no others: a function of the very type asked for fits already
(`Function.fits_of_same`). So what an application takes depends on its parameters and operands
alone (`Taken`), as long as no function without operands is among them; such a function is run, and
what comes of it is not looked at.
-/

namespace Tacit

open Builtin (Applier)

variable {view : View}

namespace TypeDesc

mutual

theorem fits_self : ∀ (t : TypeDesc) (m : Manner), t.fits m t = true
  | .unknown, _ | .invalid, _ | .any, _ | .num, _ | .str, _ | .bool, _ => by simp [fits]
  | .array of, _ => by
    simp only [fits]
    exact fits_self of .atOnce
  | .func ps r, m => by
    have hall : fitsAll ps ps = true := fitsAll_self ps
    have hret : r.fits .eventually r = true := fits_self r .eventually
    cases m <;> simp [fits, hall, hret]

theorem fitsAll_self : ∀ ts : List TypeDesc, fitsAll ts ts = true
  | [] => by simp [fitsAll]
  | t :: ts => by
    simp only [fitsAll, Bool.and_eq_true]
    exact ⟨fits_self t .atOnce, fitsAll_self ts⟩

end

mutual

theorem eq_of_same : ∀ {t u : TypeDesc}, same t u = true → t = u
  | .array a, u, h => by
    cases u with
    | array b =>
      simp only [same] at h
      rw [eq_of_same h]
    | _ => simp [same] at h
  | .func ps r, u, h => by
    cases u with
    | func qs s =>
      simp only [same, Bool.and_eq_true] at h
      rw [eq_of_sameAll h.1, eq_of_same h.2]
    | _ => simp [same] at h
  | .invalid, u, h | .any, u, h | .unknown, u, h | .num, u, h | .str, u, h | .bool, u, h => by
    cases u <;> simp_all [same]

theorem eq_of_sameAll : ∀ {ts us : List TypeDesc}, sameAll ts us = true → ts = us
  | [], [], _ => rfl
  | [], _ :: _, h | _ :: _, [], h => by simp [sameAll] at h
  | t :: ts, u :: us, h => by
    simp only [sameAll, Bool.and_eq_true] at h
    rw [eq_of_same h.1, eq_of_sameAll h.2]

end

end TypeDesc

theorem Function.fits_of_same {f : Function} {p : TypeDesc} (h : p.same f.type = true) :
    (Value.func f).fits p = true := by
  rw [TypeDesc.eq_of_same h, Function.fits_iff]
  exact TypeDesc.fits_self _ _

/-- A value that does not fit as it is, but is a function whose result will fit. -/
structure Value.Pends (v : Value) (p : TypeDesc) (g : Function) : Prop where
  eq : v = .func g
  misfit : v.fits p = false
  result : p.eventuallyAccepts g.returns = true

section Classify

variable (call : Applier view) (fn : Function) (position : Nat) {p : TypeDesc} {v : Value}
  {g : Function}

theorem classify_of_fits (h : v.fits p = true) :
    classify call fn position p v = pure (.value v) := by
  unfold classify
  simp only [h, if_true]

theorem classify_of_pends (h : v.Pends p g) : classify call fn position p v =
    if g.arity = 0 then do return .value (← g.invoke call [])
    else do
      .note (.composed fn.name g.text position)
      return .pending g := by
  obtain ⟨rfl, hfit, hres⟩ := h
  have hsame : ¬(p.isFunc && p.same g.type) = true := by
    intro hs
    rw [Bool.and_eq_true] at hs
    rw [Function.fits_of_same hs.2] at hfit
    cases hfit
  unfold classify
  simp only [hfit, hres, if_neg hsame, if_true, Bool.false_eq_true, if_false]

/-- An operand that neither fits nor is a function with a fitting result is a mismatch. -/
theorem classify_of_not_pends (h : v.fits p = false) (hp : ∀ g, ¬v.Pends p g) :
    classify call fn position p v =
      .fail (.mismatch none fn.text position p v.type (some v.text)) := by
  unfold classify
  simp only [h, Bool.false_eq_true, if_false]
  split
  · rename_i g
    have hres : ¬p.eventuallyAccepts g.returns = true := fun hres => hp g ⟨rfl, h, hres⟩
    have hsame : ¬(p.isFunc && p.same g.type) = true := by
      intro hs
      rw [Bool.and_eq_true] at hs
      rw [Function.fits_of_same hs.2] at h
      cases h
    rw [if_neg hsame, if_neg hres]
  · rfl

end Classify

/-- Operands that fit parameters, each its own. -/
abbrev AllFit (vs : List Value) (ps : List TypeDesc) : Prop :=
  List.Forall₂ (fun v p => v.fits p = true) vs ps

/-- What parameters take of operands, none of which is a function to run at once. -/
inductive Taken : List TypeDesc → List Value → List Slot → Prop where
  | nil (ps : List TypeDesc) : Taken ps [] []
  | value {p : TypeDesc} {ps : List TypeDesc} {v : Value} {vs : List Value} {slots : List Slot}
      (hv : v.fits p = true) (h : Taken ps vs slots) : Taken (p :: ps) (v :: vs) (.value v :: slots)
  | pending {p : TypeDesc} {ps : List TypeDesc} {g : Function} {vs : List Value}
      {slots : List Slot} (hg : (Value.func g).Pends p g) (har : g.arity ≠ 0)
      (h : Taken ps vs slots) : Taken (p :: ps) (.func g :: vs) (.pending g :: slots)

namespace Taken

variable {ps : List TypeDesc} {vs : List Value} {slots : List Slot}

theorem length_eq (h : Taken ps vs slots) : slots.length = vs.length := by
  induction h with
  | nil => rfl
  | value _ _ ih | pending _ _ _ ih => rw [List.length_cons, List.length_cons, ih]

theorem length_le (h : Taken ps vs slots) : vs.length ≤ ps.length := by
  induction h with
  | nil => simp
  | value _ _ ih | pending _ _ _ ih =>
    rw [List.length_cons, List.length_cons]
    omega

theorem arity_pos (h : Taken ps vs slots) : ∀ g, .pending g ∈ slots → 0 < g.arity := by
  induction h with
  | nil => simp
  | value _ _ ih =>
    intro g hg
    rcases List.mem_cons.1 hg with hg | hg
    · cases hg
    · exact ih g hg
  | pending _ har _ ih =>
    intro g hg
    rcases List.mem_cons.1 hg with hg | hg
    · cases hg
      omega
    · exact ih g hg

/-- If nothing is pending, all operands fit. -/
theorem values (h : Taken ps vs slots) : ∀ {us : List Value}, slots.mapM Slot.value? = some us →
    us = vs ∧ AllFit vs (ps.take vs.length) := by
  induction h with
  | nil => simp [List.mapM_nil]
  | @value p ps v vs slots hv _ ih =>
    intro us hus
    rw [List.mapM_cons] at hus
    rcases hm : slots.mapM Slot.value? with _ | us'
    · simp [Slot.value?, hm] at hus
    · obtain rfl : us = v :: us' := by simpa [Slot.value?, hm] using hus.symm
      obtain ⟨rfl, hfit⟩ := ih hm
      exact ⟨rfl, .cons hv hfit⟩
  | pending _ _ _ _ =>
    intro us hus
    rw [List.mapM_cons] at hus
    simp [Slot.value?] at hus

end Taken

theorem Taken.append {pre args : List Value} {ps qs : List TypeDesc} {slots : List Slot}
    (hpre : AllFit pre ps) (h : Taken qs args slots) :
    Taken (ps ++ qs) (pre ++ args) (pre.map .value ++ slots) := by
  induction hpre with
  | nil => exact h
  | cons hv _ ih => exact .value hv ih

theorem arity_eq {fn : Function} {pre : List Value} {ps qs : List TypeDesc} (hps : AllFit pre ps)
    (hfn : fn.params = ps ++ qs) : fn.arity = pre.length + qs.length := by
  unfold Function.arity
  rw [hfn, List.length_append, hps.length_eq]

section ClassifyAll

variable (call : Applier view) (fn : Function)

/-- Leading operands that fit are taken as they are. -/
theorem classifyAll_append {pre : List Value} {ps : List TypeDesc} (h : AllFit pre ps) :
    ∀ (position : Nat) (qs : List TypeDesc) (args : List Value),
      classifyAll call fn position (ps ++ qs) (pre ++ args) = do
        let slots ← classifyAll call fn (position + pre.length) qs args
        return pre.map .value ++ slots := by
  induction h with
  | nil =>
    intro position qs args
    simp
  | @cons v p pre ps hv _ ih =>
    intro position qs args
    simp only [List.cons_append, classifyAll, classify_of_fits call fn position hv, pure_bind, ih,
      bind_assoc, List.map_cons, List.length_cons]
    rw [Nat.add_assoc, Nat.add_comm 1]

/-- Operands that are classified without running any are taken. -/
theorem taken_of_classifyAll : ∀ {position : Nat} {ps : List TypeDesc} {vs : List Value}
    {slots : List Slot} {w w' : World view}, (∀ g, .func g ∈ vs → g.arity ≠ 0) →
      vs.length ≤ ps.length → classifyAll call fn position ps vs w = .ok slots w' →
      Taken ps vs slots
  | _, ps, [], slots, w, w', _, _, h => by
    cases ps <;> cases h <;> exact .nil _
  | _, [], _ :: _, _, _, _, _, hlen, _ => by simp at hlen
  | position, p :: ps, v :: vs, slots, w, w', hn, hlen, h => by
    obtain ⟨s, w₁, hs, h⟩ := EvalIn.bind_eq_ok h
    obtain ⟨rest, w₂, hrest, h⟩ := EvalIn.bind_eq_ok h
    cases h
    have hvs : Taken ps vs rest :=
      taken_of_classifyAll (fun g hg => hn g (by simp [hg])) (by simpa using hlen) hrest
    by_cases hfit : v.fits p = true
    · rw [classify_of_fits call fn position hfit] at hs
      cases hs
      exact .value hfit hvs
    · by_cases hp : ∃ g, v.Pends p g
      · obtain ⟨g, hg⟩ := hp
        have har : g.arity ≠ 0 := hn g (by simp [hg.eq])
        rw [classify_of_pends call fn position hg, if_neg har] at hs
        cases hs
        obtain rfl := hg.eq
        exact .pending hg har hvs
      · rw [classify_of_not_pends call fn position (by simpa using hfit) (not_exists.1 hp)] at hs
        cases hs

theorem classifyAll_of_taken {ps : List TypeDesc} {vs : List Value} {slots : List Slot}
    (h : Taken ps vs slots) : ∀ (position : Nat) (w : World view),
      ∃ w', classifyAll call fn position ps vs w = .ok slots w' := by
  induction h with
  | nil ps =>
    intro position w
    cases ps <;> exact ⟨w, rfl⟩
  | value hv _ ih =>
    intro position w
    obtain ⟨w', h⟩ := ih (position + 1) w
    refine ⟨w', ?_⟩
    simp only [classifyAll, classify_of_fits call fn position hv, pure_bind]
    rw [EvalIn.bind_of_ok h]
    rfl
  | @pending p ps g vs slots hg har _ ih =>
    intro position w
    have hnote := EvalIn.note_eq (.composed fn.name g.text position) w
    obtain ⟨w', h⟩ := ih (position + 1)
      (w.noted (.composed fn.name g.text position))
    refine ⟨w', ?_⟩
    simp only [classifyAll, classify_of_pends call fn position hg, if_neg har, bind_assoc,
      pure_bind]
    rw [EvalIn.bind_of_ok hnote, EvalIn.bind_of_ok h]
    rfl

variable {fn}

/-- An application goes on to take the operands behind those that fit. -/
theorem applyOnce_append {pre args : List Value} {ps qs : List TypeDesc} (hpre : AllFit pre ps)
    (hfn : fn.params = ps ++ qs) (hlen : args.length ≤ qs.length) (hne : pre ++ args ≠ []) :
    applyOnce call fn (pre ++ args) = (do
      let slots ← classifyAll call fn pre.length qs args
      proceed call fn (pre.map .value ++ slots)) := by
  have harity := arity_eq hpre hfn
  have hpos := List.length_pos_iff.2 hne
  rw [List.length_append] at hpos
  unfold applyOnce
  rw [List.length_append, if_neg (by omega), if_neg (by omega), if_neg (by simpa using hne), hfn,
    classifyAll_append call fn hpre, bind_assoc, Nat.zero_add]
  simp only [pure_bind]

variable (fn) in
theorem suspend_eq (slots : List Slot) (w : World view) :
    suspend fn slots w = .ok (.func (continuation fn slots w.serial))
      { w with
        serial := w.serial + 1
        record := w.record.push
          (.curried fn.name (openGroups fn slots).length (continuation fn slots w.serial)) } := rfl

theorem mapM_value? : ∀ vs : List Value, (vs.map Slot.value).mapM Slot.value? = some vs
  | [] => rfl
  | v :: vs => by simp [List.mapM_cons, Slot.value?, mapM_value? vs]

/-- A function is run on operands that fit its parameters. -/
theorem applyOnce_of_fits {args : List Value} (h : AllFit args fn.params) :
    applyOnce call fn args = fn.invoke call args := by
  have hlen : args.length = fn.arity := h.length_eq
  unfold applyOnce
  rw [if_neg (by omega)]
  by_cases hzero : fn.arity = 0
  · rw [if_pos hzero, List.eq_nil_of_length_eq_zero (hlen.trans hzero)]
  · have hne : ¬args.isEmpty = true := by
      rw [List.isEmpty_iff]
      rintro rfl
      exact hzero hlen.symm
    have hall := classifyAll_append call fn h 0 [] []
    simp only [List.append_nil, classifyAll, pure_bind] at hall
    rw [if_neg hzero, if_neg hne, hall, pure_bind]
    unfold proceed
    rw [mapM_value?]
    simp only [hlen, if_true]

end ClassifyAll

end Tacit
