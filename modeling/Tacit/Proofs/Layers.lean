import Mathlib.Data.List.Forall2
import Tacit.TypeDesc.Fit

/-!
# What a required type accepts

Seen from what is required, a type is accepted when nothing is asked for, when nothing is known of
it, or when it is built the same way from accepted parts. The results of functions are the one
exception: in place of the result itself, a layer of it may be accepted, which is what is left when
it has got its operands some number of times (`Layer`).
-/

namespace Tacit.TypeDesc

/-- A type that asks for nothing. -/
def IsBlank (e : TypeDesc) : Prop := e = .any ∨ e = .unknown

/-- A type without parts that asks for itself. -/
def IsScalar (e : TypeDesc) : Prop := e = .invalid ∨ e = .num ∨ e = .str ∨ e = .bool

/-- What holds of a type when it holds of its parts holds of all types. -/
theorem induct {P : TypeDesc → Prop} (blank : ∀ e : TypeDesc, e.IsBlank → P e)
    (scalar : ∀ e : TypeDesc, e.IsScalar → P e) (array : ∀ e, P e → P (.array e))
    (func : ∀ es e, (∀ d ∈ es, P d) → P e → P (.func es e)) : ∀ e, P e
  | .any => blank _ (.inl rfl)
  | .unknown => blank _ (.inr rfl)
  | .invalid => scalar _ (.inl rfl)
  | .num => scalar _ (.inr (.inl rfl))
  | .str => scalar _ (.inr (.inr (.inl rfl)))
  | .bool => scalar _ (.inr (.inr (.inr rfl)))
  | .array e => array e (induct blank scalar array func e)
  | .func es e => func es e (fun d _ => induct blank scalar array func d)
      (induct blank scalar array func e)

/-- What a type leads to by getting operands any number of times, none included. -/
inductive Layer : TypeDesc → TypeDesc → Prop where
  | self (t : TypeDesc) : Layer t t
  | result {ps : List TypeDesc} {r t : TypeDesc} (h : Layer r t) : Layer (.func ps r) t

theorem Layer.trans {t u v : TypeDesc} (h : t.Layer u) (hv : u.Layer v) : t.Layer v := by
  induction h with
  | self => exact hv
  | result _ ih => exact .result (ih hv)

theorem Layer.eq_of_not_func {t u : TypeDesc} (ht : t.isFunc = false) (h : t.Layer u) : u = t := by
  cases h with
  | self => rfl
  | result => cases ht

attribute [local simp] fits fitsAll

variable {e t : TypeDesc}

theorem eventuallyAccepts_eq (h : t.isFunc = false) : e.eventuallyAccepts t = e.accepts t := by
  cases t with
  | func => cases h
  | _ => simp only [eventuallyAccepts, accepts, fits]

theorem eventuallyAccepts_func (e : TypeDesc) (ps : List TypeDesc) (r : TypeDesc) :
    e.eventuallyAccepts (.func ps r) = (e.accepts (.func ps r) || e.eventuallyAccepts r) := by
  simp only [eventuallyAccepts, accepts, fits]

theorem eventuallyAccepts_iff_of_not_func (h : t.isFunc = false) :
    e.eventuallyAccepts t = true ↔ ∃ u, t.Layer u ∧ e.accepts u = true := by
  rw [eventuallyAccepts_eq h]
  refine ⟨fun ht => ⟨t, .self t, ht⟩, ?_⟩
  rintro ⟨u, hu, hacc⟩
  rwa [← hu.eq_of_not_func h]

/-- A result is accepted when some layer of it is. -/
theorem eventuallyAccepts_iff : ∀ {t : TypeDesc},
    e.eventuallyAccepts t = true ↔ ∃ u, t.Layer u ∧ e.accepts u = true
  | .func ps r => by
    rw [eventuallyAccepts_func, Bool.or_eq_true, eventuallyAccepts_iff]
    constructor
    · rintro (h | ⟨u, hu, h⟩)
      · exact ⟨_, .self _, h⟩
      · exact ⟨u, .result hu, h⟩
    · rintro ⟨u, hu, h⟩
      cases hu with
      | self => exact .inl h
      | result hu => exact .inr ⟨u, hu, h⟩
  | .invalid | .any | .unknown | .num | .str | .bool | .array _ =>
    eventuallyAccepts_iff_of_not_func rfl

theorem Layer.eventuallyAccepts {u : TypeDesc} (h : t.Layer u)
    (hu : e.eventuallyAccepts u = true) : e.eventuallyAccepts t = true := by
  obtain ⟨v, hv, hacc⟩ := eventuallyAccepts_iff.1 hu
  exact eventuallyAccepts_iff.2 ⟨v, h.trans hv, hacc⟩

theorem accepts_unknown (e : TypeDesc) : e.accepts .unknown = true := by simp [accepts]

theorem IsBlank.accepts (h : e.IsBlank) (t : TypeDesc) : e.accepts t = true := by
  rcases h with rfl | rfl <;> cases t <;> simp [TypeDesc.accepts]

/-- Types are accepted, each by its own requirement. -/
abbrev AllAccepted (es ts : List TypeDesc) : Prop :=
  List.Forall₂ (fun e t => e.accepts t = true) es ts

/-- Accepted types and their requirements, all replaced by others in ways that keep what is
accepted. -/
theorem AllAccepted.related {R S : TypeDesc → TypeDesc → Prop} {es ts ds us : List TypeDesc}
    (h : AllAccepted es ts) (hds : List.Forall₂ R es ds) (hus : List.Forall₂ S ts us)
    (hkeep : ∀ e ∈ es, ∀ d t u, e.accepts t = true → R e d → S t u → d.accepts u = true) :
    AllAccepted ds us := by
  induction h generalizing ds us with
  | nil =>
    cases hds
    cases hus
    exact .nil
  | cons h _ ih =>
    cases hds with
    | cons hd hds =>
      cases hus with
      | cons hu hus =>
        exact .cons (hkeep _ List.mem_cons_self _ _ _ h hd hu)
          (ih hds hus fun e he => hkeep e (List.mem_cons_of_mem _ he))

theorem fitsAll_iff : ∀ {es ts : List TypeDesc}, ts.length = es.length →
    (fitsAll ts es = true ↔ AllAccepted es ts)
  | [], [], _ => by simp
  | [], _ :: _, h | _ :: _, [], h => by simp at h
  | e :: es, t :: ts, h => by
    have ih : fitsAll ts es = true ↔ AllAccepted es ts := fitsAll_iff (by simpa using h)
    rw [fitsAll, Bool.and_eq_true, ih]
    exact ⟨fun ⟨ht, hts⟩ => .cons ht hts, fun
      | .cons ht hts => ⟨ht, hts⟩⟩

theorem accepts_array_iff : (array e).accepts t = true ↔
    t = .unknown ∨ ∃ u, t = .array u ∧ e.accepts u = true := by
  cases t <;> simp [accepts]

/-- A function type accepts functions that take what it hands over and sooner or later return what
it asks for. -/
theorem accepts_func_iff {es : List TypeDesc} : (func es e).accepts t = true ↔
    t = .unknown ∨ ∃ ps r, t = .func ps r ∧ AllAccepted es ps ∧ e.eventuallyAccepts r = true := by
  cases t with
  | func ps r =>
    have hfits : (func es e).accepts (.func ps r) = true ↔
        ps.length = es.length ∧ fitsAll ps es = true ∧ e.eventuallyAccepts r = true := by
      simp only [accepts, eventuallyAccepts, fits]
      split_ifs with hlen <;> simp [hlen]
    rw [hfits]
    constructor
    · rintro ⟨hlen, hps, hr⟩
      exact .inr ⟨ps, r, rfl, (fitsAll_iff hlen).1 hps, hr⟩
    · rintro (⟨⟨⟩⟩ | ⟨_, _, ⟨⟩, hps, hr⟩)
      have hlen := hps.length_eq.symm
      exact ⟨hlen, (fitsAll_iff hlen).2 hps, hr⟩
  | _ => simp [accepts]

theorem IsScalar.accepts_iff (h : e.IsScalar) : e.accepts t = true ↔ t = .unknown ∨ t = e := by
  rcases h with rfl | rfl | rfl | rfl <;> cases t <;> simp [accepts]

end Tacit.TypeDesc
