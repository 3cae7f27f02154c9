import Tacit.Proofs.Layers

/-!
# Knowing less about types

A type is blurred where parts of it are replaced by types that say nothing. What is accepted stays
accepted when the requirement is blurred, and when parts of the type are no longer known
(`accepts_blurred`). The result of a function may then be accepted at another layer than before, or
its layers may be cut off; but they are cut off by a type of which nothing is known, and that is
accepted.
-/

namespace Tacit.TypeDesc

/-- The second type comes of the first by putting blanks in place of parts of it. -/
inductive Blurs (blanks : List TypeDesc) : TypeDesc → TypeDesc → Prop where
  | same (t : TypeDesc) : Blurs blanks t t
  | blank (t : TypeDesc) {b : TypeDesc} (hb : b ∈ blanks) : Blurs blanks t b
  | array {t u : TypeDesc} (h : Blurs blanks t u) : Blurs blanks (.array t) (.array u)
  | func {ps qs : List TypeDesc} {r s : TypeDesc} (hps : List.Forall₂ (Blurs blanks) ps qs)
      (hr : Blurs blanks r s) : Blurs blanks (.func ps r) (.func qs s)

section Blurs

variable {blanks : List TypeDesc} {t v : TypeDesc}

theorem Blurs.of_array (h : (TypeDesc.array t).Blurs blanks v) :
    v ∈ blanks ∨ ∃ u, v = .array u ∧ t.Blurs blanks u := by
  cases h with
  | same => exact .inr ⟨t, rfl, .same t⟩
  | blank _ hb => exact .inl hb
  | array h => exact .inr ⟨_, rfl, h⟩

theorem Blurs.of_func {ps : List TypeDesc} (h : (TypeDesc.func ps t).Blurs blanks v) :
    v ∈ blanks ∨ ∃ qs u, v = .func qs u ∧ List.Forall₂ (Blurs blanks) ps qs ∧
      t.Blurs blanks u := by
  cases h with
  | same => exact .inr ⟨ps, t, rfl, List.forall₂_same.2 fun p _ => .same p, .same t⟩
  | blank _ hb => exact .inl hb
  | func hps hr => exact .inr ⟨_, _, rfl, hps, hr⟩

theorem Blurs.of_scalar (ht : t.IsScalar) (h : t.Blurs blanks v) : v ∈ blanks ∨ v = t := by
  cases h with
  | same => exact .inr rfl
  | blank _ hb => exact .inl hb
  | array => simp [IsScalar] at ht
  | func => simp [IsScalar] at ht

theorem Blurs.of_blank (ht : t.IsBlank) (hblanks : ∀ b ∈ blanks, b.IsBlank)
    (h : t.Blurs blanks v) : v.IsBlank := by
  cases h with
  | same => exact ht
  | blank _ hb => exact hblanks v hb
  | array => simp [IsBlank] at ht
  | func => simp [IsBlank] at ht

theorem Blurs.of_unknown (h : Blurs [.unknown] .unknown v) : v = .unknown := by
  cases h with
  | same => rfl
  | blank _ hb => exact List.mem_singleton.1 hb

/-- Each layer of a type is blurred to some layer of the blurred type, if not to itself then to the
unknown one that cuts it off. -/
theorem Layer.blurred {u : TypeDesc} (hu : t.Layer u) (h : t.Blurs [.unknown] v) :
    ∃ x, v.Layer x ∧ u.Blurs [.unknown] x := by
  induction hu generalizing v with
  | self => exact ⟨v, .self v, h⟩
  | result _ ih =>
    rcases h.of_func with hv | ⟨qs, s, rfl, -, hs⟩
    · exact ⟨v, .self v, .blank _ hv⟩
    · obtain ⟨x, hx, hux⟩ := ih hs
      exact ⟨x, .result hx, hux⟩

end Blurs

theorem isBlank_of_mem {b : TypeDesc} (h : b ∈ [any, unknown]) : b.IsBlank := by
  simpa [IsBlank] using h

theorem accepts_of_blurs_unknown {t : TypeDesc} (h : Blurs [.unknown] .unknown t) (e : TypeDesc) :
    e.accepts t = true := h.of_unknown ▸ accepts_unknown e

theorem accepts_of_mem {t : TypeDesc} (h : t ∈ [unknown]) (e : TypeDesc) : e.accepts t = true :=
  List.mem_singleton.1 h ▸ accepts_unknown e

/-- What a parameter accepts it still accepts when less is asked for and less is known. -/
theorem accepts_blurred {e e' t t' : TypeDesc} (h : e.accepts t = true)
    (he : e.Blurs [.any, .unknown] e') (ht : t.Blurs [.unknown] t') : e'.accepts t' = true := by
  induction e using induct generalizing e' t t' with
  | blank e hblank => exact (he.of_blank hblank fun _ => isBlank_of_mem).accepts t'
  | scalar e hscalar =>
    rcases he.of_scalar hscalar with he | rfl
    · exact (isBlank_of_mem he).accepts t'
    rcases hscalar.accepts_iff.1 h with rfl | rfl
    · exact accepts_of_blurs_unknown ht _
    rcases ht.of_scalar hscalar with ht | rfl
    · exact accepts_of_mem ht _
    · exact h
  | array e ih =>
    rcases he.of_array with he | ⟨d, rfl, hd⟩
    · exact (isBlank_of_mem he).accepts t'
    rcases accepts_array_iff.1 h with rfl | ⟨u, rfl, hu⟩
    · exact accepts_of_blurs_unknown ht _
    rcases ht.of_array with ht | ⟨u', rfl, hu'⟩
    · exact accepts_of_mem ht _
    · exact accepts_array_iff.2 (.inr ⟨u', rfl, ih hu hd hu'⟩)
  | func es e ihs ih =>
    rcases he.of_func with he | ⟨ds, d, rfl, hds, hd⟩
    · exact (isBlank_of_mem he).accepts t'
    rcases accepts_func_iff.1 h with rfl | ⟨ps, r, rfl, hps, hr⟩
    · exact accepts_of_blurs_unknown ht _
    rcases ht.of_func with ht | ⟨qs, s, rfl, hqs, hs⟩
    · exact accepts_of_mem ht _
    obtain ⟨u, hlayer, hu⟩ := eventuallyAccepts_iff.1 hr
    obtain ⟨x, hx, hux⟩ := hlayer.blurred hs
    refine accepts_func_iff.2 (.inr ⟨qs, s, rfl, ?_, eventuallyAccepts_iff.2 ⟨x, hx, ih hu hd hux⟩⟩)
    exact hps.related hds hqs fun e he _ _ _ => ihs e he

/-- The layer that is accepted at first is cut off when less is known, and the unknown one that is
left is accepted. -/
theorem accepts_blurred_layers :
    (func [num] num).accepts (func [num] (func [str] num)) = true ∧
    (func [num] num).Blurs [.any, .unknown] (func [any] num) ∧
    (func [num] (func [str] num)).Blurs [.unknown] (func [num] unknown) ∧
    (func [any] num).accepts (func [num] unknown) = true := by
  have h : (func [num] num).accepts (func [num] (func [str] num)) = true := by decide
  have he : (func [num] num).Blurs [.any, .unknown] (func [any] num) :=
    .func (.cons (.blank _ (by simp)) .nil) (.same _)
  have ht : (func [num] (func [str] num)).Blurs [.unknown] (func [num] unknown) :=
    .func (.cons (.same _) .nil) (.blank _ (by simp))
  exact ⟨h, he, ht, accepts_blurred h he ht⟩

/-- A continuation with layers left is no such case: its next layer has to be known. -/
example : (func [any, any] any).acceptsLayered (func [num] (func [num] num)) = true ∧
    (func [any, any] any).acceptsLayered (func [num] unknown) = false := by decide

end Tacit.TypeDesc
