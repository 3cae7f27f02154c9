import Mathlib.Tactic.SplitIfs
import Tacit.Apply

/-!
# The values that programs make

Numbers, strings, truth values and arrays of such; and the functions that come of the builtins by
partial application and by `S` (`Made`). They take one operand or two (`Made.arity`): a
continuation takes the operands of a whole group at least, and as many groups as fit.

A parameter that asks for a function of one operand or two accepts just the functions that take as
many (`Made.arity_of_fits`). Only a continuation with groups left may take its operands in steps;
if it takes one now, its next group has two, so it does not take two in steps.
-/

namespace Tacit

/-- A value that a program can make. -/
inductive Value.Made : Value → Prop where
  | num (n : Number) : Made (.num n)
  | str (s : Text) : Made (.str s)
  | bool (b : Bool) : Made (.bool b)
  | array {cells : List Value} (h : ∀ v ∈ cells, Made v) : Made (.array cells)
  | builtin (b : Builtin) : Made (.func b.function)
  | continuation {fn : Function} {slots : List Slot} (hfn : Made (.func fn))
      (hv : ∀ v, .value v ∈ slots → Made v) (hp : ∀ f, .pending f ∈ slots → Made (.func f))
      (hlen : slots.length ≤ fn.arity) (hopen : openGroups fn slots ≠ []) (serial : Nat) :
      Made (.func (continuation fn slots serial))
  | shared {a b : Function} (ha : Made (.func a)) (hb : Made (.func b)) (ha2 : a.arity = 2)
      (hb1 : b.arity = 1) (serial : Nat) : Made (.func (Builtin.shared a b serial))

/-- What covering groups leaves, and that no further group would fit. -/
theorem coverGroups_spec : ∀ (gs : List (List TypeDesc)) (taken : List TypeDesc),
    taken.length ≤ maxArity → ∃ covered, gs = covered ++ (coverGroups taken gs).2 ∧
      (coverGroups taken gs).1 = taken ++ covered.flatten ∧
      (coverGroups taken gs).1.length ≤ maxArity ∧
      ∀ g ∈ (coverGroups taken gs).2.head?, maxArity < (coverGroups taken gs).1.length + g.length
  | [], taken, h => ⟨[], by simp [coverGroups, h]⟩
  | g :: gs, taken, h => by
    unfold coverGroups
    split_ifs with hg
    · obtain ⟨covered, h₁, h₂, h₃, h₄⟩ := coverGroups_spec gs (taken ++ g) (by simpa using hg)
      refine ⟨g :: covered, ?_, ?_, h₃, h₄⟩
      · rw [List.cons_append, ← h₁]
      · rw [h₂, List.flatten_cons, List.append_assoc]
    · refine ⟨[], rfl, by simp, h, ?_⟩
      rintro _ ⟨⟩
      simp only
      omega

theorem coverGroups_ne_nil {g : List TypeDesc} {gs : List (List TypeDesc)} (hg : g ≠ [])
    (hlen : g.length ≤ maxArity) : (coverGroups [] (g :: gs)).1 ≠ [] := by
  obtain ⟨covered, -, h₂, -, -⟩ := coverGroups_spec gs g hlen
  have : coverGroups [] (g :: gs) = coverGroups g gs := by simp [coverGroups, hlen]
  rw [this, h₂]
  simp [hg]

section Continuation

variable (fn : Function) (slots : List Slot) (serial : Nat)

theorem continuation_params :
    (continuation fn slots serial).params = (coverGroups [] (openGroups fn slots)).1 := rfl

theorem continuation_layers :
    (continuation fn slots serial).layers = (coverGroups [] (openGroups fn slots)).2.length := rfl

/-- A continuation returns the layers that it leaves for later. -/
theorem continuation_returns : (continuation fn slots serial).returns
    = layered (coverGroups [] (openGroups fn slots)).2 fn.returns := rfl

end Continuation

/-- The groups of an application are the parameters of what is pending, and those left over. -/
theorem mem_openGroups {fn : Function} {slots : List Slot} {g : List TypeDesc}
    (h : g ∈ openGroups fn slots) :
    (∃ f, .pending f ∈ slots ∧ g = f.params) ∨
      g = fn.params.drop slots.length ∧ g ≠ [] := by
  unfold openGroups at h
  rcases List.mem_append.1 h with h | h
  · obtain ⟨s, hs, hg⟩ := List.mem_filterMap.1 h
    cases s with
    | value v => simp [Slot.params?] at hg
    | pending f => exact .inl ⟨f, hs, by simpa [Slot.params?] using hg.symm⟩
  · split_ifs at h with he
    · simp at h
    · obtain rfl := List.mem_singleton.1 h
      exact .inr ⟨rfl, by simpa using he⟩

theorem Builtin.arity_function (b : Builtin) : b.function.arity = 1 ∨ b.function.arity = 2 := by
  cases b <;> decide

/-- The groups of an application are as long as the functions in it allow. -/
theorem length_openGroups {fn : Function} {slots : List Slot}
    (hfn : fn.arity = 1 ∨ fn.arity = 2)
    (hp : ∀ f, .pending f ∈ slots → f.arity = 1 ∨ f.arity = 2) :
    ∀ g ∈ openGroups fn slots, g.length = 1 ∨ g.length = 2 := by
  intro g hg
  rcases mem_openGroups hg with ⟨f, hf, rfl⟩ | ⟨rfl, hne⟩
  · exact hp f hf
  · have hpos := List.length_pos_iff.2 hne
    rw [List.length_drop] at hpos ⊢
    unfold Function.arity at hfn
    omega

theorem arity_continuation {fn : Function} {slots : List Slot} (serial : Nat)
    (hg : ∀ g ∈ openGroups fn slots, g.length = 1 ∨ g.length = 2)
    (hopen : openGroups fn slots ≠ []) :
    (continuation fn slots serial).arity = 1 ∨ (continuation fn slots serial).arity = 2 := by
  unfold Function.arity
  rw [continuation_params]
  obtain ⟨-, -, -, hle, -⟩ := coverGroups_spec (openGroups fn slots) [] (by simp)
  rcases ho : openGroups fn slots with _ | ⟨g, gs⟩
  · exact absurd ho hopen
  · have hlen := hg g (by simp [ho])
    have hne : g ≠ [] := by
      rintro rfl
      simp at hlen
    have hmax : maxArity = 2 := rfl
    have hsome : (coverGroups [] (g :: gs)).1 ≠ [] := coverGroups_ne_nil hne (by omega)
    have := List.length_pos_iff.2 hsome
    rw [ho] at hle
    omega

theorem arity_of_made {v : Value} (h : v.Made) :
    ∀ f, v = .func f → f.arity = 1 ∨ f.arity = 2 := by
  induction h with
  | num | str | bool | array =>
    intro f hf
    cases hf
  | builtin b =>
    rintro _ ⟨⟩
    exact b.arity_function
  | continuation _ _ _ _ hopen serial ihfn _ ihp =>
    rintro _ ⟨⟩
    exact arity_continuation serial
      (length_openGroups (ihfn _ rfl) fun f hf => ihp f hf f rfl) hopen
  | shared _ _ _ _ serial =>
    rintro _ ⟨⟩
    exact .inl rfl

/-- A function that a program can make. -/
abbrev Function.Made (f : Function) : Prop := (Value.func f).Made

/-- A function that a program makes takes one operand or two. -/
theorem Value.Made.arity {f : Function} (h : f.Made) : f.arity = 1 ∨ f.arity = 2 :=
  arity_of_made h f rfl

/-- Whether a value is of the kind a parameter asks for. Where anything goes, it must be valid. -/
def TypeDesc.admits : TypeDesc → Value → Bool
  | _, .invalid _ => false
  | .any, _ | .unknown, _ => true
  | .num, .num _ | .str, .str _ | .bool, .bool _ => true
  | .array _, .array _ | .func _ _, .func _ => true
  | _, _ => false

namespace TypeDesc

theorem length_of_sameAll : ∀ {ts us : List TypeDesc}, sameAll ts us = true → ts.length = us.length
  | [], [], _ => rfl
  | [], _ :: _, h | _ :: _, [], h => by simp [sameAll] at h
  | t :: ts, u :: us, h => by
    simp only [sameAll, Bool.and_eq_true] at h
    rw [List.length_cons, List.length_cons, length_of_sameAll h.2]

theorem length_of_fits_atOnce {ps ws : List TypeDesc} {r s : TypeDesc}
    (h : fits (.func ps r) .atOnce (.func ws s) = true) : ps.length = ws.length := by
  simp only [fits] at h
  split_ifs at h with hlen
  · exact hlen
  · simp at h

/-- A function type that takes fewer parameters than required leaves the others to the function it
returns. -/
theorem length_of_fits_layered {ps ws : List TypeDesc} {r s : TypeDesc}
    (h : fits (.func ps r) .layered (.func ws s) = true) : ps.length = ws.length ∨
      ps.length < ws.length ∧ fits r .layered (.func (ws.drop ps.length) s) = true := by
  simp only [fits] at h
  split_ifs at h with hlen
  · exact .inl hlen
  · simp only [Bool.and_eq_true, decide_eq_true_eq] at h
    exact .inr ⟨h.1.1.1.2, h.2⟩

theorem admits_func_of_fits {ps : List TypeDesc} {r p : TypeDesc} {m : Manner} {f : Function}
    (hm : m ≠ .eventually) (h : fits (.func ps r) m p = true) : p.admits (.func f) = true := by
  cases p <;> cases m <;> simp_all [fits, admits]

end TypeDesc

theorem Function.fits_iff {f : Function} {p : TypeDesc} : (Value.func f).fits p = true ↔
    f.type.fits (if 0 < f.layers then .layered else .atOnce) p = true := by
  simp only [Value.fits]
  split_ifs <;> rfl

/-- A value that fits a parameter is of the kind it asks for. -/
theorem Value.Made.admits_of_fits {v : Value} (hv : v.Made) {p : TypeDesc} (h : v.fits p = true) :
    p.admits v = true := by
  have hfunc : ∀ f, (Value.func f).fits p = true → p.admits (.func f) = true := by
    intro f hf
    rw [Function.fits_iff] at hf
    refine TypeDesc.admits_func_of_fits ?_ hf
    split_ifs <;> simp
  cases hv with
  | num n => cases p <;> simp_all [Value.fits, TypeDesc.accepts, Value.type, TypeDesc.fits,
      TypeDesc.admits]
  | str s => cases p <;> simp_all [Value.fits, TypeDesc.accepts, Value.type, TypeDesc.fits,
      TypeDesc.admits]
  | bool b => cases p <;> simp_all [Value.fits, TypeDesc.accepts, Value.type, TypeDesc.fits,
      TypeDesc.admits]
  | @array cells _ =>
    cases cells <;> cases p <;> simp_all [Value.fits, TypeDesc.accepts, Value.type, TypeDesc.fits,
      TypeDesc.admits]
  | builtin b => exact hfunc _ h
  | continuation _ _ _ _ _ serial => exact hfunc _ h
  | shared _ _ _ _ serial => exact hfunc _ h

/-- A continuation with groups left returns a function of the next group, which does not fit with
those taken now. -/
theorem Value.Made.next_group {f : Function} (hf : f.Made) (hl : 0 < f.layers) :
    ∃ g r, f.returns = .func g r ∧ maxArity < f.arity + g.length := by
  cases hf with
  | builtin b => simp [Builtin.function] at hl
  | @continuation fn slots _ _ _ _ _ serial =>
    obtain ⟨-, -, -, -, hnext⟩ := coverGroups_spec (openGroups fn slots) [] (by simp)
    rw [continuation_layers] at hl
    unfold Function.arity
    rw [continuation_returns, continuation_params]
    rcases hleft : (coverGroups [] (openGroups fn slots)).2 with _ | ⟨g, gs⟩
    · simp [hleft] at hl
    · exact ⟨g, layered gs fn.returns, rfl, hnext g (by simp [hleft])⟩
  | shared _ _ _ _ serial => simp [Builtin.shared] at hl

/-- A function that fits a parameter of one operand or two takes as many. If it took fewer, its next
group would have to fit as well. -/
theorem Value.Made.arity_of_fits {f : Function} (hf : f.Made) {ws : List TypeDesc} {r : TypeDesc}
    (hws : ws.length ≤ maxArity) (h : (Value.func f).fits (.func ws r) = true) :
    f.arity = ws.length := by
  rw [Function.fits_iff] at h
  have har := hf.arity
  split_ifs at h with hl
  · rcases TypeDesc.length_of_fits_layered h with hlen | ⟨hlt, hrest⟩
    · exact hlen
    · obtain ⟨g, s, hret, hnext⟩ := hf.next_group hl
      rw [hret] at hrest
      have hmax : maxArity = 2 := rfl
      have hlt' : f.arity < ws.length := hlt
      have hdrop : (ws.drop f.params.length).length = ws.length - f.arity := List.length_drop
      rcases TypeDesc.length_of_fits_layered hrest with h' | ⟨h', -⟩ <;> omega
  · exact TypeDesc.length_of_fits_atOnce h

/-- A value as a parameter takes it: of the kind asked for, and a function takes as many operands
as the parameter gives it. -/
structure Value.Suits (v : Value) (p : TypeDesc) : Prop where
  admits : p.admits v = true
  arity : ∀ ws r f, p = .func ws r → v = .func f → ws.length ≤ maxArity → f.arity = ws.length

/-- A value that fits a parameter suits it. -/
theorem Value.Made.suits_of_fits {v : Value} (hv : v.Made) {p : TypeDesc} (h : v.fits p = true) :
    v.Suits p := by
  refine ⟨hv.admits_of_fits h, ?_⟩
  rintro ws r f rfl rfl hws
  exact hv.arity_of_fits hws h

theorem Value.suits_of_same {f : Function} {p : TypeDesc} (hp : p.isFunc = true)
    (h : p.same f.type = true) : (Value.func f).Suits p := by
  cases p <;> simp only [TypeDesc.isFunc, Bool.false_eq_true] at hp
  refine ⟨rfl, ?_⟩
  rintro ws r g ⟨⟩ ⟨⟩ -
  simp only [Function.type, TypeDesc.same, Bool.and_eq_true] at h
  exact (TypeDesc.length_of_sameAll h.1).symm

end Tacit
