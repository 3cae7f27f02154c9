import Tacit.Proofs.Judging
import Tacit.Proofs.Layers

/-!
# What the fault of an operand tells

An application that stops with the fault of an operand that does not fit names two types: what the
parameter asks for, and what the operand is. They are not written alike (`mismatch_texts_ne`). For
a type can be read off its text, even where more text follows (`TypeDesc.eq_of_text_append`); so
the same text is the same type, and a type accepts itself. Where a function of the host program is
made to stop with such a fault, the types in it can be any.
-/

namespace Tacit

namespace TypeDesc

/-- What the text of a type begins with, which tells how the type is built. -/
def lead : TypeDesc → Text
  | .invalid => "in"
  | .any => "an"
  | .unknown => "un"
  | .num => "nu"
  | .str => "st"
  | .bool => "bo"
  | .array _ => "ar"
  | .func _ _ => "fu"

theorem take_text (t : TypeDesc) (r : Text) : (t.text ++ r).take 2 = t.lead := by
  cases t <;> rfl

theorem lead_eq_of_text_append {t u : TypeDesc} {r s : Text} (h : t.text ++ r = u.text ++ s) :
    t.lead = u.lead := by
  rw [← take_text t r, h, take_text]

theorem eq_of_lead_eq {t u : TypeDesc} (ht : t.IsBlank ∨ t.IsScalar) (h : t.lead = u.lead) :
    t = u := by
  rcases ht with (rfl | rfl) | (rfl | rfl | rfl | rfl) <;> cases u <;> first
    | rfl
    | exact absurd h (by simp only [lead]; decide)

theorem textAll_cons_append (t : TypeDesc) : ∀ (ts : List TypeDesc) (r : Text),
    ∃ s, textAll (t :: ts) ++ r = t.text ++ s
  | [], r => ⟨r, rfl⟩
  | u :: us, r => ⟨" " ++ textAll (u :: us) ++ r, by simp [textAll]⟩

/-- No type begins the way a list of types ends. -/
theorem closed_ne_textAll_cons (t : TypeDesc) (ts : List TypeDesc) (r s : Text) :
    "): " ++ r ≠ textAll (t :: ts) ++ s := by
  intro h
  obtain ⟨s', hs⟩ := textAll_cons_append t ts s
  have hlead : "):" = t.lead := by
    rw [← take_text t s', ← hs, ← h]
    rfl
  cases t <;> exact absurd hlead (by simp only [lead]; decide)

mutual

/-- A type can be read off the front of a text. -/
theorem eq_of_text_append : ∀ {t u : TypeDesc} {r s : Text}, t.text ++ r = u.text ++ s →
    t = u ∧ r = s
  | .array t, u, r, s, h => by
    have hlead := lead_eq_of_text_append h
    cases u with
    | array u =>
      simp only [text, List.append_assoc, List.append_cancel_left_eq] at h
      obtain ⟨rfl, htail⟩ := eq_of_text_append h
      exact ⟨rfl, List.append_cancel_left htail⟩
    | _ => exact absurd hlead (by simp only [lead]; decide)
  | .func ps t, u, r, s, h => by
    have hlead := lead_eq_of_text_append h
    cases u with
    | func qs u =>
      simp only [text, List.append_assoc, List.append_cancel_left_eq] at h
      obtain ⟨rfl, htail⟩ := eq_of_textAll_append h
      obtain ⟨rfl, rfl⟩ := eq_of_text_append htail
      exact ⟨rfl, rfl⟩
    | _ => exact absurd hlead (by simp only [lead]; decide)
  | .any, _, _, _, h | .unknown, _, _, _, h => by
    obtain rfl := eq_of_lead_eq (.inl (by simp [IsBlank])) (lead_eq_of_text_append h)
    exact ⟨rfl, List.append_cancel_left h⟩
  | .invalid, _, _, _, h | .num, _, _, _, h | .str, _, _, _, h | .bool, _, _, _, h => by
    obtain rfl := eq_of_lead_eq (.inr (by simp [IsScalar])) (lead_eq_of_text_append h)
    exact ⟨rfl, List.append_cancel_left h⟩

theorem eq_of_textAll_append : ∀ {ts us : List TypeDesc} {r s : Text},
    textAll ts ++ ("): " ++ r) = textAll us ++ ("): " ++ s) → ts = us ∧ r = s
  | [], [], r, s, h => ⟨rfl, List.append_cancel_left h⟩
  | [], u :: us, r, s, h => (closed_ne_textAll_cons u us r _ h).elim
  | t :: ts, [], r, s, h => (closed_ne_textAll_cons t ts s _ h.symm).elim
  | [t], [u], r, s, h => by
    obtain ⟨rfl, htail⟩ := eq_of_text_append h
    exact ⟨rfl, List.append_cancel_left htail⟩
  | [t], u :: v :: us, r, s, h => by
    simp only [textAll, List.append_assoc] at h
    cases (eq_of_text_append h).2
  | t :: t' :: ts, [u], r, s, h => by
    simp only [textAll, List.append_assoc] at h
    cases (eq_of_text_append h).2
  | t :: t' :: ts, u :: u' :: us, r, s, h => by
    simp only [textAll, List.append_assoc] at h
    obtain ⟨rfl, htail⟩ := eq_of_text_append h
    obtain ⟨hts, rfl⟩ := eq_of_textAll_append (List.append_cancel_left htail)
    exact ⟨congrArg (t :: ·) hts, rfl⟩

end

/-- Different types have different texts. -/
theorem text_inj {t u : TypeDesc} (h : t.text = u.text) : t = u :=
  (eq_of_text_append (r := []) (s := []) (congrArg (· ++ []) h)).1

mutual

theorem same_self : ∀ t : TypeDesc, t.same t = true
  | .invalid | .any | .unknown | .num | .str | .bool => by simp [same]
  | .array t => by
    simp only [same]
    exact same_self t
  | .func ps r => by
    simp only [same, Bool.and_eq_true]
    exact ⟨sameAll_self ps, same_self r⟩

theorem sameAll_self : ∀ ts : List TypeDesc, sameAll ts ts = true
  | [] => by simp [sameAll]
  | t :: ts => by
    simp only [sameAll, Bool.and_eq_true]
    exact ⟨same_self t, sameAll_self ts⟩

end

end TypeDesc

theorem Value.fits_type (v : Value) : v.fits v.type = true := by
  cases v with
  | func f => exact Function.fits_of_same (TypeDesc.same_self _)
  | _ => exact TypeDesc.fits_self _ _

theorem Value.text_ne_of_misfit {v : Value} {p : TypeDesc} (h : v.fits p = false) :
    p.text ≠ v.type.text := by
  intro htext
  rw [TypeDesc.text_inj htext, v.fits_type] at h
  cases h

namespace Fault

/-- Names two types that are not written alike, if it names an operand at all. -/
def TellsApart : Fault → Prop
  | .mismatch _ _ _ e a _ => e.text ≠ a.text
  | _ => True

theorem tellsApart_of_not_mismatch {f : Fault} (h : f.isMismatch = false) : f.TellsApart := by
  cases f with
  | mismatch => cases h
  | _ => trivial

/-- An event that leads to the fault: a function began to run that does nothing but stop with
it. -/
def MadeBy (f : Fault) (e : Event) : Prop :=
  ∃ g args, e = .entered g args ∧ g.body = .host (.fail f)

end Fault

/-- A run stops with faults that tell types apart, and with those that it is made to stop with. -/
def tellingApart : Law where
  allows _ _ := True
  ends past s := ∀ f, s = .fault f → f.TellsApart ∨ ∃ e ∈ past, f.MadeBy e
  allows_left _ _ _ := trivial
  ends_fitting _ _ hs _ hf := .inl (Fault.tellsApart_of_not_mismatch (by subst hf; exact hs))
  ends_later _ h f hf := (h f hf).imp_right fun ⟨e, he, hmade⟩ =>
    ⟨e, List.mem_append_left _ he, hmade⟩

theorem tellingApart_rules : EvalIn.CallRules (EvalIn.Alone @tellingApart.Holds) where
  toRules := tellingApart.rules
  aside _ _ := .note trivial trivial
  around _ _ hx past := (Law.Keeps.around trivial (hx _)).imp fun _ _ _ => trivial
  failing fn args f hf past := by
    have hfail : tellingApart.Keeps (past ++ [.entered fn args]) (.fail f : Eval Value)
        fun _ _ => True := by
      refine .throw fun g hg => .inr ⟨.entered fn args, by simp, fn, args, rfl, ?_⟩
      cases hg
      exact hf
    exact (hfail.around trivial).imp fun _ _ _ => trivial
  reading call _ fn args hb past := by
    have hread := tellingApart.rules.readFile call args (past ++ [.entered fn args])
    have h : tellingApart.Keeps past _ fun _ _ => True :=
      (hread.around trivial).imp fun _ _ _ => trivial
    unfold Function.invoke
    rwa [hb]
  mismatch _ _ _ _ h _ := .throw fun f hf => .inl (by cases hf; exact Value.text_ne_of_misfit h)

/-- The fault of an operand that an application stops with names two types that are not written
alike, unless a function of the host program was made to stop with that fault. This is so because
equal types accept each other, in whichever manner, and types written alike are equal; nor is a
function ever taken for its type being the very one asked for. -/
theorem mismatch_texts_ne :
    (∀ {fuel : Nat} {fn : Function} {args : List Value} {w w' : World} {es : List Event}
      {place : Option Location} {name : Text} {i : Int} {e a : TypeDesc} {o : Option Text},
      apply fuel fn args w = .error (.fault (.mismatch place name i e a o)) w' → w.Adds w' es →
      (∀ g vs, .entered g vs ∈ es → g.body ≠ .host (.fail (.mismatch place name i e a o))) →
        e.text ≠ a.text) ∧
    (∀ t u : TypeDesc, t.same u = true → t.accepts u = true ∧ t.acceptsLayered u = true) ∧
    (∀ (p : TypeDesc) (f : Function), (p.isFunc && p.same f.type) = true →
      (Value.func f).fits p = true) ∧
    ∀ t u : TypeDesc, t.text = u.text ↔ t.same u = true := by
  refine ⟨?_, fun t u h => ?_, fun p f h => ?_, fun t u => ⟨fun h => ?_, fun h => ?_⟩⟩
  · intro fuel fn args w w' es place name i e a o h hes hmade
    obtain ⟨fs, hfs, -, -, herr⟩ := tellingApart_rules.apply fuel fn args [] w
    rw [h] at hfs
    obtain rfl : es = fs := List.append_cancel_left (hes.symm.trans hfs)
    rcases herr _ w' h _ rfl with htell | ⟨_, hmem, g, vs, rfl, hbody⟩
    · exact htell
    · exact (hmade g vs hmem hbody).elim
  · rw [TypeDesc.eq_of_same h]
    exact ⟨TypeDesc.fits_self u _, TypeDesc.fits_self u _⟩
  · rw [Bool.and_eq_true] at h
    exact Function.fits_of_same h.2
  · rw [TypeDesc.text_inj h]
    exact TypeDesc.same_self u
  · rw [TypeDesc.eq_of_same h]

/-- `plus` does not take a string, and no function runs before that is found. -/
theorem mismatch_texts_ne_plus :
    let w := World.initial .empty
    let f : Fault := .mismatch none "plus(num num)" 0 .num .str (some "\"a\"")
    apply 1 Builtin.plus.function [.str "a", .str "b"] w = .error (.fault f) w ∧
      w.Adds w [] ∧ (∀ g vs, .entered g vs ∈ ([] : List Event) → g.body ≠ .host (.fail f)) ∧
      TypeDesc.num.text ≠ TypeDesc.str.text := by
  intro w f
  have h : apply 1 Builtin.plus.function [.str "a", .str "b"] w = .error (.fault f) w := rfl
  have hadds : w.Adds w [] := (List.append_nil _).symm
  have hmade : ∀ g vs, .entered g vs ∈ ([] : List Event) → g.body ≠ .host (.fail f) := by simp
  exact ⟨h, hadds, hmade, mismatch_texts_ne.1 h hadds hmade⟩

end Tacit
