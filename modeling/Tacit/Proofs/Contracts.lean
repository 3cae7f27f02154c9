import Tacit.Proofs.CallTrees
import Tacit.Proofs.Layers

/-!
# What functions are run on

A function is run on operands that fit its parameters, save one kind: the result of a function
without operands, which is run on the spot for an operand and taken as it comes (`Handed`). Such a
function has declared what it returns, and may have said that nothing is known of it, or of a part
of it. So if functions return what they declare, the result fits as long as the parameter accepts
what is declared with nothing left unknown (`entered_operands_fit`): this is the least to ask, for
it is the same as to accept all that the declaration allows (`TypeDesc.accepts_promised_iff`).
-/

namespace Tacit

open Profile (Trace)

namespace TypeDesc

mutual

/-- What is certain of all that a type accepts: nothing, where nothing is known. -/
def promised : TypeDesc → TypeDesc
  | .unknown => .any
  | .array t => .array (promised t)
  | .func ps r => .func (promisedAll ps) (promised r)
  | t => t

def promisedAll : List TypeDesc → List TypeDesc
  | [] => []
  | t :: ts => promised t :: promisedAll ts

end

theorem promisedAll_eq (ts : List TypeDesc) : promisedAll ts = ts.map promised := by
  induction ts with
  | nil => rfl
  | cons t ts ih => rw [promisedAll, ih, List.map_cons]

mutual

theorem accepts_promised : ∀ t : TypeDesc, t.accepts t.promised = true
  | .unknown | .any | .invalid | .num | .str | .bool => by decide
  | .array t => by
    simp only [promised]
    exact accepts_array_iff.2 (.inr ⟨_, rfl, accepts_promised t⟩)
  | .func ps r => by
    simp only [promised]
    exact accepts_func_iff.2 (.inr ⟨_, _, rfl, allAccepted_promised ps,
      eventuallyAccepts_iff.2 ⟨_, .self _, accepts_promised r⟩⟩)

theorem allAccepted_promised : ∀ ts : List TypeDesc, AllAccepted ts (promisedAll ts)
  | [] => .nil
  | t :: ts => .cons (accepts_promised t) (allAccepted_promised ts)

end

theorem layer_promised : ∀ {t x : TypeDesc}, t.promised.Layer x → ∃ y, t.Layer y ∧ x = y.promised
  | .func ps r, x, h => by
    rw [promised] at h
    cases h with
    | self => exact ⟨_, .self _, by rw [promised]⟩
    | result h =>
      obtain ⟨y, hy, rfl⟩ := layer_promised h
      exact ⟨y, .result hy, rfl⟩
  | .unknown, x, h | .any, x, h | .invalid, x, h | .num, x, h | .str, x, h | .bool, x, h
  | .array _, x, h => ⟨_, .self _, h.eq_of_not_func rfl⟩

/-- What comes at last of a type comes at last of each of its layers. -/
theorem Layer.followed {t u s : TypeDesc} (h : t.Layer u) (ht : t.eventuallyAccepts s = true) :
    u.eventuallyAccepts s = true := by
  induction h with
  | self => exact ht
  | @result ps r u _ ih =>
    apply ih
    obtain ⟨z, hz, hacc⟩ := eventuallyAccepts_iff.1 ht
    rcases accepts_func_iff.1 hacc with rfl | ⟨qs, z', rfl, -, hz'⟩
    · exact eventuallyAccepts_iff.2 ⟨_, hz, accepts_unknown r⟩
    · exact (hz.trans (.result (.self z'))).eventuallyAccepts hz'

theorem IsScalar.eq_of_accepts_promised {e r : TypeDesc} (he : e.IsScalar)
    (h : e.accepts r.promised = true) : r = e := by
  rcases he with rfl | rfl | rfl | rfl <;> cases r <;> simp_all [accepts, fits, promised]

theorem array_of_accepts_promised {e r : TypeDesc} (h : (array e).accepts r.promised = true) :
    ∃ u, r = .array u ∧ e.accepts u.promised = true := by
  rcases accepts_array_iff.1 h with hr | ⟨u, hr, hu⟩ <;> cases r <;> simp_all [promised]

theorem func_of_accepts_promised {es : List TypeDesc} {e r : TypeDesc}
    (h : (func es e).accepts r.promised = true) : ∃ ps s, r = .func ps s ∧
      AllAccepted es (promisedAll ps) ∧ e.eventuallyAccepts s.promised = true := by
  rcases accepts_func_iff.1 h with hr | ⟨ps, s, hr, hps, hs⟩ <;> cases r <;> simp_all [promised]

/-- What accepts all that is certain of a declared type accepts what that type accepts. The layer of
what is certain that it accepts is that of a layer of the declared type. -/
theorem accepts_of_promised {e r t : TypeDesc} (he : e.accepts r.promised = true)
    (hr : r.accepts t = true) : e.accepts t = true := by
  induction e using induct generalizing r t with
  | blank e hblank => exact hblank.accepts t
  | scalar e hscalar =>
    obtain rfl := hscalar.eq_of_accepts_promised he
    exact hr
  | array e ih =>
    obtain ⟨u, rfl, hu⟩ := array_of_accepts_promised he
    rcases accepts_array_iff.1 hr with rfl | ⟨v, rfl, hv⟩
    · exact accepts_unknown _
    · exact accepts_array_iff.2 (.inr ⟨v, rfl, ih hu hv⟩)
  | func es e ihs ih =>
    obtain ⟨ps, s, rfl, hps, hs⟩ := func_of_accepts_promised he
    rcases accepts_func_iff.1 hr with rfl | ⟨qs, v, rfl, hqs, hv⟩
    · exact accepts_unknown _
    obtain ⟨x, hx, hacc⟩ := eventuallyAccepts_iff.1 hs
    obtain ⟨y, hy, rfl⟩ := layer_promised hx
    obtain ⟨z, hz, hyz⟩ := eventuallyAccepts_iff.1 (hy.followed hv)
    refine accepts_func_iff.2 (.inr ⟨qs, v, rfl, ?_, eventuallyAccepts_iff.2 ⟨z, hz, ih hacc hyz⟩⟩)
    have hcertain : List.Forall₂ (fun x t => ∃ p : TypeDesc, x = p.promised ∧ p.accepts t = true)
        (promisedAll ps) qs := by
      rw [promisedAll_eq, List.forall₂_map_left_iff]
      exact hqs.imp fun p t ht => ⟨p, rfl, ht⟩
    refine AllAccepted.related hps (List.forall₂_same.2 fun _ _ => rfl) hcertain ?_
    rintro d hd _ _ t hacc rfl ⟨p, rfl, ht⟩
    exact ihs d hd hacc ht

/-- To accept all that a type accepts is to accept what is certain of it. -/
theorem accepts_promised_iff {e r : TypeDesc} :
    e.accepts r.promised = true ↔ ∀ t, r.accepts t = true → e.accepts t = true :=
  ⟨fun he _ hr => accepts_of_promised he hr, fun h => h _ (accepts_promised r)⟩

theorem acceptsLayered_of_accepts {e t : TypeDesc} (h : e.accepts t = true) :
    e.acceptsLayered t = true := by
  revert h
  cases t with
  | func ps r =>
    cases e with
    | func es d =>
      simp only [accepts, acceptsLayered, fits]
      split_ifs
      · exact id
      · simp
    | _ => simp [accepts, acceptsLayered, fits]
  | _ => simp [accepts, acceptsLayered, fits]

end TypeDesc

theorem Value.fits_of_accepts {v : Value} {p : TypeDesc} (h : p.accepts v.type = true) :
    v.fits p = true := by
  cases v with
  | func f =>
    simp only [Value.fits]
    split_ifs
    · exact TypeDesc.acceptsLayered_of_accepts h
    · exact h
  | _ => exact h

/-- What happens while operands are taken, one for each parameter: nothing where one fits, and
otherwise a function without operands that was given in its place is run on the spot. `R` is what
is known of such a function, of what it has given, and of the parameter. -/
inductive Handed (R : Function → Value → TypeDesc → Prop) :
    List Event → List Value → List TypeDesc → Prop where
  | nil : Handed R [] [] []
  | fitting {v : Value} {p : TypeDesc} {es : List Event} {vs : List Value} {ps : List TypeDesc}
      (hv : v.fits p = true) (h : Handed R es vs ps) : Handed R es (v :: vs) (p :: ps)
  | given {g : Function} {v : Value} {p : TypeDesc} {ts : List Trace} {inner es : List Event}
      {vs : List Value} {ps : List TypeDesc} (hg : g.arity = 0) (hv : R g v p)
      (hi : Trace.Recorded ts inner) (h : Handed R es vs ps) :
      Handed R (.entered g [] :: (inner ++ .left g (some v) :: es)) (v :: vs) (p :: ps)

namespace Handed

variable {R S : Function → Value → TypeDesc → Prop} {es fs : List Event} {vs us : List Value}
  {ps qs : List TypeDesc}

theorem append (h : Handed R es vs ps) (hu : Handed R fs us qs) :
    Handed R (es ++ fs) (vs ++ us) (ps ++ qs) := by
  induction h with
  | nil => exact hu
  | fitting hv _ ih => exact .fitting hv ih
  | given hg hv hi _ ih =>
    rw [List.cons_append, List.append_assoc, List.cons_append]
    exact .given hg hv hi ih

theorem imp (h : Handed R es vs ps)
    (hRS : ∀ g v p, g.arity = 0 → .left g (some v) ∈ es → R g v p → S g v p) :
    Handed S es vs ps := by
  induction h with
  | nil => exact .nil
  | fitting hv _ ih => exact .fitting hv (ih hRS)
  | given hg hv hi _ ih =>
    exact .given hg (hRS _ _ _ hg (by simp) hv) hi
      (ih fun g v p hg hmem => hRS g v p hg (by simp [hmem]))

end Handed

/-- What a function without operands gives will fit a parameter, for all that is declared. -/
def Function.Expected (g : Function) (_ : Value) (p : TypeDesc) : Prop :=
  p.eventuallyAccepts g.returns = true

/-- Functions begin to run on operands that have just been taken for their parameters. -/
def contract : Law where
  allows past
    | .entered f vs => ∃ spot, spot <:+ past ∧ Handed Function.Expected spot vs f.params
    | .composed .. | .curried .. | .left .. => True
  ends _ _ := True
  allows_left _ _ _ := trivial
  ends_fitting _ _ _ := trivial
  ends_later _ _ := trivial

namespace contract

open Builtin (Applier)

theorem allows_nil {fn : Function} (h : fn.arity = 0) (past : List Event) :
    contract.allows past (.entered fn []) := by
  refine ⟨[], List.nil_suffix, ?_⟩
  rw [List.eq_nil_of_length_eq_zero h]
  exact .nil

theorem suspend (fn : Function) (slots : List Slot) : contract.Holds (suspend fn slots) := by
  intro past
  refine (Law.Keeps.drawSerial (Q := fun _ _ => True) fun _ => trivial).bind fun _ _ _ _ => ?_
  exact (Law.Keeps.note (Q := fun _ _ => True) trivial trivial).bind fun _ _ _ _ => .pure trivial

section Call

variable {call : Applier} (hcall : ∀ f args, contract.Holds (call f args))
  (hnests : ∀ f args, (call f args).Nests) {past : List Event} (fn : Function)
include hcall hnests

/-- What happens in a call is recorded between where the function begins to run and where it
stops. -/
theorem invoke {args : List Value} (h : contract.allows past (.entered fn args)) :
    contract.Keeps past (fn.invoke call args) fun es v => ∃ ts inner, Trace.Recorded ts inner ∧
      es = past ++ .entered fn args :: (inner ++ [.left fn (some v)]) := by
  have hbody := contract.rules.anyBody (fun _ _ => .throw trivial) hcall args fn.body
    (past ++ [.entered fn args])
  have hrecorded := hbody.recorded (EvalIn.nests_rules.anyBody (fun _ => .throw _) hnests args _)
  refine (hrecorded.around h).imp ?_
  rintro _ v ⟨_, ⟨-, ts, inner, rfl, hts⟩, rfl⟩
  exact ⟨ts, inner, hts, by simp⟩

/-- An operand that is taken for a parameter is handed over by what happens meanwhile. -/
theorem classify (position : Nat) (p : TypeDesc) (v : Value) :
    contract.Keeps past (classify call fn position p v) fun es s => ∃ spot, es = past ++ spot ∧
      ∀ u ∈ s.value?, Handed Function.Expected spot [u] [p] := by
  rcases hfit : v.fits p with _ | _
  · by_cases hp : ∃ g, v.Pends p g
    · obtain ⟨g, hg⟩ := hp
      rw [classify_of_pends call fn position hg]
      split_ifs with harity
      · refine (contract.invoke hcall hnests g (allows_nil harity past)).bind ?_
        rintro _ u - ⟨ts, inner, hts, rfl⟩
        refine .pure ⟨_, rfl, ?_⟩
        rintro _ ⟨⟩
        exact .given harity hg.result hts .nil
      · refine (Law.Keeps.note (Q := fun es _ => es = past ++ [_]) trivial rfl).bind ?_
        rintro _ _ - rfl
        exact .pure ⟨_, rfl, nofun⟩
    · rw [classify_of_not_pends call fn position hfit (not_exists.1 hp)]
      exact .throw trivial
  · rw [classify_of_fits call fn position hfit]
    refine .pure ⟨[], (List.append_nil _).symm, ?_⟩
    rintro _ ⟨⟩
    exact .fitting hfit .nil

theorem classifyAll : ∀ {past : List Event} (position : Nat) (ps : List TypeDesc)
    (vs : List Value), contract.Keeps past (classifyAll call fn position ps vs) fun es slots =>
      ∃ spot, es = past ++ spot ∧ ∀ us ∈ slots.mapM Slot.value?,
        Handed Function.Expected spot us (ps.take us.length)
  | _, _, [], _ | _, _, _ :: _, [] => by
    refine .pure ⟨[], (List.append_nil _).symm, ?_⟩
    rintro _ ⟨⟩
    exact .nil
  | past, position, p :: ps, v :: vs => by
    refine (contract.classify hcall hnests fn position p v).bind ?_
    rintro _ s - ⟨spot, rfl, hs⟩
    refine (classifyAll (position + 1) ps vs).bind ?_
    rintro _ slots - ⟨later, rfl, hslots⟩
    refine .pure ⟨spot ++ later, List.append_assoc .., fun us hus => ?_⟩
    rw [Option.mem_def, List.mapM_cons] at hus
    rcases hu : s.value? with _ | u
    · simp [hu] at hus
    rcases hm : slots.mapM Slot.value? with _ | us'
    · simp [hu, hm] at hus
    obtain rfl : us = u :: us' := by simpa [hu, hm] using hus.symm
    exact (hs u hu).append (hslots us' hm)

theorem proceed {slots : List Slot}
    (h : ∀ us ∈ slots.mapM Slot.value?, ∃ spot, spot <:+ past ∧
      Handed Function.Expected spot us (fn.params.take us.length)) :
    contract.Keeps past (proceed call fn slots) fun _ _ => True := by
  unfold Tacit.proceed
  split
  · rename_i values hvalues
    split_ifs with hlen
    · obtain ⟨spot, hspot, hhanded⟩ := h values hvalues
      rw [List.take_of_length_le (Nat.le_of_eq hlen.symm)] at hhanded
      exact (contract.invoke hcall hnests fn ⟨spot, hspot, hhanded⟩).imp fun _ _ _ => trivial
    · exact contract.suspend fn slots past
  · exact contract.suspend fn slots past

theorem applyOnce (args : List Value) : contract.Holds (applyOnce call fn args) := by
  intro past
  unfold Tacit.applyOnce
  split_ifs with _ harity
  · exact .throw trivial
  · exact (contract.invoke hcall hnests fn (allows_nil harity past)).imp fun _ _ _ => trivial
  · exact .pure trivial
  · refine (contract.classifyAll hcall hnests fn 0 fn.params args).bind ?_
    rintro _ slots - ⟨spot, rfl, hslots⟩
    exact contract.proceed hcall hnests fn fun us hus =>
      ⟨spot, List.suffix_append _ _, hslots us hus⟩

end Call

/-- Every application keeps the contract, by induction on the fuel. -/
theorem apply : ∀ (fuel : Nat) (fn : Function) (args : List Value),
    contract.Holds (apply fuel fn args)
  | 0, _, _ => fun _ => .throw trivial
  | fuel + 1, fn, args =>
    contract.applyOnce (apply fuel) (EvalIn.nests_program_rules.apply fuel) fn args

end contract

/-- What a function without operands gives is declared such that a parameter accepts it sooner or
later, but the parameter does not accept what is certain of it. -/
def Function.Unpromised (g : Function) (p : TypeDesc) : Prop :=
  p.eventuallyAccepts g.returns = true ∧ p.accepts g.returns.promised = false

/-- If the functions without operands return what they declare, a function is run on operands that
fit its parameters, or that were not promised to fit: results of functions without operands, each
run on the spot for the operand, just before the function begins to run. -/
theorem entered_operands_fit {fuel : Nat} {fn : Function} {args : List Value} {w : World}
    {es : List Event} (hes : w.Adds (Outcome.world (apply fuel fn args w)) es)
    (hdeclared : ∀ g v, g.arity = 0 → .left g (some v) ∈ es → g.returns.accepts v.type = true) :
    ∀ before f vs after, es = before ++ .entered f vs :: after → ∃ spot, spot <:+ before ∧
      Handed (fun g v p => v.fits p = true ∨ g.Unpromised p) spot vs f.params := by
  intro before f vs after hf
  obtain ⟨fs, hfs, hall, -, -⟩ := contract.apply fuel fn args [] w
  obtain rfl : es = fs := List.append_cancel_left (hes.symm.trans hfs)
  obtain ⟨spot, hspot, hhanded⟩ := Law.AllowsAll.at (hf ▸ hall)
  refine ⟨spot, hspot, hhanded.imp fun g v p harity hleft hres => ?_⟩
  rcases hprom : p.accepts g.returns.promised with _ | _
  · exact .inr ⟨hres, hprom⟩
  · have hbefore : .left g (some v) ∈ es := by
      rw [hf]
      exact List.mem_append_left _ (by simpa using hspot.subset hleft)
    exact .inl (Value.fits_of_accepts
      (TypeDesc.accepts_of_promised hprom (hdeclared g v harity hbefore)))

namespace Handing

/-- Gives a string. -/
def giver (returns : TypeDesc) : Function :=
  ⟨.made 0, "giver", [], returns, [], .host (.const (.str "x")), false, 0⟩

/-- Gives its operand. -/
def taker (param : TypeDesc) : Function :=
  ⟨.made 1, "taker", [param], .any, [], .host (.operand 0), false, 0⟩

/-- What happens when the string is taken. -/
def events (returns param : TypeDesc) : List Event :=
  [.entered (giver returns) [], .left (giver returns) (some (.str "x")),
    .entered (taker param) [.str "x"], .left (taker param) (some (.str "x"))]

end Handing

open Handing

/-- A string that is declared as such. -/
theorem entered_operands_fit_declared :
    let w := World.initial .empty
    let es := events .str .str
    w.Adds (Outcome.world (apply 1 (taker .str) [.func (giver .str)] w)) es ∧
      (∀ g v, g.arity = 0 → .left g (some v) ∈ es → g.returns.accepts v.type = true) ∧
      ∀ before f vs after, es = before ++ .entered f vs :: after → ∃ spot, spot <:+ before ∧
        Handed (fun g v p => v.fits p = true ∨ g.Unpromised p) spot vs f.params := by
  intro w es
  have hes : w.Adds (Outcome.world (apply 1 (taker .str) [.func (giver .str)] w)) es := rfl
  have hdeclared : ∀ g v, g.arity = 0 → .left g (some v) ∈ es →
      g.returns.accepts v.type = true := by
    intro g v _ h
    rcases (by simpa [es, events] using h : _ ∨ _) with ⟨rfl, rfl⟩ | ⟨rfl, rfl⟩ <;> decide
  exact ⟨hes, hdeclared, entered_operands_fit hes hdeclared⟩

/-- A string of which nothing is declared is handed to a function of numbers, although both
functions return what they declare. -/
theorem entered_operand_misfits :
    let w := World.initial .empty
    let es := events .unknown .num
    w.Adds (Outcome.world (apply 1 (taker .num) [.func (giver .unknown)] w)) es ∧
      (∀ g v, .left g (some v) ∈ es → g.returns.accepts v.type = true) ∧
      ¬∀ f vs, .entered f vs ∈ es →
        List.Forall₂ (fun v p => v.fits p = true) vs f.params := by
  intro w es
  refine ⟨rfl, fun g v h => ?_, fun hall => ?_⟩
  · rcases (by simpa [es, events] using h : _ ∨ _) with ⟨rfl, rfl⟩ | ⟨rfl, rfl⟩ <;> decide
  · have hmem : .entered (taker .num) [.str "x"] ∈ es := by simp [es, events]
    rcases hall _ _ hmem with _ | ⟨hfit, -⟩
    exact absurd hfit (by decide)

end Tacit
