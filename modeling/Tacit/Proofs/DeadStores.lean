import Tacit.Lint.Checks
import Tacit.Proofs.Blind

/-!
# Unused assignments are dead stores

What an expression comes to depends on the names it refers to and no others, as long as the
functions there are look up no names themselves (`eval_agree`). An assignment that is reported as
unused binds a name that no later statement refers to before it is assigned again. So any of the
assignments reported can be replaced by the expressions that they assign, and the program gives the
same value or stops in the same way (`unused_assignments_dead`).

Two runs are compared, of the program and of what it is replaced by. They may differ in the names
that were assigned in one of them only, and that the statements still to come in the program itself
do not refer to before they assign them. Which of the statements still to come are replaced does
not matter.
-/

namespace Tacit

/-- The functions that a world has bound look up no names. -/
def World.Blind (w : World) : Prop := ∀ name v, w.names.get? name = some v → v.Blind

/-- Worlds that differ at most in what the names in `D` are bound to, and in which nothing bound
looks up names. -/
structure World.Apart (D : Text → Prop) (w u : World) : Prop where
  files : w.files = u.files
  reads : w.reads = u.reads
  serial : w.serial = u.serial
  record : w.record = u.record
  names : ∀ name, ¬ D name → w.names.get? name = u.names.get? name
  left : w.Blind
  right : u.Blind

namespace World

variable {D E : Text → Prop} {w u : World}

theorem Apart.refl (h : w.Blind) : w.Apart D w := ⟨rfl, rfl, rfl, rfl, fun _ _ => rfl, h, h⟩

theorem Apart.weaken (h : w.Apart D u) (hD : ∀ n, D n → E n) : w.Apart E u :=
  { h with names := fun n hn => h.names n fun hd => hn (hD n hd) }

theorem Apart.eq_withNames (h : w.Apart D u) : u = w.withNames u.names := by
  obtain ⟨_, _, _, _, _⟩ := u
  obtain ⟨rfl, rfl, rfl, rfl, -, -, -⟩ := h
  rfl

/-- The world in which a name is bound. -/
def bound (w : World) (name : Text) (v : Value) : World :=
  w.withNames (w.names.put name v)

theorem get?_bound (w : World) (name : Text) (v : Value) (n : Text) :
    (w.bound name v).names.get? n = if n = name then some v else w.names.get? n :=
  Scope.get?_put w.names name v n

theorem Blind.bound (h : w.Blind) {v : Value} (hv : v.Blind) (name : Text) :
    (w.bound name v).Blind := by
  intro n u hu
  rw [get?_bound] at hu
  split_ifs at hu
  · cases hu
    exact hv
  · exact h n u hu

theorem Apart.bound_both (h : w.Apart D u) {v : Value} (hv : v.Blind) (name : Text) :
    (w.bound name v).Apart (fun n => D n ∧ n ≠ name) (u.bound name v) := by
  refine ⟨h.files, h.reads, h.serial, h.record, fun n hn => ?_, h.left.bound hv name,
    h.right.bound hv name⟩
  rw [get?_bound, get?_bound]
  split_ifs with he
  · rfl
  · exact h.names n fun hd => hn ⟨hd, he⟩

theorem Apart.bound_left (h : w.Apart D u) {v : Value} (hv : v.Blind) (name : Text) :
    (w.bound name v).Apart (fun n => D n ∨ n = name) u := by
  refine ⟨h.files, h.reads, h.serial, h.record, fun n hn => ?_, h.left.bound hv name, h.right⟩
  obtain ⟨hd, he⟩ := not_or.1 hn
  rw [get?_bound, if_neg he]
  exact h.names n hd

end World

/-- Both runs gave the same, or both stopped in the same way, and the worlds that they left differ
at most in what the names in `D` are bound to. -/
inductive Outcome.Apart {α : Type} (D : Text → Prop) (Q : α → Prop) :
    Outcome α → Outcome α → Prop where
  | ok {a : α} {w u : World} (ha : Q a) (h : w.Apart D u) : Outcome.Apart D Q (.ok a w) (.ok a u)
  | error {s : Stop} {w u : World} (h : w.Apart D u) : Outcome.Apart D Q (.error s w) (.error s u)

/-- In worlds that differ at most in the names in `D`, two runs end the same way. -/
def Agree {α : Type} (D : Text → Prop) (x y : Eval α) (Q : α → Prop) : Prop :=
  ∀ ⦃w u : World⦄, w.Apart D u → Outcome.Apart D Q (x w) (y u)

namespace Agree

variable {α β : Type} {D : Text → Prop}

theorem pure {Q : α → Prop} {a : α} (h : Q a) : Agree D (pure a) (pure a) Q :=
  fun _ _ hw => .ok h hw

theorem throw {Q : α → Prop} (s : Stop) : Agree D (throw s : Eval α) (throw s) Q :=
  fun _ _ hw => .error hw

theorem bind {P : α → Prop} {Q : β → Prop} {x y : Eval α} {f g : α → Eval β} (hx : Agree D x y P)
    (hf : ∀ a, P a → Agree D (f a) (g a) Q) : Agree D (x >>= f) (y >>= g) Q := by
  intro w u hw
  have h := hx hw
  rcases hr : x w with ⟨a, w'⟩ | ⟨s, w'⟩ <;> rcases hr' : y u with ⟨b, u'⟩ | ⟨t, u'⟩ <;>
    rw [hr, hr'] at h <;> cases h
  · rename_i ha hw'
    rw [EvalIn.bind_of_ok hr, EvalIn.bind_of_ok hr']
    exact hf a ha hw'
  · rename_i hw'
    rw [EvalIn.bind_of_error hr, EvalIn.bind_of_error hr']
    exact .error hw'

theorem locating {Q : α → Prop} {x y : Eval α} (place : Option Location) (hx : Agree D x y Q) :
    Agree D (.locating place x) (.locating place y) Q := by
  intro w u hw
  have h := hx hw
  unfold EvalIn.locating
  rcases hr : x w with ⟨a, w'⟩ | ⟨s, w'⟩ <;> rcases hr' : y u with ⟨b, u'⟩ | ⟨t, u'⟩ <;>
    rw [hr, hr'] at h <;> cases h
  · rename_i ha hw'
    exact .ok ha hw'
  · rename_i hw'
    cases s <;> exact .error hw'

/-- What does not depend on names ends the same way, and leaves the names as they are. -/
theorem ofBlind {Q : α → Prop} {x : Eval α} (hx : Eval.Blind x Q) : Agree D x x Q := by
  intro w u hw
  have hu := hw.eq_withNames
  have hnames := hx.names_eq w
  obtain ⟨hsame, hgives⟩ := hx w
  rw [hu, hsame]
  rcases hr : x w with ⟨a, w'⟩ | ⟨s, w'⟩ <;> rw [hr] at hnames <;>
    change w'.names = w.names at hnames
  all_goals
    have hw' : w'.Apart D (w'.withNames u.names) := by
      refine ⟨rfl, rfl, rfl, rfl, fun n hn => ?_, ?_, hw.right⟩
      · rw [hnames]
        exact hw.names n hn
      · unfold World.Blind
        rw [hnames]
        exact hw.left
  · exact .ok (hgives a w' hr) hw'
  · exact .error hw'

theorem bindName (name : Text) {v : Value} (hv : v.Blind) :
    Agree D (.bindName name v) (.bindName name v) fun _ => True :=
  fun _ _ hw => .ok trivial ((hw.bound_both hv name).weaken fun _ hn => hn.1)

theorem get {Q : α → Prop} {name : Text} (hname : ¬ D name) {f : World → Eval α}
    (hf : ∀ w u : World, u.names.get? name = w.names.get? name →
      (∀ v, w.names.get? name = some v → v.Blind) → Agree D (f w) (f u) Q) :
    Agree D (MonadState.get >>= f) (MonadState.get >>= f) Q := by
  intro w u hw
  exact hf w u (hw.names name hname).symm (hw.left name) hw

end Agree

/-! ## Expressions -/

namespace Expr

/-- No function in a literal looks up names. -/
def Blind (e : Expr) : Prop := ∀ n ∈ e.nodes, ∀ v place, n = .literal v place → v.Blind

theorem Blind.child {e c : Expr} (h : e.Blind) (hc : c ∈ e.children) : c.Blind :=
  fun n hn => h n (mem_nodes_of_child hc hn)

/-- The literals in what was read are numbers and strings. -/
theorem Readable.literals_made {e : Expr} (h : e.Readable) :
    ∀ n ∈ e.nodes, ∀ v place, n = .literal v place → v.Made := by
  induction h with
  | number x l | string _ l =>
    refine forall_nodes_iff.2 ⟨?_, by simp [children]⟩
    rintro _ _ ⟨⟩
    constructor
  | array _ l ih => exact forall_nodes_iff.2 ⟨by simp, ih⟩
  | name _ l => exact forall_nodes_iff.2 ⟨by simp, by simp [children]⟩
  | named _ _ _ l ihl ihr =>
    refine forall_nodes_iff.2 ⟨by simp, fun c hc => ?_⟩
    simp only [children, List.mem_append, Option.mem_toList] at hc
    rcases hc with hc | ⟨⟨⟩⟩
    · exact ihl c hc
    · exact ihr
  | called _ _ _ l ihc ihl ihr =>
    refine forall_nodes_iff.2 ⟨by simp, fun c hc => ?_⟩
    simp only [children, List.mem_append, Option.mem_toList, List.mem_singleton] at hc
    rcases hc with (hc | rfl) | ⟨⟨⟩⟩
    · exact ihl c hc
    · exact ihc
    · exact ihr

theorem Stated.literals_made {e : Expr} (h : e.Stated) :
    ∀ n ∈ e.nodes, ∀ v place, n = .literal v place → v.Made := by
  cases h with
  | expr hr => exact hr.literals_made
  | assign _ hr l =>
    refine forall_nodes_iff.2 ⟨nofun, fun c hc => ?_⟩
    obtain rfl := List.mem_singleton.1 hc
    exact hr.literals_made

theorem mem_references {e : Expr} {name : Text} :
    name ∈ e.references ↔ ∃ n ∈ e.nodes, n.calleeName? = some name := by
  unfold references calls nodes
  simp only [List.mem_filterMap, List.mem_filter, List.mem_map]
  constructor
  · rintro ⟨v, ⟨hv, -⟩, hname⟩
    exact ⟨v.node, ⟨v, hv, rfl⟩, hname⟩
  · rintro ⟨_, ⟨v, hv, rfl⟩, hname⟩
    refine ⟨v, ⟨hv, ?_⟩, hname⟩
    cases hn : v.node <;> rw [hn] at hname <;> simp_all [calleeName?, isCall]

theorem references_child {e c : Expr} (hc : c ∈ e.children) {name : Text}
    (h : name ∈ c.references) : name ∈ e.references := by
  obtain ⟨n, hn, hname⟩ := mem_references.1 h
  exact mem_references.2 ⟨n, mem_nodes_of_child hc hn, hname⟩

variable {D : Text → Prop} {fuel : Nat}

theorem evalAll_agree : ∀ {es : List Expr},
    (∀ e ∈ es, Agree D (e.eval fuel) (e.eval fuel) Value.Blind) →
      Agree D (evalAll fuel es) (evalAll fuel es) fun vs => ∀ v ∈ vs, v.Blind
  | [], _ => .pure (by simp)
  | e :: es, h => by
    unfold evalAll
    refine (h e (by simp)).bind fun v hv => ?_
    refine (evalAll_agree fun d hd => h d (by simp [hd])).bind fun vs hvs => ?_
    exact .pure (List.forall_mem_cons.2 ⟨hv, hvs⟩)

theorem evalOperand_agree {o : Option Expr}
    (h : ∀ e ∈ o, Agree D (e.eval fuel) (e.eval fuel) Value.Blind) :
    Agree D (evalOperand fuel o) (evalOperand fuel o) fun vs => ∀ v ∈ vs, v.Blind := by
  cases o with
  | none => exact .pure (by simp)
  | some e =>
    unfold evalOperand
    exact (h e rfl).bind fun v hv => .pure (by simpa using hv)

/-- A call agrees in worlds that differ in no name it refers to. -/
theorem call_agree {callee : Value} (hc : callee.Blind) (name : Text) (place : Option Location)
    (hasOperands : Bool) {lhs rhs : Option Expr}
    (hl : ∀ e ∈ lhs, Agree D (e.eval fuel) (e.eval fuel) Value.Blind)
    (hr : ∀ e ∈ rhs, Agree D (e.eval fuel) (e.eval fuel) Value.Blind) :
    let x := callee.call fuel name place hasOperands do
      return (← evalOperand fuel lhs) ++ (← evalOperand fuel rhs)
    Agree D x x Value.Blind := by
  have hplain : ∀ v : Value, v.Blind → Agree D
      (if hasOperands then .fail (.notCallable place name v.type) else pure v)
      (if hasOperands then .fail (.notCallable place name v.type) else pure v) Value.Blind := by
    intro v hv
    split_ifs
    · exact .throw _
    · exact .pure hv
  cases callee with
  | func f =>
    refine Agree.bind (P := fun vs => ∀ v ∈ vs, v.Blind) ?_ fun args hargs =>
      .locating place (.ofBlind (apply_blind fuel f args hc hargs))
    refine (evalOperand_agree hl).bind fun vs hvs => ?_
    refine (evalOperand_agree hr).bind fun us hus => ?_
    exact .pure (List.forall_mem_append.2 ⟨hvs, hus⟩)
  | _ => exact hplain _ hc

/-- What an expression comes to depends only on the names that it refers to. -/
theorem eval_agree : ∀ e : Expr, e.Blind → (∀ name ∈ e.references, ¬ D name) →
    Agree D (e.eval fuel) (e.eval fuel) Value.Blind := by
  refine induct fun e ih hb hrefs => ?_
  have hparts : ∀ c ∈ e.children, Agree D (c.eval fuel) (c.eval fuel) Value.Blind := fun c hc =>
    ih c hc (hb.child hc) fun name hn => hrefs name (references_child hc hn)
  cases e with
  | literal v place =>
    unfold Expr.eval
    exact .pure (hb (.literal v place) (by simp [nodes_eq, children]) v place rfl)
  | array ms place =>
    unfold Expr.eval
    exact (evalAll_agree hparts).bind fun vs hvs => .pure (.array hvs)
  | assign name body place =>
    unfold Expr.eval
    refine (hparts body (by simp [children])).bind fun v hv => ?_
    exact (Agree.bindName name hv).bind fun _ _ => .pure hv
  | named name lhs rhs place =>
    have hname : ¬ D name := by
      refine hrefs name (mem_references.2 ⟨.named name lhs rhs place, ?_, rfl⟩)
      rw [nodes_eq]
      exact List.mem_cons_self
    unfold Expr.eval
    refine Agree.get hname fun w u hsame hblind => ?_
    rw [hsame]
    rcases hv : w.names.get? name with _ | v
    · exact .throw _
    · exact call_agree (hblind v hv) name place _ (fun a ha => hparts a (by simp_all [children]))
        fun b hb => hparts b (by simp_all [children])
  | called c lhs rhs place =>
    unfold Expr.eval
    refine (hparts c (by simp [children])).bind fun v hv => ?_
    exact call_agree hv _ place _ (fun a ha => hparts a (by simp_all [children]))
      fun b hb => hparts b (by simp_all [children])

end Expr

/-- The expression that is assigned; any other is itself. -/
def Expr.assigned : Expr → Expr
  | .assign _ body _ => body
  | e => e

namespace Program

/-- The program with the chosen statements, if they are assignments, replaced by what they
assign. -/
def unassign (chosen : Nat → Bool) (p : Program) : Program :=
  p.mapIdx fun i e => if chosen i then e.assigned else e

/-- A name that a chosen statement assigns. -/
def Assigns (chosen : Nat → Bool) (p : Program) (name : Text) : Prop :=
  ∃ i, chosen i = true ∧ p[i]?.bind Expr.assignedName? = some name

/-- No function in a literal looks up names. -/
def Blind (p : Program) : Prop := ∀ e ∈ p, e.Blind

theorem blind_of_read {file src : Text} {p : Program} (h : Program.read file src = .ok p) :
    p.Blind := fun e he n hn v place hv =>
  ((stated_of_read h e he).literals_made n hn v place hv).blind

end Program

namespace Lint

/-- What is reported of a statement if it assigns what is never used. -/
def unusedAt? (p : Program) (i : Nat) : Option Finding :=
  match p.drop i with
  | .assign name _ place :: e :: es =>
    if usesName name (e :: es) then none
    else some (.make place (name ++ " is assigned but never used") [])
  | _ => none

theorem unusedFrom_eq : ∀ p : Program,
    unusedFrom p = (List.range p.length).filterMap (unusedAt? p)
  | [] => rfl
  | e :: p => by
    have hshift : (List.range p.length).filterMap (unusedAt? (e :: p) ∘ Nat.succ)
        = unusedFrom p := by
      rw [unusedFrom_eq p]
      rfl
    rw [List.length_cons, List.range_succ_eq_map, List.filterMap_cons, List.filterMap_map, hshift]
    unfold unusedAt?
    cases e with
    | assign name body place =>
      cases p with
      | nil => rfl
      | cons d p =>
        simp only [unusedFrom, List.drop_zero]
        split_ifs <;> rfl
    | _ => cases p <;> rfl

/-- A name that is not used from a statement on is not used after it, unless the statement assigns
it. -/
theorem usesName_cons_of_ne {name : Text} {e : Expr} {p : Program}
    (he : e.assignedName? ≠ some name) (h : usesName name (e :: p) = false) :
    usesName name p = false := by
  have hne : (e.assignedName? != some name) = true := by simpa using he
  simp only [usesName, Bool.or_eq_false_iff, hne, Bool.true_and] at h
  exact h.2

theorem not_mem_references {name : Text} {e : Expr} {p : Program}
    (h : usesName name (e :: p) = false) : name ∉ e.references := by
  simp only [usesName, Bool.or_eq_false_iff] at h
  simpa using h.1

end Lint

open Lint (usesName usesName_cons_of_ne not_mem_references unusedAt? unusedAssignment)

namespace Program

variable {fuel : Nat}

/-- The names in which the two runs may differ when some statements are still to come: those that
were assigned in one of them only, and are not used from there on. -/
def Stale (N : Text → Prop) (p : Program) (name : Text) : Prop := N name ∧ usesName name p = false

theorem Stale.tail {N : Text → Prop} {e : Expr} {p : Program} {name : Text}
    (h : Stale N (e :: p) name) (he : e.assignedName? ≠ some name) : Stale N p name :=
  ⟨h.1, usesName_cons_of_ne he h.2⟩

theorem unassign_cons (chosen : Nat → Bool) (e : Expr) (p : Program) : unassign chosen (e :: p) =
    (if chosen 0 then e.assigned else e) :: unassign (chosen ∘ Nat.succ) p := by
  unfold unassign
  rw [List.mapIdx_cons]
  rfl

theorem assigned_blind {e : Expr} (h : e.Blind) : e.assigned.Blind := by
  cases e with
  | assign name body place =>
    have hbody : body.Blind := h.child (by simp [Expr.children])
    exact hbody
  | _ => exact h

theorem references_assigned {e : Expr} {name : Text} (h : name ∈ e.assigned.references) :
    name ∈ e.references := by
  cases e with
  | assign n body place =>
    have hbody : name ∈ body.references := h
    exact Expr.references_child (by simp [Expr.children]) hbody
  | _ => exact h

theorem eval_of_assigned_error {e : Expr} {s : Stop} {w w' : World}
    (h : e.assigned.eval fuel w = .error s w') : e.eval fuel w = .error s w' := by
  cases e with
  | assign name body place => exact Expr.Enters.eval_eq .body h
  | _ => exact h

/-- The world after a statement that has come to a value there. -/
def stored (w : World) (e : Expr) (v : Value) : World :=
  e.assignedName?.elim w fun name => w.bound name v

theorem eval_of_assigned_ok {e : Expr} {v : Value} {w w' : World}
    (h : e.assigned.eval fuel w = .ok v w') : e.eval fuel w = .ok v (stored w' e v) := by
  cases e with
  | assign name body place =>
    have hbody : body.eval fuel w = .ok v w' := h
    unfold Expr.eval
    rw [EvalIn.bind_of_ok hbody]
    rfl
  | _ => exact h

section Stored

variable {N : Text → Prop} {e : Expr} {p : Program} {v : Value} {w u : World}

/-- After a statement worlds differ only in names that are stale from there on. -/
theorem stored_both (hw : w.Apart (Stale N (e :: p)) u) (hv : v.Blind) :
    (stored w e v).Apart (Stale N p) (stored u e v) := by
  unfold stored
  rcases hn : e.assignedName? with _ | name
  · exact hw.weaken fun n h => h.tail (by simp [hn])
  · refine (hw.bound_both hv name).weaken fun n h => h.1.tail ?_
    simpa [hn] using h.2.symm

/-- The name that only one of the runs has assigned is stale from there on. -/
theorem stored_left (hw : w.Apart (Stale N (e :: p)) u) (hv : v.Blind)
    (hstale : ∀ name, e.assignedName? = some name → Stale N p name) :
    (stored w e v).Apart (Stale N p) u := by
  unfold stored
  rcases hn : e.assignedName? with _ | name
  · exact hw.weaken fun n h => h.tail (by simp [hn])
  · refine (hw.bound_left hv name).weaken fun n h => ?_
    by_cases hname : n = name
    · exact hname ▸ hstale name hn
    · refine (h.resolve_right hname).tail ?_
      simpa [hn] using Ne.symm hname

end Stored

/-- A chosen assignment that is reported assigns a name that is not used afterwards. -/
theorem stale_of_unusedAt {N : Text → Prop} {e : Expr} {p : Program} {name : Text}
    (h : (unusedAt? (e :: p) 0).isSome = true) (hn : e.assignedName? = some name) (hN : N name) :
    Stale N p name := by
  cases e with
  | assign n body place =>
    cases hn
    cases p with
    | nil => cases h
    | cons d p =>
      refine ⟨hN, ?_⟩
      simp only [unusedAt?, List.drop_zero] at h
      split_ifs at h with hu
      · cases h
      · simpa using hu
  | _ => cases hn

/-- The runs of a program and of what it is replaced by, from a statement on. -/
theorem evalFrom_agree {N : Text → Prop} : ∀ {p : Program} {chosen : Nat → Bool} {v : Value}
    {w u : World}, p.Blind → (∀ i, chosen i = true → (unusedAt? p i).isSome = true) →
    (∀ name, p.Assigns chosen name → N name) → v.Blind → w.Apart (Stale N p) u →
      Outcome.Apart N Value.Blind (evalFrom fuel v p w) (evalFrom fuel v (p.unassign chosen) u)
  | [], _, _, _, _, _, _, _, hv, hw => .ok hv (hw.weaken fun _ h => h.1)
  | e :: p, chosen, v, w, u, hp, hchosen, hN, hv, hw => by
    have hb := assigned_blind (hp e (by simp))
    have hrefs : ∀ name ∈ e.assigned.references, ¬ Stale N (e :: p) name := fun name hname hs =>
      not_mem_references hs.2 (references_assigned hname)
    have ih : ∀ {v : Value} {w u : World}, v.Blind → w.Apart (Stale N p) u →
        Outcome.Apart N Value.Blind (evalFrom fuel v p w)
          (evalFrom fuel v (unassign (chosen ∘ Nat.succ) p) u) := by
      refine evalFrom_agree (fun d hd => hp d (by simp [hd])) (fun i hi => hchosen (i + 1) hi) ?_
      rintro name ⟨i, hi, hname⟩
      exact hN name ⟨i + 1, hi, hname⟩
    rw [unassign_cons]
    have h : Outcome.Apart (Stale N (e :: p)) Value.Blind (e.assigned.eval fuel w)
        (e.assigned.eval fuel u) := Expr.eval_agree e.assigned hb hrefs hw
    rcases hr : e.assigned.eval fuel w with ⟨a, w'⟩ | ⟨s, w'⟩ <;>
      rcases hr' : e.assigned.eval fuel u with ⟨b, u'⟩ | ⟨t, u'⟩ <;> rw [hr, hr'] at h <;> cases h
    · rename_i ha hw'
      unfold evalFrom
      rw [EvalIn.bind_of_ok (eval_of_assigned_ok hr)]
      split_ifs with hc
      · rw [EvalIn.bind_of_ok hr']
        refine ih ha (stored_left hw' ha fun name hn => ?_)
        exact stale_of_unusedAt (hchosen 0 hc) hn (hN name ⟨0, hc, hn⟩)
      · rw [EvalIn.bind_of_ok (eval_of_assigned_ok hr')]
        exact ih ha (stored_both hw' ha)
    · rename_i hw'
      have herr : (if chosen 0 then e.assigned else e).eval fuel u = .error s u' := by
        split_ifs
        · exact hr'
        · exact eval_of_assigned_error hr'
      unfold evalFrom
      rw [EvalIn.bind_of_error (eval_of_assigned_error hr), EvalIn.bind_of_error herr]
      exact .error (hw'.weaken fun _ h => h.1)

end Program

/-- The assignments that are reported as unused are dead stores: any of them can be replaced by
what they assign, and in every world in which nothing bound looks up names the program gives the
same value or stops in the same way. The worlds left differ at most in what the names that were
assigned are bound to. No builtin looks up names, and no literal in a program that was read. -/
theorem Lint.unused_assignments_dead (p : Program) (predeclared : Text → Option Value) :
    unusedAssignment.run ⟨p, predeclared⟩ =
        .ok ((List.range p.length).filterMap (unusedAt? p)) ∧
      (∀ b : Builtin, (Value.func b.function).Blind) ∧
      (∀ file src, Program.read file src = .ok p → p.Blind) ∧
      (p.Blind → ∀ chosen : Nat → Bool, (∀ i, chosen i = true → (unusedAt? p i).isSome = true) →
        ∀ (fuel : Nat) (w : World), w.Blind →
          Outcome.Apart (p.Assigns chosen) Value.Blind (p.eval fuel w)
            ((p.unassign chosen).eval fuel w)) := by
  refine ⟨congrArg Except.ok (Lint.unusedFrom_eq p), fun b => (Value.Made.builtin b).blind,
    fun _ _ => Program.blind_of_read, fun hp chosen hchosen fuel w hw => ?_⟩
  cases p with
  | nil => exact .error (.refl hw)
  | cons e p =>
    have h : Outcome.Apart (Program.Assigns chosen (e :: p)) Value.Blind
        (Program.evalFrom fuel (.bool false) (e :: p) w)
        (Program.evalFrom fuel (.bool false) (Program.unassign chosen (e :: p)) w) :=
      Program.evalFrom_agree hp hchosen (fun _ h => h) (.bool false) (.refl hw)
    rw [Program.unassign_cons] at h ⊢
    exact h

/-- The program `lines <- "a"; lines <- "b"; chars "c"`. -/
def shadowProgram : Program :=
  [.assign "lines" (.literal (.str "a") (some ⟨[], 9, 1, 10⟩)) (some ⟨[], 0, 1, 1⟩),
    .assign "lines" (.literal (.str "b") (some ⟨[], 23, 1, 24⟩)) (some ⟨[], 14, 1, 15⟩),
    .named "chars" none (some (.literal (.str "c") (some ⟨[], 34, 1, 35⟩))) (some ⟨[], 28, 1, 29⟩)]

theorem read_shadowProgram :
    Program.read [] ("lines <- \"a\"; lines <- \"b\"; chars \"c\"" : Text) = .ok shadowProgram := by
  set_option maxRecDepth 8000 in
  cbv

/-- Both assignments are reported, the first because of the second, and both can go. -/
theorem Lint.unused_assignments_dead_lines :
    (∀ i, decide (i < 2) = true → (unusedAt? shadowProgram i).isSome = true) ∧
    shadowProgram.unassign (fun i => decide (i < 2)) ≠ shadowProgram ∧
    Outcome.Apart (shadowProgram.Assigns fun i => decide (i < 2)) Value.Blind
      (shadowProgram.eval 1 (World.initial .empty))
      ((shadowProgram.unassign fun i => decide (i < 2)).eval 1 (World.initial .empty)) := by
  have hreported : ∀ i, decide (i < 2) = true → (unusedAt? shadowProgram i).isSome = true := by
    intro i hi
    have hi : i < 2 := of_decide_eq_true hi
    interval_cases i <;> rfl
  have hworld : (World.initial .empty).Blind := fun _ _ =>
    (World.sound_of_start rfl rfl).blind
  obtain ⟨-, -, hblind, hdead⟩ := Lint.unused_assignments_dead shadowProgram Builtin.lookup?
  exact ⟨hreported, nofun, hdead (hblind _ _ read_shadowProgram) _ hreported 1 _ hworld⟩

end Tacit
