import Tacit.Lint.Checks
import Tacit.Proofs.Blind

/-!
# What the checks find is what goes wrong

A check walks through the statements of a program and keeps track of the assignments so far. A run
that comes to a statement has made just those assignments, so what is bound there is as the check
takes it to be (`Describes`), and it stays so while the statement is evaluated. Hence a name that a
run does not find bound was reported (`undefinedName_complete`), and a call that is reported by one
of the checks for errors does stop, unless the run ends before (`errors_justified`).
-/

namespace Tacit

namespace Expr

variable {fuel : Nat} {w w' : World}

theorem Enters.names_eq {e c : Expr} (h : e.Enters fuel w c w') (he : e.Stated) (hw : w.Sound) :
    w'.names = w.names := by
  cases he with
  | assign hn he l =>
    cases h with
    | body => rfl
    | lhs hf _ | rhs hf _ _ => cases hf
  | expr he =>
    have hcallee : ∀ {f : Function} {u : World}, e.Callee fuel w f u → u.names = w.names := by
      intro f u hf
      obtain ⟨_, hfinds⟩ := hf.finds
      exact hfinds.names_eq he hw
    cases h with
    | body | callee => rfl
    | member h =>
      cases he with
      | array hms l =>
        refine evalAll_names (fun d hd => ?_) hw h
        have hd := hms d (List.mem_append_left _ hd)
        exact ⟨hd, hd.keepsNames⟩
    | lhs hf _ => exact hcallee hf
    | rhs hf hl _ =>
      rw [← hcallee hf]
      exact evalOperand_names (fun _ ha => (he.lhs ha).keepsNames) (he.callee hw hf).2 hl

theorem Comes.names_eq {e n : Expr} (h : e.Comes fuel w n w') (he : e.Stated) (hw : w.Sound) :
    w'.names = w.names := by
  induction h using Comes.induct with
  | self => rfl
  | step hc _ ih =>
    obtain ⟨hread, hw₁⟩ := hc.sound he hw
    rw [ih (.expr hread) hw₁, hc.names_eq he hw]

/-- The names when a statement has given a value. -/
def namesAfter (names : Scope) (e : Expr) (v : Value) : Scope :=
  e.assignedName?.elim names fun name => names.put name v

/-- A statement that gives a value binds the name it assigns, if it does, to that value. -/
theorem Stated.names_of_ok {e : Expr} (h : e.Stated) (hw : w.Sound) {v : Value}
    (he : e.eval fuel w = .ok v w') : w'.names = e.namesAfter w.names v := by
  cases h with
  | expr h =>
    have hnone : e.assignedName? = none := by cases h <;> rfl
    rw [h.keepsNames hw he, namesAfter, hnone]
    rfl
  | assign hn hr l =>
    unfold Expr.eval at he
    obtain ⟨u, w₁, hu, he⟩ := EvalIn.bind_eq_ok he
    cases he
    show w₁.names.put _ v = _
    rw [hr.keepsNames hw hu]
    rfl

/-- A statement binds the name that it assigns, if any, and leaves the others alone. -/
theorem Stated.get?_of_eval {e : Expr} (h : e.Stated) (hw : w.Sound) {v : Value}
    (he : e.eval fuel w = .ok v w') (name : Text) : w'.names.get? name =
      if e.assignedName? = some name then some v else w.names.get? name := by
  rw [h.names_of_ok hw he, namesAfter]
  rcases e.assignedName? with _ | n
  · rfl
  · simp only [Option.elim, Scope.get?_put, Option.some.injEq, eq_comm]

end Expr

namespace Lint

/-- What a statement makes of a name: nothing, or the type of the literal that it assigns, if it
is one. -/
def made? (name : Text) : Expr → Option (Option Text)
  | .assign n body _ => if n == name then some (literalType? body) else none
  | _ => none

theorem lastAssigned_cons (name : Text) (e : Expr) (es : List Expr) :
    lastAssigned name (e :: es) = (lastAssigned name es).or (made? name e) := by
  rcases h : lastAssigned name es with _ | found
  · cases e <;> simp [lastAssigned, h, made?]
  · simp [lastAssigned, h]

theorem lastAssigned_concat (name : Text) (e : Expr) (es : List Expr) :
    lastAssigned name (es ++ [e]) = (made? name e).or (lastAssigned name es) := by
  induction es with
  | nil =>
    rw [List.nil_append, lastAssigned_cons]
    simp [lastAssigned]
  | cons d es ih =>
    rw [List.cons_append, lastAssigned_cons, ih, lastAssigned_cons, Option.or_assoc]

theorem made?_eq_none_iff {name : Text} {e : Expr} :
    made? name e = none ↔ e.assignedName? ≠ some name := by
  cases e <;> simp [made?, Expr.assignedName?]

theorem lastAssigned_eq_none_iff {name : Text} {es : List Expr} :
    lastAssigned name es = none ↔ name ∉ Program.assignedNames es := by
  induction es with
  | nil => simp [lastAssigned, Program.assignedNames]
  | cons e es ih =>
    rw [lastAssigned_cons, Option.or_eq_none_iff, ih, made?_eq_none_iff]
    unfold Program.assignedNames
    rw [List.filterMap_cons]
    cases e.assignedName? <;> simp [and_comm, eq_comm]

/-- A value that is as the assignments so far let a check believe: the one that is predeclared, any,
or one that is no function. -/
def Expected (predeclared : Option Value) : Option (Option Text) → Option Value → Prop
  | none, v => v = predeclared
  | some none, v => v.isSome = true
  | some (some _), v => ∃ u, v = some u ∧ ∀ f, u ≠ .func f

/-- All names are bound as the statements in front let a check believe. -/
def Describes (before : List Expr) (names : Scope) : Prop :=
  ∀ name, Expected (Builtin.lookup? name) (lastAssigned name before) (names.get? name)

/-- What a check takes for a literal does not give a function. -/
theorem not_func_of_literal {e : Expr} (he : e.Readable) {t : Text} (ht : literalType? e = some t)
    {fuel : Nat} {w w' : World} {v : Value} (h : e.eval fuel w = .ok v w') : ∀ f, v ≠ .func f := by
  cases he with
  | number x l | string _ l =>
    unfold Expr.eval at h
    cases h
    intro f hf
    cases hf
  | array _ l =>
    unfold Expr.eval at h
    obtain ⟨vs, w₁, -, h⟩ := EvalIn.bind_eq_ok h
    cases h
    intro f hf
    cases hf
  | name | named | called => cases ht

/-- One statement keeps what is known of names true. -/
theorem Describes.step {before : List Expr} {e : Expr} {fuel : Nat} {w w' : World} {v : Value}
    (h : Describes before w.names) (he : e.Stated) (hw : w.Sound)
    (hv : e.eval fuel w = .ok v w') : Describes (before ++ [e]) w'.names := by
  intro name
  rw [lastAssigned_concat, he.get?_of_eval hw hv name]
  by_cases hname : e.assignedName? = some name
  · rw [if_pos hname]
    cases he with
    | expr he => cases he <;> cases hname
    | @assign n body hn hr l =>
      cases hname
      simp only [made?, beq_self_eq_true, if_true, Option.some_or]
      rcases ht : literalType? body with _ | t
      · exact rfl
      · refine ⟨v, rfl, ?_⟩
        unfold Expr.eval at hv
        obtain ⟨u, w₁, hu, hv⟩ := EvalIn.bind_eq_ok hv
        cases hv
        exact not_func_of_literal hr ht hu
  · rw [if_neg hname, made?_eq_none_iff.2 hname]
    exact h name

/-- So does a run through some statements. -/
theorem Describes.run {fuel : Nat} {w' : World} : ∀ {es before : List Expr} {w : World}
    {vs : List Value}, Describes before w.names → (∀ e ∈ es, e.Stated) → w.Sound →
      Expr.evalAll fuel es w = .ok vs w' → Describes (before ++ es) w'.names ∧ w'.Sound
  | [], before, w, vs, h, _, hw, hvs => by
    unfold Expr.evalAll at hvs
    cases hvs
    rw [List.append_nil]
    exact ⟨h, hw⟩
  | e :: es, before, w, vs, h, hes, hw, hvs => by
    obtain ⟨v, us, w₁, hv, hus, -⟩ := Expr.evalAll_cons_eq_ok hvs
    have he := hes e (by simp)
    have hw₁ := ((he.eval_safe fuel).of_ok hw hv).1
    rw [List.append_cons]
    exact Describes.run (h.step he hw hv) (fun d hd => hes d (by simp [hd])) hw₁ hus

theorem describes_initial : Describes [] .initial := fun _ => rfl

/-- What is bound when a run from a fresh world has come to a part of a statement. -/
theorem Describes.of_comes {before after : List Expr} {e n : Expr} {fuel : Nat} {w w₁ w₂ : World}
    {vs : List Value} (hstated : ∀ d ∈ before ++ e :: after, d.Stated) (hn : w.names = .initial)
    (hr : w.record = #[]) (hvs : Expr.evalAll fuel before w = .ok vs w₁)
    (h : e.Comes fuel w₁ n w₂) : Describes before w₂.names ∧ n.Stated ∧ w₂.Sound := by
  have hstart : Describes [] w.names := hn ▸ describes_initial
  have he := hstated e (by simp)
  obtain ⟨hd, hw₁⟩ :=
    hstart.run (fun d hd => hstated d (by simp [hd])) (World.sound_of_start hn hr) hvs
  rw [h.names_eq he hw₁]
  exact ⟨hd, h.sound he hw₁⟩

theorem run_of_standard {c : Check} (hc : c ∈ standard) (s : Subject) :
    ∃ found, c.run s = .ok found := by
  simp only [standard, List.mem_cons, List.not_mem_nil, or_false] at hc
  rcases hc with rfl | rfl | rfl | rfl | rfl <;> exact ⟨_, rfl⟩

/-- What checks find in a source that can be read is what each of them finds in its program. -/
theorem lint_of_read {checks : List Check} (hchecks : ∀ c ∈ checks, c ∈ standard) {file src : Text}
    {p : Program} (hp : Program.read file src = .ok p) (predeclared : Text → Option Value) :
    ∃ fs, lint checks predeclared file src = .ok fs ∧ ∀ f, f ∈ fs ↔
      ∃ c ∈ checks, ∃ found, c.run ⟨p, predeclared⟩ = .ok found ∧
        ∃ raw ∈ found, f = (c.sign raw).inFile file := by
  have hall : ∃ found, checks.mapM (fun c => c.findings file ⟨p, predeclared⟩) = .ok found ∧
      ∀ f, f ∈ found.flatten ↔ ∃ c ∈ checks, ∃ found, c.run ⟨p, predeclared⟩ = .ok found ∧
        ∃ raw ∈ found, f = (c.sign raw).inFile file := by
    induction checks with
    | nil => exact ⟨[], rfl, by simp⟩
    | cons c checks ih =>
      obtain ⟨rest, hrest, hmem⟩ := ih fun d hd => hchecks d (by simp [hd])
      obtain ⟨found, hfound⟩ := run_of_standard (hchecks c (by simp)) ⟨p, predeclared⟩
      refine ⟨(found.map fun f => (c.sign f).inFile file) :: rest, ?_, fun f => ?_⟩
      · rw [List.mapM_cons, hrest]
        simp only [Check.findings, hfound]
        rfl
      · rw [List.flatten_cons, List.mem_append, hmem]
        simp [hfound, eq_comm]
  obtain ⟨found, hfound, hmem⟩ := hall
  refine ⟨found.flatten.mergeSort fun a b => a.pos.le b.pos, ?_, fun f => ?_⟩
  · unfold lint inspect
    rw [hp]
    simp only [bind, Except.bind]
    rw [hfound]
    rfl
  · rw [List.mem_mergeSort, hmem]

theorem mem_eachStatement {find : List Expr → Expr → List Finding} {f : Finding} :
    ∀ {es before : List Expr}, f ∈ eachStatement find before es ↔
      ∃ done e after, es = done ++ e :: after ∧ f ∈ find (before ++ done) e
  | [], before => by simp [eachStatement]
  | e :: es, before => by
    rw [eachStatement, List.mem_append, mem_eachStatement]
    constructor
    · rintro (hf | ⟨done, d, after, rfl, hf⟩)
      · exact ⟨[], e, es, rfl, by simpa using hf⟩
      · exact ⟨e :: done, d, after, rfl, by simpa using hf⟩
    · rintro ⟨_ | ⟨d, done⟩, d', after, heq, hf⟩
      · obtain ⟨rfl, rfl⟩ := List.cons.inj heq
        exact .inl (by simpa using hf)
      · obtain ⟨rfl, rfl⟩ := List.cons.inj heq
        exact .inr ⟨done, d', after, rfl, by simpa using hf⟩

theorem mem_undefinedIn {s : Subject} {before : List Expr} {n : Expr} {f : Finding}
    (h : f ∈ undefinedIn s before n) : ∃ name, n.calleeName? = some name ∧
      name ∉ Program.assignedNames before ∧ s.predeclared name = none ∧
      ∃ message notes, f = .make n.place? message notes := by
  unfold undefinedIn at h
  split at h
  · cases h
  · rename_i name hname
    by_cases hknown :
        ((Program.assignedNames before).contains name || (s.predeclared name).isSome) = true
    · rw [if_pos hknown] at h
      cases h
    · rw [if_neg hknown] at h
      have hknown : name ∉ Program.assignedNames before ∧ s.predeclared name = none := by
        simpa using hknown
      exact ⟨name, hname, hknown.1, hknown.2, _, _, List.mem_singleton.1 h⟩

theorem exists_undefinedIn {s : Subject} {before : List Expr} {n : Expr} {name : Text}
    (hname : n.calleeName? = some name) (hassigned : name ∉ Program.assignedNames before)
    (hpre : s.predeclared name = none) :
    ∃ notes, .make n.place? (name ++ " is not defined") notes ∈ undefinedIn s before n := by
  unfold undefinedIn
  rw [hname]
  simp only
  rw [if_neg (by simpa using ⟨hassigned, hpre⟩)]
  exact ⟨_, List.mem_singleton.2 rfl⟩

theorem mem_uncallableIn {s : Subject} {before : List Expr} {n : Expr} {f : Finding}
    (h : f ∈ uncallableIn s before n) : n.operandCount ≠ 0 ∧
      (∃ what, notFunction? s before n = some what) ∧
      ∃ message notes, f = .make n.sourcePlace message notes := by
  unfold uncallableIn at h
  by_cases hzero : n.operandCount = 0
  · rw [if_pos hzero] at h
    cases h
  · rw [if_neg hzero] at h
    split at h
    · cases h
    · rename_i what type hwhat
      exact ⟨hzero, ⟨_, hwhat⟩, _, _, List.mem_singleton.1 h⟩

theorem mem_overfullIn {s : Subject} {n : Expr} {f : Finding} (h : f ∈ overfullIn s n) :
    ∃ name fn, n.calleeName? = some name ∧ name ∉ s.program.assignedNames ∧
      s.predeclared name = some (.func fn) ∧ fn.arity < n.operandCount ∧
      ∃ message, f = .make n.place? message [] := by
  unfold overfullIn at h
  split at h
  · cases h
  · rename_i name hname
    split_ifs at h with hassigned
    · cases h
    · split at h
      · rename_i fn hfn
        split_ifs at h with hlt
        · refine ⟨name, fn, hname, by simpa using hassigned, hfn, hlt, _, List.mem_singleton.1 h⟩
        · cases h
      · cases h

/-- All that a call has evaluated in a world gave values. -/
def PartsOk (fuel : Nat) (n : Expr) (w : World) : Prop :=
  ∀ c w₁, n.Enters fuel w c w₁ → ∃ v w₂, c.eval fuel w₁ = .ok v w₂

/-- A call stops by itself when all that it evaluates gives values. With any fuel at all it stops at
a fault of a condition, which has its place. -/
def Doomed (fuel : Nat) (n : Expr) (w : World) (c : Condition) : Prop :=
  PartsOk fuel n w → ∃ s w', n.Raises fuel w s w' ∧
    (0 < fuel → ∃ g, s = .fault g ∧ g.condition? = some c ∧ g.place? = n.place?)

section Doomed

variable {fuel : Nat} {before : List Expr} {n : Expr} {w : World}

theorem PartsOk.callee {c : Expr} {lhs rhs : Option Expr} {place : Option Location}
    (h : PartsOk fuel (.called c lhs rhs place) w) : ∃ v w₁, c.eval fuel w = .ok v w₁ :=
  h c w .callee

theorem PartsOk.operands {f : Function} {w₁ : World} (h : PartsOk fuel n w)
    (hf : n.Callee fuel w f w₁) : ∃ args w₂, n.operands fuel w₁ = .ok args w₂ := by
  rcases ho : n.operands fuel w₁ with ⟨args, w₂⟩ | ⟨s, w₂⟩
  · exact ⟨args, w₂, rfl⟩
  · obtain ⟨c, w₃, hc, hs⟩ := hf.enters_of_operands ho
    obtain ⟨v, w₄, hv⟩ := h c w₃ hc
    cases hv.symm.trans hs

theorem Describes.get?_eq_none_iff (h : Describes before w.names) {name : Text} :
    w.names.get? name = none ↔
      name ∉ Program.assignedNames before ∧ Builtin.lookup? name = none := by
  have hname := h name
  rw [← lastAssigned_eq_none_iff]
  rcases hlast : lastAssigned name before with _ | (_ | t) <;> rw [hlast] at hname <;>
    simp only [Expected] at hname
  · simp [hname]
  · simp [Option.isSome_iff_ne_none.1 hname]
  · obtain ⟨u, hu, -⟩ := hname
    simp [hu]

/-- A call of a name that is neither assigned nor predeclared is bound to stop. -/
theorem doomed_undefined (hd : Describes before w.names) {name : Text}
    (hname : n.calleeName? = some name) (hassigned : name ∉ Program.assignedNames before)
    (hpre : Builtin.lookup? name = none) : Doomed fuel n w .unboundName := by
  intro _
  cases n with
  | named m lhs rhs place =>
    cases hname
    exact ⟨_, w, .unbound (hd.get?_eq_none_iff.2 ⟨hassigned, hpre⟩), fun _ => ⟨_, rfl, rfl, rfl⟩⟩
  | _ => cases hname

theorem Describes.not_func (hd : Describes before w.names) {name : Text} {lhs rhs : Option Expr}
    {place : Option Location} {p : Program} {what : Text × Text}
    (h : notFunction? ⟨p, Builtin.lookup?⟩ before (.named name lhs rhs place) = some what) :
    ∃ v, w.names.get? name = some v ∧ ∀ f, v ≠ .func f := by
  have hname := hd name
  simp only [notFunction?] at h
  rcases hlast : lastAssigned name before with _ | (_ | t) <;> rw [hlast] at h hname <;>
    simp only [Expected] at hname
  · simp only at h
    split at h
    · cases h
    · rename_i v hv hpre
      exact ⟨v, hname.trans hpre, fun f hf => hv f hf⟩
    · cases h
  · cases h
  · exact hname

/-- A call with operands of what is no function is bound to stop. -/
theorem doomed_uncallable (hd : Describes before w.names) (hn : n.Readable)
    (hops : n.operandCount ≠ 0) {p : Program} {what : Text × Text}
    (h : notFunction? ⟨p, Builtin.lookup?⟩ before n = some what) :
    Doomed fuel n w .notCallable := by
  intro hparts
  have hfinds : ∃ name v w₁, n.Finds fuel w name v w₁ ∧ ∀ f, v ≠ .func f := by
    cases n with
    | named name lhs rhs place =>
      obtain ⟨v, hv, hfunc⟩ := hd.not_func h
      exact ⟨name, v, w, .named hv, hfunc⟩
    | called c lhs rhs place =>
      obtain ⟨v, w₁, hv⟩ := hparts.callee
      obtain ⟨t, ht, -⟩ := Option.map_eq_some_iff.1 h
      cases hn with
      | called hc _ _ l => exact ⟨_, v, w₁, .called hv, not_func_of_literal hc ht hv⟩
    | _ => cases h
  obtain ⟨name, v, w₁, hv, hfunc⟩ := hfinds
  exact ⟨_, w₁, .notCallable hv hfunc hops, fun _ => ⟨_, rfl, rfl, rfl⟩⟩

/-- A call with more operands than a builtin takes is bound to stop. -/
theorem doomed_overfull (hd : Describes before w.names) {name : Text} {fn : Function}
    (hname : n.calleeName? = some name) (hassigned : name ∉ Program.assignedNames before)
    (hpre : Builtin.lookup? name = some (.func fn)) (hlt : fn.arity < n.operandCount) :
    Doomed fuel n w .arityError := by
  intro hparts
  have hcallee : n.Callee fuel w fn w := by
    have hbound := hd name
    rw [lastAssigned_eq_none_iff.2 hassigned] at hbound
    cases n with
    | named m lhs rhs place =>
      cases hname
      exact .named (Eq.trans hbound hpre)
    | _ => cases hname
  obtain ⟨args, w₁, hargs⟩ := hparts.operands hcallee
  have hmany : fn.arity < args.length := by rwa [Expr.length_operands hargs]
  cases fuel with
  | zero => exact ⟨.outOfFuel, w₁, .applied hcallee hargs rfl, nofun⟩
  | succ fuel =>
    have happly : EvalIn.locating n.place? (apply (fuel + 1) fn args) w₁ = .error
        (.fault ((Fault.arity none fn.text fn.arity args.length).placedAt n.place?)) w₁ := by
      unfold EvalIn.locating apply applyOnce
      rw [if_pos hmany]
      rfl
    refine ⟨_, w₁, .applied hcallee hargs happly, fun _ => ⟨_, rfl, ?_⟩⟩
    cases n.place? <;> exact ⟨rfl, rfl⟩

end Doomed

theorem inFile_sign (c : Check) (raw : Finding) (file : Text) :
    ((c.sign raw).inFile file).check = c.name ∧
      ((c.sign raw).inFile file).severity = raw.severity.or c.severity ∧
      ((c.sign raw).inFile file).message = raw.message := by
  unfold Finding.inFile
  split_ifs <;> exact ⟨rfl, rfl, rfl⟩

theorem pos_inFile {file : Text} {l : Location} (hl : l.file = file) (c : Check) (message : Text)
    (notes : List Text) :
    ((c.sign (.make (some l) message notes)).inFile file).pos = ⟨l.file, l.line, l.col⟩ := by
  unfold Finding.inFile
  split_ifs
  · rw [← hl]
    rfl
  · rfl

/-- A node of a program that was read has a place in its source. -/
theorem place_of_read {file src : Text} {p : Program} (hp : Program.read file src = .ok p)
    {e n : Expr} (he : e ∈ p) (hn : n ∈ e.nodes) :
    ∃ l, n.place? = some l ∧ l.file = file ∧ 0 < l.line := by
  obtain ⟨pos, hpos⟩ := Program.placed_of_read hp e he n hn
  refine ⟨_, hpos, rfl, ?_⟩
  simp only [Location.within, Location.lineAfter]
  omega

theorem sourcePlace_eq {n : Expr} {l : Location} (hp : n.place? = some l) (hl : 0 < l.line) :
    n.sourcePlace = some l := by
  have hcounted : Expr.counted? (some l) = some l := by simp [Expr.counted?, hl]
  cases n with
  | literal v place => exact hp
  | _ =>
    cases hp
    simp only [Expr.sourcePlace, hcounted, Option.some_or]

/-! ## Completeness -/

/-- A call by a name that is neither predeclared nor assigned in front of it is reported. -/
theorem exists_undefined {file src : Text} {before after : List Expr} {e n : Expr}
    (hp : Program.read file src = .ok (before ++ e :: after)) {checks : List Check}
    (hc : undefinedName ∈ checks) (hchecks : ∀ c ∈ checks, c ∈ standard) (hn : n ∈ e.nodes)
    (hcall : n.isCall = true) {name : Text} (hname : n.calleeName? = some name)
    (hassigned : name ∉ Program.assignedNames before) (hpre : Builtin.lookup? name = none) :
    ∃ l, n.place? = some l ∧ ∃ fs, lint checks Builtin.lookup? file src = .ok fs ∧ ∃ f ∈ fs,
      f.check = undefinedName.name ∧ f.severity = some .error ∧
      f.pos = ⟨l.file, l.line, l.col⟩ ∧ f.message = name ++ " is not defined" := by
  obtain ⟨l, hl, hfile, -⟩ := place_of_read hp (by simp) hn
  obtain ⟨notes, hnotes⟩ :=
    exists_undefinedIn (s := ⟨before ++ e :: after, Builtin.lookup?⟩) hname hassigned hpre
  have hraw : .make n.place? (name ++ " is not defined") notes ∈
      eachStatement (fun before' d => d.calls.flatMap fun v =>
        undefinedIn ⟨before ++ e :: after, Builtin.lookup?⟩ before' v.node) []
        (before ++ e :: after) := by
    refine mem_eachStatement.2 ⟨before, e, after, rfl, ?_⟩
    obtain ⟨v, hv, rfl⟩ := List.mem_map.1 hn
    exact List.mem_flatMap.2 ⟨v, List.mem_filter.2 ⟨hv, hcall⟩, hnotes⟩
  obtain ⟨fs, hfs, hmem⟩ := lint_of_read hchecks hp Builtin.lookup?
  obtain ⟨hcheck, hseverity, hmessage⟩ :=
    inFile_sign undefinedName (.make n.place? (name ++ " is not defined") notes) file
  refine ⟨l, hl, fs, hfs, _, (hmem _).2 ⟨undefinedName, hc, _, rfl, _, hraw, rfl⟩, hcheck,
    hseverity, ?_, hmessage⟩
  rw [hl]
  exact pos_inFile hfile _ _ _

/-- A run that ends at a name that is not bound ends at a call of it which is reported, whatever
other checks there are: what is bound is what the check takes to be bound, so it has missed the name
too. -/
theorem undefinedName_complete {file src : Text} {p : Program} (hp : Program.read file src = .ok p)
    {w : World} (hn : w.names = .initial) (hr : w.record = #[]) {fuel : Nat}
    {place : Option Location} {name : Text} {w' : World}
    (he : p.eval fuel w = .error (.fault (.unbound place name)) w') {checks : List Check}
    (hc : undefinedName ∈ checks) (hchecks : ∀ c ∈ checks, c ∈ standard) :
    ∃ l, place = some l ∧ ∃ fs, lint checks Builtin.lookup? file src = .ok fs ∧ ∃ f ∈ fs,
      f.check = undefinedName.name ∧ f.severity = some .error ∧
      f.pos = ⟨l.file, l.line, l.col⟩ ∧ f.message = name ++ " is not defined" := by
  have hne : p ≠ [] := by
    rintro rfl
    cases he
  obtain ⟨n, w₂, ⟨before, e, after, vs, w₁, rfl, hvs, hcomes⟩, hraises⟩ :=
    Program.exists_raises hne he
  obtain ⟨hd, hstn, hw₂⟩ := Describes.of_comes (Program.stated_of_read hp) hn hr hvs hcomes
  have hcall := hraises.isCall
  obtain ⟨hcallee, hplace, hnone⟩ := hraises.of_unbound (hstn.readable hcall) hw₂
  obtain ⟨hassigned, hpre⟩ := hd.get?_eq_none_iff.1 hnone
  rw [← hplace]
  exact exists_undefined hp hc hchecks hcomes.mem_nodes hcall hcallee hassigned hpre

/-- The program `["a"] map foo`. -/
def unboundProgram : Program :=
  [.named "map" (some (.array [.literal (.str "a") (some ⟨[], 1, 1, 2⟩)] (some ⟨[], 0, 1, 1⟩)))
    (some (.named "foo" none none (some ⟨[], 10, 1, 11⟩))) (some ⟨[], 6, 1, 7⟩)]

theorem read_unboundProgram : Program.read [] ("[\"a\"] map foo" : Text) = .ok unboundProgram := by
  set_option maxRecDepth 8000 in
  cbv

theorem undefinedName_complete_map : ∃ fs,
    lint standard Builtin.lookup? [] ("[\"a\"] map foo" : Text) = .ok fs ∧ ∃ f ∈ fs,
      f.check = undefinedName.name ∧ f.pos = ⟨[], 1, 11⟩ ∧ f.message = "foo is not defined" := by
  have heval : unboundProgram.eval 1 (World.initial .empty)
      = .error (.fault (.unbound (some ⟨[], 10, 1, 11⟩) "foo")) (World.initial .empty) := rfl
  have hc : undefinedName ∈ standard := by simp [standard]
  obtain ⟨l, ⟨⟩, fs, hfs, f, hf, hcheck, -, hpos, hmessage⟩ :=
    undefinedName_complete read_unboundProgram rfl rfl heval hc fun _ h => h
  exact ⟨fs, hfs, f, hf, hcheck, hpos, hmessage.trans rfl⟩

/-! ## No false alarms -/

/-- The checks for errors, with the condition of the faults that they foretell. -/
def foretold : List (Check × Condition) :=
  [(undefinedName, .unboundName), (notCallable, .notCallable), (builtinArity, .arityError)]

theorem eq_of_name {c d : Check} {cond : Condition} (hc : c ∈ standard) (hd : (d, cond) ∈ foretold)
    (h : c.name = d.name) : c = d := by
  have hnames : (standard.map Check.name).Nodup := by decide
  have hd : d ∈ standard := by
    simp only [foretold, List.mem_cons, List.not_mem_nil, or_false, Prod.mk.injEq] at hd
    rcases hd with ⟨rfl, -⟩ | ⟨rfl, -⟩ | ⟨rfl, -⟩ <;> simp [standard]
  exact List.inj_on_of_nodup_map hnames hc hd h

/-- A finding is made of a call in some statement, and there the call is bound to stop. -/
theorem exists_doomed {p : Program} {c : Check} {cond : Condition} (hc : (c, cond) ∈ foretold)
    {found : List Finding} (hrun : c.run ⟨p, Builtin.lookup?⟩ = .ok found) {raw : Finding}
    (hraw : raw ∈ found) : ∃ before e after, p = before ++ e :: after ∧ ∃ v ∈ e.calls,
      (∃ place message notes, raw = .make place message notes ∧
        (place = v.node.place? ∨ place = v.node.sourcePlace)) ∧
      ∀ fuel w, Describes before w.names → v.node.Readable → Doomed fuel v.node w cond := by
  simp only [foretold, List.mem_cons, List.not_mem_nil, or_false, Prod.mk.injEq] at hc
  rcases hc with ⟨rfl, rfl⟩ | ⟨rfl, rfl⟩ | ⟨rfl, rfl⟩ <;> cases hrun
  · obtain ⟨before, e, after, rfl, hraw⟩ := mem_eachStatement.1 hraw
    obtain ⟨v, hv, hraw⟩ := List.mem_flatMap.1 hraw
    obtain ⟨name, hname, hassigned, hpre, message, notes, hmake⟩ := mem_undefinedIn hraw
    exact ⟨before, e, after, rfl, v, hv, ⟨_, message, notes, hmake, .inl rfl⟩,
      fun _ _ hd _ => doomed_undefined hd hname hassigned hpre⟩
  · obtain ⟨before, e, after, rfl, hraw⟩ := mem_eachStatement.1 hraw
    obtain ⟨v, hv, hraw⟩ := List.mem_flatMap.1 hraw
    obtain ⟨hops, ⟨what, hwhat⟩, message, notes, hmake⟩ := mem_uncallableIn hraw
    exact ⟨before, e, after, rfl, v, hv, ⟨_, message, notes, hmake, .inr rfl⟩,
      fun _ _ hd hn => doomed_uncallable hd hn hops hwhat⟩
  · obtain ⟨v, hv, hraw⟩ := List.mem_flatMap.1 hraw
    obtain ⟨hvisits, hcall⟩ := List.mem_filter.1 hv
    obtain ⟨e, he, hvisit⟩ := List.mem_flatMap.1 hvisits
    obtain ⟨before, after, rfl⟩ := List.append_of_mem he
    obtain ⟨name, fn, hname, hassigned, hpre, hlt, message, hmake⟩ := mem_overfullIn hraw
    refine ⟨before, e, after, rfl, v, List.mem_filter.2 ⟨hvisit, hcall⟩,
      ⟨_, message, [], hmake, .inl rfl⟩, fun _ _ hd _ => doomed_overfull hd hname ?_ hpre hlt⟩
    exact fun h => hassigned (by simp_all [Program.assignedNames])

/-- So is a finding of a source, which names the place of that call. -/
theorem exists_doomed_of_lint {file src : Text} {fs : List Finding}
    (h : lint standard Builtin.lookup? file src = .ok fs) {f : Finding} (hf : f ∈ fs) {c : Check}
    {cond : Condition} (hc : (c, cond) ∈ foretold) (hname : f.check = c.name) :
    ∃ before e after, Program.read file src = .ok (before ++ e :: after) ∧ ∃ v ∈ e.calls,
      f.pos = .ofPlace v.node.place? ∧
      ∀ fuel w, Describes before w.names → v.node.Readable → Doomed fuel v.node w cond := by
  rcases hp : Program.read file src with fault | p
  · unfold lint at h
    rw [hp] at h
    cases h
  obtain ⟨fs', hfs', hmem⟩ := lint_of_read (fun _ hc => hc) hp Builtin.lookup?
  cases h.symm.trans hfs'
  obtain ⟨d, hd, found, hrun, raw, hraw, rfl⟩ := (hmem f).1 hf
  obtain rfl := eq_of_name hd hc ((inFile_sign d raw file).1.symm.trans hname)
  obtain ⟨before, e, after, rfl, v, hv, ⟨place, message, notes, hmake, hplace⟩, hdoomed⟩ :=
    exists_doomed hc hrun hraw
  refine ⟨before, e, after, rfl, v, hv, ?_, hdoomed⟩
  have hnode : v.node ∈ e.nodes := List.mem_map_of_mem (List.mem_filter.1 hv).1
  obtain ⟨l, hl, hfile, hline⟩ := place_of_read hp (by simp) hnode
  have hput : place = some l := by
    rcases hplace with rfl | rfl
    · exact hl
    · exact sourcePlace_eq hl hline
  rw [hmake, hput, hl]
  exact pos_inFile hfile d message notes

/-- A program gives no value if a call in it is bound to stop wherever a run comes to it: a run that
gives a value comes to all its calls, and all that they evaluate gives values. -/
theorem not_ok_of_doomed {before after : List Expr} {e n : Expr} {fuel : Nat} {w : World}
    {cond : Condition} (hn : n ∈ e.nodes)
    (hdoomed : ∀ vs w₁ w₂, Expr.evalAll fuel before w = .ok vs w₁ → e.Comes fuel w₁ n w₂ →
      Doomed fuel n w₂ cond) (u : Value) (w' : World) :
    Program.eval fuel (before ++ e :: after) w ≠ .ok u w' := by
  intro hu
  obtain ⟨vs, w₁, w₂, v, w₃, hvs, hcomes, hv⟩ := Program.exists_comes_of_ok hn hu
  obtain ⟨s, w₄, hraises, -⟩ := hdoomed vs w₁ w₂ hvs hcomes fun _ _ hc => hc.exists_ok hv
  cases hv.symm.trans hraises.eval_eq

/-- What a finding of one of the checks for errors says of a program, of which it names a call: in
a fresh world the program gives no value. If the run comes to the call, and all that the call
evaluates gives values, then the program fails there, with a fault of the kind foretold. -/
theorem errors_justified {file src : Text} {fs : List Finding}
    (h : lint standard Builtin.lookup? file src = .ok fs) {f : Finding} (hf : f ∈ fs) {c : Check}
    {cond : Condition} (hc : (c, cond) ∈ foretold) (hname : f.check = c.name) :
    ∃ before e after, Program.read file src = .ok (before ++ e :: after) ∧ ∃ v ∈ e.calls,
      f.pos = .ofPlace v.node.place? ∧
      ∀ w : World, w.names = .initial → w.record = #[] → ∀ fuel,
        (∃ s w', Program.eval fuel (before ++ e :: after) w = .error s w' ∧ s.NoCrash) ∧
        ∀ vs w₁ w₂, 0 < fuel → Expr.evalAll fuel before w = .ok vs w₁ →
          e.Comes fuel w₁ v.node w₂ → PartsOk fuel v.node w₂ →
            ∃ g w', Program.eval fuel (before ++ e :: after) w = .error (.fault g) w' ∧
              v.node.Raises fuel w₂ (.fault g) w' ∧
              g.condition? = some cond ∧ g.place? = v.node.place? := by
  obtain ⟨before, e, after, hp, v, hv, hpos, hdoomed⟩ := exists_doomed_of_lint h hf hc hname
  have hstated := Program.stated_of_read hp
  obtain ⟨hvisit, hcall⟩ := List.mem_filter.1 hv
  have hnode : v.node ∈ e.nodes := List.mem_map_of_mem hvisit
  refine ⟨before, e, after, hp, v, hv, hpos, fun w hn hr fuel => ?_⟩
  have hstops : ∀ vs w₁ w₂, Expr.evalAll fuel before w = .ok vs w₁ →
      e.Comes fuel w₁ v.node w₂ → Doomed fuel v.node w₂ cond := by
    intro vs w₁ w₂ hvs hcomes
    obtain ⟨hd, hstn, -⟩ := Describes.of_comes hstated hn hr hvs hcomes
    exact hdoomed fuel w₂ hd (hstn.readable hcall)
  refine ⟨?_, fun vs w₁ w₂ hfuel hvs hcomes hparts => ?_⟩
  · rcases hrun : Program.eval fuel (before ++ e :: after) w with ⟨u, w'⟩ | ⟨s, w'⟩
    · exact absurd hrun (not_ok_of_doomed hnode hstops u w')
    · have hsafe := Program.eval_safe fuel hstated
      exact ⟨s, w', rfl, (hsafe.of_error (World.sound_of_start hn hr) hrun).2⟩
  · obtain ⟨s, w', hraises, hfault⟩ := hstops vs w₁ w₂ hvs hcomes hparts
    obtain ⟨g, rfl, hcond, hplace⟩ := hfault hfuel
    have hprogram : Program.Comes fuel (before ++ e :: after) w v.node w₂ :=
      ⟨before, e, after, vs, w₁, rfl, hvs, hcomes⟩
    exact ⟨g, w', hprogram.eval_eq hraises.eval_eq, hraises, hcond, hplace⟩

theorem errors_justified_length : ∃ fs f,
    lint standard Builtin.lookup? [] ("\"a\" length \"b\"" : Text) = .ok fs ∧ f ∈ fs ∧
      f.check = builtinArity.name ∧ f.pos = ⟨[], 1, 5⟩ ∧
      ∀ fuel, ∃ s w', overfullProgram.eval fuel (World.initial .empty) = .error s w' ∧
        s.NoCrash := by
  obtain ⟨fs, hfs, hmem⟩ := lint_of_read (fun _ h => h) read_overfullProgram Builtin.lookup?
  have hraw : .make (some ⟨[], 4, 1, 5⟩) "length takes 1 operand(s), got 2" [] ∈
      overfullProgram.calls.flatMap fun v =>
        overfullIn ⟨overfullProgram, Builtin.lookup?⟩ v.node := List.mem_singleton.2 rfl
  have hf := (hmem _).2 ⟨builtinArity, by simp [standard], _, rfl, _, hraw, rfl⟩
  have hc : (builtinArity, Condition.arityError) ∈ foretold := by simp [foretold]
  obtain ⟨before, e, after, hread, v, hv, hpos, hruns⟩ :=
    errors_justified hfs hf hc (inFile_sign ..).1
  rw [Except.ok.inj (hread.symm.trans read_overfullProgram)] at hruns
  refine ⟨fs, _, hfs, hf, (inFile_sign ..).1, pos_inFile rfl .., fun fuel => ?_⟩
  exact (hruns _ rfl rfl fuel).1

end Lint

end Tacit
