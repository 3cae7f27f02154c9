import Tacit.Proofs.CallTrees
import Tacit.Proofs.DeadStores
import Tacit.Proofs.Findings
import Tacit.Proofs.Joining

/-!
# Sources loaded in turn

A statement that stops leaves the names as they are (`Stated.names_of_error`), so a program that
stops leaves them as the statements before that one have made them (`Program.exists_stops`). In a
world that can be reached nothing that is applied knows of places, so a program runs alike wherever
it stands (`Program.eval_moved`). Hence loading two sources in turn does what loading the joined
source does, but for the places of faults in the second (`World.Reachable.load_joined`).
-/

namespace Tacit

namespace Expr

variable {fuel : Nat} {w w' : World} {e : Expr}

theorem Raises.names_eq {s : Stop} (h : e.Raises fuel w s w') (he : e.Readable) (hw : w.Sound) :
    w'.names = w.names := by
  cases h with
  | unbound => rfl
  | notCallable hf => exact hf.names_eq he hw
  | @applied _ f args _ _ w₁ w₂ _ hf ha h =>
    obtain ⟨_, hfinds⟩ := hf.finds
    obtain ⟨hmade, hw₁⟩ := he.callee hw hf
    have hargs := (he.operands hw₁ ha).1
    have happly := (apply_blind fuel f args hmade.blind fun v hv => (hargs v hv).blind).names_eq w₂
    have hworld : Outcome.world (apply fuel f args w₂) = w' := by
      unfold EvalIn.locating at h
      split at h
      · next hr =>
        cases h
        rw [hr]
        rfl
      · rw [h]
        rfl
    have hnames := operands_names he (fun _ ha => (he.lhs ha).keepsNames)
      (fun _ hb => (he.rhs hb).keepsNames) hw₁ ha
    rw [← hworld, happly, hnames, hfinds.names_eq he hw]

/-- A statement that stops leaves the names as they are. -/
theorem Stated.names_of_error (he : e.Stated) (hw : w.Sound) {s : Stop}
    (h : e.eval fuel w = .error s w') : w'.names = w.names := by
  obtain ⟨n, w₁, hn, hr⟩ := e.exists_raises h
  obtain ⟨hstated, hw₁⟩ := hn.sound he hw
  rw [hr.names_eq (hstated.readable hr.isCall) hw₁, hn.names_eq he hw]

end Expr

namespace Program

variable {fuel : Nat} {w w' : World}

/-- The names when statements have given some values. -/
def namesAfter : Scope → List Expr → List Value → Scope
  | names, e :: es, v :: vs => namesAfter (e.namesAfter names v) es vs
  | names, _, _ => names

theorem names_of_evalAll : ∀ {es : List Expr} {vs : List Value} {w : World},
    (∀ e ∈ es, e.Stated) → w.Sound → Expr.evalAll fuel es w = .ok vs w' →
      w'.names = namesAfter w.names es vs ∧ w'.Sound
  | [], vs, w, _, hw, h => by
    unfold Expr.evalAll at h
    cases h
    exact ⟨rfl, hw⟩
  | e :: es, vs, w, hes, hw, h => by
    obtain ⟨v, us, w₁, hv, hus, rfl⟩ := Expr.evalAll_cons_eq_ok h
    have he := hes e (by simp)
    have hw₁ := ((he.eval_safe fuel).of_ok hw hv).1
    have ih := names_of_evalAll (fun d hd => hes d (by simp [hd])) hw₁ hus
    rwa [he.names_of_ok hw hv] at ih

/-- A program that stops does so at a statement, and leaves the names as the statements before have
made them. -/
theorem exists_stops {p : Program} (hp : ∀ e ∈ p, e.Stated) (hne : p ≠ []) (hw : w.Sound) {s : Stop}
    (h : p.eval fuel w = .error s w') : ∃ done e rest vs w₁, p = done ++ e :: rest ∧
      Expr.evalAll fuel done w = .ok vs w₁ ∧ e.eval fuel w₁ = .error s w' ∧
      w'.names = namesAfter w.names done vs := by
  obtain ⟨done, e, rest, vs, w₁, rfl, hvs, he⟩ :=
    Expr.evalAll_eq_error ((eval_eq_error_iff hne).1 h)
  obtain ⟨hnames, hw₁⟩ := names_of_evalAll (fun d hd => hp d (by simp [hd])) hw hvs
  have hstop := (hp e (by simp)).names_of_error hw₁ he
  exact ⟨done, e, rest, vs, w₁, rfl, hvs, he, hstop.trans hnames⟩

theorem evalFrom_append (q : Program) : ∀ (p : Program) (v : Value),
    (evalFrom fuel v (p ++ q) : Eval Value) = (do evalFrom fuel (← evalFrom fuel v p) q)
  | [], v => by
    rw [List.nil_append, evalFrom.eq_1, pure_bind]
  | e :: p, v => by
    simp only [List.cons_append, evalFrom, bind_assoc, evalFrom_append q p]

theorem eval_append {p q : Program} (hp : p ≠ []) (hq : q ≠ []) :
    (Program.eval fuel (p ++ q) : Eval Value) = (do let _ ← p.eval fuel; q.eval fuel) := by
  obtain ⟨e, p, rfl⟩ := List.exists_cons_of_ne_nil hp
  obtain ⟨d, q, rfl⟩ := List.exists_cons_of_ne_nil hq
  exact evalFrom_append (d :: q) (e :: p) (.str [])

end Program

/-- What is run for a source that stands elsewhere: its faults have their places there. -/
def Eval.moved {α : Type} (σ : Location → Location) (x : Eval α) : Eval α :=
  fun w => Outcome.mapPlaces (Option.map σ) (x w)

/-- A fault that an application comes to has no places in it. -/
theorem Fault.Raw.mapPlaces_eq {f : Fault} (h : f.Raw) {g : Option Location → Option Location}
    (hg : Keeps g) : f.mapPlaces g = f := by
  unfold Fault.Raw at h
  split at h
  · simp only [Fault.mapPlaces, hg.map_none]
  · simp only [Fault.mapPlaces, hg.map_none]
  · exact h.elim

theorem quiet_sound {g : Option Location → Option Location} (hg : Keeps g) :
    Quiet g id World.Sound Value.Made := by
  refine ⟨hg, fun _ => rfl, fun hw hv => hw.get? hv, .array, fun hv hw => ?_,
    fun {fuel f args} hf hargs w hw => ?_⟩
  · exact (bindName_safe hv _ hw).1
  · have hsafe := apply_safe fuel hf hargs
    refine ⟨?_, fun v u hv => hsafe.of_ok hw hv⟩
    rw [Outcome.mapPlaces_id, Function.id_comp]
    rcases hr : apply fuel f args w with ⟨v, u⟩ | ⟨f | m, u⟩
    · rfl
    · rcases raw_of_apply hf hargs hw hr with hraw | ⟨-, -, rfl⟩
      · simp only [Outcome.mapPlaces, Stop.mapPlaces, hraw.mapPlaces_eq hg]
      · simp only [Outcome.mapPlaces, Stop.mapPlaces, Fault.mapPlaces, hg.map_none]
    all_goals rfl

namespace Program

theorem eval_moved {p : Program} (hp : ∀ e ∈ p, e.Stated) {w : World} (hw : w.Sound)
    (σ : Location → Location) (fuel : Nat) :
    Program.eval fuel (p.map (Expr.moved σ)) w = Eval.moved σ (p.eval fuel) w := by
  have hkeeps : Keeps (Option.map σ) := fun p => Option.isNone_map
  have hl : ∀ e ∈ p, ∀ v place, .literal v place ∈ e.nodes → v.Made :=
    fun e he v place hn => (hp e he).literals_made _ hn v place rfl
  have h := (eval_relocates (quiet_sound hkeeps) fuel hl w hw).1
  rwa [Outcome.mapPlaces_id] at h

/-- Loads a source, and then another one as if it stood behind the first. -/
def loadInTurn (fuel : Nat) (file a b : Text) : Eval Value := do
  let _ ← load fuel file a
  .moved (.behind (a ++ joint)) (load fuel file b)

theorem load_of_read {file src : Text} {p : Program} (h : Program.read file src = .ok p)
    (fuel : Nat) {w : World} (hw : w.reads = true) : load fuel file src w = p.eval fuel w := by
  rw [load_eq, if_pos hw, h]

theorem load_of_not_reads (fuel : Nat) (file src : Text) {w : World} (hw : ¬ w.reads = true) :
    load fuel file src w = .error (.fault (.plain "no reader for environment runtime")) w := by
  rw [load_eq, if_neg hw]

theorem loadInTurn_eq {file a b : Text} {p q : Program} (ha : Program.read file a = .ok p)
    (hb : Program.read file b = .ok q) (fuel : Nat) {w : World} (hw : w.reads = true) :
    loadInTurn fuel file a b w =
      (do let _ ← p.eval fuel; .moved (.behind (a ++ joint)) (q.eval fuel) : Eval Value) w := by
  have hload := load_of_read ha fuel hw
  unfold loadInTurn
  rcases hp : p.eval fuel w with ⟨v, w₁⟩ | ⟨s, w₁⟩ <;> rw [hp] at hload
  · have hw₁ : w₁.reads = true := by
      have hruns : (Outcome.world (p.eval fuel w)).reads = w.reads := (eval_nests p w).reads
      rw [hp] at hruns
      exact hruns.trans hw
    rw [EvalIn.bind_of_ok hload, EvalIn.bind_of_ok hp]
    exact congrArg (Outcome.mapPlaces _) (load_of_read hb fuel hw₁)
  · rw [EvalIn.bind_of_error hload, EvalIn.bind_of_error hp]

end Program

/-- In every world that can be reached, a joined source runs as its parts do when they are loaded in
turn: it gives the same value in the same world, or the same fault but for the place of one in the
second part. If it stops, it does so at a statement, and the names are as the statements before it
have made them. -/
theorem World.Reachable.load_joined {w : World} (h : w.Reachable) {file a b : Text}
    {p q : Program} (ha : Program.read file a = .ok p) (hp : p ≠ [])
    (hb : Program.read file b = .ok q) (hq : q ≠ [])
    (hopen : (∀ ts, lex file a = .ok ts → ¬ EndsOpen ts) ∨ Lexeme.quote ∉ b) (fuel : Nat) :
    Program.load fuel file (a ++ joint ++ b) w = Program.loadInTurn fuel file a b w ∧
      (w.reads = true → ∀ s w', Program.load fuel file (a ++ joint ++ b) w = .error s w' →
        ∃ done e rest vs w₁, p ++ q.map (Expr.moved (.behind (a ++ joint))) = done ++ e :: rest ∧
          Expr.evalAll fuel done w = .ok vs w₁ ∧ e.eval fuel w₁ = .error s w' ∧
          w'.names = Program.namesAfter w.names done vs) := by
  have hread := Program.read_joined ha hb hopen
  have hne : p ++ q.map (Expr.moved (.behind (a ++ joint))) ≠ [] := by simp [hp]
  refine ⟨?_, fun hw s w' he => ?_⟩
  · by_cases hw : w.reads = true
    · rw [Program.load_of_read hread fuel hw, Program.loadInTurn_eq ha hb fuel hw,
        Program.eval_append hp (by simpa using hq)]
      have hsafe := Program.eval_safe fuel (Program.stated_of_read ha)
      rcases hr : p.eval fuel w with ⟨v, w₁⟩ | ⟨s, w₁⟩
      · rw [EvalIn.bind_of_ok hr, EvalIn.bind_of_ok hr]
        exact Program.eval_moved (Program.stated_of_read hb) (hsafe.of_ok h.sound hr).1 _ fuel
      · rw [EvalIn.bind_of_error hr, EvalIn.bind_of_error hr]
    · have hload := fun src => Program.load_of_not_reads fuel file src hw
      rw [hload, Program.loadInTurn, EvalIn.bind_of_error (hload a)]
  · rw [Program.load_of_read hread fuel hw] at he
    exact Program.exists_stops (Program.stated_of_read hread) hne h.sound he

/-- The program `x <- "a"`. -/
def bindProgram : Program :=
  [.assign "x" (.literal (.str "a") (some ⟨[], 5, 1, 6⟩)) (some ⟨[], 0, 1, 1⟩)]

theorem read_bindProgram : Program.read [] ("x <- \"a\"" : Text) = .ok bindProgram := by
  set_option maxRecDepth 4000 in
  cbv

/-- The program `y`. -/
def freeProgram : Program := [.named "y" none none (some ⟨[], 0, 1, 1⟩)]

theorem read_freeProgram : Program.read [] ("y" : Text) = .ok freeProgram := by cbv

/-- The second source asks for a name that is not bound, in the second line of the joined source.
What the first source binds stays bound. -/
theorem World.Reachable.load_joined_free : (World.initial .empty).Reachable ∧
    Program.read [] ("x <- \"a\"" : Text) = .ok bindProgram ∧ bindProgram ≠ [] ∧
    Program.read [] ("y" : Text) = .ok freeProgram ∧ freeProgram ≠ [] ∧
    Lexeme.quote ∉ ("y" : Text) ∧ ∃ w',
      Program.load 1 [] (("x <- \"a\"" : Text) ++ joint ++ ("y" : Text)) (World.initial .empty) =
        .error (.fault (.unbound (some ⟨[], 10, 2, 1⟩) "y")) w' ∧
      w'.names.get? "x" = some (.str "a") ∧ ∃ done e rest vs w₁,
        bindProgram ++ freeProgram.map (Expr.moved (.behind (("x <- \"a\"" : Text) ++ joint))) =
            done ++ e :: rest ∧
          Expr.evalAll 1 done (World.initial .empty) = .ok vs w₁ ∧
          e.eval 1 w₁ = .error (.fault (.unbound (some ⟨[], 10, 2, 1⟩) "y")) w' ∧
          w'.names = Program.namesAfter (World.initial .empty).names done vs := by
  have hreach : (World.initial .empty).Reachable := .start rfl rfl
  have hquote : Lexeme.quote ∉ ("y" : Text) := by decide
  obtain ⟨hload, hstops⟩ := World.Reachable.load_joined hreach read_bindProgram nofun
    read_freeProgram nofun (.inr hquote) 1
  have hturn : Program.loadInTurn 1 [] ("x <- \"a\"" : Text) ("y" : Text) (World.initial .empty) =
      .error (.fault (.unbound (some ⟨[], 10, 2, 1⟩) "y")) _ :=
    Program.loadInTurn_eq read_bindProgram read_freeProgram 1 rfl
  exact ⟨hreach, read_bindProgram, nofun, read_freeProgram, nofun, hquote, _, hload.trans hturn,
    rfl, hstops rfl _ _ (hload.trans hturn)⟩

end Tacit
