import Tacit.Proofs.Following
import Tacit.Proofs.RoundTrip

/-!
# Places do not matter

A run asks for a place only to put it into a fault, and of a fault it asks only whether there is a
place already. So with the places of a program changed, but none added and none taken away, it runs
as before, and the faults it may end with have their places changed too (`Expr.eval_relocates`).
Programs that are the same without their places therefore run alike (`Program.eval_unplaced`), a
program and its canonical source among them.
-/

namespace Tacit

open Bit (Settled)

/-- A change of places that neither adds nor takes away any. -/
def Keeps (g : Option Location → Option Location) : Prop := ∀ p, (g p).isNone = p.isNone

theorem Keeps.map_none {g : Option Location → Option Location} (hg : Keeps g) : g none = none :=
  Option.isNone_iff_eq_none.1 (hg none)

namespace Fault

/-- The fault with its places changed. -/
def mapPlaces (g : Option Location → Option Location) : Fault → Fault
  | unmatched p excerpt => unmatched (g p) excerpt
  | malformed p problem => malformed (g p) problem
  | unbound p name => unbound (g p) name
  | notCallable p name actual => notCallable (g p) name actual
  | arity p fn takes received => arity (g p) fn takes received
  | mismatch p fn position expected actual operand =>
    mismatch (g p) fn position expected actual operand
  | builtin p fn inner => builtin (g p) fn (mapPlaces g inner)
  | placed p inner => placed (g p) (mapPlaces g inner)
  | remarked remark inner => remarked remark (mapPlaces g inner)
  | plain message => plain message

theorem mapPlaces_mapPlaces (g h : Option Location → Option Location) (f : Fault) :
    (f.mapPlaces g).mapPlaces h = f.mapPlaces (h ∘ g) := by
  induction f <;> simp_all [mapPlaces]

theorem mapPlaces_id (f : Fault) : f.mapPlaces id = f := by
  induction f <;> simp_all [mapPlaces]

variable {g : Option Location → Option Location}

/-- Where a fault lies does not bear on its condition. -/
theorem condition?_mapPlaces (f : Fault) : (f.mapPlaces g).condition? = f.condition? := by
  cases f <;> rfl

theorem isNone_place?_mapPlaces (hg : Keeps g) (f : Fault) :
    (f.mapPlaces g).place?.isNone = f.place?.isNone := by
  cases f <;> first | exact hg _ | rfl

theorem mapPlaces_withPlace {l l' : Location} (hl : g (some l) = some l') (f : Fault) :
    (f.withPlace l).mapPlaces g = (f.mapPlaces g).withPlace l' := by
  cases f <;> simp [withPlace, mapPlaces, hl]

theorem mapPlaces_placeFirst? (hg : Keeps g) (c : Condition) {l l' : Location}
    (hl : g (some l) = some l') (f : Fault) :
    (placeFirst? c l f).map (mapPlaces g) = placeFirst? c l' (f.mapPlaces g) := by
  have hfirst : ∀ (f : Fault) (r r' : Option Fault), r.map (mapPlaces g) = r' →
      (if f.condition? = some c then if f.place?.isNone then some (f.withPlace l) else none
        else r).map (mapPlaces g) =
      if (f.mapPlaces g).condition? = some c then
        if (f.mapPlaces g).place?.isNone then some ((f.mapPlaces g).withPlace l') else none
      else r' := by
    intro f r r' hr
    rw [condition?_mapPlaces, isNone_place?_mapPlaces hg, ← mapPlaces_withPlace hl]
    split_ifs
    · rfl
    · rfl
    · exact hr
  induction f with
  | builtin p fn inner ih | placed p inner ih | remarked remark inner ih =>
    unfold placeFirst?
    refine hfirst _ _ _ ?_
    simp only [mapPlaces, ← ih, Option.map_map]
    rfl
  | _ =>
    unfold placeFirst?
    exact hfirst _ _ _ rfl

/-- Placing a fault and changing places may be done in either order. -/
theorem mapPlaces_placedAt (hg : Keeps g) (place : Option Location) (f : Fault) :
    (f.placedAt place).mapPlaces g = (f.mapPlaces g).placedAt (g place) := by
  rcases place with _ | l
  · rw [hg.map_none]
    rfl
  · obtain ⟨l', hl⟩ : ∃ l', g (some l) = some l' := by
      have h := hg (some l)
      exact Option.isSome_iff_exists.1 (by simpa using h)
    rw [hl]
    unfold placedAt
    simp only
    have hfind : ∀ cs : List Condition,
        (cs.findSome? fun c => placeFirst? c l f).map (mapPlaces g) =
          cs.findSome? fun c => placeFirst? c l' (f.mapPlaces g) := by
      intro cs
      rw [List.map_findSome?]
      congr 1
      funext c
      exact mapPlaces_placeFirst? hg c hl f
    rw [← hfind]
    rcases placeable.findSome? fun c => placeFirst? c l f with _ | f' <;> rfl

end Fault

namespace Expr

mutual

/-- The expression with its places changed. -/
def mapPlaces (g : Option Location → Option Location) : Expr → Expr
  | literal value p => literal value (g p)
  | array members p => array (mapPlacesAll g members) (g p)
  | assign name body p => assign name (mapPlaces g body) (g p)
  | named name lhs rhs p => named name (mapPlacesOf g lhs) (mapPlacesOf g rhs) (g p)
  | called callee lhs rhs p =>
    called (mapPlaces g callee) (mapPlacesOf g lhs) (mapPlacesOf g rhs) (g p)

def mapPlacesAll (g : Option Location → Option Location) : List Expr → List Expr
  | [] => []
  | e :: es => mapPlaces g e :: mapPlacesAll g es

def mapPlacesOf (g : Option Location → Option Location) : Option Expr → Option Expr
  | none => none
  | some e => some (mapPlaces g e)

end

variable {g : Option Location → Option Location}

theorem mapPlacesAll_eq (es : List Expr) : mapPlacesAll g es = es.map (mapPlaces g) := by
  induction es with
  | nil => rfl
  | cons e es ih => rw [mapPlacesAll, ih, List.map_cons]

theorem mapPlacesOf_eq (o : Option Expr) : mapPlacesOf g o = o.map (mapPlaces g) := by
  cases o <;> rfl

section Induct

variable (g)

mutual

theorem mapPlaces_mapPlaces (h : Option Location → Option Location) :
    ∀ e : Expr, (e.mapPlaces g).mapPlaces h = e.mapPlaces (h ∘ g)
  | .literal v p => rfl
  | .array ms p => by simp [mapPlaces, mapPlacesAll_mapPlacesAll h ms]
  | .assign name body p => by simp [mapPlaces, mapPlaces_mapPlaces h body]
  | .named name lhs rhs p => by
    simp [mapPlaces, mapPlacesOf_mapPlacesOf h lhs, mapPlacesOf_mapPlacesOf h rhs]
  | .called c lhs rhs p => by
    simp [mapPlaces, mapPlaces_mapPlaces h c, mapPlacesOf_mapPlacesOf h lhs,
      mapPlacesOf_mapPlacesOf h rhs]

theorem mapPlacesAll_mapPlacesAll (h : Option Location → Option Location) :
    ∀ es : List Expr, mapPlacesAll h (mapPlacesAll g es) = mapPlacesAll (h ∘ g) es
  | [] => rfl
  | e :: es => by
    simp [mapPlacesAll, mapPlaces_mapPlaces h e, mapPlacesAll_mapPlacesAll h es]

theorem mapPlacesOf_mapPlacesOf (h : Option Location → Option Location) :
    ∀ o : Option Expr, mapPlacesOf h (mapPlacesOf g o) = mapPlacesOf (h ∘ g) o
  | none => rfl
  | some e => by simp [mapPlacesOf, mapPlaces_mapPlaces h e]

end

mutual

theorem unplaced_eq : ∀ e : Expr, e.unplaced = e.mapPlaces fun _ => none
  | .literal v p => rfl
  | .array ms p => by simp [mapPlaces, unplaced, unplacedAll_eq_mapPlacesAll ms]
  | .assign name body p => by simp [mapPlaces, unplaced, unplaced_eq body]
  | .named name lhs rhs p => by
    simp [mapPlaces, unplaced, unplacedOf_eq lhs, unplacedOf_eq rhs]
  | .called c lhs rhs p => by
    simp [mapPlaces, unplaced, unplaced_eq c, unplacedOf_eq lhs, unplacedOf_eq rhs]

theorem unplacedAll_eq_mapPlacesAll :
    ∀ es : List Expr, unplacedAll es = mapPlacesAll (fun _ => none) es
  | [] => rfl
  | e :: es => by simp [mapPlacesAll, unplacedAll, unplaced_eq e, unplacedAll_eq_mapPlacesAll es]

theorem unplacedOf_eq : ∀ o : Option Expr, unplacedOf o = mapPlacesOf (fun _ => none) o
  | none => rfl
  | some e => by simp [mapPlacesOf, unplacedOf, unplaced_eq e]

end

end Induct

theorem mapPlaces_congr {h : Option Location → Option Location} : ∀ e : Expr,
    (∀ n ∈ e.nodes, g n.place? = h n.place?) → e.mapPlaces g = e.mapPlaces h := by
  refine induct fun e ih hplaces => ?_
  obtain ⟨hp, hc⟩ := forall_nodes_iff.1 hplaces
  have hparts : ∀ c ∈ e.children, c.mapPlaces g = c.mapPlaces h := fun c hmem =>
    ih c hmem (hc c hmem)
  have hof : ∀ o : Option Expr, (∀ a ∈ o, a ∈ e.children) →
      mapPlacesOf g o = mapPlacesOf h o := by
    rintro (_ | a) ho
    · rfl
    · exact congrArg some (hparts a (ho a rfl))
  cases e with
  | literal v p => exact congrArg _ hp
  | array ms p =>
    simp only [mapPlaces, mapPlacesAll_eq, show g p = h p from hp]
    rw [List.map_congr_left (l := ms) hparts]
  | assign name body p =>
    simp only [mapPlaces, hparts body (by simp [children]), show g p = h p from hp]
  | named name lhs rhs p =>
    simp only [mapPlaces, hof lhs (by simp +contextual [children]),
      hof rhs (by simp +contextual [children]), show g p = h p from hp]
  | called c lhs rhs p =>
    simp only [mapPlaces, hparts c (by simp [children]), hof lhs (by simp +contextual [children]),
      hof rhs (by simp +contextual [children]), show g p = h p from hp]

theorem unplaced_mapPlaces (e : Expr) : (e.mapPlaces g).unplaced = e.unplaced := by
  rw [unplaced_eq, unplaced_eq, mapPlaces_mapPlaces]
  rfl

theorem isCall_mapPlaces (e : Expr) : (e.mapPlaces g).isCall = e.isCall := by
  cases e <;> rfl

theorem calleeSource_mapPlaces (e : Expr) : (e.mapPlaces g).calleeSource = e.calleeSource := by
  unfold calleeSource
  rw [isCall_mapPlaces, source_eq_of_unplaced (unplaced_mapPlaces e)]

end Expr

/-- The stop with the places in its fault changed, if it is one. -/
def Stop.mapPlaces (g : Option Location → Option Location) : Stop → Stop
  | .fault f => .fault (f.mapPlaces g)
  | s => s

theorem Stop.mapPlaces_mapPlaces (g h : Option Location → Option Location) (s : Stop) :
    (s.mapPlaces g).mapPlaces h = s.mapPlaces (h ∘ g) := by
  cases s <;> simp [mapPlaces, Fault.mapPlaces_mapPlaces]

theorem Stop.mapPlaces_id (s : Stop) : s.mapPlaces id = s := by
  cases s <;> simp [mapPlaces, Fault.mapPlaces_id]

namespace Outcome

variable {α : Type}

/-- The outcome with the places in its fault changed, if it is one. -/
def mapPlaces (g : Option Location → Option Location) : Outcome α → Outcome α
  | .ok a w => .ok a w
  | .error s w => .error (s.mapPlaces g) w

/-- The outcome without the places in its fault. -/
def unplaced (r : Outcome α) : Outcome α := r.mapPlaces fun _ => none

theorem mapPlaces_mapPlaces (g h : Option Location → Option Location) (r : Outcome α) :
    (r.mapPlaces g).mapPlaces h = r.mapPlaces (h ∘ g) := by
  cases r <;> simp [mapPlaces, Stop.mapPlaces_mapPlaces]

theorem mapPlaces_id (r : Outcome α) : r.mapPlaces id = r := by
  cases r <;> simp [mapPlaces, Stop.mapPlaces_id]

end Outcome

/-- From the worlds that meet `I`, `y` comes to what `x` comes to, with places changed by `g`; and
`x` gives only what meets `Q`, in worlds that meet `I`. What `h` makes equal is not told apart. -/
def Relocates {α : Type} (g h : Option Location → Option Location) (I : World → Prop)
    (Q : α → Prop) (x y : Eval α) : Prop :=
  ∀ w, I w → Outcome.mapPlaces h (y w) = Outcome.mapPlaces (h ∘ g) (x w) ∧
    ∀ a u, x w = .ok a u → I u ∧ Q a

namespace Relocates

variable {α β : Type} {g h : Option Location → Option Location} {I : World → Prop}

theorem pure {Q : α → Prop} {a : α} (ha : Q a) : Relocates g h I Q (pure a) (pure a) := by
  refine fun w hw => ⟨rfl, ?_⟩
  rintro _ _ ⟨⟩
  exact ⟨hw, ha⟩

theorem fail {Q : α → Prop} (f : Fault) :
    Relocates g h I Q (.fail f) (.fail (f.mapPlaces g)) := by
  refine fun w _ => ⟨?_, nofun⟩
  exact congrArg (EStateM.Result.error · w) (congrArg Stop.fault (f.mapPlaces_mapPlaces g h))

theorem get {Q : α → Prop} {f f' : World → Eval α}
    (hf : ∀ w, I w → Relocates g h I Q (f w) (f' w)) :
    Relocates g h I Q (MonadState.get >>= f) (MonadState.get >>= f') :=
  fun w hw => hf w hw w hw

theorem bind {P : α → Prop} {Q : β → Prop} {x y : Eval α} {f f' : α → Eval β}
    (hx : Relocates g h I P x y) (hf : ∀ a, P a → Relocates g h I Q (f a) (f' a)) :
    Relocates g h I Q (x >>= f) (y >>= f') := by
  intro w hw
  obtain ⟨heq, hok⟩ := hx w hw
  rcases hxw : x w with ⟨a, u⟩ | ⟨s, u⟩ <;> rcases hyw : y w with ⟨b, v⟩ | ⟨t, v⟩ <;>
    rw [hxw, hyw] at heq
  · cases heq
    obtain ⟨hu, ha⟩ := hok a u hxw
    rw [EvalIn.bind_of_ok hxw, EvalIn.bind_of_ok hyw]
    exact hf a ha u hu
  · cases heq
  · cases heq
  · rw [EvalIn.bind_of_error hxw, EvalIn.bind_of_error hyw]
    simp only [Outcome.mapPlaces, EStateM.Result.error.injEq] at heq ⊢
    exact ⟨heq, nofun⟩

theorem locating {Q : α → Prop} {x y : Eval α} (hh : Keeps h) (hg : Keeps g)
    (place : Option Location) (hx : Relocates g h I Q x y) :
    Relocates g h I Q (.locating place x) (.locating (g place) y) := by
  intro w hw
  obtain ⟨heq, hok⟩ := hx w hw
  unfold EvalIn.locating
  rcases hxw : x w with ⟨a, u⟩ | ⟨s, u⟩ <;> rcases hyw : y w with ⟨b, v⟩ | ⟨t, v⟩ <;>
    rw [hxw, hyw] at heq
  · rw [hxw] at hok
    exact ⟨heq, hok⟩
  · cases heq
  · cases heq
  · simp only [Outcome.mapPlaces, EStateM.Result.error.injEq] at heq
    obtain ⟨hst, rfl⟩ := heq
    refine ⟨?_, by cases s <;> nofun⟩
    cases s with
    | fault f =>
      cases t with
      | fault f' =>
        have hf : f'.mapPlaces h = f.mapPlaces (h ∘ g) := Stop.fault.inj hst
        have hgh : Keeps (h ∘ g) := fun p => (hh _).trans (hg p)
        simp only [Outcome.mapPlaces, Stop.mapPlaces]
        rw [Fault.mapPlaces_placedAt hh, hf, Fault.mapPlaces_placedAt hgh]
        rfl
      | crash | outOfFuel => cases hst
    | crash | outOfFuel =>
      cases t <;> cases hst
      rfl

end Relocates

/-- What is asked of runs for places not to matter: where functions are applied, none do. -/
structure Quiet (g h : Option Location → Option Location) (I : World → Prop)
    (Q : Value → Prop) : Prop where
  keeps : Keeps g
  keeps' : Keeps h
  lookup : ∀ {w : World} {name : Text} {v : Value}, I w → w.names.get? name = some v → Q v
  array : ∀ {vs : List Value}, (∀ v ∈ vs, Q v) → Q (.array vs)
  bindName : ∀ {name : Text} {v : Value} {w : World}, Q v → I w →
    I { w with names := w.names.put name v }
  apply : ∀ {fuel : Nat} {f : Function} {args : List Value}, Q (.func f) → (∀ v ∈ args, Q v) →
    Relocates g h I Q (Tacit.apply fuel f args) (Tacit.apply fuel f args)

namespace Expr

variable {g h : Option Location → Option Location} {I : World → Prop} {Q : Value → Prop}
  (hq : Quiet g h I Q) (fuel : Nat)

/-- If each part runs alike elsewhere, so do all in a row. -/
theorem evalAll_relocates : ∀ {es : List Expr},
    (∀ e ∈ es, Relocates g h I Q (e.eval fuel) ((e.mapPlaces g).eval fuel)) →
      Relocates g h I (fun vs => ∀ v ∈ vs, Q v) (evalAll fuel es)
        (evalAll fuel (es.map (mapPlaces g)))
  | [], _ => .pure (by simp)
  | e :: es, he => by
    rw [List.map_cons]
    unfold evalAll
    refine (he e (by simp)).bind fun v hv => ?_
    refine (evalAll_relocates fun d hd => he d (by simp [hd])).bind fun vs hvs => ?_
    exact .pure (List.forall_mem_cons.2 ⟨hv, hvs⟩)

theorem evalOperand_relocates {o : Option Expr}
    (ho : ∀ e ∈ o, Relocates g h I Q (e.eval fuel) ((e.mapPlaces g).eval fuel)) :
    Relocates g h I (fun vs => ∀ v ∈ vs, Q v) (evalOperand fuel o)
      (evalOperand fuel (mapPlacesOf g o)) := by
  cases o with
  | none => exact .pure (by simp)
  | some e =>
    unfold evalOperand mapPlacesOf
    exact (ho e rfl).bind fun v hv => .pure (by simpa using hv)

include hq

theorem call_relocates {callee : Value} (hc : Q callee) (name : Text) (place : Option Location)
    (hasOperands : Bool) {x y : Eval (List Value)}
    (ho : Relocates g h I (fun vs => ∀ v ∈ vs, Q v) x y) :
    Relocates g h I Q (callee.call fuel name place hasOperands x)
      (callee.call fuel name (g place) hasOperands y) := by
  have hplain : ∀ v : Value, Q v → Relocates g h I Q
      (if hasOperands then .fail (.notCallable place name v.type) else pure v)
      (if hasOperands then .fail (.notCallable (g place) name v.type) else pure v) := by
    intro v hv
    split_ifs
    · exact .fail (.notCallable place name v.type)
    · exact .pure hv
  cases callee with
  | func f => exact ho.bind fun args hargs =>
      (hq.apply hc hargs).locating hq.keeps' hq.keeps place
  | _ => exact hplain _ hc

/-- With its places changed an expression is evaluated as before. -/
theorem eval_relocates : ∀ e : Expr, (∀ v place, .literal v place ∈ e.nodes → Q v) →
    Relocates g h I Q (e.eval fuel) ((e.mapPlaces g).eval fuel) := by
  refine induct fun e ih hl => ?_
  obtain ⟨hown, hparts⟩ :=
    (forall_nodes_iff (Q := fun n => ∀ v place, n = .literal v place → Q v)).1
      fun n hn v place hv => hl v place (hv ▸ hn)
  have hchild : ∀ c ∈ e.children, Relocates g h I Q (c.eval fuel) ((c.mapPlaces g).eval fuel) :=
    fun c hc => ih c hc fun v place hm => hparts c hc _ hm v place rfl
  have hoperands : ∀ lhs rhs : Option Expr, (∀ a ∈ lhs, a ∈ e.children) →
      (∀ b ∈ rhs, b ∈ e.children) → Relocates g h I (fun vs => ∀ v ∈ vs, Q v)
        (do return (← evalOperand fuel lhs) ++ (← evalOperand fuel rhs))
        (do return (← evalOperand fuel (mapPlacesOf g lhs)) ++
          (← evalOperand fuel (mapPlacesOf g rhs))) := by
    intro lhs rhs hlhs hrhs
    refine (evalOperand_relocates fuel fun a ha => hchild a (hlhs a ha)).bind fun us hus => ?_
    refine (evalOperand_relocates fuel fun b hb => hchild b (hrhs b hb)).bind fun vs hvs => ?_
    exact .pure (List.forall_mem_append.2 ⟨hus, hvs⟩)
  have hsome : ∀ o : Option Expr, (mapPlacesOf g o).isSome = o.isSome := by
    rintro (_ | a) <;> rfl
  cases e with
  | literal v place =>
    unfold mapPlaces Expr.eval
    exact .pure (hown v place rfl)
  | array ms place =>
    unfold mapPlaces Expr.eval
    rw [mapPlacesAll_eq]
    exact (evalAll_relocates fuel hchild).bind fun vs hvs => .pure (hq.array hvs)
  | assign name body place =>
    unfold mapPlaces Expr.eval
    refine (hchild body (by simp [children])).bind fun v hv => ?_
    have hbind : Relocates g h I (fun _ => True) (.bindName name v) (.bindName name v) := by
      refine fun w hw => ⟨rfl, ?_⟩
      rintro _ _ ⟨⟩
      exact ⟨hq.bindName hv hw, trivial⟩
    exact hbind.bind fun _ _ => .pure hv
  | named name lhs rhs place =>
    unfold mapPlaces Expr.eval
    refine .get fun w hw => ?_
    split
    · exact .fail (.unbound place name)
    · next v hv =>
      rw [hsome, hsome]
      exact call_relocates hq fuel (hq.lookup hw hv) name place _
        (hoperands lhs rhs (by simp +contextual [children]) (by simp +contextual [children]))
  | called c lhs rhs place =>
    unfold mapPlaces Expr.eval
    refine (hchild c (by simp [children])).bind fun v hv => ?_
    rw [hsome, hsome, calleeSource_mapPlaces]
    exact call_relocates hq fuel hv _ place _
      (hoperands lhs rhs (by simp +contextual [children]) (by simp +contextual [children]))

end Expr

namespace Program

variable {g h : Option Location → Option Location} {I : World → Prop} {Q : Value → Prop}
  (hq : Quiet g h I Q) (fuel : Nat)
include hq

theorem evalFrom_relocates : ∀ {es : List Expr} {v : Value},
    (∀ e ∈ es, ∀ v place, .literal v place ∈ e.nodes → Q v) → Q v →
      Relocates g h I Q (evalFrom fuel v es) (evalFrom fuel v (es.map (Expr.mapPlaces g)))
  | [], _, _, hv => .pure hv
  | e :: es, _, hl, _ => (e.eval_relocates hq fuel (hl e (by simp))).bind fun _ hv =>
    evalFrom_relocates (fun d hd => hl d (by simp [hd])) hv

theorem eval_relocates {p : Program}
    (hl : ∀ e ∈ p, ∀ v place, .literal v place ∈ e.nodes → Q v) :
    Relocates g h I Q (p.eval fuel) (Program.eval fuel (p.map (Expr.mapPlaces g))) := by
  cases p with
  | nil =>
    have hf := Relocates.fail (g := g) (h := h) (I := I) (Q := Q)
      (.malformed none "program contains no expressions")
    rwa [Fault.mapPlaces, hq.keeps.map_none] at hf
  | cons e es =>
    exact (e.eval_relocates hq fuel (hl e (by simp))).bind fun _ hv =>
      evalFrom_relocates hq fuel (fun d hd => hl d (by simp [hd])) hv

end Program

/-- Puts one place in place of all. -/
def Location.everywhere (l : Location) (p : Option Location) : Option Location := p.map fun _ => l

theorem keeps_everywhere (l : Location) : Keeps l.everywhere := by
  intro p
  cases p <;> rfl

theorem everywhere_comp (l : Location) : l.everywhere ∘ l.everywhere = l.everywhere := by
  funext p
  cases p <;> rfl

theorem quiet_everywhere (l : Location) :
    Quiet l.everywhere l.everywhere (fun _ => True) (fun _ => True) := by
  refine ⟨keeps_everywhere l, keeps_everywhere l, fun _ _ => trivial, fun _ => trivial,
    fun _ _ => trivial, fun _ _ w _ => ⟨?_, fun _ _ _ => ⟨trivial, trivial⟩⟩⟩
  rw [everywhere_comp]

/-- Every node of a program has its place. -/
def Program.Placed (p : Program) : Prop := ∀ e ∈ p, ∀ n ∈ e.nodes, n.place? ≠ none

namespace Program

/-- With one place everywhere, a program depends only on what it is without its places. -/
theorem map_everywhere {p : Program} (hp : p.Placed) (l : Location) :
    p.map (Expr.mapPlaces l.everywhere) =
      (p.map Expr.unplaced).map (Expr.mapPlaces fun _ => some l) := by
  rw [List.map_map]
  refine List.map_congr_left fun e he => ?_
  rw [Function.comp_apply, Expr.unplaced_eq, Expr.mapPlaces_mapPlaces]
  refine Expr.mapPlaces_congr e fun n hn => ?_
  obtain ⟨l', hl'⟩ := Option.ne_none_iff_exists'.1 (hp e he n hn)
  rw [hl']
  rfl

/-- Programs that are the same without their places run alike in any world: they give the same value
in the same world, or the same fault but for its places. For with one place everywhere the two are
the same program. -/
theorem eval_unplaced {p q : Program} (hp : p.Placed) (hq : q.Placed)
    (h : p.map Expr.unplaced = q.map Expr.unplaced) (fuel : Nat) (w : World) :
    Outcome.unplaced (p.eval fuel w) = Outcome.unplaced (q.eval fuel w) := by
  let l : Location := default
  have hrun : ∀ r : Program, Outcome.mapPlaces l.everywhere
      (Program.eval fuel (r.map (Expr.mapPlaces l.everywhere)) w) =
        Outcome.mapPlaces l.everywhere (r.eval fuel w) := by
    intro r
    have hr := (eval_relocates (quiet_everywhere l) fuel (p := r) (by simp) w trivial).1
    rwa [everywhere_comp] at hr
  have heq : Outcome.mapPlaces l.everywhere (p.eval fuel w) =
      Outcome.mapPlaces l.everywhere (q.eval fuel w) := by
    rw [← hrun p, ← hrun q, map_everywhere hp, map_everywhere hq, h]
  have hgone := congrArg Outcome.unplaced heq
  unfold Outcome.unplaced at hgone ⊢
  rwa [Outcome.mapPlaces_mapPlaces, Outcome.mapPlaces_mapPlaces] at hgone

/-! ## Programs and their canonical sources -/

theorem placed_read {file src : Text} {p : Program} (h : Program.read file src = .ok p) :
    p.Placed := by
  intro e he n hn
  obtain ⟨pos, hpos⟩ := placed_of_read h e he n hn
  simp [hpos]

/-- The canonical source of a program is read as the same program, whatever file it is in. -/
def RoundTrips (p : Program) : Prop :=
  ∀ file, ∃ q, Program.read file p.source = .ok q ∧ q.map Expr.unplaced = p.map Expr.unplaced

/-- A program that was read round-trips just if no string but the last one ends with a backslash and
no array with two members or more has a call among them. -/
theorem roundTrips_iff {file src : Text} {p : Program} (h : Program.read file src = .ok p)
    (hn : ∀ n ∈ p.numbers, n.ReadsBack) :
    p.RoundTrips ↔ Settled p.strings ∧ ∀ v ∈ p.visits, ¬ v.node.Fusible := by
  rw [← steady_iff]
  constructor
  · intro hr
    obtain ⟨q, hq, hu⟩ := hr file
    have hset : Settled p.strings := by
      by_contra hset
      exact read_source_ne_ok (stated_of_read h) hn hset file q hq
    refine ⟨hset, ?_⟩
    by_contra hsteady
    obtain ⟨q', hq', hpq⟩ := read_source (stated_of_read h) hn hset file
    obtain rfl : q = q' := Except.ok.inj (hq.symm.trans hq')
    exact source_ne_of_rereads hpq hsteady (source_eq_of_unplaced hu)
  · intro hs file'
    obtain ⟨q, hq, hpq⟩ := read_source (stated_of_read h) hn hs.1 file'
    exact ⟨q, hq, Expr.map_unplaced_of_rereads hpq hs.2⟩

theorem load_eq (fuel : Nat) (file src : Text) (w : World) :
    Program.load fuel file src w =
      if w.reads then
        match Program.read file src with
        | .ok p => p.eval fuel w
        | .error f => .error (.fault f) w
      else .error (.fault (.plain "no reader for environment runtime")) w := by
  have hget : Program.load fuel file src w = (if w.reads = true then
      (do (← .ofExcept (Program.read file src) : Program).eval fuel)
      else .fail (.plain "no reader for environment runtime") : Eval Value) w := rfl
  rw [hget]
  split_ifs
  · rcases Program.read file src with f | p <;> rfl
  · rfl

/-- A source and its canonical form run alike when they are loaded. -/
theorem load_unplaced {file src : Text} {p : Program} (h : Program.read file src = .ok p)
    (hr : p.RoundTrips) (file' : Text) (fuel : Nat) (w : World) :
    Outcome.unplaced (Program.load fuel file' p.source w) =
      Outcome.unplaced (Program.load fuel file src w) := by
  obtain ⟨q, hq, hu⟩ := hr file'
  rw [load_eq, load_eq, hq, h]
  by_cases hw : w.reads = true
  · rw [if_pos hw, if_pos hw]
    exact eval_unplaced (placed_read hq) (placed_read h) hu fuel w
  · rw [if_neg hw, if_neg hw]

/-- Places do not matter. Programs that are the same without them run alike in any world: they give
the same value in the same world, or the same fault but for its places. So formatting a source does
not change what comes of loading it, if the program in it round-trips. -/
theorem places_do_not_matter :
    (∀ p q : Program, p.Placed → q.Placed → p.map Expr.unplaced = q.map Expr.unplaced →
      ∀ fuel w, Outcome.unplaced (p.eval fuel w) = Outcome.unplaced (q.eval fuel w)) ∧
    ∀ file src p, Program.read file src = .ok p → p.RoundTrips → ∀ file' fuel w,
      Program.reformat file src = .ok p.source ∧
        Outcome.unplaced (Program.load fuel file' p.source w) =
          Outcome.unplaced (Program.load fuel file src w) := by
  refine ⟨fun p q hp hq h fuel w => eval_unplaced hp hq h fuel w, ?_⟩
  intro file src p h hr file' fuel w
  refine ⟨?_, load_unplaced h hr file' fuel w⟩
  simp [Program.reformat, h, bind, Except.bind, pure, Except.pure]

/-- A name that is not bound, in a source and in the formatted one: the faults are the same, at
different places. -/
theorem places_do_not_matter_call :
    Program.read [] ("\"a\" f 1" : Text) = .ok (callProgram 97) ∧ (callProgram 97).Placed ∧
      (callProgram 97).RoundTrips ∧
    (∀ q : Program, q.Placed → (callProgram 97).map Expr.unplaced = q.map Expr.unplaced →
      ∀ w, Outcome.unplaced ((callProgram 97).eval 1 w) = Outcome.unplaced (q.eval 1 w)) ∧
    ∀ w, Outcome.unplaced (Program.load 1 [] (callProgram 97).source w) =
      Outcome.unplaced (Program.load 1 [] ("\"a\" f 1" : Text) w) := by
  have hread : Program.read [] ("\"a\" f 1" : Text) = .ok (callProgram 97) :=
    read_callProgram (by cbv)
  have hn : ∀ n ∈ (callProgram 97).numbers, n.ReadsBack := List.forall_mem_singleton.2 one_readsBack
  have hp : (callProgram 97).Placed := placed_read hread
  have hr : (callProgram 97).RoundTrips := by
    have hs : ∀ s ∈ (callProgram 97).strings.dropLast, s.getLast? ≠ some Lexeme.backslash := by
      decide
    refine (roundTrips_iff hread hn).2 ⟨hs, ?_⟩
    simp [callProgram, visits, Expr.visits, Expr.visitsOf, Expr.Fusible]
  exact ⟨hread, hp, hr, fun q hq h w => places_do_not_matter.1 _ q hp hq h 1 w,
    fun w => (places_do_not_matter.2 [] _ _ hread hr [] 1 w).2⟩

end Program

end Tacit
