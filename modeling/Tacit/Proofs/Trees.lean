import Mathlib.Data.List.Basic
import Tacit.Expr.Source
import Tacit.Expr.Walk
import Tacit.Proofs.Words

/-!
# Expression trees

The nodes of an expression are the expression and the nodes of its parts (`nodes_eq`), and a walk
meets just them. Two expressions that differ in places only have the same tree without places, and
the same source.

Reading makes trees of one shape (`Readable`): literals are numbers and strings, an assignment is
no part of anything, a call has its only operand on the right, and every node has its place.
-/

namespace Tacit

namespace Expr

section Induct

variable {P : Expr → Prop}

mutual

/-- What holds of a node when it holds of its parts holds of every expression. -/
theorem induct (h : ∀ e : Expr, (∀ c ∈ e.children, P c) → P e) : ∀ e : Expr, P e
  | .literal v place => h _ (by simp [children])
  | .array ms place => h _ (inductAll h ms)
  | .assign name body place => h _ (by simpa [children] using induct h body)
  | .named name lhs rhs place => h _ (by
    intro c hc
    rcases List.mem_append.1 hc with hc | hc
    · exact inductOf h lhs c (by simpa using hc)
    · exact inductOf h rhs c (by simpa using hc))
  | .called callee lhs rhs place => h _ (by
    have hcallee := induct h callee
    intro c hc
    simp only [children, List.mem_append, List.mem_singleton, Option.mem_toList] at hc
    rcases hc with (hc | rfl) | hc
    · exact inductOf h lhs c hc
    · exact hcallee
    · exact inductOf h rhs c hc)

theorem inductAll (h : ∀ e : Expr, (∀ c ∈ e.children, P c) → P e) :
    ∀ (ms : List Expr), ∀ m ∈ ms, P m
  | [] => by simp
  | e :: es => List.forall_mem_cons.2 ⟨induct h e, inductAll h es⟩

theorem inductOf (h : ∀ e : Expr, (∀ c ∈ e.children, P c) → P e) :
    ∀ (o : Option Expr), ∀ e ∈ o, P e
  | none => by simp
  | some e => by
    rintro _ ⟨⟩
    exact induct h e

end

end Induct

/-- The nodes of an expression, each before its parts. -/
def nodes (e : Expr) : List Expr := (e.visits none 0).map (·.node)

theorem visitsAll_eq (parent : Option Expr) (depth : Nat) :
    ∀ es : List Expr, visitsAll parent depth es = es.flatMap (visits parent depth)
  | [] => rfl
  | e :: es => by rw [visitsAll, visitsAll_eq parent depth es, List.flatMap_cons]

theorem visitsOf_eq (parent : Option Expr) (depth : Nat) (o : Option Expr) :
    visitsOf parent depth o = o.toList.flatMap (visits parent depth) := by
  cases o <;> simp [visitsOf]

/-- A walk meets a node and then its parts. -/
theorem visits_eq (parent : Option Expr) (depth : Nat) (e : Expr) : visits parent depth e =
    ⟨e, parent, depth⟩ :: e.children.flatMap (visits (some e) (depth + 1)) := by
  cases e <;> simp [visits, visitsAll_eq, visitsOf_eq, children, List.flatMap_append]

theorem map_node_visits : ∀ (e : Expr) (parent : Option Expr) (depth : Nat),
    (visits parent depth e).map (·.node) = e.nodes := by
  refine induct fun e ih parent depth => ?_
  have hparts : ∀ (p : Option Expr) (d : Nat),
      (e.children.flatMap (visits p d)).map (·.node) = e.children.flatMap nodes := by
    intro p d
    rw [List.map_flatMap]
    exact List.flatMap_congr fun c hc => ih c hc p d
  rw [nodes, visits_eq, visits_eq none, List.map_cons, List.map_cons, hparts, hparts]

theorem nodes_eq (e : Expr) : e.nodes = e :: e.children.flatMap nodes := by
  rw [nodes, visits_eq, List.map_cons, List.map_flatMap]
  exact congrArg _ (List.flatMap_congr fun c _ => map_node_visits c _ _)

theorem forall_nodes_iff {Q : Expr → Prop} {e : Expr} :
    (∀ n ∈ e.nodes, Q n) ↔ Q e ∧ ∀ c ∈ e.children, ∀ n ∈ c.nodes, Q n := by
  rw [nodes_eq, List.forall_mem_cons]
  simp only [List.mem_flatMap, forall_exists_index, and_imp]
  exact and_congr_right fun _ => ⟨fun h c hc n hn => h n c hc hn, fun h n c hc hn => h c hc n hn⟩

mutual

/-- The tree of an expression without its places. -/
def unplaced : Expr → Expr
  | literal value _ => literal value none
  | array members _ => array (unplacedAll members) none
  | assign name body _ => assign name (unplaced body) none
  | named name lhs rhs _ => named name (unplacedOf lhs) (unplacedOf rhs) none
  | called callee lhs rhs _ => called (unplaced callee) (unplacedOf lhs) (unplacedOf rhs) none

def unplacedAll : List Expr → List Expr
  | [] => []
  | e :: es => unplaced e :: unplacedAll es

def unplacedOf : Option Expr → Option Expr
  | none => none
  | some e => some (unplaced e)

end

theorem unplacedAll_eq : ∀ es : List Expr, unplacedAll es = es.map unplaced
  | [] => rfl
  | e :: es => by rw [unplacedAll, unplacedAll_eq es, List.map_cons]

theorem isCall_unplaced (e : Expr) : e.unplaced.isCall = e.isCall := by
  cases e <;> rfl

theorem sourceAll_congr : ∀ {es fs : List Expr}, es.map source = fs.map source →
    sourceAll es = sourceAll fs
  | [], [], _ => rfl
  | [], _ :: _, h | _ :: _, [], h => by simp at h
  | [e], [f], h => by simpa [sourceAll] using h
  | [_], _ :: _ :: _, h | _ :: _ :: _, [_], h => by simp at h
  | e :: e' :: es, f :: f' :: fs, h => by
    obtain ⟨h₁, h₂⟩ := List.cons.inj h
    rw [sourceAll, sourceAll, h₁, sourceAll_congr h₂]

/-- The source of an expression shows no places. -/
theorem source_unplaced : ∀ e : Expr, e.unplaced.source = e.source := by
  refine induct fun e ih => ?_
  have hof : ∀ o : Option Expr, (∀ x ∈ o, x ∈ e.children) →
      sourceOf (unplacedOf o) = sourceOf o := by
    rintro (_ | x) ho
    · rfl
    · simp only [unplacedOf, sourceOf, ih x (ho x rfl)]
  cases e with
  | literal v place => rfl
  | array ms place =>
    simp only [unplaced, source, unplacedAll_eq]
    rw [sourceAll_congr]
    rw [List.map_map]
    exact List.map_congr_left ih
  | assign name body place =>
    simp only [unplaced, source, ih body (by simp [children])]
  | named name lhs rhs place =>
    simp only [unplaced, source]
    rw [hof lhs (fun x hx => by simp_all [children]), hof rhs (fun x hx => by simp_all [children])]
  | called callee lhs rhs place =>
    simp only [unplaced, source, isCall_unplaced]
    rw [hof lhs (fun x hx => by simp_all [children]), hof rhs (fun x hx => by simp_all [children]),
      ih callee (by simp [children])]

theorem source_eq_of_unplaced {e f : Expr} (h : e.unplaced = f.unplaced) : e.source = f.source := by
  rw [← source_unplaced e, h, source_unplaced]

/-- The text of a string literal. -/
def string? : Expr → Option Text
  | literal (.str s) _ => some s
  | _ => none

/-- The number of a number literal. -/
def number? : Expr → Option Number
  | literal (.num n) _ => some n
  | _ => none

/-- An array some members of which are read together when nothing but blanks divides them. -/
def Fusible : Expr → Prop
  | array members _ => 2 ≤ members.length ∧ ∃ m ∈ members, m.isCall = true
  | _ => False

/-- No array in an expression has members that are read together. -/
def Steady (e : Expr) : Prop := ∀ n ∈ e.nodes, ¬ n.Fusible

/-- An expression as it is read where no assignment may stand. -/
inductive Readable : Expr → Prop where
  | number (x : Float) (l : Location) : Readable (.literal (.num (.ofFloat 0 x)) l)
  | string {s : Text} (h : Lexeme.Closed s) (l : Location) : Readable (.literal (.str s) l)
  | array {ms : List Expr} (h : ∀ m ∈ ms, Readable m) (l : Location) : Readable (.array ms l)
  | name {n : Text} (h : Lexeme.IsName n) (l : Location) : Readable (.named n none none l)
  | named {n : Text} {lhs : Option Expr} {rhs : Expr} (h : Lexeme.IsName n)
      (hl : ∀ x ∈ lhs, Readable x) (hr : Readable rhs) (l : Location) :
      Readable (.named n lhs (some rhs) l)
  | called {c : Expr} {lhs : Option Expr} {rhs : Expr} (hc : Readable c)
      (hl : ∀ x ∈ lhs, Readable x) (hr : Readable rhs) (l : Location) :
      Readable (.called c lhs (some rhs) l)

/-- A statement as it is read. -/
inductive Stated : Expr → Prop where
  | expr {e : Expr} (h : Readable e) : Stated e
  | assign {n : Text} {e : Expr} (h : Lexeme.IsName n) (he : Readable e) (l : Location) :
      Stated (.assign n e l)

end Expr

namespace Program

/-- The string literals of a program, in the order of its source. -/
def strings (p : Program) : List Text := p.visits.filterMap (·.node.string?)

/-- The number literals of a program, in the order of its source. -/
def numbers (p : Program) : List Number := p.visits.filterMap (·.node.number?)

theorem map_node_visits (p : Program) : p.visits.map (·.node) = p.flatMap Expr.nodes :=
  List.map_flatMap

end Program

end Tacit
