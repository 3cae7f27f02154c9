import Mathlib
import Tacit.Proofs.OneWay
import Tacit.Proofs.ReadTrees

/-!
# Reading by positions

A reader that goes by positions in one list of tokens can ask for a token that is not there, or for
the inside of a string that has none, and it can go on for ever. Here it is watched: every token is
looked up, and a bound is put on how deep rules nest and how many members an array has (`Breach`).

The watched reader runs in step with the rules on lists of tokens, and its memory with their tables
(`Follows`). What it finds at a position ends behind that position and within the tokens, and where
it finds nothing it stays (`Outcome.Progresses`). As rules only ever ask further on for an
expression, neither bound is met, and no lookup fails (`rules_by_position`).
-/

namespace Tacit.Reading

/-! ## The rules

Each is the rule on lists of the same name, but for what it looks at: a position in all the tokens,
the last of them first. -/

/-- What may not happen while tokens are read. -/
inductive Breach where
  /-- A token or a byte that is not there is asked for. -/
  | beyond
  /-- Rules nest deeper, or an array goes on longer, than allowed. -/
  | unending
  deriving DecidableEq, Repr

/-- What is read at a position, if anything, and the position where reading goes on. -/
abbrev Outcome (α : Type) := Option α × Nat

/-- What the rules for expressions and for parentheses gave, by position. -/
structure Memory where
  exprs : Std.HashMap Nat (Outcome Expr)
  parens : Std.HashMap Nat (Outcome Expr)

def Memory.empty : Memory := ⟨∅, ∅⟩

/-- The rules run by positions. -/
abbrev Watched := StateT Memory (Except Breach)

/-- What a rule gives at a position. -/
abbrev PositionRule := Nat → Watched (Outcome Expr)

/-- How an expression is made that calls something with some operands. -/
abbrev Call := (lhs rhs : Option Expr) → Expr

/-- The text of a string between its quotes. -/
def interior (lexeme : Text) : Watched Text :=
  if 2 ≤ lexeme.length then pure (unquoted lexeme) else throw .beyond

/-- The first of two alternatives that reads something. -/
def orElseAt (a b : Watched (Outcome Expr)) : Watched (Outcome Expr) := do
  match ← a with
  | (some e, next) => pure (some e, next)
  | (none, _) => b

section Rules

variable (rev : List Token)

/-- The kind of the token at a position, if there is one. -/
def kindAt? (pos : Nat) : Option TokenKind := rev[pos]?.map (·.kind)

/-- The token at a position. -/
def tokenAt (pos : Nat) : Watched Token :=
  match rev[pos]? with
  | some t => pure t
  | none => throw .beyond

/-- The token in front of a position. -/
def tokenBefore : Nat → Watched Token
  | 0 => throw .beyond
  | pos + 1 => tokenAt rev pos

def nullaryAt : PositionRule := fun pos => do
  if kindAt? rev pos = some .ident then
    let t ← tokenAt rev pos
    pure (some (.named t.text none none t.place), pos + 1)
  else pure (none, pos)

def literalAt : PositionRule := fun pos => do
  match kindAt? rev pos with
  | some .num =>
    let t ← tokenAt rev pos
    match Decimal.read? t.text with
    | some x => pure (some (.literal (.num (.ofFloat 0 x)) t.place), pos + 1)
    | none => pure (none, pos)
  | some .str =>
    let t ← tokenAt rev pos
    let s ← interior t.text
    pure (some (.literal (.str s) t.place), pos + 1)
  | _ => pure (none, pos)

/-- As many members of an array as there are, in front of those read before, and the position
behind them. -/
def membersAt (expr : PositionRule) : Nat → List Expr → Nat → Watched (List Expr × Nat)
  | 0, _, _ => throw .unending
  | n + 1, read, pos => do
    match ← expr pos with
    | (some e, next) => membersAt expr n (e :: read) next
    | (none, _) => pure (read, pos)

def arrayAt (expr : PositionRule) : PositionRule := fun pos => do
  if kindAt? rev pos = some .braceR then
    let (es, n) ← membersAt expr (rev.length + 1) [] (pos + 1)
    if kindAt? rev n = some .braceL then
      let o ← tokenAt rev n
      pure (some (.array es o.place), n + 1)
    else pure (none, pos)
  else pure (none, pos)

def betweenAt (expr : PositionRule) : PositionRule := fun pos => do
  if kindAt? rev pos = some .parenR then
    match ← expr (pos + 1) with
    | (some e, n) =>
      if kindAt? rev n = some .parenL then pure (some e, n + 1) else pure (none, pos)
    | (none, _) => pure (none, pos)
  else pure (none, pos)

def operandAt (expr paren : PositionRule) : PositionRule := fun pos =>
  orElseAt (literalAt rev pos) <|
  orElseAt (arrayAt rev expr pos) <|
  orElseAt (paren pos) (nullaryAt rev pos)

def calleeAt (paren : PositionRule) (pos : Nat) : Watched (Outcome Call) := do
  match kindAt? rev pos with
  | some .ident =>
    let t ← tokenAt rev pos
    pure (some fun l r => .named t.text l r t.place, pos + 1)
  | some .parenR =>
    match ← paren pos with
    | (some e, next) =>
      let o ← tokenBefore rev next
      pure (some fun l r => .called e l r o.place, next)
    | (none, _) => pure (none, pos)
  | _ => pure (none, pos)

/-- A call with the callee between its operands, of which the right one has been read and ends at
`n`. -/
def infixAt (expr paren : PositionRule) (rhs : Expr) (pos n : Nat) : Watched (Outcome Expr) := do
  match ← calleeAt rev paren n with
  | (some call, m) =>
    match ← expr m with
    | (some lhs, next) => pure (some (call lhs rhs), next)
    | (none, _) => pure (none, pos)
  | (none, _) => pure (none, pos)

/-- A call with the callee in front of both operands, likewise. -/
def leadingAt (expr paren : PositionRule) (rhs : Expr) (pos n : Nat) :
    Watched (Outcome Expr) := do
  match ← operandAt rev expr paren n with
  | (some lhs, m) =>
    match ← calleeAt rev paren m with
    | (some call, next) => pure (some (call lhs rhs), next)
    | (none, _) => pure (none, pos)
  | (none, _) => pure (none, pos)

def binaryAt (expr paren : PositionRule) : PositionRule := fun pos => do
  match ← operandAt rev expr paren pos with
  | (some rhs, n) =>
    orElseAt (infixAt rev expr paren rhs pos n) (leadingAt rev expr paren rhs pos n)
  | (none, _) => pure (none, pos)

def callOnRightAt (expr paren : PositionRule) : PositionRule := fun pos => do
  match ← operandAt rev expr paren pos with
  | (some x, n) =>
    match ← calleeAt rev paren n with
    | (some call, next) => pure (some (call none x), next)
    | (none, _) => pure (none, pos)
  | (none, _) => pure (none, pos)

def callOnLeftAt (expr paren : PositionRule) : PositionRule := fun pos => do
  match ← calleeAt rev paren pos with
  | (some call, n) =>
    match ← expr n with
    | (some x, next) => pure (some (call none x), next)
    | (none, _) => pure (none, pos)
  | (none, _) => pure (none, pos)

def unaryAt (expr paren : PositionRule) : PositionRule := fun pos =>
  orElseAt (callOnRightAt rev expr paren pos) (callOnLeftAt rev expr paren pos)

def alternativesAt (expr paren : PositionRule) : PositionRule := fun pos =>
  orElseAt (binaryAt rev expr paren pos) <|
  orElseAt (unaryAt rev expr paren pos) <|
  orElseAt (nullaryAt rev pos) <|
  orElseAt (literalAt rev pos) <|
  orElseAt (arrayAt rev expr pos) (paren pos)

/-- A rule for parentheses that remembers what it gave. -/
def rememberedParen (rule : PositionRule) : PositionRule := fun pos => do
  match (← get).parens[pos]? with
  | some r => pure r
  | none =>
    let r ← rule pos
    modify fun m => { m with parens := m.parens.insert pos r }
    pure r

/-- A rule for expressions that remembers what it gave. -/
def rememberedExpr (rule : PositionRule) : PositionRule := fun pos => do
  match (← get).exprs[pos]? with
  | some r => pure r
  | none =>
    let r ← rule pos
    modify fun m => { m with exprs := m.exprs.insert pos r }
    pure r

/-- An expression, with rules nesting no deeper than `depth`. -/
def exprAt : Nat → PositionRule
  | 0 => fun _ => throw .unending
  | depth + 1 => rememberedExpr fun pos =>
    alternativesAt rev (exprAt depth) (rememberedParen (betweenAt rev (exprAt depth))) pos

end Rules

/-- What was read, if it takes up all tokens, the first of which is `t`. -/
def acceptAt (rev : List Token) (t : Token) : Outcome Expr → Watched (Except Fault Expr)
  | (none, _) => pure (.error (.malformed t.place "unable to parse expression"))
  | (some e, next) => do
    if next < rev.length then
      let u ← tokenAt rev next
      pure (.error (.malformed u.place ("unexpected " ++ u.describe)))
    else pure (.ok e)

/-- Reads one expression that takes up all tokens. -/
def readAt (ts : List Token) : Except Breach (Except Fault Expr) :=
  match ts with
  | [] => .ok (.error (.malformed none "missing expression"))
  | t :: _ =>
    let rev := ts.reverse
    (exprAt rev (ts.length + 1) 0 >>= acceptAt rev t).run' .empty

/-! ## In step with the rules on lists -/

/-- A rule that reads something at a position ends behind it, at the end of the tokens at most; a
rule that reads nothing stays. -/
def Outcome.Progresses {α : Type} (length pos : Nat) : Outcome α → Prop
  | (some _, next) => pos < next ∧ next ≤ length
  | (none, next) => next = pos

/-- What is read at a position is what a rule on lists gives for the tokens from there on. -/
def Agrees {α : Type} (rev : List Token) (pos : Nat) (a : Outcome α)
    (b : Option (α × List Token)) : Prop :=
  a.Progresses rev.length pos ∧ b = a.1.map fun x => (x, rev.drop a.2)

/-- Two entries, one by position and one by how many tokens were left. -/
def SameEntry (rev : List Token) (pos : Nat) : Option (Outcome Expr) → Option Result → Prop
  | some a, some b => Agrees rev pos a b
  | none, none => True
  | _, _ => False

/-- A memory and tables hold the same. -/
structure Same (rev : List Token) (m : Memory) (t : Tables) : Prop where
  exprs : ∀ pos ≤ rev.length, SameEntry rev pos m.exprs[pos]? t.exprs[rev.length - pos]?
  parens : ∀ pos ≤ rev.length, SameEntry rev pos m.parens[pos]? t.parens[rev.length - pos]?

/-- From a memory and tables that hold the same, the first runs without a breach to an outcome
related to that of the second, and they hold the same afterwards. -/
def Follows {α β : Type} (rev : List Token) (R : α → β → Prop) (x : Watched α) (y : Tabled β) :
    Prop :=
  ∀ m t, Same rev m t → ∃ a m', x m = .ok (a, m') ∧ R a (y t).1 ∧ Same rev m' (y t).2

section Agreement

variable {α : Type} {rev : List Token} {pos next : Nat}

theorem Agrees.none : Agrees (α := α) rev pos (none, pos) none := ⟨rfl, rfl⟩

theorem Agrees.some {x : α} (h : pos < next) (hn : next ≤ rev.length) :
    Agrees rev pos (some x, next) (some (x, rev.drop next)) := ⟨⟨h, hn⟩, rfl⟩

/-- Where two readings agree, either both give nothing, or both give the same and end at the same
place. -/
theorem Agrees.cases {a : Outcome α} {b : Option (α × List Token)} (h : Agrees rev pos a b) :
    (a = (Option.none, pos) ∧ b = Option.none) ∨ ∃ x next, a = (Option.some x, next) ∧
      b = Option.some (x, rev.drop next) ∧ pos < next ∧ next ≤ rev.length := by
  obtain ⟨_ | x, next⟩ := a
  · exact .inl ⟨congrArg (Prod.mk Option.none) h.1, h.2⟩
  · exact .inr ⟨x, next, rfl, h.2, h.1⟩

end Agreement

section Follows

variable {α β γ δ : Type} {rev : List Token} {R : α → β → Prop} {Q : γ → δ → Prop}

theorem Follows.pure {a : α} {b : β} (h : R a b) : Follows rev R (pure a) (pure b) :=
  fun m _ hm => ⟨a, m, rfl, h, hm⟩

theorem Follows.bind {x : Watched α} {y : Tabled β} {f : α → Watched γ} {g : β → Tabled δ}
    (h : Follows rev R x y) (hf : ∀ a b, R a b → Follows rev Q (f a) (g b)) :
    Follows rev Q (x >>= f) (y >>= g) := by
  intro m t hm
  obtain ⟨a, m', hx, hab, hm'⟩ := h m t hm
  obtain ⟨c, m'', hf, hcd, hm''⟩ := hf a (y t).1 hab m' (y t).2 hm'
  refine ⟨c, m'', ?_, hcd, hm''⟩
  show (x m >>= fun r => f r.1 r.2) = _
  rw [hx]
  exact hf

theorem Follows.get : Follows rev (Same rev) get get := fun m _ hm => ⟨m, m, rfl, hm, hm⟩

theorem Follows.modify {f : Memory → Memory} {g : Tables → Tables}
    (h : ∀ m t, Same rev m t → Same rev (f m) (g t)) :
    Follows rev (fun _ _ => True) (modify f) (modify g) :=
  fun m t hm => ⟨⟨⟩, f m, rfl, trivial, h m t hm⟩

end Follows

section Lookup

variable {rev : List Token} {pos : Nat} {t : Token}

/-- At a position there is no token, and none left over, or there is one in front of the rest. -/
theorem getElem?_cases (rev : List Token) (pos : Nat) :
    (rev[pos]? = none ∧ rev.drop pos = []) ∨
    ∃ t, rev[pos]? = some t ∧ rev.drop pos = t :: rev.drop (pos + 1) ∧ pos < rev.length := by
  rcases Nat.lt_or_ge pos rev.length with h | h
  · exact .inr ⟨rev[pos], List.getElem?_eq_getElem h, List.drop_eq_getElem_cons h, h⟩
  · exact .inl ⟨List.getElem?_eq_none h, List.drop_eq_nil_of_le h⟩

theorem kindAt?_of_none (h : rev[pos]? = none) : kindAt? rev pos = none := by
  rw [kindAt?, h, Option.map_none]

theorem kindAt?_of_some (h : rev[pos]? = some t) : kindAt? rev pos = some t.kind := by
  rw [kindAt?, h, Option.map_some]

theorem tokenAt_of_some (h : rev[pos]? = some t) : tokenAt rev pos = pure t := by
  rw [tokenAt, h]

theorem tokenBefore_of_some (h : rev[pos]? = some t) : tokenBefore rev (pos + 1) = pure t :=
  tokenAt_of_some h

theorem interior_of_length {lexeme : Text} (h : 2 ≤ lexeme.length) :
    interior lexeme = pure (unquoted lexeme) := if_pos h

end Lookup

/-- Strings have a quote at either end. -/
def AllQuoted (ts : List Token) : Prop := ∀ t ∈ ts, t.kind = .str → 2 ≤ t.text.length

section Rules

variable {rev : List Token} {expr paren : PositionRule} {expr' paren' : Rule Tabled} {pos : Nat}

/-- A rule by positions runs in step with one on lists. -/
abbrev FollowsAt (rev : List Token) (rule : PositionRule) (rule' : Rule Tabled) (pos : Nat) :
    Prop :=
  Follows rev (Agrees rev pos) (rule pos) (rule' (rev.drop pos))

theorem follows_orElse {a b : Watched (Outcome Expr)} {a' b' : Tabled Result}
    (ha : Follows rev (Agrees rev pos) a a') (hb : Follows rev (Agrees rev pos) b b') :
    Follows rev (Agrees rev pos) (orElseAt a b) (orElse a' b') := by
  refine ha.bind fun r r' h => ?_
  obtain ⟨rfl, rfl⟩ | ⟨e, next, rfl, rfl, h, hn⟩ := h.cases
  · exact hb
  · exact .pure (.some h hn)

theorem follows_nullary (rev : List Token) (pos : Nat) :
    FollowsAt rev (nullaryAt rev) (fun ts => pure (nullary ts)) pos := by
  rcases getElem?_cases rev pos with ⟨h, hdrop⟩ | ⟨t, h, hdrop, hlt⟩
  · simp only [FollowsAt, nullaryAt, kindAt?_of_none h, hdrop, nullary]
    exact .pure .none
  · simp only [FollowsAt, nullaryAt, kindAt?_of_some h, tokenAt_of_some h, hdrop, nullary,
      Option.some.injEq, pure_bind]
    split_ifs
    · exact .pure (.some (by omega) (by omega))
    · exact .pure .none

theorem follows_literal (hrev : AllQuoted rev) (pos : Nat) :
    FollowsAt rev (literalAt rev) (fun ts => pure (literal ts)) pos := by
  rcases getElem?_cases rev pos with ⟨h, hdrop⟩ | ⟨t, h, hdrop, hlt⟩
  · simp only [FollowsAt, literalAt, kindAt?_of_none h, hdrop, literal]
    exact .pure .none
  · have hsome : pos < pos + 1 ∧ pos + 1 ≤ rev.length := by omega
    simp only [FollowsAt, literalAt, kindAt?_of_some h, tokenAt_of_some h, hdrop, literal,
      pure_bind]
    cases hk : t.kind
    case num =>
      rcases Decimal.read? t.text with _ | x
      · exact .pure .none
      · exact .pure (.some hsome.1 hsome.2)
    case str =>
      simp only [interior_of_length (hrev t (List.mem_of_getElem? h) hk), pure_bind]
      exact .pure (.some hsome.1 hsome.2)
    all_goals exact .pure .none

theorem follows_members {lo : Nat}
    (hexpr : ∀ p, lo ≤ p → p ≤ rev.length → FollowsAt rev expr expr' p) :
    ∀ (k k' : Nat) (read : List Expr) (p : Nat), lo ≤ p → p ≤ rev.length → rev.length - p < k →
      rev.length - p < k' →
      Follows rev (fun a b => lo ≤ a.2 ∧ a.2 ≤ rev.length ∧ b = (a.1, rev.drop a.2))
        (membersAt expr k read p) (members expr' k' read (rev.drop p))
  | 0, _, _, _, _, _, h, _ => by omega
  | _, 0, _, _, _, _, _, h => by omega
  | k + 1, k' + 1, read, p, hlo, hp, hk, hk' => by
    refine (hexpr p hlo hp).bind fun r r' h => ?_
    obtain ⟨rfl, rfl⟩ | ⟨e, next, rfl, rfl, h, hn⟩ := h.cases
    · exact .pure ⟨hlo, hp, rfl⟩
    · exact follows_members hexpr k k' (e :: read) next (by omega) hn (by omega) (by omega)

theorem follows_array (hexpr : ∀ p, pos < p → p ≤ rev.length → FollowsAt rev expr expr' p) :
    FollowsAt rev (arrayAt rev expr) (array expr') pos := by
  rcases getElem?_cases rev pos with ⟨h, hdrop⟩ | ⟨t, h, hdrop, hlt⟩
  · simp only [FollowsAt, arrayAt, kindAt?_of_none h, hdrop, array]
    exact .pure .none
  · simp only [FollowsAt, arrayAt, kindAt?_of_some h, hdrop, array, Option.some.injEq]
    split_ifs
    · refine (follows_members hexpr _ _ [] (pos + 1) (Nat.le_refl _) hlt (by omega)
        (by rw [List.length_drop]; omega)).bind fun r r' hr => ?_
      obtain ⟨es, n⟩ := r
      obtain ⟨hn, -, rfl⟩ := hr
      rcases getElem?_cases rev n with ⟨ho, hdrop⟩ | ⟨o, ho, hdrop, hlt'⟩
      · simp only [kindAt?_of_none ho, hdrop]
        exact .pure .none
      · simp only [kindAt?_of_some ho, tokenAt_of_some ho, hdrop, Option.some.injEq, pure_bind]
        split_ifs
        · exact .pure (.some (by omega) hlt')
        · exact .pure .none
    · exact .pure .none

theorem follows_between (hexpr : ∀ p, pos < p → p ≤ rev.length → FollowsAt rev expr expr' p) :
    FollowsAt rev (betweenAt rev expr) (between expr') pos := by
  rcases getElem?_cases rev pos with ⟨h, hdrop⟩ | ⟨t, h, hdrop, hlt⟩
  · simp only [FollowsAt, betweenAt, kindAt?_of_none h, hdrop, between]
    exact .pure .none
  · simp only [FollowsAt, betweenAt, kindAt?_of_some h, hdrop, between, Option.some.injEq]
    split_ifs
    · refine (hexpr (pos + 1) (Nat.lt_succ_self pos) hlt).bind fun r r' hr => ?_
      obtain ⟨rfl, rfl⟩ | ⟨e, n, rfl, rfl, hn, -⟩ := hr.cases
      · exact .pure .none
      · rcases getElem?_cases rev n with ⟨ho, hdrop⟩ | ⟨o, ho, hdrop, hlt'⟩
        · simp only [kindAt?_of_none ho, hdrop]
          exact .pure .none
        · simp only [kindAt?_of_some ho, hdrop, Option.some.injEq]
          split_ifs
          · exact .pure (.some (by omega) hlt')
          · exact .pure .none
    · exact .pure .none

variable (hrev : AllQuoted rev)
  (hexpr : ∀ p, pos < p → p ≤ rev.length → FollowsAt rev expr expr' p)
  (hparen : ∀ p, pos ≤ p → p ≤ rev.length → FollowsAt rev paren paren' p)

include hrev hexpr hparen in
theorem follows_operand {n : Nat} (hpos : pos ≤ n) (hn : n ≤ rev.length) :
    FollowsAt rev (operandAt rev expr paren) (operand expr' paren') n :=
  follows_orElse (follows_literal hrev n) <|
  follows_orElse (follows_array fun p hp hle => hexpr p (by omega) hle) <|
  follows_orElse (hparen n hpos hn) (follows_nullary rev n)

include hparen in
/-- A callee is read in step. For one in parentheses, the opening one is the token in front of where
reading goes on. -/
theorem follows_callee {n : Nat} (hpos : pos ≤ n) (hn : n ≤ rev.length) :
    Follows rev (fun a b => Agrees rev n a (b.map fun c => (c.call, c.rest)))
      (calleeAt rev paren n) (callee paren' (rev.drop n)) := by
  rcases getElem?_cases rev n with ⟨h, hdrop⟩ | ⟨t, h, hdrop, hlt⟩
  · simp only [calleeAt, kindAt?_of_none h, hdrop, callee]
    exact .pure .none
  · have hp := hparen n hpos hn
    rw [FollowsAt, hdrop] at hp
    simp only [calleeAt, kindAt?_of_some h, tokenAt_of_some h, hdrop, callee, pure_bind]
    cases hk : t.kind
    case ident => exact .pure (.some (Nat.lt_succ_self n) hlt)
    case parenR =>
      refine hp.bind fun r r' hr => ?_
      obtain ⟨rfl, rfl⟩ | ⟨e, next, rfl, rfl, hnext, hle⟩ := hr.cases
      · exact .pure .none
      · obtain ⟨m, rfl⟩ : ∃ m, next = m + 1 := ⟨next - 1, by omega⟩
        rcases getElem?_cases rev m with ⟨ho, hdrop'⟩ | ⟨o, ho, hdrop', -⟩
        · rw [List.getElem?_eq_none_iff] at ho
          omega
        · have hsuffix : o :: rev.drop (m + 1) <:+ t :: rev.drop (n + 1) := by
            rw [← hdrop, ← hdrop']
            exact List.drop_suffix_drop_left rev (by omega)
          simp only [tokenBefore_of_some ho, opening?_of_suffix hsuffix, pure_bind]
          exact .pure (.some hnext hle)
    all_goals exact .pure .none

theorem Agrees.callee_cases {n : Nat} {a : Outcome Call} {b : Option Callee}
    (h : Agrees rev n a (b.map fun c => (c.call, c.rest))) :
    (a = (Option.none, n) ∧ b = Option.none) ∨ ∃ call next, a = (Option.some call, next) ∧
      b = Option.some ⟨call, rev.drop next⟩ ∧ n < next ∧ next ≤ rev.length := by
  obtain ⟨rfl, hb⟩ | ⟨call, next, rfl, hb, hn⟩ := h.cases
  · exact .inl ⟨rfl, Option.map_eq_none_iff.1 hb⟩
  · obtain ⟨⟨_, _⟩, rfl, hc⟩ := Option.map_eq_some_iff.1 hb
    cases hc
    exact .inr ⟨_, next, rfl, rfl, hn⟩

include hexpr hparen in
theorem follows_infixCall {rhs : Expr} {n : Nat} (hpos : pos < n) (hn : n ≤ rev.length) :
    Follows rev (Agrees rev pos) (infixAt rev expr paren rhs pos n)
      (infixCall expr' paren' rhs (rev.drop n)) := by
  refine (follows_callee hparen hpos.le hn).bind fun r r' hr => ?_
  obtain ⟨rfl, rfl⟩ | ⟨call, m, rfl, rfl, hm, hle⟩ := hr.callee_cases
  · exact .pure .none
  · refine (hexpr m (by omega) hle).bind fun r r' hr => ?_
    obtain ⟨rfl, rfl⟩ | ⟨lhs, next, rfl, rfl, hnext, hle'⟩ := hr.cases
    · exact .pure .none
    · exact .pure (.some (by omega) hle')

include hrev hexpr hparen in
theorem follows_leadingCall {rhs : Expr} {n : Nat} (hpos : pos < n) (hn : n ≤ rev.length) :
    Follows rev (Agrees rev pos) (leadingAt rev expr paren rhs pos n)
      (leadingCall expr' paren' rhs (rev.drop n)) := by
  refine (follows_operand hrev hexpr hparen hpos.le hn).bind fun r r' hr => ?_
  obtain ⟨rfl, rfl⟩ | ⟨lhs, m, rfl, rfl, hm, hle⟩ := hr.cases
  · exact .pure .none
  · refine (follows_callee hparen (by omega) hle).bind fun r r' hr => ?_
    obtain ⟨rfl, rfl⟩ | ⟨call, next, rfl, rfl, hnext, hle'⟩ := hr.callee_cases
    · exact .pure .none
    · exact .pure (.some (by omega) hle')

variable (hpos : pos ≤ rev.length)

include hrev hexpr hparen hpos in
theorem follows_binary : FollowsAt rev (binaryAt rev expr paren) (binaryCall expr' paren') pos := by
  refine (follows_operand hrev hexpr hparen (Nat.le_refl _) hpos).bind fun r r' hr => ?_
  obtain ⟨rfl, rfl⟩ | ⟨rhs, n, rfl, rfl, hn, hle⟩ := hr.cases
  · exact .pure .none
  · exact follows_orElse (follows_infixCall hexpr hparen hn hle)
      (follows_leadingCall hrev hexpr hparen hn hle)

include hrev hexpr hparen hpos in
theorem follows_callOnRight :
    FollowsAt rev (callOnRightAt rev expr paren) (callOnRight expr' paren') pos := by
  refine (follows_operand hrev hexpr hparen (Nat.le_refl _) hpos).bind fun r r' hr => ?_
  obtain ⟨rfl, rfl⟩ | ⟨x, n, rfl, rfl, hn, hle⟩ := hr.cases
  · exact .pure .none
  · refine (follows_callee hparen hn.le hle).bind fun r r' hr => ?_
    obtain ⟨rfl, rfl⟩ | ⟨call, next, rfl, rfl, hnext, hle'⟩ := hr.callee_cases
    · exact .pure .none
    · exact .pure (.some (by omega) hle')

include hexpr hparen hpos in
theorem follows_callOnLeft :
    FollowsAt rev (callOnLeftAt rev expr paren) (callOnLeft expr' paren') pos := by
  refine (follows_callee hparen (Nat.le_refl _) hpos).bind fun r r' hr => ?_
  obtain ⟨rfl, rfl⟩ | ⟨call, n, rfl, rfl, hn, hle⟩ := hr.callee_cases
  · exact .pure .none
  · refine (hexpr n hn hle).bind fun r r' hr => ?_
    obtain ⟨rfl, rfl⟩ | ⟨x, next, rfl, rfl, hnext, hle'⟩ := hr.cases
    · exact .pure .none
    · exact .pure (.some (by omega) hle')

include hrev hexpr hparen hpos in
theorem follows_unary : FollowsAt rev (unaryAt rev expr paren) (unaryCall expr' paren') pos :=
  follows_orElse (follows_callOnRight hrev hexpr hparen hpos)
    (follows_callOnLeft hexpr hparen hpos)

include hrev hexpr hparen hpos in
/-- The alternatives run in step where the two rules they are written against do: the rule for an
expression behind the position, the rule for parentheses from there on. -/
theorem follows_alternatives :
    FollowsAt rev (alternativesAt rev expr paren) (alternatives expr' paren') pos :=
  follows_orElse (follows_binary hrev hexpr hparen hpos) <|
  follows_orElse (follows_unary hrev hexpr hparen hpos) <|
  follows_orElse (follows_nullary rev pos) <|
  follows_orElse (follows_literal hrev pos) <|
  follows_orElse (follows_array hexpr) (hparen pos (Nat.le_refl _) hpos)

end Rules

section Memory

variable {rev : List Token} {pos : Nat}

theorem SameEntry.insert {m : Std.HashMap Nat (Outcome Expr)} {t : Std.HashMap Nat Result}
    {a : Outcome Expr} {b : Result} (hab : Agrees rev pos a b) (hpos : pos ≤ rev.length)
    (h : ∀ p ≤ rev.length, SameEntry rev p m[p]? t[rev.length - p]?) :
    ∀ p ≤ rev.length,
      SameEntry rev p (m.insert pos a)[p]? (t.insert (rev.length - pos) b)[rev.length - p]? := by
  intro p hp
  rw [Std.HashMap.getElem?_insert, Std.HashMap.getElem?_insert]
  by_cases heq : pos = p
  · subst heq
    simpa [SameEntry] using hab
  · have hne : rev.length - pos ≠ rev.length - p := by omega
    simpa [heq, hne] using h p hp

theorem Same.empty (rev : List Token) : Same rev .empty .empty :=
  ⟨fun _ _ => by simp [Memory.empty, Tables.empty, SameEntry],
    fun _ _ => by simp [Memory.empty, Tables.empty, SameEntry]⟩

theorem follows_rememberedParen {rule : PositionRule} {rule' : Rule Tabled}
    (hpos : pos ≤ rev.length) (h : FollowsAt rev rule rule' pos) :
    FollowsAt rev (rememberedParen rule) (tabledParen rule') pos := by
  refine Follows.get.bind fun m t hm => ?_
  have hentry := hm.parens pos hpos
  rw [← List.length_drop] at hentry
  revert hentry
  rcases m.parens[pos]? with _ | a <;> rcases t.parens[(rev.drop pos).length]? with _ | b <;>
    intro hentry
  · refine h.bind fun a b hab => ?_
    refine (Follows.modify fun m t hm => ?_).bind fun _ _ _ => .pure hab
    rw [List.length_drop]
    exact ⟨hm.exprs, SameEntry.insert hab hpos hm.parens⟩
  · exact hentry.elim
  · exact hentry.elim
  · exact .pure hentry

/-- A rule that remembers is in step with the one on lists if the rule itself is. -/
theorem follows_rememberedExpr {rule : PositionRule} {rule' : Rule Tabled}
    (hpos : pos ≤ rev.length) (h : FollowsAt rev rule rule' pos) :
    FollowsAt rev (rememberedExpr rule) (tabledExpr rule') pos := by
  refine Follows.get.bind fun m t hm => ?_
  have hentry := hm.exprs pos hpos
  rw [← List.length_drop] at hentry
  revert hentry
  rcases m.exprs[pos]? with _ | a <;> rcases t.exprs[(rev.drop pos).length]? with _ | b <;>
    intro hentry
  · refine h.bind fun a b hab => ?_
    refine (Follows.modify fun m t hm => ?_).bind fun _ _ _ => .pure hab
    rw [List.length_drop]
    exact ⟨SameEntry.insert hab hpos hm.exprs, hm.parens⟩
  · exact hentry.elim
  · exact hentry.elim
  · exact .pure hentry

/-- Rules nest at most as deep as there are tokens from a position on. -/
theorem follows_expr (hrev : AllQuoted rev) : ∀ (depth pos : Nat), pos ≤ rev.length →
    rev.length - pos < depth → FollowsAt rev (exprAt rev depth) (tabledExpression depth) pos
  | 0, _, _, h => by omega
  | depth + 1, pos, hpos, h => by
    have hexpr : ∀ p, pos < p → p ≤ rev.length →
        FollowsAt rev (exprAt rev depth) (tabledExpression depth) p :=
      fun p hp hle => follows_expr hrev depth p hle (by omega)
    refine follows_rememberedExpr hpos (follows_alternatives hrev hexpr (fun p hp hle => ?_) hpos)
    exact follows_rememberedParen hle (follows_between fun q hq => hexpr q (by omega))

end Memory

/-- A statement is read by position as it is read from a list, and without a breach. -/
theorem readAt_eq {ts : List Token} (hts : AllQuoted ts) : readAt ts = .ok (Expr.read ts) := by
  rcases ts with _ | ⟨t, us⟩
  · rfl
  · have hrev : AllQuoted (t :: us).reverse := fun u hu => hts u (List.mem_reverse.1 hu)
    obtain ⟨a, m, hrun, hab, -⟩ := follows_expr hrev ((t :: us).length + 1) 0 (Nat.zero_le _)
      (by simp) .empty .empty (Same.empty _)
    rw [List.drop_zero] at hab
    have hread : readAt (t :: us) = (acceptAt (t :: us).reverse t a m).map Prod.fst := by
      show ((exprAt _ _ 0 Memory.empty >>= fun r => acceptAt _ t r.1 r.2).map Prod.fst) = _
      rw [hrun]
      rfl
    rw [hread]
    simp only [Expr.read, StateT.run]
    obtain ⟨rfl, hb⟩ | ⟨e, next, rfl, hb, -⟩ := hab.cases
    · rw [hb]
      rfl
    · rw [hb]
      rcases getElem?_cases (t :: us).reverse next with ⟨hu, hdrop⟩ | ⟨u, hu, hdrop, hlt⟩
      · rw [hdrop, acceptAt, if_neg (Nat.not_lt.2 (List.getElem?_eq_none_iff.1 hu))]
        rfl
      · rw [hdrop, acceptAt, if_pos hlt, tokenAt_of_some hu, pure_bind]
        rfl

theorem allQuoted_of_spelled {ts : List Token} (h : AllSpelled ts) : AllQuoted ts := by
  intro t ht hk
  have hs : Spelled (t.kind, t.text) := h t ht
  rw [hk] at hs
  obtain ⟨s, hs, -⟩ := hs
  have hlen := congrArg List.length hs
  rw [Lexeme.length_quoted] at hlen
  exact hlen ▸ Nat.le_add_left 2 s.length

/-- Of tokens of a source, each rule runs at every position without a breach, in step with the rule
on lists of tokens, whatever is remembered: what it reads takes a token at least and ends within the
tokens, and when it reads nothing it stays. So an expression is read, or refused, as it is without
watching. -/
theorem rules_by_position {file src : Text} {tokens ts : List Token}
    (hlex : lex file src = .ok tokens) (hts : ts <:+: tokens) :
    let rev := ts.reverse
    Same rev .empty .empty ∧
    (∀ depth pos : Nat, pos ≤ rev.length → rev.length - pos < depth →
      let expr := exprAt rev depth
      let paren := rememberedParen (betweenAt rev expr)
      let expr' := tabledExpression depth
      let paren' := tabledParen (between expr')
      FollowsAt rev expr expr' pos ∧
      FollowsAt rev (binaryAt rev expr paren) (binaryCall expr' paren') pos ∧
      FollowsAt rev (unaryAt rev expr paren) (unaryCall expr' paren') pos ∧
      FollowsAt rev (nullaryAt rev) (fun us => pure (nullary us)) pos ∧
      FollowsAt rev (literalAt rev) (fun us => pure (literal us)) pos ∧
      FollowsAt rev (arrayAt rev expr) (array expr') pos ∧
      FollowsAt rev paren paren' pos ∧
      FollowsAt rev (operandAt rev expr paren) (operand expr' paren') pos ∧
      Follows rev (fun a b => Agrees rev pos a (b.map fun c => (c.call, c.rest)))
        (calleeAt rev paren pos) (callee paren' (rev.drop pos))) ∧
    readAt ts = .ok (Expr.read ts) := by
  intro rev
  have hquoted : AllQuoted ts :=
    fun t ht => allQuoted_of_spelled (spelled_of_lex hlex) t (hts.subset ht)
  have hrev : AllQuoted rev := fun t ht => hquoted t (List.mem_reverse.1 ht)
  refine ⟨Same.empty rev, fun depth pos hpos hdepth => ?_, readAt_eq hquoted⟩
  intro expr paren expr' paren'
  have hexpr : ∀ p, pos ≤ p → p ≤ rev.length → FollowsAt rev expr expr' p :=
    fun p hp hle => follows_expr hrev depth p hle (by omega)
  have hbehind : ∀ p, pos < p → p ≤ rev.length → FollowsAt rev expr expr' p :=
    fun p hp => hexpr p hp.le
  have hparen : ∀ p, pos ≤ p → p ≤ rev.length → FollowsAt rev paren paren' p :=
    fun p hp hle => follows_rememberedParen hle
      (follows_between fun q hq => hbehind q (by omega))
  exact ⟨hexpr pos (Nat.le_refl _) hpos, follows_binary hrev hbehind hparen hpos,
    follows_unary hrev hbehind hparen hpos, follows_nullary rev pos, follows_literal hrev pos,
    follows_array hbehind, hparen pos (Nat.le_refl _) hpos,
    follows_operand hrev hbehind hparen (Nat.le_refl _) hpos,
    follows_callee hparen (Nat.le_refl _) hpos⟩

/-- The tokens of `(f "a"`. -/
def unclosed : List Token :=
  [⟨.parenL, "(", ⟨[], 0, 1, 1⟩⟩, ⟨.ident, "f", ⟨[], 1, 1, 2⟩⟩, ⟨.str, "\"a\"", ⟨[], 3, 1, 4⟩⟩]

theorem rules_by_position_unclosed :
    lex [] "(f \"a\"" = .ok unclosed ∧
    FollowsAt unclosed.reverse (exprAt unclosed.reverse 4) (tabledExpression 4) 0 ∧
    readAt unclosed = .ok (.error (.malformed (some ⟨[], 0, 1, 1⟩) "unexpected (")) := by
  have hlex : lex [] "(f \"a\"" = .ok unclosed := by cbv
  obtain ⟨-, hrules, hread⟩ := rules_by_position hlex (List.infix_refl _)
  refine ⟨hlex, (hrules 4 0 (by decide) (by decide)).1, hread.trans ?_⟩
  cbv

end Tacit.Reading
