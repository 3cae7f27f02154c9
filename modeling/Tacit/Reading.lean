import Tacit.Expr
import Tacit.Token
import Std.Data.HashMap

/-!
# Reading expressions from the end of a statement

A statement's tokens are read from the last to the first, so the rightmost operand of a call is
found before the call and operands without parentheses associate to the right. Each rule takes
the tokens still to be read, last first, and gives an expression and the tokens left over, or
nothing. Alternatives are tried in order, and the first that gives an expression is taken.

The rules are written against two others, for an expression and for one between parentheses, and
against a monad. Run with tables, each of the two remembers what it gave at every position, which
keeps backtracking cheap; run without, the rules are the grammar.
-/

namespace Tacit.Reading

/-- An expression and the tokens left over, when a rule gives one. -/
abbrev Result := Option (Expr × List Token)

/-- What a rule gives for the tokens still to be read, last first. -/
abbrev Rule (m : Type → Type) := List Token → m Result

/-- A callee, and how an expression that calls it with some operands is made. -/
structure Callee where
  call : (lhs rhs : Option Expr) → Expr
  rest : List Token

/-- A name. -/
def nullary : List Token → Result
  | t :: rest => if t.kind = .ident then some (.named t.text none none t.place, rest) else none
  | [] => none

/-- The text of a string between its quotes. -/
def unquoted (lexeme : Text) : Text := (lexeme.drop 1).dropLast

/-- A number or string. A number past the largest one is no literal. -/
def literal : List Token → Result
  | t :: rest =>
    match t.kind with
    | .num => (Decimal.read? t.text).map fun x => (.literal (.num (.ofFloat 0 x)) t.place, rest)
    | .str => some (.literal (.str (unquoted t.text)) t.place, rest)
    | _ => none
  | [] => none

section Rules

variable {m : Type → Type} [Monad m]

/-- The first of two alternatives that gives an expression. -/
def orElse (a : m Result) (b : m Result) : m Result := do
  match ← a with
  | some r => pure (some r)
  | none => b

/-- As many members of an array as there are, read from the last, in front of those read before,
and the tokens left over. Each takes a token at least, so the count of tokens bounds them. -/
def members (expr : Rule m) : Nat → List Expr → List Token → m (List Expr × List Token)
  | 0, read, ts => pure (read, ts)
  | n + 1, read, ts => do
    match ← expr ts with
    | some (e, rest) => members expr n (e :: read) rest
    | none => pure (read, ts)

/-- An array, its closing bracket first. -/
def array (expr : Rule m) : Rule m
  | t :: rest => do
    if t.kind = .braceR then
      match ← members expr (rest.length + 1) [] rest with
      | (es, o :: rest) =>
        if o.kind = .braceL then pure (some (.array es o.place, rest)) else pure none
      | (_, []) => pure none
    else pure none
  | [] => pure none

/-- An expression between parentheses, the closing one first. -/
def between (expr : Rule m) : Rule m
  | t :: rest => do
    if t.kind = .parenR then
      match ← expr rest with
      | some (e, o :: rest) => if o.kind = .parenL then pure (some (e, rest)) else pure none
      | _ => pure none
    else pure none
  | [] => pure none

/-- What can be an operand without further parentheses. -/
def operand (expr paren : Rule m) : Rule m := fun ts =>
  orElse (pure (literal ts)) (orElse (array expr ts) (orElse (paren ts) (pure (nullary ts))))

/-- The opening parenthesis in front of `rest`, which is what is left of `ts`. -/
def opening? (ts rest : List Token) : Option Token := ts[ts.length - rest.length - 1]?

/-- A name, or an expression between parentheses, to be called. -/
def callee (paren : Rule m) : List Token → m (Option Callee)
  | t :: rest => do
    match t.kind with
    | .ident => pure (some ⟨fun l r => .named t.text l r t.place, rest⟩)
    | .parenR =>
      match ← paren (t :: rest) with
      | some (e, rest') =>
        let place := (opening? (t :: rest) rest').map (·.place)
        pure (some ⟨fun l r => .called e l r place, rest'⟩)
      | none => pure none
    | _ => pure none
  | [] => pure none

/-- A call of two operands with the callee between them. -/
def infixCall (expr paren : Rule m) (rhs : Expr) (ts : List Token) : m Result := do
  match ← callee paren ts with
  | some c =>
    match ← expr c.rest with
    | some (lhs, rest) => pure (some (c.call lhs rhs, rest))
    | none => pure none
  | none => pure none

/-- A call of two operands with the callee in front of them. -/
def leadingCall (expr paren : Rule m) (rhs : Expr) (ts : List Token) : m Result := do
  match ← operand expr paren ts with
  | some (lhs, ts) =>
    match ← callee paren ts with
    | some c => pure (some (c.call lhs rhs, c.rest))
    | none => pure none
  | none => pure none

/-- A call of two operands: `lhs f rhs`, or else `f lhs rhs`. -/
def binaryCall (expr paren : Rule m) : Rule m := fun ts => do
  match ← operand expr paren ts with
  | some (rhs, ts) => orElse (infixCall expr paren rhs ts) (leadingCall expr paren rhs ts)
  | none => pure none

/-- A call `f x`. -/
def callOnRight (expr paren : Rule m) : Rule m := fun ts => do
  match ← operand expr paren ts with
  | some (x, ts) =>
    match ← callee paren ts with
    | some c => pure (some (c.call none x, c.rest))
    | none => pure none
  | none => pure none

/-- A call `x f`. -/
def callOnLeft (expr paren : Rule m) : Rule m := fun ts => do
  match ← callee paren ts with
  | some c =>
    match ← expr c.rest with
    | some (x, rest) => pure (some (c.call none x, rest))
    | none => pure none
  | none => pure none

/-- A call of one operand: `f x`, or else `x f`. -/
def unaryCall (expr paren : Rule m) : Rule m := fun ts =>
  orElse (callOnRight expr paren ts) (callOnLeft expr paren ts)

/-- The alternatives for an expression. -/
def alternatives (expr paren : Rule m) : Rule m := fun ts =>
  orElse (binaryCall expr paren ts) <|
  orElse (unaryCall expr paren ts) <|
  orElse (pure (nullary ts)) <|
  orElse (pure (literal ts)) <|
  orElse (array expr ts) (paren ts)

end Rules

/-- The grammar: an expression, with `depth` bounding how deep rules nest. -/
def expression : Nat → Rule Id
  | 0, _ => none
  | depth + 1, ts => alternatives (expression depth) (between (expression depth)) ts

/-- What the rules for expressions and for parentheses gave, by how many tokens were left. -/
structure Tables where
  exprs : Std.HashMap Nat Result
  parens : Std.HashMap Nat Result

def Tables.empty : Tables := ⟨∅, ∅⟩

/-- The rules run with tables. -/
abbrev Tabled := StateM Tables

/-- A rule for parentheses that remembers what it gave. -/
def tabledParen (rule : Rule Tabled) : Rule Tabled := fun ts => do
  match (← get).parens[ts.length]? with
  | some r => pure r
  | none =>
    let r ← rule ts
    modify fun t => { t with parens := t.parens.insert ts.length r }
    pure r

/-- A rule for expressions that remembers what it gave. -/
def tabledExpr (rule : Rule Tabled) : Rule Tabled := fun ts => do
  match (← get).exprs[ts.length]? with
  | some r => pure r
  | none =>
    let r ← rule ts
    modify fun t => { t with exprs := t.exprs.insert ts.length r }
    pure r

/-- An expression read with tables, with `depth` bounding how deep rules nest. -/
def tabledExpression : Nat → Rule Tabled
  | 0, _ => pure none
  | depth + 1, ts =>
    tabledExpr (fun ts =>
      alternatives (tabledExpression depth) (tabledParen (between (tabledExpression depth))) ts) ts

end Tacit.Reading

namespace Tacit

/-- Reads one expression that takes up all tokens. -/
def Expr.read (ts : List Token) : Except Fault Expr :=
  match ts with
  | [] => .error (.malformed none "missing expression")
  | t :: _ =>
    let rev := ts.reverse
    match ((Reading.tabledExpression (ts.length + 1) rev).run .empty).1 with
    | none => .error (.malformed t.place "unable to parse expression")
    | some (e, []) => .ok e
    | some (_, t :: _) => .error (.malformed t.place ("unexpected " ++ t.describe))

/-- Reads one statement, an expression or an assignment, that takes up all tokens. -/
def Expr.readStatement (ts : List Token) : Except Fault Expr :=
  match ts with
  | [] => .error (.malformed none "empty statement")
  | [t, u] =>
    if t.kind = .ident ∧ u.kind = .assign then
      .error (.malformed u.place "missing expression after <-")
    else Expr.read ts
  | t :: u :: rest =>
    if t.kind = .ident ∧ u.kind = .assign then
      (Expr.read rest).map fun e => .assign t.text e t.place
    else Expr.read ts
  | _ => Expr.read ts

/-- The tokens between semicolons, empty stretches left out. -/
def statements : List Token → List (List Token)
  | [] => []
  | t :: ts =>
    if t.kind = .semi then statements ts
    else
      match ts, statements ts with
      | u :: _, s :: rest => if u.kind = .semi then [t] :: s :: rest else (t :: s) :: rest
      | _, rest => [t] :: rest

/-- Reads statements divided by semicolons; empty ones are ignored. -/
def Program.ofTokens (ts : List Token) : Except Fault Program :=
  (statements ts).mapM Expr.readStatement

end Tacit
