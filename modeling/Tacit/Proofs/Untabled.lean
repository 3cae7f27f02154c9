import Tacit.Proofs.Tables

/-!
# The tables change nothing but the work

While a statement is read, the tables go through many states: entries are made in the middle of
alternatives that come to nothing, for positions in any order. All those states are `Reached`. In
each of them both rules that remember give at every position what they give without tables, so
expressions, statements and programs are read, or refused, as they are without
(`reached_tables_transparent`).
-/

namespace Tacit

namespace Reading

/-- The tables that reading `ts` can come to. Nothing changes them but calls of the two rules that
remember; any call may come next, at any position, and a call made by another begins in the state
that the calls before it have left. -/
inductive Tables.Reached (ts : List Token) : Tables → Prop where
  | start : Reached ts .empty
  | expr {t : Tables} {us : List Token} {d : Nat} (h : Reached ts t) (hu : us <:+ ts)
      (hd : us.length < d) : Reached ts ((tabledExpression d us).run t).2
  | paren {t : Tables} {us : List Token} {d : Nat} (h : Reached ts t) (hu : us <:+ ts)
      (hd : us.length ≤ d) : Reached ts ((tabledParen (between (tabledExpression d)) us).run t).2

section Reached

variable {ts us : List Token} {d : Nat}

theorem sim_tabledBetween (hu : us <:+ ts) (hd : us.length ≤ d) :
    (tabling ts).At (tabledParen (between (tabledExpression d))) (between (m := Id) grammar) us := by
  refine sim_tabledParen hu (sim_between (tabling ts) fun vs hv => ?_)
  have := hv.2
  exact sim_tabledExpression ts d vs (hv.1.trans hu) (by omega)

/-- Tables that reading can come to hold what the grammar gives. -/
theorem Tables.Reached.right {t : Tables} (h : t.Reached ts) : t.Right ts := by
  induction h with
  | start => exact Tables.empty_right ts
  | expr _ hu hd ih => exact ((sim_tabledExpression ts _ _ hu hd).2 _ ih).2
  | paren _ hu hd ih => exact ((sim_tabledBetween hu hd).2 _ ih).2

theorem between_eq_grammar (hd : us.length ≤ d) :
    between (m := Id) (expression d) us = between (m := Id) grammar us := by
  refine (sim_between equality fun vs hv => ?_).1
  have := hv.2
  rw [Simulation.At, expression_eq_grammar (show vs.length < d by omega)]
  exact ⟨rfl, grammar_advances vs⟩

variable {t : Tables} (h : t.Reached ts) (hu : us <:+ ts)
include h hu

theorem Tables.Reached.expr_eq (hd : us.length < d) :
    ((tabledExpression d us).run t).1 = expression d us := by
  rw [expression_eq_grammar hd]
  exact ((sim_tabledExpression ts d us hu hd).2 t h.right).1

theorem Tables.Reached.paren_eq (hd : us.length ≤ d) :
    ((tabledParen (between (tabledExpression d)) us).run t).1
      = between (m := Id) (expression d) us := by
  rw [between_eq_grammar hd]
  exact ((sim_tabledBetween hu hd).2 t h.right).1

end Reached

end Reading

open Reading

/-- Reads one expression as `Expr.read` does, by the rules alone. -/
def Expr.readUntabled (ts : List Token) : Except Fault Expr :=
  match ts, expression (ts.length + 1) ts.reverse with
  | [], _ => .error (.malformed none "missing expression")
  | t :: _, none => .error (.malformed t.place "unable to parse expression")
  | _ :: _, some (e, []) => .ok e
  | _ :: _, some (_, u :: _) => .error (.malformed u.place ("unexpected " ++ u.describe))

/-- Reads one statement as `Expr.readStatement` does, by the rules alone. -/
def Expr.readStatementUntabled : List Token → Except Fault Expr
  | [] => .error (.malformed none "empty statement")
  | t :: u :: rest =>
    if t.kind = .ident ∧ u.kind = .assign then
      if rest.isEmpty then .error (.malformed u.place "missing expression after <-")
      else (readUntabled rest).map fun e => .assign t.text e t.place
    else readUntabled (t :: u :: rest)
  | ts => readUntabled ts

/-- Reads statements divided by semicolons as `Program.ofTokens` does, by the rules alone. -/
def Program.ofTokensUntabled (ts : List Token) : Except Fault Program :=
  (statements ts).mapM Expr.readStatementUntabled

theorem Expr.read_eq_untabled (ts : List Token) : Expr.read ts = Expr.readUntabled ts := by
  rcases ts with _ | ⟨t, us⟩
  · rfl
  · have hrun := Tables.Reached.start.expr_eq (List.suffix_refl (t :: us).reverse)
      (show (t :: us).reverse.length < (t :: us).length + 1 by simp)
    simp only [Expr.read, Expr.readUntabled]
    rw [hrun]
    rcases expression ((t :: us).length + 1) (t :: us).reverse with _ | ⟨e, _ | ⟨u, vs⟩⟩ <;> rfl

theorem Expr.readStatement_eq_untabled (ts : List Token) :
    Expr.readStatement ts = Expr.readStatementUntabled ts := by
  rcases ts with _ | ⟨t, _ | ⟨u, _ | ⟨v, rest⟩⟩⟩ <;>
    simp only [Expr.readStatement, Expr.readStatementUntabled, Expr.read_eq_untabled] <;> rfl

/-- In every state that the tables can come to, the rules that remember give what they give
without tables, at every position; so tables change nothing about what is read. -/
theorem Reading.reached_tables_transparent (ts : List Token) :
    (∀ t : Tables, t.Reached ts → ∀ us, us <:+ ts →
      (∀ d, us.length < d → ((tabledExpression d us).run t).1 = expression d us) ∧
      ∀ d, us.length ≤ d → ((tabledParen (between (tabledExpression d)) us).run t).1
        = between (m := Id) (expression d) us) ∧
    Expr.read ts = Expr.readUntabled ts ∧
    Expr.readStatement ts = Expr.readStatementUntabled ts ∧
    Program.ofTokens ts = Program.ofTokensUntabled ts := by
  refine ⟨fun t ht us hu => ⟨fun d hd => ht.expr_eq hu hd, fun d hd => ht.paren_eq hu hd⟩,
    Expr.read_eq_untabled ts, Expr.readStatement_eq_untabled ts, ?_⟩
  unfold Program.ofTokens Program.ofTokensUntabled
  rw [funext Expr.readStatement_eq_untabled]

/-- The tokens of `(f) g`, the last first. -/
def Reading.nameBehindParens : List Token :=
  [⟨.ident, "g", ⟨[], 4, 1, 5⟩⟩, ⟨.parenR, ")", ⟨[], 2, 1, 3⟩⟩, ⟨.ident, "f", ⟨[], 1, 1, 2⟩⟩,
    ⟨.parenL, "(", ⟨[], 0, 1, 1⟩⟩]

theorem Reading.reached_tables_transparent_again :
    ((tabledExpression 5 nameBehindParens).run .empty).2.Reached nameBehindParens ∧
    ((tabledExpression 5 nameBehindParens).run
      ((tabledExpression 5 nameBehindParens).run .empty).2).1 = expression 5 nameBehindParens := by
  have hreached := Tables.Reached.start.expr (List.suffix_refl nameBehindParens)
    (show nameBehindParens.length < 5 by decide)
  exact ⟨hreached, ((reached_tables_transparent nameBehindParens).1 _ hreached _
    (List.suffix_refl _)).1 5 (by decide)⟩

end Tacit
