import Mathlib
import Tacit.Proofs.ReadTrees
import Tacit.Repl

/-!
# What is read has its brackets in pairs

A rule takes a closing bracket only together with the opening one of the same kind, and what stands
between them is read to its end. So the brackets of every statement that is read are nested in
pairs (`nested_of_readStatement`). A session that counts brackets over a whole source, whatever
their kind, then ends with none open (`nested_of_program`).
-/

namespace Tacit

/-- The kind that closes what a kind opens. -/
def TokenKind.closing? : TokenKind → Option TokenKind
  | .parenL => some .parenR
  | .braceL => some .braceR
  | _ => none

/-- Whether a kind opens or closes. -/
def TokenKind.isBracket : TokenKind → Bool
  | .parenL | .parenR | .braceL | .braceR => true
  | _ => false

/-- The brackets among some tokens stand in pairs of an opening and the closing one of its kind,
and what is between the two is nested in the same way. -/
inductive Nested : List Token → Prop where
  | nil : Nested []
  | plain {t : Token} {ts : List Token} (ht : t.kind.isBracket = false) (h : Nested ts) :
      Nested (t :: ts)
  | pair {o c : Token} {us ts : List Token} (hoc : o.kind.closing? = some c.kind)
      (hi : Nested us) (h : Nested ts) : Nested (o :: (us ++ c :: ts))

namespace Nested

variable {ts us : List Token}

theorem append (h : Nested ts) (hu : Nested us) : Nested (ts ++ us) := by
  induction h with
  | nil => exact hu
  | plain ht _ ih => exact .plain ht ih
  | pair hoc hi _ _ ih =>
    rw [List.cons_append, List.append_assoc]
    exact .pair hoc hi ih

theorem flatten : ∀ {uss : List (List Token)}, (∀ us ∈ uss, Nested us) → Nested uss.flatten
  | [], _ => .nil
  | _ :: _, h =>
    have ⟨hu, huss⟩ := List.forall_mem_cons.1 h
    hu.append (flatten huss)

theorem one {t : Token} (ht : t.kind.isBracket = false) : Nested [t] := .plain ht .nil

theorem bracketed {o c : Token} (hoc : o.kind.closing? = some c.kind) (h : Nested ts) :
    Nested (o :: (ts ++ [c])) := .pair hoc h .nil

end Nested

namespace Reading

theorem Calls.nested {cs : List Token} {call : (lhs rhs : Option Expr) → Expr}
    (h : Calls (fun us _ => Nested us) cs call) : Nested cs := by
  cases h with
  | name hk => exact .one (by rw [hk]; rfl)
  | between ho hc hi => exact hi.bracketed (by rw [ho, hc]; rfl)

/-- Every expression is read off tokens that are nested, when its parts are. -/
theorem nested_composes : Composes fun us _ => Nested us where
  number hk _ := .one (by rw [hk]; rfl)
  string hk := .one (by rw [hk]; rfl)
  name hk := .one (by rw [hk]; rfl)
  array ho hc hall := by
    refine (Nested.flatten fun us hus => ?_).bracketed (by rw [ho, hc]; rfl)
    obtain ⟨_, _, hu⟩ := exists_of_mem_right hall.flip hus
    exact hu
  between ho hc h := h.bracketed (by rw [ho, hc]; rfl)
  onRight hc hx := hc.nested.append hx
  onLeft hx hc := hx.append hc.nested
  infix_ hx hc hy := hx.append (hc.nested.append hy)
  leading hc hx hy := hc.nested.append (hx.append hy)

end Reading

open Reading

theorem nested_of_read {ts : List Token} {e : Expr} (h : Expr.read ts = .ok e) : Nested ts := by
  obtain ⟨us, hus, hn⟩ :=
    grammar_composes nested_composes ts.reverse e [] (Expr.read_eq_ok.1 h)
  obtain rfl : ts = us := List.reverse_injective (by simpa using hus)
  exact hn

theorem nested_of_readStatement {ts : List Token} {e : Expr}
    (h : Expr.readStatement ts = .ok e) : Nested ts := by
  rcases Expr.readStatement_eq_ok h with h | ⟨t, u, rest, body, rfl, ht, hu, hbody, -⟩
  · exact nested_of_read h
  · exact .plain (by rw [ht]; rfl) (.plain (by rw [hu]; rfl) (nested_of_read hbody))

/-- Statements are made of all tokens but the semicolons. -/
theorem flatten_statements : ∀ ts : List Token,
    (statements ts).flatten = ts.filter fun t => t.kind != .semi
  | [] => rfl
  | t :: ts => by
    have ih := flatten_statements ts
    by_cases ht : t.kind = .semi
    · simpa [statements, ht] using ih
    · rw [List.filter_cons_of_pos (by simpa using ht), ← ih]
      simp only [statements, if_neg ht]
      split
      · next hs => split_ifs <;> simp [hs]
      · simp

namespace Repl

/-- How many brackets are open behind some tokens, when `depth` are open in front of them. -/
def depthAfter (depth : Int) (ts : List Token) : Int :=
  ts.foldl (fun depth t => depth + depthChange t) depth

theorem depthChange_plain {t : Token} (ht : t.kind.isBracket = false) : depthChange t = 0 := by
  unfold depthChange
  cases hk : t.kind <;> simp_all [TokenKind.isBracket]

theorem depthChange_pair {o c : Token} (hoc : o.kind.closing? = some c.kind) :
    depthChange o + depthChange c = 0 := by
  unfold TokenKind.closing? at hoc
  split at hoc
  · next ho => simp [depthChange, ho, ← Option.some.inj hoc]
  · next ho => simp [depthChange, ho, ← Option.some.inj hoc]
  · cases hoc

theorem depthAfter_nested {ts : List Token} (h : Nested ts) :
    ∀ depth : Int, depthAfter depth ts = depth := by
  induction h with
  | nil => exact fun _ => rfl
  | plain ht _ ih =>
    intro depth
    rw [depthAfter, List.foldl_cons, depthChange_plain ht, Int.add_zero]
    exact ih depth
  | @pair o c us ts hoc _ _ ihi ih =>
    intro depth
    have hsum := depthChange_pair hoc
    calc depthAfter depth (o :: (us ++ c :: ts))
        = depthAfter (depthAfter (depth + depthChange o) us + depthChange c) ts := by
          simp [depthAfter]
      _ = depth := by
          rw [ihi, ih]
          omega

/-- Semicolons open and close nothing. -/
theorem depthAfter_filter (depth : Int) (ts : List Token) :
    depthAfter depth (ts.filter fun t => t.kind != .semi) = depthAfter depth ts := by
  unfold depthAfter
  rw [List.foldl_filter]
  congr 1
  funext depth t
  by_cases ht : t.kind = .semi <;> simp [ht, depthChange]

/-- The place of a token does not matter to what it opens or closes. -/
theorem depthAfter_congr (depth : Int) {ts us : List Token}
    (h : ts.map Token.word = us.map Token.word) : depthAfter depth ts = depthAfter depth us := by
  have hwords : ∀ vs : List Token, depthAfter depth vs =
      (vs.map Token.word).foldl (fun d w => d + depthChange ⟨w.1, w.2, default⟩) depth := by
    intro vs
    rw [List.foldl_map]
    rfl
  rw [hwords, hwords, h]

end Repl

/-- Whenever a source is read, the brackets of each statement are nested in pairs of an opening and
the closing one of its kind, and a session does not wait for more of the source. That the session
gives the source another name shows in the places only. -/
theorem nested_of_program {file src : Text} {ts : List Token} {p : Program}
    (hl : lex file src = .ok ts) (hp : Program.ofTokens ts = .ok p) :
    (∀ s ∈ statements ts, Nested s) ∧ Repl.isComplete src = true := by
  have hnested : ∀ s ∈ statements ts, Nested s := by
    intro s hs
    obtain ⟨e, -, he⟩ := exists_of_mem_right (mapM_eq_ok.1 hp).flip hs
    exact nested_of_readStatement he
  refine ⟨hnested, ?_⟩
  unfold Repl.isComplete
  rcases hl' : lex Repl.sourceName src with f | us
  · rfl
  · have hwords : us.map Token.word = ts.map Token.word := by
      have h := (lex_eq_words Repl.sourceName src).trans (lex_eq_words file src).symm
      rw [hl', hl] at h
      exact Option.some.inj h
    have hdepth : Repl.depthAfter 0 us = 0 := by
      rw [Repl.depthAfter_congr 0 hwords, ← Repl.depthAfter_filter, ← flatten_statements]
      exact Repl.depthAfter_nested (.flatten hnested) 0
    exact decide_eq_true (Int.le_of_eq hdepth)

/-- The tokens of `[(f "a")]; x`. -/
def bracketedTokens : List Token :=
  [⟨.braceL, "[", ⟨[], 0, 1, 1⟩⟩, ⟨.parenL, "(", ⟨[], 1, 1, 2⟩⟩, ⟨.ident, "f", ⟨[], 2, 1, 3⟩⟩,
    ⟨.str, "\"a\"", ⟨[], 4, 1, 5⟩⟩, ⟨.parenR, ")", ⟨[], 7, 1, 8⟩⟩, ⟨.braceR, "]", ⟨[], 8, 1, 9⟩⟩,
    ⟨.semi, ";", ⟨[], 9, 1, 10⟩⟩, ⟨.ident, "x", ⟨[], 11, 1, 12⟩⟩]

def bracketedProgram : Program :=
  [.array [.named "f" none (some (.literal (.str "a") (some ⟨[], 4, 1, 5⟩))) (some ⟨[], 2, 1, 3⟩)]
    (some ⟨[], 0, 1, 1⟩), .named "x" none none (some ⟨[], 11, 1, 12⟩)]

theorem nested_of_program_bracketed :
    lex [] ("[(f \"a\")]; x" : Text) = .ok bracketedTokens ∧
      Program.ofTokens bracketedTokens = .ok bracketedProgram ∧
      (∀ s ∈ statements bracketedTokens, Nested s) ∧
      Repl.isComplete ("[(f \"a\")]; x" : Text) = true := by
  have hl : lex [] ("[(f \"a\")]; x" : Text) = .ok bracketedTokens := by
    set_option maxRecDepth 8000 in
    cbv
  have hp : Program.ofTokens bracketedTokens = .ok bracketedProgram := by
    set_option maxRecDepth 8000 in
    cbv
  exact ⟨hl, hp, nested_of_program hl hp⟩

end Tacit
