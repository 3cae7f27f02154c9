import Mathlib
import Tacit.Proofs.Reread

/-!
# Which programs keep their canonical source

The canonical source of a program is read statement by statement, each as `Rereads` says. It is
read at all just if no string but the last one ends with a backslash, and it is read as the same
program just if no array with two members or more has a call among them. So a program whose source
is canonical may become another one when it is formatted again.
-/

namespace Tacit

open Reading
open Bit (wordsOf Settled)

namespace Expr

section Read

variable {e : Expr} {ts : List Token}

theorem Readable.read (h : e.Readable) (hn : e.NumbersReadBack)
    (hts : ts.map Token.word = wordsOf e.bits) : ∃ e', Expr.read ts = .ok e' ∧ Rereads e e' := by
  have hs : Spells ts.reverse e.bits := by rw [Spells, List.map_reverse, hts]
  obtain ⟨e', he, hre⟩ := ((h.renders hn).expr (R := Rereads e) fun p hp => hp.2)
    ts.reverse [] hs rfl
  rw [List.append_nil] at he
  exact ⟨e', Expr.read_eq_ok.2 he, hre⟩

/-- The source of an expression never starts with a name. -/
theorem Readable.head_ne_ident (h : e.Readable) :
    ∃ w ws, wordsOf e.bits = w :: ws ∧ w.1 ≠ .ident := by
  have hcall : ∀ lhs cs rhs, ∃ w ws, wordsOf (callBits lhs cs rhs) = w :: ws ∧ w.1 ≠ .ident := by
    intro lhs cs rhs
    cases lhs <;> cases rhs <;> exact ⟨_, _, rfl, by simp⟩
  cases h with
  | number x l => exact ⟨_, _, rfl, by simp⟩
  | string _ l => exact ⟨_, _, rfl, by simp⟩
  | array _ l => exact ⟨_, _, rfl, by simp⟩
  | name _ l => exact hcall none _ none
  | named _ _ _ l => exact hcall _ _ _
  | called _ _ _ l => exact hcall _ _ _

theorem readStatement_eq_read {t : Token} (ht : t.kind ≠ .ident) (ts : List Token) :
    readStatement (t :: ts) = Expr.read (t :: ts) := by
  rcases ts with _ | ⟨u, _ | ⟨v, ts⟩⟩ <;> simp [readStatement, ht]

theorem rereads_assign {n : Text} {e e' : Expr} (h : Rereads e e') (l l' : Option Location) :
    Rereads (.assign n e l) (.assign n e' l') := by
  have hlen : ∀ (e : Expr) (l : Option Location), (Expr.assign n e l).source.length
      = weights (Expr.assign n e l).children + (n.length + 3) := by
    intro e l
    have ha : (" <- " : Text).length = 4 := rfl
    simp only [source, List.length_append, children, weights, weight]
    omega
  refine .of_children rfl (by simp [Fusible]) (.cons h .nil) (hlen e l) (hlen e' l') ?_
  simp [children, unplaced]

/-- A statement is read back from its bits, but for what fuses. -/
theorem Stated.readStatement (h : e.Stated) (hn : e.NumbersReadBack)
    (hts : ts.map Token.word = wordsOf e.bits) :
    ∃ e', Expr.readStatement ts = .ok e' ∧ Rereads e e' := by
  cases h with
  | expr h =>
    obtain ⟨w, ws, hws, hk⟩ := h.head_ne_ident
    obtain ⟨e', he, hre⟩ := h.read hn hts
    rw [hws, List.map_eq_cons_iff] at hts
    obtain ⟨t, us, rfl, rfl, -⟩ := hts
    exact ⟨e', (readStatement_eq_read hk us).trans he, hre⟩
  | @assign n b hname hb l =>
    have hw : wordsOf (Expr.assign n b l).bits
        = (.ident, n) :: (.assign, TokenKind.assign.name) :: wordsOf b.bits := rfl
    simp only [hw, List.map_eq_cons_iff] at hts
    obtain ⟨t, _, rfl, ht, u, us, rfl, hu, hus⟩ := hts
    obtain ⟨htk, htn⟩ := Prod.mk.inj ht
    obtain ⟨huk, -⟩ := Prod.mk.inj hu
    obtain ⟨b', hb', hre⟩ := hb.read (hn.child (by simp [children])) hus
    refine ⟨.assign n b' t.place, ?_, rereads_assign hre l t.place⟩
    rcases us with _ | ⟨v, us⟩
    · simp [Expr.read] at hb'
    · simp [Expr.readStatement, htk, huk, hb', Except.map, htn]

end Read

/-- No word of a statement's source is a semicolon. -/
theorem Stated.no_semi {e : Expr} (h : e.Stated) (hn : e.NumbersReadBack) :
    ∀ w ∈ wordsOf e.bits, w.1 ≠ .semi := by
  have hbits : Bit.Unparted e.bits := by
    cases h with
    | expr h => exact h.unparted hn
    | assign _ hb l =>
      simpa [bits, Bit.Unparted] using hb.unparted (hn.child (by simp [children]))
  intro w hw hk
  obtain ⟨b, hb, hbw⟩ := List.mem_filterMap.1 hw
  cases b <;> simp only [Bit.word?, Option.some.injEq, reduceCtorEq] at hbw <;> subst hbw <;>
    simp only [reduceCtorEq] at hk
  exact hbits (hk ▸ hb)

end Expr

theorem statements_cons (t u : Token) (ts : List Token) : statements (t :: u :: ts) =
    if t.kind = .semi then statements (u :: ts)
    else
      match statements (u :: ts) with
      | s :: rest => if u.kind = .semi then [t] :: s :: rest else (t :: s) :: rest
      | [] => [[t]] := by
  rw [statements.eq_def]
  refine if_congr Iff.rfl rfl ?_
  rcases statements (u :: ts) with _ | ⟨s, rest⟩ <;> rfl

theorem statements_append {t : Token} (ht : t.kind = .semi) (ts : List Token) :
    ∀ {s : List Token}, (∀ u ∈ s, u.kind ≠ .semi) → s ≠ [] →
      statements (s ++ t :: ts) = s :: statements ts
  | [], _, h => absurd rfl h
  | [a], hs, _ => by
    have ha := hs a (by simp)
    rcases h : statements ts with _ | ⟨s', ss⟩ <;> simp [statements, ha, ht, h]
  | a :: b :: s, hs, _ => by
    have ih := statements_append ht ts (s := b :: s) (fun u hu => hs u (by simp [hu])) (by simp)
    rw [List.cons_append] at ih
    rw [List.cons_append, List.cons_append, statements_cons, ih]
    simp [hs a (by simp), hs b (by simp)]

namespace Program

/-- The words of a program's source, cut at the semicolons, are those of its statements. -/
theorem statements_of_words : ∀ {p : Program} {ts : List Token}, (∀ e ∈ p, e.Stated) →
    (∀ e ∈ p, e.NumbersReadBack) → ts.map Token.word = wordsOf p.bits →
      List.Forall₂ (fun e s => s.map Token.word = wordsOf e.bits) p (statements ts)
  | [], ts, _, _, hts => by
    obtain rfl : ts = [] := by simpa [bits, wordsOf] using hts
    exact .nil
  | e :: p, ts, h, hn, hts => by
    have he := h e (by simp)
    have hw : wordsOf (bits (e :: p)) = wordsOf e.bits ++ (.semi, TokenKind.semi.name) ::
        wordsOf (bits p) := by
      simp only [bits, wordsOf, List.flatMap_cons, List.filterMap_append, List.append_assoc]
      rfl
    rw [hw, List.map_eq_append_iff] at hts
    obtain ⟨s, us, rfl, hs, hus⟩ := hts
    obtain ⟨t, vs, rfl, ht, hvs⟩ := List.map_eq_cons_iff.1 hus
    have hsemi : ∀ u ∈ s, u.kind ≠ .semi := by
      intro u hu
      exact he.no_semi (hn e (by simp)) u.word (hs ▸ List.mem_map_of_mem hu)
    have hne : s ≠ [] := by
      rintro rfl
      obtain ⟨e', he', -⟩ := he.readStatement (hn e (by simp)) hs
      simp [Expr.readStatement] at he'
    rw [statements_append (congrArg Prod.fst ht) vs hsemi hne]
    exact .cons hs (statements_of_words (fun f hf => h f (by simp [hf]))
      (fun f hf => hn f (by simp [hf])) hvs)

theorem rereads_of_statements {p : Program} {ss : List (List Token)} (h : ∀ e ∈ p, e.Stated)
    (hn : ∀ e ∈ p, e.NumbersReadBack)
    (hs : List.Forall₂ (fun e s => s.map Token.word = wordsOf e.bits) p ss) :
    ∃ q, List.Forall₂ (fun s e => Expr.readStatement s = .ok e) ss q ∧
      List.Forall₂ Expr.Rereads p q := by
  induction hs with
  | nil => exact ⟨[], .nil, .nil⟩
  | @cons e s p ss hes _ ih =>
    obtain ⟨e', he', hre⟩ := (h e (by simp)).readStatement (hn e (by simp)) hes
    obtain ⟨q, hq, hpq⟩ := ih (fun f hf => h f (by simp [hf])) (fun f hf => hn f (by simp [hf]))
    exact ⟨e' :: q, .cons he' hq, .cons hre hpq⟩

section Source

variable {p : Program} (h : ∀ e ∈ p, e.Stated) (hn : ∀ n ∈ p.numbers, n.ReadsBack)
include h hn

/-- A canonical source in which only the last string may end with a backslash is read statement by
statement. -/
theorem read_source (hs : Settled p.strings) (file : Text) :
    ∃ q, Program.read file p.source = .ok q ∧ List.Forall₂ Expr.Rereads p q := by
  have hw := (lex_eq_words file p.source).trans (words_source h hn hs)
  rcases hl : lex file p.source with f | ts
  · simp [hl, Except.toOption] at hw
  · have hts : ts.map Token.word = wordsOf p.bits := by simpa [hl, Except.toOption] using hw
    have hnum := numbersReadBack hn
    obtain ⟨q, hq, hpq⟩ := rereads_of_statements h hnum (statements_of_words h hnum hts)
    exact ⟨q, Program.read_eq_ok.2 ⟨ts, hl, hq⟩, hpq⟩

/-- A canonical source in which another string ends with a backslash cannot be read. -/
theorem read_source_ne_ok (hs : ¬ Settled p.strings) (file : Text) (q : Program) :
    Program.read file p.source ≠ .ok q := by
  intro hq
  obtain ⟨ts, hl, -⟩ := Program.read_eq_ok.1 hq
  have hw := (lex_eq_words file p.source).trans (words_source_eq_none h hn hs)
  simp [hl, Except.toOption] at hw

end Source

theorem steady_iff {p : Program} :
    (∀ e ∈ p, e.Steady) ↔ ∀ v ∈ p.visits, ¬ v.node.Fusible := by
  have hmap : (∀ v ∈ p.visits, ¬ v.node.Fusible) ↔
      ∀ m ∈ p.visits.map (·.node), ¬ m.Fusible := by simp
  rw [hmap, map_node_visits]
  simp only [Expr.Steady, List.mem_flatMap, forall_exists_index, and_imp]
  exact ⟨fun h m e he hm => h e he m hm, fun h e he m hm => h m e he hm⟩

theorem length_source (p : Program) : p.source.length = weights p + p.length := by
  have hend : (";\n" : Text).length = 2 := rfl
  induction p with
  | nil => rfl
  | cons e p ih =>
    simp only [source, weights, weight, List.flatMap_cons, List.length_append, List.length_cons,
      hend] at ih ⊢
    omega

theorem source_eq_of_unplaced {p q : Program} (h : q.map Expr.unplaced = p.map Expr.unplaced) :
    q.source = p.source := by
  have hs : q.map Expr.source = p.map Expr.source := by
    have := congrArg (List.map Expr.source) h
    simpa only [List.map_map, Function.comp_def, Expr.source_unplaced] using this
  have hmap : ∀ r : Program,
      r.source = (r.map Expr.source).flatMap fun t => t ++ (";\n" : Text) := by
    intro r
    rw [source, List.flatMap_map]
  rw [hmap, hmap, hs]

/-- A program that fuses somewhere has another source when it is read again. -/
theorem source_ne_of_rereads {p q : Program} (h : List.Forall₂ Expr.Rereads p q)
    (hs : ¬ ∀ e ∈ p, e.Steady) : q.source ≠ p.source := by
  intro he
  have hlen := congrArg List.length he
  have hlt := Expr.weights_lt_of_rereads h hs
  have := h.length_eq
  rw [length_source, length_source] at hlen
  omega

/-- The tokens of a call of `f` on a string of one byte and the number one. -/
def callTokens (b : UInt8) : List Token :=
  [⟨.str, Lexeme.quoted [b], ⟨[], 0, 1, 1⟩⟩, ⟨.ident, "f", ⟨[], 4, 1, 5⟩⟩,
    ⟨.num, "1", ⟨[], 6, 1, 7⟩⟩]

/-- The program of these tokens. -/
def callProgram (b : UInt8) : Program :=
  [.named "f" (some (.literal (.str [b]) (some ⟨[], 0, 1, 1⟩)))
    (some (.literal (.num (.ofFloat 0 1)) (some ⟨[], 6, 1, 7⟩))) (some ⟨[], 4, 1, 5⟩)]

theorem read?_one : Decimal.read? ("1" : Text) = some 1 := by decide +kernel

theorem one_readsBack : (Number.ofFloat 0 1).ReadsBack := by
  have ht : (Number.ofFloat 0 1).text = "1" := by decide +kernel
  rw [Number.ReadsBack, ht, read?_one]
  exact ⟨rfl, rfl⟩

theorem read_callProgram {src : Text} {b : UInt8} (h : lex [] src = .ok (callTokens b)) :
    Program.read [] src = .ok (callProgram b) := by
  have hs : statements (callTokens b) = [callTokens b] := rfl
  refine Program.read_eq_ok.2 ⟨_, h, hs ▸ .cons ?_ .nil⟩
  rw [callTokens, Expr.readStatement_eq_read (by simp), Expr.read_eq_ok, grammar_eq_taken]
  simp only [List.reverse_cons, List.reverse_nil, List.nil_append, List.cons_append]
  rw [pieces_of_some (piece?_num (t := ⟨.num, "1", ⟨[], 6, 1, 7⟩⟩) rfl read?_one _),
    pieces_of_some rfl, pieces_of_some rfl, pieces_of_none rfl]
  rfl

/-! ## The main results -/

/-- A program whose strings do not end with a backslash has a canonical source that is read as a
program of as many statements, and as the same program just if no array with two members or more
has a call among them. -/
theorem read_source_same_iff {file src : Text} {p : Program} (h : Program.read file src = .ok p)
    (hs : ∀ s ∈ p.strings, s.getLast? ≠ some Lexeme.backslash)
    (hn : ∀ n ∈ p.numbers, n.ReadsBack) (file' : Text) :
    ∃ q, Program.read file' p.source = .ok q ∧ q.length = p.length ∧
      (q.map Expr.unplaced = p.map Expr.unplaced ↔ ∀ v ∈ p.visits, ¬ v.node.Fusible) := by
  have hset : Settled p.strings := fun s hmem => hs s (List.dropLast_subset _ hmem)
  obtain ⟨q, hq, hpq⟩ := read_source (stated_of_read h) hn hset file'
  refine ⟨q, hq, hpq.length_eq.symm, ?_⟩
  rw [← steady_iff]
  refine ⟨fun hu => ?_, Expr.map_unplaced_of_rereads hpq⟩
  by_contra hsteady
  exact source_ne_of_rereads hpq hsteady (source_eq_of_unplaced hu)

theorem read_source_same_iff_call :
    Program.read [] ("\"a\" f 1" : Text) = .ok (callProgram 97) ∧
    (∀ s ∈ (callProgram 97).strings, s.getLast? ≠ some Lexeme.backslash) ∧
    (∀ n ∈ (callProgram 97).numbers, n.ReadsBack) ∧
    ∃ q, Program.read [] (callProgram 97).source = .ok q ∧ q.length = 1 ∧
      (q.map Expr.unplaced = (callProgram 97).map Expr.unplaced ↔
        ∀ v ∈ (callProgram 97).visits, ¬ v.node.Fusible) := by
  have hread : Program.read [] ("\"a\" f 1" : Text) = .ok (callProgram 97) :=
    read_callProgram (by cbv)
  have hs : ∀ s ∈ (callProgram 97).strings, s.getLast? ≠ some Lexeme.backslash := by decide
  have hn : ∀ n ∈ (callProgram 97).numbers, n.ReadsBack := List.forall_mem_singleton.2 one_readsBack
  exact ⟨hread, hs, hn, read_source_same_iff hread hs hn []⟩

/-- Formatting gives a text that formatting keeps just if no string but the last one ends with a
backslash and no array with two members or more has a call among them. -/
theorem reformat_source_iff {file src : Text} {p : Program} (h : Program.read file src = .ok p)
    (hn : ∀ n ∈ p.numbers, n.ReadsBack) (file' : Text) :
    Program.reformat file src = .ok p.source ∧
      (Program.reformat file' p.source = .ok p.source ↔
        Settled p.strings ∧ ∀ v ∈ p.visits, ¬ v.node.Fusible) := by
  have hre : ∀ f s q, Program.read f s = .ok q → Program.reformat f s = .ok q.source := by
    intro f s q hq
    simp [Program.reformat, hq, bind, Except.bind, pure, Except.pure]
  refine ⟨hre file src p h, ?_⟩
  rw [← steady_iff]
  by_cases hset : Settled p.strings
  · obtain ⟨q, hq, hpq⟩ := read_source (stated_of_read h) hn hset file'
    rw [hre file' p.source q hq, Except.ok.injEq]
    refine ⟨fun he => ⟨hset, ?_⟩, fun hs => ?_⟩
    · by_contra hsteady
      exact source_ne_of_rereads hpq hsteady he
    · exact source_eq_of_unplaced (Expr.map_unplaced_of_rereads hpq hs.2)
  · have hno := read_source_ne_ok (stated_of_read h) hn hset file'
    refine ⟨fun he => ?_, fun hs => absurd hs.1 hset⟩
    rcases hq : Program.read file' p.source with f | q
    · simp [Program.reformat, hq, bind, Except.bind] at he
    · exact absurd hq (hno q)

/-- The last string of a program may end with a backslash. -/
theorem reformat_source_iff_call :
    Program.read [] ("\"\\\" f 1" : Text) = .ok (callProgram 92) ∧
    (∀ n ∈ (callProgram 92).numbers, n.ReadsBack) ∧
    Program.reformat [] ("\"\\\" f 1" : Text) = .ok (callProgram 92).source ∧
    (Program.reformat [] (callProgram 92).source = .ok (callProgram 92).source ↔
      Settled (callProgram 92).strings ∧ ∀ v ∈ (callProgram 92).visits, ¬ v.node.Fusible) := by
  have hread : Program.read [] ("\"\\\" f 1" : Text) = .ok (callProgram 92) :=
    read_callProgram (by cbv)
  have hn : ∀ n ∈ (callProgram 92).numbers, n.ReadsBack := List.forall_mem_singleton.2 one_readsBack
  exact ⟨hread, hn, reformat_source_iff hread hn []⟩

/-- Formatting `[f "a" "b" "c"]` gives an array in which a call stands in front of a string, and
formatting that gives another text. -/
theorem reformat_not_idempotent : ¬ ∀ file src t : Text,
    Program.reformat file src = .ok t → Program.reformat file t = .ok t := by
  set_option maxRecDepth 4000 in
  have hfirst : Program.reformat [] ("[f \"a\" \"b\" \"c\"]" : Text)
      = .ok ("[(\"a\" f \"b\") \"c\"];\n" : Text) := by cbv
  set_option maxRecDepth 4000 in
  have hsecond : Program.reformat [] ("[(\"a\" f \"b\") \"c\"];\n" : Text)
      = .ok ("[((\"a\" f \"b\") \"c\")];\n" : Text) := by cbv
  intro h
  have := (h _ _ _ hfirst).symm.trans hsecond
  simp only [Except.ok.injEq] at this
  revert this
  decide

end Program

end Tacit
