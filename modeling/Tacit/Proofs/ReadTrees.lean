import Mathlib.Data.List.Forall2
import Tacit.Evaluation
import Tacit.Proofs.Composing
import Tacit.Proofs.Trees

/-!
# Reading gives readable trees

What holds of a tree made of tokens, given that it holds of the parts, holds of all that is read,
piece by piece (`grammar_grows`). The tokens of a source are spelled as a reader cuts them off, so
the names and strings in what is read are those of lexemes: every expression that is read is
`Readable`, and a program is made of such expressions and of assignments of them
(`stated_of_read`). The places in a program are those of tokens in its source (`placed_of_read`).
-/

namespace Tacit

theorem exists_of_mem_right {α β : Type} {R : α → β → Prop} {xs : List α} {ys : List β} {y : β}
    (h : List.Forall₂ R xs ys) (hy : y ∈ ys) : ∃ x ∈ xs, R x y := by
  induction h with
  | nil => simp at hy
  | @cons a b as bs hab _ ih =>
    rcases List.mem_cons.1 hy with rfl | hy
    · exact ⟨a, by simp, hab⟩
    · obtain ⟨x, hx, hxy⟩ := ih hy
      exact ⟨x, by simp [hx], hxy⟩

namespace Reading

/-- Tokens that are spelled as a reader cuts them off. -/
def AllSpelled (ts : List Token) : Prop := ∀ t ∈ ts, Spelled t.word

/-- A property of trees that all have which are made of tokens with another property. -/
structure Grows (T : Token → Prop) (Q : Expr → Prop) : Prop where
  number : ∀ {t : Token}, T t → t.kind = .num → ∀ x : Float,
    Q (.literal (.num (.ofFloat 0 x)) t.place)
  string : ∀ {t : Token}, T t → t.kind = .str → Q (.literal (.str (unquoted t.text)) t.place)
  array : ∀ {t : Token} {ms : List Expr}, T t → (∀ m ∈ ms, Q m) → Q (.array ms t.place)
  name : ∀ {t : Token}, T t → t.kind = .ident → Q (.named t.text none none t.place)
  named : ∀ {t : Token} {lhs : Option Expr} {rhs : Expr}, T t → t.kind = .ident →
    (∀ x ∈ lhs, Q x) → Q rhs → Q (.named t.text lhs (some rhs) t.place)
  called : ∀ {t : Token} {c : Expr} {lhs : Option Expr} {rhs : Expr}, T t → Q c →
    (∀ x ∈ lhs, Q x) → Q rhs → Q (.called c lhs (some rhs) t.place)

section Grows

variable {T : Token → Prop} {Q : Expr → Prop}

theorem Calls.grows (hQ : Grows T Q) {cs : List Token} {call : (lhs rhs : Option Expr) → Expr}
    (h : Calls (fun us e => (∀ t ∈ us, T t) → Q e) cs call) (hcs : ∀ t ∈ cs, T t)
    {lhs : Option Expr} {rhs : Expr} (hl : ∀ x ∈ lhs, Q x) (hr : Q rhs) :
    Q (call lhs (some rhs)) := by
  cases h with
  | name hk => exact hQ.named (hcs _ (by simp)) hk hl hr
  | between _ _ he => exact hQ.called (hcs _ (by simp)) (he fun t ht => hcs t (by simp [ht])) hl hr

/-- What holds of a tree made of tokens holds of what is read off tokens that all have the
property. -/
theorem Grows.composes (hQ : Grows T Q) : Composes fun us e => (∀ t ∈ us, T t) → Q e where
  number hk _ := fun ht => hQ.number (ht _ (by simp)) hk _
  string hk := fun ht => hQ.string (ht _ (by simp)) hk
  name hk := fun ht => hQ.name (ht _ (by simp)) hk
  array := by
    intro o c uss es _ _ hall ht
    have hparts : ∀ us ∈ uss, ∀ t ∈ us, T t := fun us hus t htu =>
      ht t (by simp only [List.mem_cons, List.mem_append, List.mem_flatten]
               exact .inr (.inl ⟨us, hus, htu⟩))
    refine hQ.array (ht o (by simp)) fun m hm => ?_
    obtain ⟨us, hus, hq⟩ := exists_of_mem_right hall hm
    exact hq (hparts us hus)
  between _ _ h := fun ht => h fun t hus => ht t (by simp [hus])
  onRight hc hx := fun ht => hc.grows hQ (fun t h => ht t (by simp [h])) (by simp)
    (hx fun t h => ht t (by simp [h]))
  onLeft hx hc := fun ht => hc.grows hQ (fun t h => ht t (by simp [h])) (by simp)
    (hx fun t h => ht t (by simp [h]))
  infix_ hx hc hy := fun ht => hc.grows hQ (fun t h => ht t (by simp [h]))
    (by rintro _ ⟨⟩; exact hx fun t h => ht t (by simp [h])) (hy fun t h => ht t (by simp [h]))
  leading hc hx hy := fun ht => hc.grows hQ (fun t h => ht t (by simp [h]))
    (by rintro _ ⟨⟩; exact hx fun t h => ht t (by simp [h])) (hy fun t h => ht t (by simp [h]))

/-- What every way of composing keeps holds of all that the grammar gives. -/
theorem grammar_grows (hQ : Grows T Q) (ts : List Token) (hts : ∀ t ∈ ts, T t) {e : Expr}
    {rest : List Token} (h : grammar ts = some (e, rest)) : Q e := by
  obtain ⟨us, rfl, hq⟩ := grammar_composes hQ.composes ts e rest h
  exact hq fun t ht => hts t (by simp [ht])

end Grows

/-- Trees made of tokens that are spelled as a reader cuts them off are readable. -/
theorem readable_grows : Grows (fun t => Spelled t.word) Expr.Readable where
  number _ _ x := .number x _
  string {t} ht hk := by
    have hs : Spelled (t.kind, t.text) := ht
    rw [hk] at hs
    obtain ⟨s, hs, hc⟩ := hs
    simp only at hs
    have hu : unquoted (Lexeme.quoted s) = s := by simp [unquoted, Lexeme.quoted]
    rw [hs, hu]
    exact .string hc t.place
  array _ hms := .array hms _
  name {t} ht hk := by
    have hs : Spelled (t.kind, t.text) := ht
    rw [hk] at hs
    exact .name hs t.place
  named {t _ _} ht hk hl hr := by
    have hs : Spelled (t.kind, t.text) := ht
    rw [hk] at hs
    exact .named hs hl hr t.place
  called _ hc hl hr := .called hc hl hr _

end Reading

open Reading

/-- An expression is what the grammar gives for the tokens from the last on, if nothing is left. -/
theorem Expr.read_eq_ok {ts : List Token} {e : Expr} :
    Expr.read ts = .ok e ↔ grammar ts.reverse = some (e, []) := by
  rcases ts with _ | ⟨t, us⟩
  · have hnil : pieces [] = [] := pieces_of_none rfl
    simp [Expr.read, grammar_eq_taken, hnil, takenFrom]
  · have hlen : (t :: us).reverse.length < (t :: us).length + 1 := by simp
    have ht := tabledExpression_eq hlen (Tables.empty_right _)
    simp only [Expr.read]
    rw [ht]
    rcases grammar (t :: us).reverse with _ | ⟨e', _ | ⟨u, vs⟩⟩ <;> simp

theorem Expr.readable_of_read {ts : List Token} {e : Expr} (hts : AllSpelled ts)
    (h : Expr.read ts = .ok e) : e.Readable :=
  grammar_grows readable_grows ts.reverse (fun t ht => hts t (by simpa using ht))
    (Expr.read_eq_ok.1 h)

/-- A statement is an expression, or an assignment of one to the name in front. -/
theorem Expr.readStatement_eq_ok {ts : List Token} {e : Expr} (h : Expr.readStatement ts = .ok e) :
    Expr.read ts = .ok e ∨ ∃ t u rest body, ts = t :: u :: rest ∧ t.kind = .ident ∧
      u.kind = .assign ∧ Expr.read rest = .ok body ∧ e = .assign t.text body t.place := by
  simp only [Expr.readStatement] at h
  split at h
  · simp at h
  · split at h
    · simp at h
    · exact .inl h
  · rename_i t u rest _
    split at h
    · rename_i hk
      rcases hr : Expr.read rest with f | body <;> rw [hr] at h <;> simp only [Except.map] at h
      · simp at h
      · simp only [Except.ok.injEq] at h
        exact .inr ⟨t, u, rest, body, rfl, hk.1, hk.2, hr, h.symm⟩
    · exact .inl h
  · exact .inl h

theorem Expr.stated_of_readStatement {ts : List Token} {e : Expr} (hts : AllSpelled ts)
    (h : Expr.readStatement ts = .ok e) : e.Stated := by
  rcases Expr.readStatement_eq_ok h with h | ⟨t, u, rest, body, rfl, hk, -, hbody, rfl⟩
  · exact .expr (Expr.readable_of_read hts h)
  · have ht : Spelled (t.kind, t.text) := hts t (by simp)
    rw [hk] at ht
    exact .assign ht (Expr.readable_of_read (fun v hv => hts v (by simp [hv])) hbody) t.place

theorem mem_statements : ∀ {ts s : List Token}, s ∈ statements ts → ∀ t ∈ s, t ∈ ts
  | [], s, h => by simp [statements] at h
  | t :: ts, s, h => by
    have ih : ∀ s ∈ statements ts, ∀ u ∈ s, u ∈ ts := fun _ hs => mem_statements hs
    simp only [statements] at h
    split at h
    · exact fun u hu => List.mem_cons_of_mem t (ih s h u hu)
    · split at h
      · rename_i u us s' rest hs
        rw [hs] at ih
        split at h
        · rcases List.mem_cons.1 h with rfl | h
          · simp
          · exact fun v hv => List.mem_cons_of_mem t (ih s h v hv)
        · rcases List.mem_cons.1 h with rfl | h
          · intro v hv
            rcases List.mem_cons.1 hv with rfl | hv
            · simp
            · exact List.mem_cons_of_mem t (ih s' (by simp) v hv)
          · exact fun v hv => List.mem_cons_of_mem t (ih s (by simp [h]) v hv)
      · rcases List.mem_cons.1 h with rfl | h
        · simp
        · exact fun v hv => List.mem_cons_of_mem t (ih s h v hv)

theorem mapM_eq_ok {α β ε : Type} {f : α → Except ε β} : ∀ {xs : List α} {ys : List β},
    xs.mapM f = .ok ys ↔ List.Forall₂ (fun x y => f x = .ok y) xs ys
  | [], ys => by cases ys <;> simp [pure, Except.pure]
  | x :: xs, [] => by
    rw [List.mapM_cons]
    rcases f x with e | y <;> rcases xs.mapM f with e' | zs <;>
      simp [bind, Except.bind, pure, Except.pure]
  | x :: xs, y :: ys => by
    rw [List.mapM_cons, List.forall₂_cons, ← mapM_eq_ok]
    rcases f x with e | y' <;> rcases xs.mapM f with e' | zs <;>
      simp [bind, Except.bind, pure, Except.pure]

theorem spelled_of_lex {file src : Text} {ts : List Token} (h : lex file src = .ok ts) :
    AllSpelled ts := by
  have hw := lex_eq_words file src
  rw [h] at hw
  intro t ht
  exact spelled_of_mem_words src hw.symm _ (List.mem_map_of_mem ht)

/-- Reading a source cuts it into tokens and reads the statements between semicolons. -/
theorem Program.read_eq_ok {file src : Text} {p : Program} : Program.read file src = .ok p ↔
    ∃ ts, lex file src = .ok ts ∧
      List.Forall₂ (fun s e => Expr.readStatement s = .ok e) (statements ts) p := by
  rw [Program.read]
  rcases lex file src with f | ts
  · simp [bind, Except.bind]
  · simp [bind, Except.bind, Program.ofTokens, mapM_eq_ok]

/-- A program that was read is made of statements as they are read. -/
theorem Program.stated_of_read {file src : Text} {p : Program} (h : Program.read file src = .ok p) :
    ∀ e ∈ p, e.Stated := by
  obtain ⟨ts, hl, hs⟩ := Program.read_eq_ok.1 h
  have hts := spelled_of_lex hl
  intro e he
  obtain ⟨s, hmem, hread⟩ := exists_of_mem_right hs he
  exact Expr.stated_of_readStatement (fun t ht => hts t (mem_statements hmem t ht)) hread

/-- All parts of an expression have places in a source. -/
def Expr.PlacedIn (file src : Text) (e : Expr) : Prop :=
  ∀ n ∈ e.nodes, ∃ pos : Nat, n.place? = some (.within file src pos)

/-- Every node has the place of a token, and its parts have theirs, so all places are in
the source. -/
theorem Reading.placedIn_grows (file src : Text) :
    Grows (fun t => ∃ pos : Nat, t.place = .within file src pos) (Expr.PlacedIn file src) := by
  have hnode : ∀ {e : Expr} {t : Token}, (∃ pos : Nat, t.place = .within file src pos) →
      e.place? = some t.place → (∀ c ∈ e.children, c.PlacedIn file src) → e.PlacedIn file src := by
    rintro e t ⟨pos, hpos⟩ he hparts
    exact Expr.forall_nodes_iff.2 ⟨⟨pos, by rw [he, hpos]⟩, hparts⟩
  refine ⟨fun ht _ _ => hnode ht rfl (by simp [Expr.children]),
    fun ht _ => hnode ht rfl (by simp [Expr.children]), fun ht hms => hnode ht rfl hms,
    fun ht _ => hnode ht rfl (by simp [Expr.children]), fun ht _ hl hr => hnode ht rfl ?_,
    fun ht hc hl hr => hnode ht rfl ?_⟩
  · simpa [Expr.children, or_imp, forall_and] using ⟨hl, hr⟩
  · simpa [Expr.children, or_imp, forall_and] using ⟨hl, hc, hr⟩

theorem Cursor.place_of_tokens : ∀ (fuel : Nat) (c : Cursor) {ts : List Token},
    c.tokens fuel = .ok ts → ∀ t ∈ ts, ∃ pos : Nat, t.place = .within c.file c.src pos
  | 0, c, ts, h => by
    simp only [Cursor.tokens, Except.ok.injEq] at h
    simp [← h]
  | fuel + 1, c, ts, h => by
    simp only [Cursor.tokens, Cursor.read] at h
    split_ifs at h
    · simp only [Except.ok.injEq] at h
      simp [← h]
    · rcases hk : TokenKind.first? c.skipSpace.rest with _ | ⟨k, n⟩ <;> rw [hk] at h
      · simp at h
      · simp only at h
        rcases hrest : (c.skipSpace.advance n).tokens fuel with f | us <;> rw [hrest] at h <;>
          simp only [Except.map] at h
        · simp at h
        · simp only [Except.ok.injEq] at h
          rw [← h]
          have ih := place_of_tokens fuel (c.skipSpace.advance n) hrest
          exact List.forall_mem_cons.2 ⟨⟨_, rfl⟩, ih⟩

/-- All that is read of a source has its place there. -/
theorem Program.placed_of_read {file src : Text} {p : Program}
    (h : Program.read file src = .ok p) : ∀ e ∈ p, e.PlacedIn file src := by
  obtain ⟨ts, hl, hs⟩ := Program.read_eq_ok.1 h
  have hts : ∀ t ∈ ts, ∃ pos : Nat, t.place = .within file src pos :=
    Cursor.place_of_tokens (src.length + 1) (.start file src) hl
  have hexpr : ∀ {us : List Token} {e : Expr}, (∀ t ∈ us, t ∈ ts) → Expr.read us = .ok e →
      e.PlacedIn file src := by
    intro us e hus he
    refine grammar_grows (placedIn_grows file src) us.reverse (fun t ht => ?_)
      (Expr.read_eq_ok.1 he)
    exact hts t (hus t (by simpa using ht))
  intro e he
  obtain ⟨us, hmem, hread⟩ := exists_of_mem_right hs he
  have hus := mem_statements hmem
  rcases Expr.readStatement_eq_ok hread with hread | ⟨t, u, rest, body, rfl, -, -, hbody, rfl⟩
  · exact hexpr hus hread
  · obtain ⟨pos, hpos⟩ := hts t (hus t (by simp))
    have hparts := hexpr (fun v hv => hus v (by simp [hv])) hbody
    refine Expr.forall_nodes_iff.2 ⟨⟨pos, congrArg some hpos⟩, fun c hc => ?_⟩
    obtain rfl : c = body := by simpa [Expr.children] using hc
    exact hparts

end Tacit
