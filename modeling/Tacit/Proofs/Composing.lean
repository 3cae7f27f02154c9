import Mathlib.Data.List.Forall2
import Mathlib.Tactic.SplitIfs
import Tacit.Proofs.Pieces

/-!
# What is read is composed of what its parts are read from

Every expression is read off a stretch of tokens: a number, a string or a name off one token, an
array off its brackets and the stretches of its members between them. A call is read off the
stretches of what is called and of its operands, one next to the other in one of four orders, and
parentheses may be put around a stretch. What holds of a stretch and an expression whenever they
are composed in such a way holds of all that the grammar gives (`grammar_composes`).
-/

namespace Tacit.Reading

/-- What can be called, read off a stretch of tokens, given what can be read off others: a name, or
an expression between parentheses. -/
inductive Calls (Q : List Token → Expr → Prop) :
    List Token → ((lhs rhs : Option Expr) → Expr) → Prop where
  | name {t : Token} (hk : t.kind = .ident) :
      Calls Q [t] fun lhs rhs => .named t.text lhs rhs t.place
  | between {o c : Token} {us : List Token} {e : Expr} (ho : o.kind = .parenL)
      (hc : c.kind = .parenR) (h : Q us e) :
      Calls Q (o :: (us ++ [c])) fun lhs rhs => .called e lhs rhs o.place

/-- A property that expressions have together with the stretches of tokens they are read off,
whenever their parts do. -/
structure Composes (Q : List Token → Expr → Prop) : Prop where
  number : ∀ {t : Token} {x : Float}, t.kind = .num → Decimal.read? t.text = some x →
    Q [t] (.literal (.num (.ofFloat 0 x)) t.place)
  string : ∀ {t : Token}, t.kind = .str → Q [t] (.literal (.str (unquoted t.text)) t.place)
  name : ∀ {t : Token}, t.kind = .ident → Q [t] (.named t.text none none t.place)
  array : ∀ {o c : Token} {uss : List (List Token)} {es : List Expr}, o.kind = .braceL →
    c.kind = .braceR → List.Forall₂ Q uss es → Q (o :: (uss.flatten ++ [c])) (.array es o.place)
  between : ∀ {o c : Token} {us : List Token} {e : Expr}, o.kind = .parenL → c.kind = .parenR →
    Q us e → Q (o :: (us ++ [c])) e
  onRight : ∀ {cs us : List Token} {call : (lhs rhs : Option Expr) → Expr} {x : Expr},
    Calls Q cs call → Q us x → Q (cs ++ us) (call none (some x))
  onLeft : ∀ {cs us : List Token} {call : (lhs rhs : Option Expr) → Expr} {x : Expr},
    Q us x → Calls Q cs call → Q (us ++ cs) (call none (some x))
  infix_ : ∀ {cs us vs : List Token} {call : (lhs rhs : Option Expr) → Expr} {x y : Expr},
    Q us x → Calls Q cs call → Q vs y → Q (us ++ (cs ++ vs)) (call (some x) (some y))
  leading : ∀ {cs us vs : List Token} {call : (lhs rhs : Option Expr) → Expr} {x y : Expr},
    Calls Q cs call → Q us x → Q vs y → Q (cs ++ (us ++ vs)) (call (some x) (some y))

section Composes

variable {Q : List Token → Expr → Prop}

/-- An expression is read off the tokens between some tokens, given last first, and what is left of
them. -/
def ReadOff (Q : List Token → Expr → Prop) (ts rest : List Token) (e : Expr) : Prop :=
  ∃ us, ts = us.reverse ++ rest ∧ Q us e

/-- All that a rule gives for some tokens is read off them. -/
def Yields (Q : List Token → Expr → Prop) (ts : List Token) (r : Result) : Prop :=
  ∀ e rest, r = some (e, rest) → ReadOff Q ts rest e

/-- A piece is read off the tokens in front of which it ends, and so is what it calls. -/
def Piece.ReadOff (Q : List Token → Expr → Prop) (ts : List Token) (p : Piece) : Prop :=
  ∃ us, ts = us.reverse ++ p.rest ∧ Q us p.operand ∧ ∀ call ∈ p.call?, Calls Q us call

/-- Pieces are read off some tokens one after the other, the last first. -/
inductive Row (Q : List Token → Expr → Prop) : List Token → List Piece → Prop where
  | nil (ts : List Token) : Row Q ts []
  | cons {ts : List Token} {p : Piece} {ps : List Piece} (hp : p.ReadOff Q ts)
      (h : Row Q p.rest ps) : Row Q ts (p :: ps)

theorem opening?_eq (o : Token) (us rest : List Token) :
    opening? ((o :: us).reverse ++ rest) rest = some o := by
  have hlen : ((o :: us).reverse ++ rest).length - rest.length - 1 = us.reverse.length := by
    simp only [List.length_append, List.length_reverse, List.length_cons]
    omega
  rw [opening?, hlen, List.reverse_cons, List.append_assoc,
    List.getElem?_append_right (Nat.le_refl _)]
  simp

theorem members_read : ∀ (n : Nat) (read : List Expr) (ts : List Token),
    (∀ us, us <:+ ts → Yields Q us (grammar us)) →
      ∃ uss ms, (members (m := Id) grammar n read ts).1 = ms ++ read ∧
        ts = uss.flatten.reverse ++ (members (m := Id) grammar n read ts).2 ∧
        List.Forall₂ Q uss ms
  | 0, _, _, _ => ⟨[], [], rfl, rfl, .nil⟩
  | n + 1, read, ts, hts => by
    simp only [members, bind_id]
    rcases hg : grammar ts with _ | ⟨e, rest⟩
    · exact ⟨[], [], rfl, rfl, .nil⟩
    · have hrest : rest <:+ ts := (grammar_advances ts e rest hg).1
      obtain ⟨us, rfl, hus⟩ := hts ts (List.suffix_refl ts) e rest hg
      obtain ⟨uss, ms, hms, hsplit, hall⟩ :=
        members_read n (e :: read) rest fun vs hv => hts vs (hv.trans hrest)
      refine ⟨uss ++ [us], ms ++ [e], ?_, ?_, List.rel_append hall (.cons hus .nil)⟩
      · simpa using hms
      · simp only [List.flatten_append, List.flatten_cons, List.flatten_nil, List.append_nil,
          List.reverse_append, List.append_assoc]
        exact congrArg (us.reverse ++ ·) hsplit

theorem between_read {ts : List Token} (hts : ∀ us, Leaves ts us → Yields Q us (grammar us))
    {e : Expr} {rest : List Token} (h : between (m := Id) grammar ts = some (e, rest)) :
    ∃ o c us, ts = (o :: (us ++ [c])).reverse ++ rest ∧ o.kind = .parenL ∧ c.kind = .parenR ∧
      Q us e := by
  rcases ts with _ | ⟨t, us⟩
  · simp [between, pure_id] at h
  simp only [between, bind_id, pure_id] at h
  split_ifs at h with hk
  rcases hg : grammar us with _ | ⟨e', _ | ⟨o, vs⟩⟩
  · simp [hg] at h
  · simp [hg] at h
  rw [hg] at h
  simp only at h
  split_ifs at h with ho
  obtain ⟨rfl, rfl⟩ := Prod.mk.inj (Option.some.inj h)
  obtain ⟨ws, rfl, hws⟩ := hts us (Leaves.cons t us) _ _ hg
  exact ⟨o, t, ws, by simp, ho, hk, hws⟩

variable (hQ : Composes Q)
include hQ

theorem take_reads : ∀ {ts : List Token} {y : Piece} {ys : List Piece}, Row Q ts (y :: ys) →
    ReadOff Q ts (take y ys).rest (take y ys).expr
  | _, y₁, [], .cons ⟨us₁, h₁, hy₁, _⟩ _ => ⟨us₁, h₁, hy₁⟩
  | ts, y₁, [y₂], .cons ⟨us₁, h₁, hy₁, hc₁⟩ (.cons ⟨us₂, h₂, hy₂, hc₂⟩ _) => by
    have hts : ts = (us₂ ++ us₁).reverse ++ y₂.rest := by simp [h₁, h₂]
    simp only [take]
    rcases hcall₂ : y₂.call? with _ | c₂
    · rcases hcall₁ : y₁.call? with _ | c₁
      · exact ⟨us₁, h₁, hy₁⟩
      · exact ⟨_, hts, hQ.onLeft hy₂ (hc₁ c₁ hcall₁)⟩
    · exact ⟨_, hts, hQ.onRight (hc₂ c₂ hcall₂) hy₁⟩
  | ts, y₁, y₂ :: y₃ :: ys,
      .cons ⟨us₁, h₁, hy₁, hc₁⟩ (.cons ⟨us₂, h₂, hy₂, hc₂⟩ (.cons ⟨us₃, h₃, hy₃, hc₃⟩ hys)) => by
    simp only [take]
    rcases hcall₂ : y₂.call? with _ | c₂
    · rcases hcall₃ : y₃.call? with _ | c₃
      · rcases hcall₁ : y₁.call? with _ | c₁
        · exact ⟨us₁, h₁, hy₁⟩
        · obtain ⟨us, hus, hx⟩ :=
            take_reads (.cons ⟨us₂, h₂, hy₂, hc₂⟩ (.cons ⟨us₃, h₃, hy₃, hc₃⟩ hys))
          exact ⟨us ++ us₁, by simp [h₁, hus], hQ.onLeft hx (hc₁ c₁ hcall₁)⟩
      · exact ⟨us₃ ++ (us₂ ++ us₁), by simp [h₁, h₂, h₃], hQ.leading (hc₃ c₃ hcall₃) hy₂ hy₁⟩
    · obtain ⟨us, hus, hx⟩ := take_reads (.cons ⟨us₃, h₃, hy₃, hc₃⟩ hys)
      exact ⟨us ++ (us₂ ++ us₁), by simp [h₁, h₂, hus], hQ.infix_ hx (hc₂ c₂ hcall₂) hy₁⟩

theorem literal_reads (ts : List Token) : Yields Q ts (literal ts) := by
  intro e rest h
  rcases ts with _ | ⟨t, us⟩
  · simp [literal] at h
  simp only [literal] at h
  split at h
  · next hk =>
    obtain ⟨x, hx, he⟩ := Option.map_eq_some_iff.1 h
    obtain ⟨rfl, rfl⟩ := Prod.mk.inj he
    exact ⟨[t], rfl, hQ.number hk hx⟩
  · next hk =>
    obtain ⟨rfl, rfl⟩ := Prod.mk.inj (Option.some.inj h)
    exact ⟨[t], rfl, hQ.string hk⟩
  · cases h

theorem array_reads {ts : List Token}
    (hts : ∀ us, Leaves ts us → Yields Q us (grammar us)) :
    Yields Q ts (array (m := Id) grammar ts) := by
  intro e rest h
  rcases ts with _ | ⟨t, us⟩
  · simp [array, pure_id] at h
  obtain ⟨uss, ms, hms, hsplit, hall⟩ := members_read (us.length + 1) [] us
    fun vs hv => hts vs ((Leaves.cons t us).trans_suffix hv)
  simp only [array, bind_id, pure_id] at h
  split_ifs at h with hk
  rcases hm : members (m := Id) grammar (us.length + 1) [] us with ⟨es, _ | ⟨o, vs⟩⟩
  · simp [hm] at h
  rw [hm] at h hms hsplit
  simp only at h
  split_ifs at h with ho
  obtain ⟨rfl, rfl⟩ := Prod.mk.inj (Option.some.inj h)
  obtain rfl : es = ms := hms.trans (List.append_nil ms)
  refine ⟨o :: (uss.flatten ++ [t]), ?_, hQ.array ho hk hall⟩
  simp [hsplit]

theorem piece?_reads {ts : List Token} {p : Piece}
    (hts : ∀ us, Leaves ts us → Yields Q us (grammar us)) (h : piece? ts = some p) :
    p.ReadOff Q ts := by
  have hstill : ∀ {r : Result}, Yields Q ts r →
      (r.map fun r => (⟨r.1, none, r.2⟩ : Piece)) = some p → p.ReadOff Q ts := by
    intro r hr hp
    obtain ⟨⟨e, rest⟩, rfl, rfl⟩ := Option.map_eq_some_iff.1 hp
    obtain ⟨us, hus, he⟩ := hr e rest rfl
    exact ⟨us, hus, he, nofun⟩
  rcases ts with _ | ⟨t, us⟩
  · cases h
  simp only [piece?] at h
  split at h
  · exact hstill (literal_reads hQ _) h
  · exact hstill (literal_reads hQ _) h
  · next hk =>
    cases h
    refine ⟨[t], rfl, hQ.name hk, ?_⟩
    rintro _ ⟨⟩
    exact .name hk
  · exact hstill (array_reads hQ hts) h
  · obtain ⟨⟨e, rest⟩, he, rfl⟩ := Option.map_eq_some_iff.1 h
    obtain ⟨o, c, us, hus, ho, hc, hq⟩ := between_read hts he
    refine ⟨_, hus, hQ.between ho hc hq, ?_⟩
    rintro _ ⟨⟩
    simp only [hus, opening?_eq, Option.map_some]
    exact .between ho hc hq
  · cases h

theorem pieces_row (ts : List Token)
    (hts : ∀ us, us.length < ts.length → Yields Q us (grammar us)) : Row Q ts (pieces ts) := by
  rcases hp : piece? ts with _ | p
  · rw [pieces_of_none hp]
    exact .nil ts
  · have hlen := (piece?_leaves hp).2
    rw [pieces_of_some hp]
    exact .cons (piece?_reads hQ (fun us hu => hts us hu.2) hp)
      (pieces_row p.rest fun us hu => hts us (Nat.lt_trans hu hlen))
termination_by ts.length

/-- What all ways of composing an expression keep holds of the expressions that the grammar gives
and the tokens they are read off. -/
theorem grammar_composes (ts : List Token) : Yields Q ts (grammar ts) := by
  have hrow := pieces_row hQ ts fun us _ => grammar_composes us
  intro e rest h
  rw [grammar_eq_taken] at h
  rcases hp : pieces ts with _ | ⟨y, ys⟩
  · simp [hp, takenFrom] at h
  · rw [hp] at h hrow
    obtain ⟨rfl, rfl⟩ := Prod.mk.inj (Option.some.inj h)
    exact take_reads hQ hrow
termination_by ts.length

end Composes

end Tacit.Reading
