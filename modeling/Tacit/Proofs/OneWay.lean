import Tacit.Proofs.Fusing

/-!
# Reading without ever going back

The units of a statement can be told from its end, one after the other: a number in range, a
string, a name, or brackets with their whole inside. What stands between parentheses must be one
expression, and what stands between square brackets any number of them; either way no unit may be
left over. The expression at the end of some units is read off the last three of them and, where it
goes on, of what stands in front (`take`). Nothing is tried and taken back, and the result is that
of the alternatives (`tabled_eq_oneWay`).
-/

namespace Tacit.Reading

mutual

/-- The unit at the end of some tokens, which are given last first. -/
def unit? (ts : List Token) : Option {y : Piece // y.rest.length < ts.length} :=
  match ts with
  | [] => none
  | t :: before =>
    match t.kind with
    | .num => (Decimal.read? t.text).map fun x =>
      ⟨⟨.literal (.num (.ofFloat 0 x)) t.place, none, before⟩, by simp⟩
    | .str => some ⟨⟨.literal (.str (unquoted t.text)) t.place, none, before⟩, by simp⟩
    | .ident => some ⟨⟨.named t.text none none t.place,
        some fun lhs rhs => .named t.text lhs rhs t.place, before⟩, by simp⟩
    | .parenR =>
      match units before with
      | ⟨(y :: ys, o :: rest), h⟩ =>
        let inside := take y ys
        if o.kind = .parenL ∧ inside.left.isEmpty then
          some ⟨⟨inside.expr, some fun lhs rhs => .called inside.expr lhs rhs o.place, rest⟩,
            by simp at h ⊢; omega⟩
        else none
      | _ => none
    | .braceR =>
      match units before with
      | ⟨(ys, o :: rest), h⟩ =>
        if o.kind = .braceL then
          some ⟨⟨.array (takeAll ys) o.place, none, rest⟩, by simp at h ⊢; omega⟩
        else none
      | _ => none
    | _ => none
termination_by (ts.length, 0)

/-- The units at the end of some tokens, the last first, and the tokens in front of them. -/
def units (ts : List Token) : {r : List Piece × List Token // r.2.length ≤ ts.length} :=
  match unit? ts with
  | none => ⟨([], ts), Nat.le_refl _⟩
  | some ⟨y, hy⟩ => ⟨(y :: (units y.rest).1.1, (units y.rest).1.2), by
    have := (units y.rest).2
    simp only
    omega⟩
termination_by (ts.length, 1)

end

/-- The expression at the end of some tokens and the tokens in front of it. -/
def oneWay (ts : List Token) : Result :=
  match (units ts).1.1 with
  | [] => none
  | y :: ys => some ((take y ys).expr, (take y ys).rest)

theorem pieces_eq_nil {ts : List Token} (h : pieces ts = []) : piece? ts = none := by
  rcases hp : piece? ts with _ | p
  · rfl
  · simp [pieces_of_some hp] at h

/-- When an expression has taken all pieces, it stops where they do; when it has not, then in front
of a token that opens nothing. -/
theorem take_rest {ts : List Token} {y : Piece} {ys : List Piece} (h : pieces ts = y :: ys) :
    if (take y ys).left.isEmpty then (take y ys).rest = front ts
    else ∀ o rest, (take y ys).rest = o :: rest → o.kind ≠ .parenL := by
  obtain ⟨hleft, hfront⟩ := take_left h
  split_ifs with he
  · rw [List.isEmpty_iff.1 he] at hleft
    rw [← hfront, front_of_none (pieces_eq_nil hleft)]
  · intro o rest hr ho
    have hnone : piece? (o :: rest) = none := by simp [piece?, ho]
    rw [hr, pieces_of_none hnone] at hleft
    simp [← hleft] at he

theorem between_eq_pieces {t : Token} (hk : t.kind = .parenR) (before : List Token) :
    between (m := Id) grammar (t :: before) = match pieces before, front before with
      | y :: ys, o :: rest =>
        if o.kind = .parenL ∧ (take y ys).left.isEmpty then some ((take y ys).expr, rest) else none
      | _, _ => none := by
  simp only [between, hk, if_true, grammar_eq_taken, bind_id, pure_id]
  rcases hp : pieces before with _ | ⟨y, ys⟩
  · rfl
  · have hrest := take_rest hp
    simp only [takenFrom]
    by_cases hl : (take y ys).left.isEmpty = true
    · rw [if_pos hl] at hrest
      rw [hrest]
      rcases front before with _ | ⟨o, rest⟩ <;> simp [hl]
    · rw [if_neg hl] at hrest
      rcases hr : (take y ys).rest with _ | ⟨o, rest⟩ <;> rcases front before with _ | ⟨u, us⟩
      · rfl
      · simp [hl]
      · simp [hrest o rest hr]
      · simp [hl, hrest o rest hr]

theorem array_eq_pieces {t : Token} (hk : t.kind = .braceR) (before : List Token) :
    array (m := Id) grammar (t :: before) = match front before with
      | o :: rest =>
        if o.kind = .braceL then some (.array (takeAll (pieces before)) o.place, rest) else none
      | [] => none := by
  have hm := members_eq (before.length + 1) [] before (by omega)
  simp only [array, hk, if_true, hm, bind_id, pure_id, List.append_nil]
  rcases front before with _ | ⟨o, rest⟩ <;> rfl

theorem front_suffix (ts : List Token) : front ts <:+ ts := by
  rcases hp : piece? ts with _ | p
  · have hf : front ts = ts := front_of_none hp
    exact hf.symm ▸ List.suffix_refl ts
  · have hl := piece?_leaves hp
    have := hl.2
    rw [front_of_some hp]
    exact (front_suffix p.rest).trans hl.1
termination_by ts.length

/-- The opening parenthesis is the token in front of which nothing was read. -/
theorem opening?_of_suffix {ts rest : List Token} {o : Token} (h : o :: rest <:+ ts) :
    opening? ts rest = some o := by
  obtain ⟨us, rfl⟩ := h
  have hlen : (us ++ o :: rest).length - rest.length - 1 = us.length := by
    simp only [List.length_append, List.length_cons]
    omega
  rw [opening?, hlen, List.getElem?_append_right (Nat.le_refl _), Nat.sub_self]
  rfl

mutual

theorem unit?_eq_piece (ts : List Token) : (unit? ts).map Subtype.val = piece? ts := by
  rcases ts with _ | ⟨t, before⟩
  · rw [unit?]
    rfl
  · rw [unit?]
    rcases hk : t.kind
    all_goals simp only [piece?, hk, literal]
    · rcases Decimal.read? t.text with _ | x <;> rfl
    · rfl
    · rfl
    · rfl
    · have ih := units_eq_pieces before
      have hfront := (front_suffix before).trans (List.suffix_cons t before)
      rw [between_eq_pieces hk]
      rcases hu : units before with ⟨⟨_ | ⟨y, ys⟩, _ | ⟨o, rest⟩⟩, h⟩ <;> rw [hu] at ih <;>
        obtain ⟨hp, hf⟩ := Prod.mk.inj ih <;> simp only [← hp, ← hf] at hfront ⊢
      · rfl
      · rfl
      · rfl
      · split_ifs
        · simp [opening?_of_suffix hfront]
        · rfl
    · rfl
    · have ih := units_eq_pieces before
      rw [array_eq_pieces hk]
      rcases hu : units before with ⟨⟨ys, _ | ⟨o, rest⟩⟩, h⟩ <;> rw [hu] at ih <;>
        obtain ⟨hp, hf⟩ := Prod.mk.inj ih <;> simp only [← hp, ← hf]
      · rfl
      · split_ifs <;> rfl
    · rfl
    · rfl
termination_by (ts.length, 0)

theorem units_eq_pieces (ts : List Token) : (units ts).1 = (pieces ts, front ts) := by
  have hu := unit?_eq_piece ts
  rw [units]
  rcases hy : unit? ts with _ | ⟨y, h⟩ <;> rw [hy] at hu
  · rw [pieces_of_none hu.symm, front_of_none hu.symm]
  · rw [pieces_of_some hu.symm, front_of_some hu.symm]
    simp only [units_eq_pieces y.rest]
termination_by (ts.length, 1)

end

/-- Reading one way gives what trying and taking back gives. -/
theorem oneWay_eq_grammar (ts : List Token) : oneWay ts = grammar ts := by
  rw [oneWay, units_eq_pieces, grammar_eq_taken]
  rfl

/-- From every position of the tokens, last first, the rules with their tables read what is read
one way; and what is accepted as an expression are some tokens that are read so to the first. -/
theorem tabled_eq_oneWay (ts : List Token) :
    (∀ position : Nat,
      ((tabledExpression (ts.length + 1) (ts.reverse.drop position)).run .empty).1
        = oneWay (ts.reverse.drop position)) ∧
    ∀ e : Expr, Expr.read ts = .ok e ↔ ts ≠ [] ∧ oneWay ts.reverse = some (e, []) := by
  refine ⟨fun position => ?_, fun e => ?_⟩
  · rw [oneWay_eq_grammar]
    refine tabledExpression_eq ?_ (Tables.empty_right _)
    rw [List.length_drop, List.length_reverse]
    omega
  · rw [oneWay_eq_grammar, Expr.read_eq_ok]
    refine ⟨fun h => ⟨?_, h⟩, fun h => h.2⟩
    rintro rfl
    rw [List.reverse_nil, grammar_eq_taken, pieces_of_none (show piece? [] = none from rfl)] at h
    cases h

end Tacit.Reading
