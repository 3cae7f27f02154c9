import Tacit.Proofs.Tables

/-!
# An expression is read piece by piece

A piece is a number, a string, a name, an array or an expression between parentheses; the last
two need their whole inside to be read. Names and parentheses can be called. The grammar looks at
no more than three pieces at a time, and never takes a reading back (`grammar_eq_taken`): the
second piece from the end is called if it can be, or else the third on the first two, or else the
first on all that stands in front of it.
-/

namespace Tacit.Reading

/-- A piece of a statement, read from its last token. -/
structure Piece where
  /-- What the piece is when it is not called. -/
  operand : Expr
  /-- What calling it with operands is, if it can be called. -/
  call? : Option ((lhs rhs : Option Expr) → Expr)
  /-- The tokens in front of it. -/
  rest : List Token

/-- The piece at the end of a statement whose tokens are given last first. -/
def piece? : List Token → Option Piece
  | [] => none
  | t :: rest =>
    match t.kind with
    | .num | .str => (literal (t :: rest)).map fun r => ⟨r.1, none, r.2⟩
    | .ident =>
      some ⟨.named t.text none none t.place, some fun l r => .named t.text l r t.place, rest⟩
    | .braceR => (array (m := Id) grammar (t :: rest)).map fun r => ⟨r.1, none, r.2⟩
    | .parenR =>
      (between (m := Id) grammar (t :: rest)).map fun r =>
        ⟨r.1, some fun l u => .called r.1 l u ((opening? (t :: rest) r.2).map (·.place)), r.2⟩
    | _ => none

theorem piece?_num {t : Token} {x : Float} (hk : t.kind = .num)
    (hx : Decimal.read? t.text = some x) (rest : List Token) :
    piece? (t :: rest) = some ⟨.literal (.num (.ofFloat 0 x)) t.place, none, rest⟩ := by
  simp [piece?, literal, hk, hx]

theorem between_advances (ts : List Token) : Advances ts (between (m := Id) grammar ts) :=
  (sim_between equality fun us _ => ⟨rfl, grammar_advances us⟩).2

theorem array_advances (ts : List Token) : Advances ts (array (m := Id) grammar ts) :=
  (sim_array equality fun us _ => ⟨rfl, grammar_advances us⟩).2

theorem piece?_leaves {ts : List Token} {p : Piece} (h : piece? ts = some p) :
    Leaves ts p.rest := by
  rcases ts with _ | ⟨t, rest⟩
  · simp [piece?] at h
  · simp only [piece?] at h
    split at h
    · obtain ⟨⟨e, us⟩, hr, rfl⟩ := Option.map_eq_some_iff.1 h
      exact literal_advances _ e us hr
    · obtain ⟨⟨e, us⟩, hr, rfl⟩ := Option.map_eq_some_iff.1 h
      exact literal_advances _ e us hr
    · simp only [Option.some.injEq] at h
      exact h ▸ .cons t rest
    · obtain ⟨⟨e, us⟩, hr, rfl⟩ := Option.map_eq_some_iff.1 h
      exact array_advances _ e us hr
    · obtain ⟨⟨e, us⟩, hr, rfl⟩ := Option.map_eq_some_iff.1 h
      exact between_advances _ e us hr
    · simp at h

/-- The pieces at the end of a statement, the last first, as far as there are any. -/
def pieces (ts : List Token) : List Piece :=
  match _h : piece? ts with
  | none => []
  | some p => p :: pieces p.rest
termination_by ts.length
decreasing_by exact (piece?_leaves _h).2

theorem pieces_of_none {ts : List Token} (h : piece? ts = none) : pieces ts = [] := by
  rw [pieces]
  split
  · rfl
  · simp_all

theorem pieces_of_some {ts : List Token} {p : Piece} (h : piece? ts = some p) :
    pieces ts = p :: pieces p.rest := by
  rw [pieces]
  split
  · simp_all
  · rename_i q hq
    rw [h] at hq
    cases hq
    rfl

/-- What is read off some pieces: an expression, the tokens in front of it, and the pieces there. -/
structure Taken where
  expr : Expr
  rest : List Token
  left : List Piece

/-- The expression that ends with a piece, of which the others stand in front, the last first. -/
def take (y₁ : Piece) : List Piece → Taken
  | [] => ⟨y₁.operand, y₁.rest, []⟩
  | [y₂] =>
    match y₂.call?, y₁.call? with
    | some call, _ => ⟨call none y₁.operand, y₂.rest, []⟩
    | none, some call => ⟨call none y₂.operand, y₂.rest, []⟩
    | none, none => ⟨y₁.operand, y₁.rest, [y₂]⟩
  | y₂ :: y₃ :: ys =>
    match y₂.call?, y₃.call?, y₁.call? with
    | some call, _, _ =>
      let lhs := take y₃ ys
      ⟨call lhs.expr y₁.operand, lhs.rest, lhs.left⟩
    | none, some call, _ => ⟨call y₂.operand y₁.operand, y₃.rest, ys⟩
    | none, none, some call =>
      let x := take y₂ (y₃ :: ys)
      ⟨call none x.expr, x.rest, x.left⟩
    | none, none, none => ⟨y₁.operand, y₁.rest, y₂ :: y₃ :: ys⟩

theorem bind_id {α β : Type} (x : Id α) (f : α → Id β) : (x >>= f) = f x := rfl

theorem pure_id {α : Type} (a : α) : (pure a : Id α) = a := rfl

theorem orElse_eq_or (a b : Result) : orElse (m := Id) a b = a.or b := by
  cases a <;> rfl

theorem array_of_ne {t : Token} (h : t.kind ≠ .braceR) (rest : List Token) :
    array (m := Id) grammar (t :: rest) = none := by
  simp only [array, if_neg h, pure_id]

theorem between_of_ne {t : Token} (h : t.kind ≠ .parenR) (rest : List Token) :
    between (m := Id) grammar (t :: rest) = none := by
  simp only [between, if_neg h, pure_id]

theorem operand_eq_piece (ts : List Token) :
    operand (m := Id) grammar (between (m := Id) grammar) ts
      = (piece? ts).map fun p => (p.operand, p.rest) := by
  rcases ts with _ | ⟨t, rest⟩
  · rfl
  · have harr := fun h => array_of_ne (t := t) h rest
    have hbet := fun h => between_of_ne (t := t) h rest
    simp only [operand, orElse_eq_or, pure_id]
    cases hk : t.kind <;> simp_all [piece?, literal, nullary, Function.comp_def]

theorem callee_eq_piece (ts : List Token) :
    callee (m := Id) (between (m := Id) grammar) ts
      = (piece? ts).bind fun p => p.call?.map fun call => ⟨call, p.rest⟩ := by
  rcases ts with _ | ⟨t, rest⟩
  · rfl
  · have hlit : ∀ r : Result, (r.map fun r => (⟨r.1, none, r.2⟩ : Piece)).bind
        (fun p => p.call?.map fun call => (⟨call, p.rest⟩ : Callee)) = none := by
      intro r
      cases r <;> rfl
    cases hk : t.kind <;> simp only [callee, piece?, hk, hlit, pure_id, bind_id] <;> try rfl
    cases between (m := Id) grammar (t :: rest) <;> rfl

/-- The four rules for what is not a call, in the order in which the alternatives have them. -/
theorem alone_eq_piece (ts : List Token) :
    (nullary ts).or ((literal ts).or ((array (m := Id) grammar ts).or
      (between (m := Id) grammar ts))) = (piece? ts).map fun p => (p.operand, p.rest) := by
  rcases ts with _ | ⟨t, rest⟩
  · rfl
  · have harr := fun h => array_of_ne (t := t) h rest
    have hbet := fun h => between_of_ne (t := t) h rest
    cases hk : t.kind <;> simp_all [piece?, literal, nullary, Function.comp_def]

/-- What the grammar gives when the statement ends with the pieces `ys`. -/
def takenFrom : List Piece → Result
  | [] => none
  | y :: ys => some ((take y ys).expr, (take y ys).rest)

/-- The grammar is to take the pieces in front. A piece that stands alone may be callable, but
nothing is there to call it on. -/
theorem grammar_eq_taken (ts : List Token) : grammar ts = takenFrom (pieces ts) := by
  have ih : ∀ us, Leaves ts us → grammar us = takenFrom (pieces us) :=
    fun us hu => have := hu.2; grammar_eq_taken us
  rw [grammar_eq]
  simp only [alternatives, binaryCall, unaryCall, infixCall, leadingCall, callOnRight, callOnLeft,
    operand_eq_piece, callee_eq_piece, orElse_eq_or, alone_eq_piece, bind_id, pure_id]
  rcases h₁ : piece? ts with _ | y₁
  · simp [pieces_of_none h₁, takenFrom]
  have l₁ := piece?_leaves h₁
  have g₁ := ih _ l₁
  rw [pieces_of_some h₁]
  rcases h₂ : piece? y₁.rest with _ | y₂
  · rw [pieces_of_none h₂] at g₁ ⊢
    cases hc : y₁.call? <;> simp [g₁, hc, h₂, takenFrom, take]
  have l₂ := l₁.trans (piece?_leaves h₂)
  have g₂ := ih _ l₂
  rw [pieces_of_some h₂] at g₁ ⊢
  rcases hc₂ : y₂.call? with _ | call₂
  · rcases h₃ : piece? y₂.rest with _ | y₃
    · rw [pieces_of_none h₃] at g₁ ⊢
      cases hc₁ : y₁.call? <;> simp [g₁, h₂, h₃, hc₁, hc₂, takenFrom, take]
    · rw [pieces_of_some h₃] at g₁ ⊢
      cases hc₃ : y₃.call? <;> cases hc₁ : y₁.call? <;>
        simp [g₁, h₂, h₃, hc₁, hc₂, hc₃, takenFrom, take]
  · rcases h₃ : piece? y₂.rest with _ | y₃
    · rw [pieces_of_none h₃] at g₁ g₂ ⊢
      simp [g₂, h₂, h₃, hc₂, takenFrom, take]
    · rw [pieces_of_some h₃] at g₁ g₂ ⊢
      simp [g₂, h₂, h₃, hc₂, takenFrom, take]
termination_by ts.length

end Tacit.Reading
