import Tacit.Proofs.Relocating

/-!
# Joined sources

Two sources are joined by a semicolon and the end of a line. The tokens of the first are cut off as
if nothing followed, since no number or name goes on with a semicolon, nor does a string whose own
quote ends it. Those of the second follow, some lines further down (`lexes_joined`). Statements are
divided by semicolons, and how a statement is read does not depend on where it stands
(`readStatement_moved`), so the program of the joined source is that of the first and then that of
the second (`read_joined`).
-/

namespace Tacit

namespace Location

/-- The place when some whole lines are put in front of the source. -/
def behind (lines : Text) (l : Location) : Location :=
  { l with pos := l.pos + lines.length, line := l.line + lines.count newline }

theorem within_append {src : Text} {pos : Nat} (h : pos ≤ src.length) (file rest : Text) :
    within file (src ++ rest) pos = within file src pos := by
  have hl : min (pos : Int) (src ++ rest).length = pos := by
    rw [List.length_append]
    omega
  have hr : min (pos : Int) src.length = pos := by omega
  simp only [within, hl, hr, Int.toNat_natCast, List.take_append_of_le_length h]

theorem within_behind {lines : Text} (h : lines.getLast? = some newline) (file src : Text)
    (pos : Nat) :
    within file (lines ++ src) (lines.length + pos : Nat) = (within file src pos).behind lines := by
  have hmin : min ((lines.length + pos : Nat) : Int) (lines ++ src).length =
      min (pos : Int) src.length + lines.length := by
    rw [List.length_append]
    omega
  have hnat : (min (pos : Int) src.length + lines.length).toNat =
      lines.length + (min (pos : Int) src.length).toNat := by omega
  have hcol : ∀ t : Text, columnAfter (lines ++ t) = columnAfter t := by
    intro t
    have hhead : ∀ b ∈ lines.reverse.head?, (b != newline) = false := by
      rw [List.head?_reverse, h]
      rintro _ ⟨⟩
      rfl
    rw [columnAfter, List.reverse_append, takeWhile_append_of_head hhead, columnAfter]
  simp only [within, behind, hmin, hnat, List.take_length_add_append, hcol, lineAfter,
    List.count_append]
  congr 1
  omega

end Location

/-- The token at another place. -/
def Token.moved (σ : Location → Location) (t : Token) : Token := { t with place := σ t.place }

namespace Lexeme

/-- A string is as long with other text behind it, unless it ends with an escaped quote and the next
quote is in that text. -/
theorem strLength?_append {t u : Text} {n : Nat} (h : strLength? t = some n)
    (hu : [backslash, quote] <:+ t.take n → quote ∉ t.drop n → quote ∉ u) :
    strLength? (t ++ u) = some n := by
  obtain ⟨s, r, rfl, rfl, hs, hr⟩ := exists_of_strLength? h
  rw [List.take_left, List.drop_left] at hu
  rw [List.append_assoc]
  refine strLength?_quoted hs fun he => ?_
  obtain ⟨s', rfl⟩ := List.getLast?_eq_some_iff.1 (escapes_false_iff.1 he)
  have hsuffix : [backslash, quote] <:+ quoted (s' ++ [backslash]) :=
    ⟨quote :: s', by simp [quoted]⟩
  rw [List.mem_append, not_or]
  exact ⟨hr he, hu hsuffix (hr he)⟩

end Lexeme

namespace TokenKind

open Lexeme

theorem ne_nil_of_first? {t : Text} {w : TokenKind × Nat} (h : first? t = some w) : t ≠ [] := by
  rintro rfl
  cases h

/-- Text that cannot make a number or name longer changes nothing about the lexeme in front of it,
unless that is a string which goes on. -/
theorem first?_append {t u : Text} {k : TokenKind} {n : Nat} (h : first? t = some (k, n))
    (hu : Ends u) (hs : k = .str → strLength? (t ++ u) = some n) :
    first? (t ++ u) = some (k, n) := by
  have hl := length?_of_first? h
  have ht := ne_nil_of_first? h
  have hfixed : ∀ k' : TokenKind, k'.isVaried = false → fixedLength? k'.name t = some n →
      first? (t ++ u) = some (k', n) := by
    intro k' hk' hn
    obtain ⟨r, hr, rfl⟩ := Option.map_eq_some_iff.1 hn
    rw [Text.eq_append_of_after? hr, List.append_assoc]
    exact first?_fixed hk' _
  cases k with
  | num =>
    have hnum : numLength? (t ++ u) = some n := (numLength?_append ht hu).trans hl
    simp [first?, all, length?, hnum]
  | str => exact first?_str (hs rfl)
  | ident =>
    have hname : nameLength? (t ++ u) = some n := (nameLength?_append ht hu).trans hl
    rcases t with _ | ⟨b, t⟩
    · exact absurd rfl ht
    · have hb : startsName b = true := by
        simp only [length?, nameLength?] at hl
        split_ifs at hl with hb
        exact hb
      have hq : b ≠ quote := by
        rintro rfl
        cases hb
      rw [List.cons_append] at hname ⊢
      simp [first?, all, length?, numLength?_eq_none (.inl hb), strLength?, hq, hname]
  | _ => exact hfixed _ rfl hl

end TokenKind

/-- The last string among some tokens ends with an escaped quote, so it would go on if there were
another quote behind it. -/
def EndsOpen (ts : List Token) : Prop :=
  ∃ t, (ts.filter (·.kind == .str)).getLast? = some t ∧
    [Lexeme.backslash, Lexeme.quote] <:+ t.text

theorem EndsOpen.cons {ts : List Token} (h : EndsOpen ts) (t : Token) : EndsOpen (t :: ts) := by
  obtain ⟨u, hu, htext⟩ := h
  refine ⟨u, ?_, htext⟩
  rw [List.filter_cons]
  split_ifs
  · rw [List.getLast?_cons, hu, Option.getD_some]
  · exact hu

namespace Cursor

/-- Successive reads find some tokens and then nothing. -/
inductive Lexes : Cursor → List Token → Prop where
  | nothing {c c' : Cursor} (h : c.read = (.nothing, c')) : Lexes c []
  | token {c c' : Cursor} {t : Token} {ts : List Token} (h : c.read = (.token t, c'))
      (hts : Lexes c' ts) : Lexes c (t :: ts)

theorem Lexes.congr {c d : Cursor} {ts : List Token} (hread : c.read = d.read) (h : c.Lexes ts) :
    d.Lexes ts := by
  cases h with
  | nothing h => exact .nothing (hread.symm.trans h)
  | token h hts => exact .token (hread.symm.trans h) hts

theorem read_eq_nothing {c c' : Cursor} :
    c.read = (.nothing, c') ↔ c.skipSpace.rest = [] ∧ c' = c.skipSpace := by
  unfold read
  simp only
  rcases hr : c.skipSpace.rest with _ | ⟨b, r⟩
  · simp [eq_comm]
  · rcases TokenKind.first? (b :: r) with _ | ⟨k, n⟩ <;> simp

theorem read_eq_token {c c' : Cursor} {t : Token} : c.read = (.token t, c') ↔
    ∃ k n, TokenKind.first? c.skipSpace.rest = some (k, n) ∧
      t = ⟨k, c.skipSpace.rest.take n, c.skipSpace.place⟩ ∧ c' = c.skipSpace.advance n := by
  unfold read
  simp only
  rcases hr : c.skipSpace.rest with _ | ⟨b, r⟩
  · have hnil : TokenKind.first? [] = none := rfl
    simp [hnil]
  · rcases hf : TokenKind.first? (b :: r) with _ | ⟨k, n⟩ <;> simp [eq_comm]

theorem length_rest_skipSpace (c : Cursor) : c.skipSpace.rest.length ≤ c.rest.length := by
  simp [skipSpace, advance]

theorem Lexes.of_nothing {c c' : Cursor} {ts : List Token} (hread : c.read = (.nothing, c'))
    (h : c.Lexes ts) : ts = [] := by
  cases h with
  | nothing => rfl
  | token ht => cases hread.symm.trans ht

theorem Lexes.of_token {c c' : Cursor} {t : Token} {ts : List Token}
    (hread : c.read = (.token t, c')) (h : c.Lexes ts) : ∃ us, ts = t :: us ∧ c'.Lexes us := by
  cases h with
  | nothing ht => cases hread.symm.trans ht
  | token ht hus =>
    cases hread.symm.trans ht
    exact ⟨_, rfl, hus⟩

theorem not_lexes_of_unmatched {c c' : Cursor} {f : Fault} {ts : List Token}
    (hread : c.read = (.unmatched f, c')) : ¬ c.Lexes ts := by
  intro h
  cases h with
  | nothing ht | token ht => cases hread.symm.trans ht

theorem length_rest_of_token {c c' : Cursor} {t : Token} (h : c.read = (.token t, c')) :
    c'.rest.length < c.rest.length := by
  obtain ⟨k, n, hf, -, rfl⟩ := read_eq_token.1 h
  have hpos := TokenKind.first?_pos hf
  have hle := TokenKind.le_length_of_first? hf
  have hskip := c.length_rest_skipSpace
  simp only [advance, List.length_drop]
  omega

theorem tokens_eq_ok_iff {fuel : Nat} {c : Cursor} {ts : List Token} (h : c.rest.length < fuel) :
    c.tokens fuel = .ok ts ↔ c.Lexes ts := by
  induction fuel generalizing c ts with
  | zero => omega
  | succ fuel ih =>
    rw [tokens]
    rcases hread : c.read with ⟨found, c'⟩
    cases found with
    | nothing =>
      refine ⟨?_, fun hts => congrArg Except.ok (hts.of_nothing hread).symm⟩
      rintro ⟨⟩
      exact .nothing hread
    | unmatched f =>
      refine ⟨?_, fun hts => absurd hts (not_lexes_of_unmatched hread)⟩
      rintro ⟨⟩
    | token t =>
      have hlen : c'.rest.length < fuel := by
        have := length_rest_of_token hread
        omega
      constructor
      · intro hts
        rcases hus : c'.tokens fuel with f | us <;> simp only [hus] at hts <;> cases hts
        exact .token hread ((ih hlen).1 hus)
      · intro hts
        obtain ⟨us, rfl, hus⟩ := hts.of_token hread
        simp only [(ih hlen).2 hus]
        rfl

theorem read_of_space {c : Cursor} {b : UInt8} {r : Text} (h : c.rest = b :: r)
    (hb : isSpace b = true) : c.read = (c.advance 1).read := by
  have hskip : c.skipSpace = (c.advance 1).skipSpace := by
    simp only [skipSpace, advance, h, List.takeWhile_cons_of_pos hb, List.length_cons,
      List.drop_succ_cons, List.drop_zero, Nat.add_assoc, Nat.add_comm 1]
  unfold read
  rw [hskip]

theorem Lexes.quote_mem {c : Cursor} {ts : List Token} (h : c.Lexes ts) :
    ∀ t ∈ ts, t.kind = .str → Lexeme.quote ∈ c.rest := by
  induction h with
  | nothing => simp
  | @token c c' t ts h _ ih =>
    obtain ⟨k, n, hf, rfl, rfl⟩ := read_eq_token.1 h
    have hrest : ∀ b ∈ c.skipSpace.rest, b ∈ c.rest := fun b => List.mem_of_mem_drop
    rw [List.forall_mem_cons]
    refine ⟨?_, fun t ht hk => hrest _ (List.mem_of_mem_drop (ih t ht hk))⟩
    rintro rfl
    obtain ⟨s, r, hs, -⟩ := Lexeme.exists_of_strLength? (TokenKind.length?_of_first? hf)
    exact hrest _ (hs ▸ List.mem_append_left _ List.mem_cons_self)

/-- The cursor has as much behind it as there is of its source. -/
def Spans (c : Cursor) : Prop := c.pos + c.rest.length = c.src.length

theorem Spans.advance {c : Cursor} (h : c.Spans) {n : Nat} (hn : n ≤ c.rest.length) :
    (c.advance n).Spans := by
  unfold Spans at h ⊢
  simp only [Cursor.advance, List.length_drop]
  omega

theorem Spans.skipSpace {c : Cursor} (h : c.Spans) : c.skipSpace.Spans :=
  h.advance (List.takeWhile_prefix isSpace).length_le

/-- The cursor when there is more text behind its source. -/
def before (u : Text) (c : Cursor) : Cursor := { c with src := c.src ++ u, rest := c.rest ++ u }

/-- The place where that text begins. -/
def atEnd (u : Text) (c : Cursor) : Cursor := ⟨c.file, c.src ++ u, c.src.length, u⟩

/-- The cursor when there are other lines in front of its source. -/
def behind (lines : Text) (c : Cursor) : Cursor :=
  { c with src := lines ++ c.src, pos := lines.length + c.pos }

theorem advance_before {c : Cursor} {n : Nat} (hn : n ≤ c.rest.length) (u : Text) :
    (c.before u).advance n = (c.advance n).before u := by
  simp only [before, advance, List.drop_append_of_le_length hn]

theorem place_before {c : Cursor} (h : c.Spans) (u : Text) : (c.before u).place = c.place := by
  have hpos : c.pos ≤ c.src.length := by
    unfold Spans at h
    omega
  exact Location.within_append hpos c.file u

section Before

variable {u : Text}

theorem skipSpace_before {c : Cursor} (h : c.skipSpace.rest ≠ []) (u : Text) :
    (c.before u).skipSpace = c.skipSpace.before u := by
  have hrest : c.skipSpace.rest = c.rest.dropWhile isSpace := drop_length_takeWhile _ _
  have hshort : (c.rest.takeWhile isSpace).length ≠ c.rest.length := by
    intro hlen
    apply h
    rw [hrest, ← drop_length_takeWhile, hlen, List.drop_length]
  have hspace : (c.before u).rest.takeWhile isSpace = c.rest.takeWhile isSpace := by
    rw [before, List.takeWhile_append, if_neg hshort]
  rw [skipSpace, hspace, advance_before (List.takeWhile_prefix isSpace).length_le, skipSpace]

/-- Where there is nothing but space left of a source, what follows it is read. -/
theorem read_before_of_nothing {c c' : Cursor} (hc : c.Spans) (h : c.read = (.nothing, c')) :
    (c.before u).read = (c.atEnd u).read := by
  obtain ⟨hrest, -⟩ := read_eq_nothing.1 h
  have hall : (c.rest.takeWhile isSpace).length = c.rest.length := by
    refine Nat.le_antisymm (List.takeWhile_prefix isSpace).length_le ?_
    rwa [skipSpace, advance, List.drop_eq_nil_iff] at hrest
  have hskip : (c.before u).skipSpace = (c.atEnd u).skipSpace := by
    have hpos : c.pos + c.rest.length = c.src.length := hc
    simp only [skipSpace, before, atEnd, advance, List.takeWhile_append, if_pos hall,
      List.length_append, List.drop_length_add_append, ← hpos, Nat.add_assoc]
  unfold read
  rw [hskip]

theorem read_before_of_token (hends : Lexeme.Ends u) {c c' : Cursor} {t : Token} (hc : c.Spans)
    (h : c.read = (.token t, c'))
    (hq : t.kind = .str → [Lexeme.backslash, Lexeme.quote] <:+ t.text → Lexeme.quote ∉ c'.rest →
      Lexeme.quote ∉ u) :
    (c.before u).read = (.token t, c'.before u) ∧ c'.Spans := by
  obtain ⟨k, n, hf, rfl, rfl⟩ := read_eq_token.1 h
  have hn := TokenKind.le_length_of_first? hf
  have hskip := skipSpace_before (TokenKind.ne_nil_of_first? hf) u
  refine ⟨read_eq_token.2 ⟨k, n, ?_, ?_, ?_⟩, hc.skipSpace.advance hn⟩
  · rw [hskip]
    refine TokenKind.first?_append hf hends ?_
    rintro rfl
    exact Lexeme.strLength?_append (TokenKind.length?_of_first? hf) (hq rfl)
  · rw [hskip, place_before hc.skipSpace, before, List.take_append_of_le_length hn]
  · rw [hskip, advance_before hn]

/-- The tokens of a source are cut off as before when other text follows that does not go on with
the last of them, and then those of that text. -/
theorem Lexes.before (hends : Lexeme.Ends u) {c : Cursor} {ts us : List Token} (h : c.Lexes ts)
    (hc : c.Spans) (hopen : EndsOpen ts → Lexeme.quote ∉ u) (hus : (c.atEnd u).Lexes us) :
    (c.before u).Lexes (ts ++ us) := by
  induction h with
  | nothing h => exact hus.congr (read_before_of_nothing hc h).symm
  | @token c c' t ts h hts ih =>
    obtain ⟨hread, hc'⟩ := read_before_of_token hends hc h (by
      intro hk htext hq
      have hnone : ts.filter (·.kind == .str) = [] := by
        rw [List.filter_eq_nil_iff]
        intro s hs hk
        exact hq (hts.quote_mem s hs (by simpa using hk))
      exact hopen ⟨t, by simp [hk, hnone], htext⟩)
    obtain ⟨k, n, -, -, rfl⟩ := read_eq_token.1 h
    exact .token hread (ih hc' (fun ho => hopen (ho.cons t)) hus)

end Before

/-- Behind other lines the same tokens are cut off, at places behind these lines. -/
theorem Lexes.behind {lines : Text} (hlines : lines.getLast? = some Location.newline) {c : Cursor}
    {ts : List Token} (h : c.Lexes ts) :
    (c.behind lines).Lexes (ts.map (Token.moved (.behind lines))) := by
  have hadvance : ∀ (c : Cursor) (n : Nat),
      (c.behind lines).advance n = (c.advance n).behind lines := by
    intro c n
    simp only [Cursor.behind, advance, Nat.add_assoc]
  have hskip : ∀ c : Cursor, (c.behind lines).skipSpace = c.skipSpace.behind lines :=
    fun c => hadvance c _
  induction h with
  | @nothing c c' h =>
    obtain ⟨hrest, rfl⟩ := read_eq_nothing.1 h
    exact .nothing (read_eq_nothing.2 ⟨by rw [hskip]; exact hrest, rfl⟩)
  | @token c c' t ts h _ ih =>
    obtain ⟨k, n, hf, rfl, rfl⟩ := read_eq_token.1 h
    refine .token (read_eq_token.2 ⟨k, n, by rw [hskip]; exact hf, ?_, ?_⟩) ih
    · rw [hskip]
      exact congrArg (Token.mk _ _) (Location.within_behind hlines ..).symm
    · rw [hskip, hadvance]

end Cursor

/-- What two sources are joined by. -/
def joint : Text := ";\n"

/-- The semicolon that joins a source to the next. -/
def Token.joint (file a b : Text) : Token :=
  ⟨.semi, ";", .within file (a ++ Tacit.joint ++ b) a.length⟩

theorem getLast?_joint (a : Text) : (a ++ joint).getLast? = some Location.newline := by
  rw [List.getLast?_append]
  rfl

/-- A source has some tokens exactly if they are cut off it one by one. -/
theorem lex_eq_ok_iff {file src : Text} {ts : List Token} :
    lex file src = .ok ts ↔ (Cursor.start file src).Lexes ts :=
  Cursor.tokens_eq_ok_iff (Nat.lt_succ_self _)

/-- From the end of a source on, the semicolon that joins and then the tokens of the other source
are cut off, as the end of the line between them is passed over. -/
theorem Cursor.lexes_joint {file b : Text} {us : List Token} (h : (Cursor.start file b).Lexes us)
    (a : Text) : ((Cursor.start file a).atEnd (joint ++ b)).Lexes
      (Token.joint file a b :: us.map (Token.moved (.behind (a ++ joint)))) := by
  have hfirst : TokenKind.first? (joint ++ b) = some (.semi, 1) := rfl
  refine .token (read_eq_token.2 ⟨.semi, 1, hfirst, ?_, rfl⟩) ?_
  · simp only [Token.joint, List.append_assoc]
    rfl
  · refine (h.behind (getLast?_joint a)).congr (Eq.trans ?_ (read_of_space rfl rfl).symm)
    have hpos : (a ++ joint).length + 0 = a.length + 1 + 1 := List.length_append
    simp only [Cursor.behind, start, hpos, List.append_assoc]
    rfl

/-- The tokens of a joined source are those of the first, a semicolon, and those of the second. -/
theorem lex_joined {file a b : Text} {ts us : List Token} (ha : lex file a = .ok ts)
    (hb : lex file b = .ok us) (hopen : EndsOpen ts → Lexeme.quote ∉ b) :
    lex file (a ++ joint ++ b) =
      .ok (ts ++ Token.joint file a b :: us.map (Token.moved (.behind (a ++ joint)))) := by
  rw [lex_eq_ok_iff] at ha hb ⊢
  have hends : Lexeme.Ends (joint ++ b) := by
    rintro _ ⟨⟩
    exact ⟨rfl, by decide⟩
  have hq : EndsOpen ts → Lexeme.quote ∉ joint ++ b := by
    intro ho
    rw [List.mem_append, not_or]
    exact ⟨by decide, hopen ho⟩
  rw [List.append_assoc]
  exact ha.before hends (Nat.zero_add _) hq (Cursor.lexes_joint hb a)

/-! ## Statements that stand elsewhere -/

/-- The expression at other places. -/
abbrev Expr.moved (σ : Location → Location) (e : Expr) : Expr := e.mapPlaces (Option.map σ)

namespace Reading

variable {σ : Location → Location}

/-- What a rule gives, at other places. -/
def Result.moved (σ : Location → Location) (r : Result) : Result :=
  r.map (Prod.map (Expr.moved σ) (List.map (Token.moved σ)))

/-- The grammar gives the same for some tokens when they stand elsewhere. -/
def Travels (σ : Location → Location) (ts : List Token) : Prop :=
  grammar (ts.map (Token.moved σ)) = Result.moved σ (grammar ts)

/-- The same piece, standing elsewhere. -/
inductive Piece.Moved (σ : Location → Location) : Piece → Piece → Prop where
  | still (e : Expr) (rest : List Token) :
      Moved σ ⟨e, none, rest⟩ ⟨e.moved σ, none, rest.map (Token.moved σ)⟩
  | callable (e : Expr) (rest : List Token) {c c' : (lhs rhs : Option Expr) → Expr}
      (hc : ∀ lhs rhs : Option Expr,
        c' (lhs.map (Expr.moved σ)) (rhs.map (Expr.moved σ)) = (c lhs rhs).moved σ) :
      Moved σ ⟨e, some c, rest⟩ ⟨e.moved σ, some c', rest.map (Token.moved σ)⟩

theorem Piece.Moved.rest {p p' : Piece} (h : p.Moved σ p') :
    p'.rest = p.rest.map (Token.moved σ) := by
  cases h <;> rfl

/-- What is taken, at other places. -/
def Taken.Moved (σ : Location → Location) (x x' : Taken) : Prop :=
  x'.expr = x.expr.moved σ ∧ x'.rest = x.rest.map (Token.moved σ)

theorem take_moved : ∀ {y y' : Piece} {ys ys' : List Piece}, y.Moved σ y' →
    List.Forall₂ (Piece.Moved σ) ys ys' → Taken.Moved σ (take y ys) (take y' ys')
  | _, _, [], [], h₁, .nil => by cases h₁ <;> exact ⟨rfl, rfl⟩
  | _, _, [_], [_], h₁, .cons h₂ .nil => by
    cases h₂ with
    | callable e₂ rest₂ hc₂ => cases h₁ <;> exact ⟨hc₂ none (some _), rfl⟩
    | still e₂ rest₂ =>
      cases h₁ with
      | callable e₁ rest₁ hc₁ => exact ⟨hc₁ none (some _), rfl⟩
      | still e₁ rest₁ => exact ⟨rfl, rfl⟩
  | _, _, _ :: _ :: _, _ :: _ :: _, h₁, .cons h₂ (.cons h₃ hs) => by
    cases h₂ with
    | callable e₂ rest₂ hc₂ =>
      obtain ⟨hexpr, hrest⟩ := take_moved h₃ hs
      cases h₁ <;> simp only [take, Taken.Moved, hexpr, hrest] <;>
        exact ⟨hc₂ (some _) (some _), trivial⟩
    | still e₂ rest₂ =>
      cases h₃ with
      | callable e₃ rest₃ hc₃ => cases h₁ <;> exact ⟨hc₃ (some _) (some _), rfl⟩
      | still e₃ rest₃ =>
        cases h₁ with
        | callable e₁ rest₁ hc₁ =>
          obtain ⟨hexpr, hrest⟩ := take_moved (.still e₂ rest₂) (.cons (.still e₃ rest₃) hs)
          simp only [take, Taken.Moved, hexpr, hrest]
          exact ⟨hc₁ none (some _), trivial⟩
        | still e₁ rest₁ => exact ⟨rfl, rfl⟩

theorem literal_moved (ts : List Token) :
    literal (ts.map (Token.moved σ)) = Result.moved σ (literal ts) := by
  rcases ts with _ | ⟨t, ts⟩
  · rfl
  · simp only [List.map_cons, literal]
    cases hk : (t.moved σ).kind <;> simp only [show t.kind = _ from hk]
    · show (Decimal.read? t.text).map _ = _
      cases Decimal.read? t.text <;> rfl
    all_goals rfl

theorem members_moved : ∀ (n : Nat) (read : List Expr) (ts : List Token),
    (∀ us, us <:+ ts → Travels σ us) →
      members (m := Id) grammar n (read.map (Expr.moved σ)) (ts.map (Token.moved σ)) =
        Prod.map (List.map (Expr.moved σ)) (List.map (Token.moved σ))
          (members (m := Id) grammar n read ts)
  | 0, _, _, _ => rfl
  | n + 1, read, ts, h => by
    have hts : Travels σ ts := h ts (List.suffix_refl ts)
    simp only [members, bind_id]
    rw [hts]
    rcases hg : grammar ts with _ | ⟨e, rest⟩
    · rfl
    · have hrest : rest <:+ ts := (grammar_advances ts e rest hg).1
      exact members_moved n (e :: read) rest fun us hu => h us (hu.trans hrest)

theorem array_moved {ts : List Token} (h : ∀ us, Leaves ts us → Travels σ us) :
    array (m := Id) grammar (ts.map (Token.moved σ)) =
      Result.moved σ (array (m := Id) grammar ts) := by
  rcases ts with _ | ⟨t, ts⟩
  · rfl
  · have hmembers := members_moved (ts.length + 1) [] ts fun us hu =>
      h us ((Leaves.cons t ts).trans_suffix hu)
    have hkind : (t.moved σ).kind = t.kind := rfl
    simp only [List.map_cons, List.map_nil, array, bind_id, List.length_map, hkind] at hmembers ⊢
    rw [hmembers]
    by_cases hk : t.kind = .braceR
    · rw [if_pos hk, if_pos hk]
      rcases members (m := Id) grammar (ts.length + 1) [] ts with ⟨es, _ | ⟨o, rest⟩⟩
      · rfl
      · have ho : (o.moved σ).kind = o.kind := rfl
        simp only [Prod.map, List.map_cons, ho]
        split_ifs
        · simp [Result.moved, Expr.mapPlaces, Expr.mapPlacesAll_eq, pure_id, Token.moved]
        · rfl
    · rw [if_neg hk, if_neg hk]
      rfl

theorem between_moved {ts : List Token} (h : ∀ us, Leaves ts us → Travels σ us) :
    between (m := Id) grammar (ts.map (Token.moved σ)) =
      Result.moved σ (between (m := Id) grammar ts) := by
  rcases ts with _ | ⟨t, ts⟩
  · rfl
  · have hts : Travels σ ts := h ts (.cons t ts)
    have hkind : (t.moved σ).kind = t.kind := rfl
    simp only [List.map_cons, between, bind_id, hkind]
    rw [hts]
    by_cases hk : t.kind = .parenR
    · rw [if_pos hk, if_pos hk]
      rcases grammar ts with _ | ⟨e, _ | ⟨o, rest⟩⟩
      · rfl
      · rfl
      · have ho : (o.moved σ).kind = o.kind := rfl
        simp only [Result.moved, Option.map_some, Prod.map, List.map_cons, ho]
        split_ifs <;> rfl
    · rw [if_neg hk, if_neg hk]
      rfl

/-- The piece at the end of a statement, if there is one, is the same when it stands elsewhere. -/
theorem piece?_moved {ts : List Token} (h : ∀ us, Leaves ts us → Travels σ us) :
    Option.Rel (Piece.Moved σ) (piece? ts) (piece? (ts.map (Token.moved σ))) := by
  have hstill : ∀ r : Result, Option.Rel (Piece.Moved σ)
      (r.map fun r => ⟨r.1, none, r.2⟩) ((Result.moved σ r).map fun r => ⟨r.1, none, r.2⟩) := by
    rintro (_ | ⟨e, rest⟩)
    · exact .none
    · exact .some (.still e rest)
  rcases ts with _ | ⟨t, us⟩
  · exact .none
  have hlit : literal ((t :: us).map (Token.moved σ)) = _ := literal_moved (t :: us)
  have harr := array_moved h
  have hbet := between_moved h
  simp only [List.map_cons] at hlit harr hbet
  simp only [List.map_cons, piece?]
  cases hk : (t.moved σ).kind <;> simp only [show t.kind = _ from hk]
  case num | str =>
    rw [hlit]
    exact hstill _
  case ident => exact .some (.callable _ us fun lhs rhs => by
    simp [Expr.moved, Expr.mapPlaces, Expr.mapPlacesOf_eq, Token.moved])
  case braceR =>
    rw [harr]
    exact hstill _
  case parenR =>
    rw [hbet]
    rcases between (m := Id) grammar (t :: us) with _ | ⟨e, rest⟩
    · exact .none
    · have hopen : opening? (t.moved σ :: us.map (Token.moved σ)) (rest.map (Token.moved σ)) =
          (opening? (t :: us) rest).map (Token.moved σ) := by
        simp only [opening?, List.length_cons, List.length_map, ← List.map_cons, List.getElem?_map]
      refine .some (.callable e rest fun lhs rhs => ?_)
      simp only [Expr.mapPlaces, Expr.mapPlacesOf_eq, Prod.map_apply, hopen, Option.map_map]
      rfl
  all_goals exact .none

theorem pieces_moved (ts : List Token) (h : ∀ us, Leaves ts us → Travels σ us) :
    List.Forall₂ (Piece.Moved σ) (pieces ts) (pieces (ts.map (Token.moved σ))) := by
  have hpiece := piece?_moved h
  rcases hp : piece? ts with _ | p <;> rcases hp' : piece? (ts.map (Token.moved σ)) with _ | p' <;>
    rw [hp, hp'] at hpiece
  · rw [pieces_of_none hp, pieces_of_none hp']
    exact .nil
  · cases hpiece
  · cases hpiece
  · cases hpiece with
    | some hmoved =>
      have hl := piece?_leaves hp
      have := hl.2
      rw [pieces_of_some hp, pieces_of_some hp', hmoved.rest]
      exact .cons hmoved (pieces_moved p.rest fun us hu => h us (hl.trans hu))
termination_by ts.length

/-- The grammar gives a moved expression for moved tokens. The recursion is on how many there are,
as what is inside of arrays and parentheses has fewer. -/
theorem grammar_moved (ts : List Token) : Travels σ ts := by
  have hpieces := pieces_moved ts fun us hu => have := hu.2; grammar_moved us
  rw [Travels, grammar_eq_taken, grammar_eq_taken]
  generalize pieces ts = ys, pieces (ts.map (Token.moved σ)) = ys' at hpieces
  cases hpieces with
  | nil => rfl
  | cons h hs =>
    obtain ⟨hexpr, hrest⟩ := take_moved h hs
    simp only [takenFrom, hexpr, hrest]
    rfl
termination_by ts.length

end Reading

namespace Expr

variable {σ : Location → Location} {ts : List Token} {e : Expr}

/-- A statement that stands elsewhere is read as the same, but for its places. -/
theorem read_moved (h : Expr.read ts = .ok e) :
    Expr.read (ts.map (Token.moved σ)) = .ok (e.moved σ) := by
  rw [Expr.read_eq_ok] at h ⊢
  have hts : Reading.Travels σ ts.reverse := Reading.grammar_moved ts.reverse
  rw [Reading.Travels, h] at hts
  rw [← List.map_reverse, hts]
  rfl

/-- How a statement is read does not depend on where it stands. -/
theorem readStatement_moved (h : Expr.readStatement ts = .ok e) :
    Expr.readStatement (ts.map (Token.moved σ)) = .ok (e.moved σ) := by
  rcases ts with _ | ⟨t, _ | ⟨u, _ | ⟨v, ts⟩⟩⟩
  · cases h
  · have hread : Expr.read [t] = .ok e := h
    exact read_moved hread
  · simp only [readStatement, List.map_cons, List.map_nil, Token.moved] at h ⊢
    split_ifs at h ⊢
    exact read_moved h
  · simp only [readStatement, List.map_cons, Token.moved] at h ⊢
    split_ifs at h ⊢
    · rcases hb : Expr.read (v :: ts) with f | b <;> rw [hb] at h <;> cases h
      have hmoved : Expr.read ((v :: ts).map (Token.moved σ)) = _ := read_moved hb
      simp only [List.map_cons, Token.moved] at hmoved
      rw [hmoved]
      rfl
    · exact read_moved h

end Expr

theorem statements_moved (σ : Location → Location) : ∀ ts : List Token,
    statements (ts.map (Token.moved σ)) = (statements ts).map (List.map (Token.moved σ))
  | [] => rfl
  | [t] => by
    simp only [List.map_cons, List.map_nil, statements, Token.moved]
    split_ifs <;> rfl
  | t :: u :: ts => by
    have ih := statements_moved σ (u :: ts)
    have hkind : ∀ t : Token, (t.moved σ).kind = t.kind := fun _ => rfl
    simp only [List.map_cons] at ih ⊢
    rw [statements_cons, statements_cons, ih, hkind, hkind]
    rcases statements (u :: ts) with _ | ⟨s, ss⟩ <;> simp only [List.map_cons, List.map_nil] <;>
      split_ifs <;> rfl

theorem kind_of_statements_eq_nil {t : Token} : ∀ {ts : List Token}, statements (t :: ts) = [] →
    t.kind = .semi
  | [], h => by
    simp only [statements] at h
    split_ifs at h with ht
    exact ht
  | u :: ts, h => by
    by_contra ht
    rw [statements_cons, if_neg ht] at h
    split at h
    · split_ifs at h
    · cases h

theorem statements_append_semi {t : Token} (ht : t.kind = .semi) (us : List Token) :
    ∀ ts : List Token, statements (ts ++ t :: us) = statements ts ++ statements us
  | [] => by simp [statements, ht]
  | [a] => by
    rw [List.singleton_append, statements_cons]
    simp only [statements, ht, if_true]
    split_ifs
    · rfl
    · rcases statements us with _ | ⟨s, ss⟩ <;> rfl
  | a :: b :: ts => by
    have ih := statements_append_semi ht us (b :: ts)
    simp only [List.cons_append] at ih ⊢
    rw [statements_cons, statements_cons, ih]
    by_cases ha : a.kind = .semi
    · rw [if_pos ha, if_pos ha]
    · rw [if_neg ha, if_neg ha]
      rcases hb : statements (b :: ts) with _ | ⟨s, ss⟩
      · have hsemi := kind_of_statements_eq_nil hb
        rcases statements us with _ | ⟨s, ss⟩ <;> simp [hsemi]
      · simp only [List.cons_append]
        split_ifs <;> rfl

/-- The program of a joined source is that of the first source and then that of the second, which
stands behind the lines of the first. -/
theorem Program.read_joined {file a b : Text} {p q : Program} (ha : Program.read file a = .ok p)
    (hb : Program.read file b = .ok q)
    (hopen : (∀ ts, lex file a = .ok ts → ¬ EndsOpen ts) ∨ Lexeme.quote ∉ b) :
    Program.read file (a ++ joint ++ b) =
      .ok (p ++ q.map (Expr.moved (Location.behind (a ++ joint)))) := by
  obtain ⟨ts, hts, hp⟩ := Program.read_eq_ok.1 ha
  obtain ⟨us, hus, hq⟩ := Program.read_eq_ok.1 hb
  have hlex := lex_joined hts hus fun ho => hopen.elim (fun h => absurd ho (h ts hts)) id
  refine Program.read_eq_ok.2 ⟨_, hlex, ?_⟩
  rw [statements_append_semi rfl, statements_moved]
  refine List.rel_append hp ?_
  rw [List.forall₂_map_left_iff, List.forall₂_map_right_iff]
  exact hq.imp fun s e he => Expr.readStatement_moved he

end Tacit
