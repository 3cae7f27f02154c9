import Tacit.Proofs.Joining

/-!
# Sources read line by line

The tokens of two sources, one on the lines behind the other, are those of the first and then those
of the second some lines further down, with one exception. Where a string ends with an escaped
quote, that quote only ends it because there is none behind it. So if the last string of the first
source is of that kind, the string goes on as soon as there is a quote in the second, and what is
read is something else, also if places are left aside (`lex_lines_tfae`).
-/

namespace Tacit

open Location (newline)

/-- A text that is a string up to an escaped quote holds no other quote behind that. The quote that
opens it is not escaped. -/
theorem Lexeme.quote_not_mem_of_strLength? {t u : Text} (h : strLength? (t ++ u) = some t.length)
    (ht : [backslash, quote] <:+ t) : quote ∉ u := by
  obtain ⟨s, r, hsplit, hlen, -, hr⟩ := exists_of_strLength? h
  obtain ⟨rfl, rfl⟩ := List.append_inj hsplit hlen
  refine hr (escapes_false_iff.2 ?_)
  obtain ⟨v, hv⟩ := ht
  have hlast := congrArg List.dropLast hv
  rw [List.append_cons, List.dropLast_concat, quoted, ← List.cons_append,
    List.dropLast_concat] at hlast
  rcases s with _ | ⟨b, s⟩
  · have hb := congrArg List.getLast? hlast
    rw [List.getLast?_concat] at hb
    exact absurd hb (by decide)
  · rw [← List.getLast?_cons_cons (a := quote), ← hlast, List.getLast?_concat]

theorem EndsOpen.of_cons {t : Token} {ts : List Token} (h : EndsOpen (t :: ts)) :
    EndsOpen ts ∧ (∃ s ∈ ts, s.kind = .str) ∨
      t.kind = .str ∧ [Lexeme.backslash, Lexeme.quote] <:+ t.text := by
  obtain ⟨s, hs, htext⟩ := h
  rcases hts : ts.filter (·.kind == .str) with _ | ⟨r, rs⟩
  · rw [List.filter_cons, hts] at hs
    split_ifs at hs with hk
    · cases hs
      exact .inr ⟨by simpa using hk, htext⟩
    · cases hs
  · have hlast : (ts.filter (·.kind == .str)).getLast? = some s := by
      rw [← hs, List.filter_cons, hts]
      split_ifs
      · rw [List.getLast?_cons_cons]
      · rfl
    have hr : r ∈ ts.filter (·.kind == .str) := hts ▸ List.mem_cons_self
    obtain ⟨hmem, hk⟩ := List.mem_filter.1 hr
    exact .inl ⟨⟨s, hlast, htext⟩, r, hmem, by simpa using hk⟩

namespace Cursor

variable {c : Cursor} {u : Text} {ts vs : List Token}

/-- Where a string is open and a quote is in what follows, other words are read. The string that
ends the source is behind all other tokens, which stay as they are. -/
theorem Lexes.ne_before (hends : Lexeme.Ends u) (hq : Lexeme.quote ∈ u) (h : c.Lexes ts)
    (hc : c.Spans) (hopen : EndsOpen ts) (hvs : (c.before u).Lexes vs) :
    ¬ ts.map Token.word <+: vs.map Token.word := by
  induction h generalizing vs with
  | nothing =>
    obtain ⟨s, hs, -⟩ := hopen
    cases hs
  | @token c c' t ts h hts ih =>
    intro hprefix
    rcases hopen.of_cons with ⟨hopen, s, hs, hk⟩ | ⟨hk, htext⟩
    · obtain ⟨hread, hc'⟩ := read_before_of_token hends hc h
        fun _ _ hnone => absurd (hts.quote_mem s hs hk) hnone
      obtain ⟨vs', rfl, hvs'⟩ := hvs.of_token hread
      exact ih hc' hopen hvs' (List.cons_prefix_cons.1 hprefix).2
    · cases hvs with
      | nothing => exact absurd hprefix (by simp)
      | @token _ _ t' vs hread hvs =>
        obtain ⟨hword, -⟩ := List.cons_prefix_cons.1 hprefix
        obtain ⟨k, n, hf, rfl, rfl⟩ := read_eq_token.1 h
        obtain ⟨k', n', hf', rfl, rfl⟩ := read_eq_token.1 hread
        obtain rfl : k = .str := hk
        obtain ⟨rfl, htake⟩ := Prod.mk.inj hword
        rw [skipSpace_before (TokenKind.ne_nil_of_first? hf)] at hf' htake
        have hn := TokenKind.le_length_of_first? hf
        have hn' := TokenKind.le_length_of_first? hf'
        have hlen := congrArg List.length htake
        rw [List.length_take_of_le hn, List.length_take_of_le hn'] at hlen
        have hstr : Lexeme.strLength? (c.skipSpace.rest.take n ++ (c.skipSpace.rest.drop n ++ u)) =
            some (c.skipSpace.rest.take n).length := by
          rw [← List.append_assoc, List.take_append_drop, List.length_take_of_le hn, hlen]
          exact TokenKind.length?_of_first? hf'
        exact Lexeme.quote_not_mem_of_strLength? hstr htext (List.mem_append_right _ hq)

end Cursor

section Lines

variable {file a b : Text} {ts us : List Token}

theorem ends_newline (b : Text) : Lexeme.Ends (newline :: b) := by
  rintro _ ⟨⟩
  exact ⟨rfl, by decide⟩

theorem quote_mem_newline_cons : Lexeme.quote ∈ newline :: b ↔ Lexeme.quote ∈ b := by
  rw [List.mem_cons, or_iff_right (by decide)]

theorem Cursor.lexes_line (h : (Cursor.start file b).Lexes us) (a : Text) :
    ((Cursor.start file a).atEnd (newline :: b)).Lexes
      (us.map (Token.moved (.behind (a ++ [newline])))) := by
  refine (h.behind List.getLast?_concat).congr (Eq.trans ?_ (read_of_space rfl rfl).symm)
  have hpos : (a ++ [newline]).length + 0 = a.length + 1 := List.length_append
  simp only [Cursor.behind, start, hpos, List.append_assoc]
  rfl

/-- The tokens of two sources, one on the lines behind the other. -/
theorem lex_lines (ha : lex file a = .ok ts) (hb : lex file b = .ok us)
    (hopen : EndsOpen ts → Lexeme.quote ∉ b) : lex file (a ++ newline :: b) =
      .ok (ts ++ us.map (Token.moved (.behind (a ++ [newline])))) := by
  rw [lex_eq_ok_iff] at ha hb ⊢
  exact ha.before (ends_newline b) (Nat.zero_add _)
    (fun ho => quote_mem_newline_cons.not.2 (hopen ho)) (Cursor.lexes_line hb a)

/-- A string that is open takes up the quotes of the next line, so other words are read. -/
theorem lex_lines_ne_ok {vs : List Token} (ha : lex file a = .ok ts) (hopen : EndsOpen ts)
    (hq : Lexeme.quote ∈ b) (hvs : lex file (a ++ newline :: b) = .ok vs) :
    ¬ ts.map Token.word <+: vs.map Token.word := by
  rw [lex_eq_ok_iff] at ha hvs
  exact ha.ne_before (ends_newline b) (quote_mem_newline_cons.2 hq) (Nat.zero_add _) hopen hvs

/-- The words of two sources are those of the first and then those of the second if and only if it
is not the case that the last string of the first ends with an escaped quote and there is a quote
in the second. They then stand where they stood, those of the second behind the lines of the
first. -/
theorem lex_lines_tfae (ha : lex file a = .ok ts) (hb : lex file b = .ok us) : List.TFAE
    [lex file (a ++ newline :: b) = .ok (ts ++ us.map (Token.moved (.behind (a ++ [newline])))),
      ∃ vs, lex file (a ++ newline :: b) = .ok vs ∧
        vs.map Token.word = ts.map Token.word ++ us.map Token.word,
      ¬(EndsOpen ts ∧ Lexeme.quote ∈ b)] := by
  tfae_have 1 → 2 := by
    refine fun h => ⟨_, h, ?_⟩
    rw [List.map_append, List.map_map]
    rfl
  tfae_have 2 → 3 := by
    rintro ⟨vs, hvs, hwords⟩ ⟨hopen, hq⟩
    exact lex_lines_ne_ok ha hopen hq hvs ⟨_, hwords.symm⟩
  tfae_have 3 → 1 := fun h => lex_lines ha hb fun ho hq => h ⟨ho, hq⟩
  tfae_finish

end Lines

theorem lex_lines_tfae_escaped :
    lex [] ("\"\\\"" : Text) = .ok [⟨.str, "\"\\\"", ⟨[], 0, 1, 1⟩⟩] ∧
    lex [] ("x \"\"" : Text) =
      .ok [⟨.ident, "x", ⟨[], 0, 1, 1⟩⟩, ⟨.str, "\"\"", ⟨[], 2, 1, 3⟩⟩] ∧
    ¬∃ vs, lex [] (("\"\\\"" : Text) ++ newline :: ("x \"\"" : Text)) = .ok vs ∧
      vs.map Token.word = [(TokenKind.str, ("\"\\\"" : Text)), (TokenKind.ident, ("x" : Text)),
        (TokenKind.str, ("\"\"" : Text))] := by
  have ha : lex [] ("\"\\\"" : Text) = .ok [⟨.str, "\"\\\"", ⟨[], 0, 1, 1⟩⟩] := by cbv
  have hb : lex [] ("x \"\"" : Text) =
      .ok [⟨.ident, "x", ⟨[], 0, 1, 1⟩⟩, ⟨.str, "\"\"", ⟨[], 2, 1, 3⟩⟩] := by cbv
  refine ⟨ha, hb, fun h => ?_⟩
  have hiff := (lex_lines_tfae ha hb).out 1 2
  exact hiff.1 h ⟨⟨_, rfl, [Lexeme.quote], rfl⟩, by decide⟩

end Tacit
