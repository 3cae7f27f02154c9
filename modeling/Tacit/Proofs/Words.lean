import Mathlib.Data.List.TakeWhile
import Mathlib.Tactic.SplitIfs
import Tacit.Token.Lexer

/-!
# The words of a text

A word is a token without its place, so the words of a source depend on its bytes alone
(`lex_eq_words`). They are cut off one by one: a space is passed over, a lexeme that the reader
prefers at the front of the text is the first word (`words_append`), and a text that starts with
neither has no words (`words_of_unmatched`).

A quote or a backslash stands in no word but a string, so a text that reaches one of them outside
of strings, and has no words from there on, has none at all (`words_eq_none_of_inner`).
-/

namespace Tacit

/-- A token without its place. -/
def Token.word (t : Token) : TokenKind × Text := (t.kind, t.text)

theorem takeWhile_append_of_head {α : Type} {p : α → Bool} {r : List α}
    (hr : ∀ b ∈ r.head?, p b = false) : ∀ l : List α, (l ++ r).takeWhile p = l.takeWhile p
  | [] => by
    rcases r with _ | ⟨b, r⟩
    · rfl
    · simp [hr b rfl]
  | a :: l => by
    simp only [List.cons_append, List.takeWhile_cons]
    rw [takeWhile_append_of_head hr l]

theorem drop_length_takeWhile {α : Type} (p : α → Bool) (l : List α) :
    l.drop (l.takeWhile p).length = l.dropWhile p := by
  calc l.drop (l.takeWhile p).length
      = (l.takeWhile p ++ l.dropWhile p).drop (l.takeWhile p).length := by
        rw [List.takeWhile_append_dropWhile]
    _ = l.dropWhile p := List.drop_left

theorem take_length_takeWhile {α : Type} (p : α → Bool) (l : List α) :
    l.take (l.takeWhile p).length = l.takeWhile p :=
  (List.prefix_iff_eq_take.1 (List.takeWhile_prefix p)).symm

namespace Lexeme

theorem isDigit_iff {b : UInt8} : Text.isDigit b = true ↔ 48 ≤ b.toNat ∧ b.toNat ≤ 57 := by
  simp only [Text.isDigit, Bool.and_eq_true, decide_eq_true_eq, UInt8.le_iff_toNat_le]
  rfl

theorem startsName_iff {b : UInt8} : startsName b = true ↔
    (97 ≤ b.toNat ∧ b.toNat ≤ 122) ∨ (65 ≤ b.toNat ∧ b.toNat ≤ 90) ∨ b.toNat = 95 := by
  simp only [startsName, Text.isLetter, Bool.or_eq_true, Bool.and_eq_true, decide_eq_true_eq,
    UInt8.le_iff_toNat_le, beq_iff_eq, ← UInt8.toNat_inj, or_assoc]
  rfl

theorem isSpace_iff {b : UInt8} : isSpace b = true ↔ b = 32 ∨ b = 9 ∨ b = 13 ∨ b = 10 := by
  simp only [isSpace, Bool.or_eq_true, beq_iff_eq, or_assoc]

/-- Whether a byte stands in no lexeme but that of a string. -/
def isInner (b : UInt8) : Bool := b == quote || b == backslash

theorem isInner_iff {b : UInt8} : isInner b = true ↔ b.toNat = 34 ∨ b.toNat = 92 := by
  simp only [isInner, Bool.or_eq_true, beq_iff_eq, ← UInt8.toNat_inj]
  rfl

theorem not_isInner_of_isDigit {b : UInt8} (h : Text.isDigit b = true) : ¬ isInner b = true := by
  rw [isDigit_iff] at h
  rw [isInner_iff]
  omega

theorem not_isInner_of_isNameByte {b : UInt8} (h : isNameByte b = true) :
    ¬ isInner b = true := by
  rcases Bool.or_eq_true_iff.1 h with h | h
  · rw [startsName_iff] at h
    rw [isInner_iff]
    omega
  · exact not_isInner_of_isDigit h

/-- A number's lexeme. -/
def IsNumeral (t : Text) : Prop := numLength? t = some t.length

/-- What may follow a numeral or name: nothing that would make it longer. -/
def Ends (rest : Text) : Prop := ∀ b ∈ rest.head?, isNameByte b = false ∧ b ≠ '.'.toUInt8

theorem Ends.digit {rest : Text} (h : Ends rest) : ∀ b ∈ rest.head?, Text.isDigit b = false := by
  intro b hb
  have := (h b hb).1
  simp only [isNameByte, Bool.or_eq_false_iff] at this
  exact this.2

theorem digitCount_append {t rest : Text} (h : Ends rest) :
    digitCount (t ++ rest) = digitCount t := by
  rw [digitCount, takeWhile_append_of_head h.digit, digitCount]

theorem digitCount_le (t : Text) : digitCount t ≤ t.length :=
  (List.takeWhile_prefix Text.isDigit).length_le

theorem fractionLength_append {t rest : Text} (h : Ends rest) :
    fractionLength (t ++ rest) = fractionLength t := by
  rcases t with _ | ⟨b, t⟩
  · rcases rest with _ | ⟨b, rest⟩
    · rfl
    · simp only [List.nil_append, fractionLength]
      rw [if_neg (fun hb => (h b rfl).2 hb.1)]
  · simp only [List.cons_append, fractionLength, digitCount_append h]

theorem signLength_append {t : Text} (h : t ≠ []) (rest : Text) :
    signLength (t ++ rest) = signLength t := by
  rcases t with _ | ⟨b, t⟩
  · exact absurd rfl h
  · rfl

theorem signLength_le (t : Text) : signLength t ≤ t.length := by
  rcases t with _ | ⟨b, t⟩
  · simp [signLength]
  · simp only [signLength, List.length_cons]
    split_ifs <;> omega

theorem fractionLength_le (t : Text) : fractionLength t ≤ t.length := by
  rcases t with _ | ⟨b, t⟩
  · rfl
  · have := digitCount_le t
    simp only [fractionLength, List.length_cons]
    split_ifs <;> omega

theorem numLength?_append {t rest : Text} (ht : t ≠ []) (h : Ends rest) :
    numLength? (t ++ rest) = numLength? t := by
  have hs := signLength_le t
  have hd : digitCount (t.drop (signLength t)) ≤ t.length - signLength t := by
    simpa using digitCount_le (t.drop (signLength t))
  simp only [numLength?, signLength_append ht]
  rw [List.drop_append_of_le_length hs, digitCount_append h,
    List.drop_append_of_le_length (by omega), fractionLength_append h]

theorem IsNumeral.ne_nil {t : Text} (h : IsNumeral t) : t ≠ [] := by
  rintro rfl
  simp [IsNumeral, numLength?, signLength, digitCount] at h

theorem not_isInner_of_num {t : Text} {n : Nat} (h : numLength? t = some n) :
    ∀ b ∈ t.take n, ¬ isInner b = true := by
  have hsign : ∀ b ∈ t.take (signLength t), ¬ isInner b = true := by
    intro b hb
    rcases t with _ | ⟨a, t⟩
    · simp at hb
    · simp only [signLength] at hb
      split_ifs at hb with ha
      · simp only [List.take_succ_cons, List.take_zero, List.mem_singleton] at hb
        subst hb
        rcases ha with rfl | rfl <;> decide
      · simp at hb
  have hfrac : ∀ u : Text, ∀ b ∈ u.take (fractionLength u), ¬ isInner b = true := by
    intro u b hb
    rcases u with _ | ⟨a, u⟩
    · simp at hb
    · simp only [fractionLength] at hb
      split_ifs at hb with ha
      · rw [Nat.add_comm, List.take_succ_cons, digitCount, take_length_takeWhile] at hb
        rcases List.mem_cons.1 hb with rfl | hb
        · rw [ha.1]
          decide
        · exact not_isInner_of_isDigit (List.mem_takeWhile_imp hb)
      · simp at hb
  simp only [numLength?] at h
  split_ifs at h
  simp only [Option.some.injEq] at h
  intro b hb
  rw [← h, List.take_add, List.take_add, digitCount, take_length_takeWhile] at hb
  simp only [List.mem_append] at hb
  rcases hb with (hb | hb) | hb
  · exact hsign b hb
  · exact not_isInner_of_isDigit (List.mem_takeWhile_imp hb)
  · exact hfrac _ b hb

/-- A name's lexeme. -/
def IsName (t : Text) : Prop := nameLength? t = some t.length

theorem nameLength?_append {t rest : Text} (ht : t ≠ []) (h : Ends rest) :
    nameLength? (t ++ rest) = nameLength? t := by
  rcases t with _ | ⟨b, t⟩
  · exact absurd rfl ht
  · simp only [List.cons_append, nameLength?]
    rw [takeWhile_append_of_head fun b hb => (h b hb).1]

theorem IsName.ne_nil {t : Text} (h : IsName t) : t ≠ [] := by
  rintro rfl
  simp [IsName, nameLength?] at h

theorem not_isInner_of_name {t : Text} {n : Nat} (h : nameLength? t = some n) :
    ∀ b ∈ t.take n, ¬ isInner b = true := by
  rcases t with _ | ⟨a, t⟩
  · simp
  · simp only [nameLength?] at h
    split_ifs at h with ha
    simp only [Option.some.injEq] at h
    intro b hb
    rw [← h, Nat.add_comm, List.take_succ_cons, take_length_takeWhile] at hb
    refine not_isInner_of_isNameByte ?_
    rcases List.mem_cons.1 hb with rfl | hb
    · simp [isNameByte, ha]
    · exact List.mem_takeWhile_imp hb

/-- What a name takes off the front of a text is a name. -/
theorem isName_take {t : Text} {n : Nat} (h : nameLength? t = some n) : IsName (t.take n) := by
  rcases t with _ | ⟨a, t⟩
  · simp [nameLength?] at h
  · simp only [nameLength?] at h
    split_ifs at h with ha
    simp only [Option.some.injEq] at h
    rw [← h, Nat.add_comm, List.take_succ_cons, take_length_takeWhile]
    simp only [IsName, nameLength?, if_pos ha, List.length_cons, List.takeWhile_idem]
    rw [Nat.add_comm]

/-- The inside of a string's lexeme: every quote in it stands behind a backslash. -/
def Closed (s : Text) : Prop := plainQuote? false s = none

/-- The lexeme of a string. -/
def quoted (s : Text) : Text := quote :: (s ++ [quote])

/-- Whether a quote behind a text is escaped; `escaped` says so for no text. -/
def escapes : Bool → Text → Bool
  | escaped, [] => escaped
  | _, b :: s => escapes (b == backslash) s

attribute [local simp] escapes plainQuote? lastQuote?

/-- Only the last byte of a text tells whether a quote behind it is escaped. -/
theorem escapes_eq_getLast? (s : Text) (escaped : Bool) :
    escapes escaped s = s.getLast?.elim escaped (· == backslash) := by
  induction s generalizing escaped with
  | nil => rfl
  | cons b s ih =>
    rw [escapes, ih]
    rcases s with _ | ⟨c, s⟩
    · rfl
    · simp [List.getLast?_cons]

theorem escapes_false_iff {s : Text} : escapes false s = true ↔ s.getLast? = some backslash := by
  rw [escapes_eq_getLast?]
  rcases s.getLast? with _ | b <;> simp

theorem plainQuote?_append {u : Text} : ∀ {escaped : Bool} {s : Text},
    plainQuote? escaped s = none →
      plainQuote? escaped (s ++ u) = (plainQuote? (escapes escaped s) u).map (· + s.length)
  | escaped, [], _ => by simp
  | escaped, b :: s, h => by
    simp only [plainQuote?] at h
    split_ifs at h with hb
    have hs : plainQuote? (b == backslash) s = none := by simpa using h
    simp only [List.cons_append, plainQuote?, if_neg hb, plainQuote?_append hs, escapes,
      Option.map_map, List.length_cons]
    rfl

theorem plainQuote?_eq_some {escaped : Bool} {r : Text} {i : Nat}
    (h : plainQuote? escaped r = some i) :
    plainQuote? escaped (r.take i) = none ∧ r = r.take i ++ quote :: r.drop (i + 1) := by
  induction r generalizing escaped i with
  | nil => simp at h
  | cons b r ih =>
    simp only [plainQuote?] at h
    split_ifs at h with hb
    · simp only [Option.some.injEq] at h
      subst h
      exact ⟨rfl, by simp [hb.1]⟩
    · obtain ⟨j, hj, rfl⟩ := Option.map_eq_some_iff.1 h
      obtain ⟨h1, h2⟩ := ih hj
      refine ⟨?_, ?_⟩
      · simp only [List.take_succ_cons, plainQuote?, if_neg hb, h1, Option.map_none]
      · simp only [List.take_succ_cons, List.drop_succ_cons, List.cons_append, ← h2]

theorem plainQuote?_none_of_append {escaped : Bool} {s u : Text}
    (h : plainQuote? escaped (s ++ u) = none) : plainQuote? escaped s = none := by
  induction s generalizing escaped with
  | nil => rfl
  | cons b s ih =>
    simp only [List.cons_append, plainQuote?] at h ⊢
    split_ifs at h ⊢
    simpa using ih (by simpa using h)

theorem plainQuote?_of_not_mem {s : Text} (h : quote ∉ s) (escaped : Bool) :
    plainQuote? escaped s = none := by
  induction s generalizing escaped with
  | nil => rfl
  | cons b s ih =>
    simp only [List.mem_cons, not_or] at h
    simp only [plainQuote?]
    rw [if_neg (fun hb => h.1 hb.1.symm), ih h.2]
    rfl

theorem lastQuote?_of_not_mem {s : Text} (h : quote ∉ s) : lastQuote? s = none := by
  induction s with
  | nil => rfl
  | cons b s ih =>
    simp only [List.mem_cons, not_or] at h
    simp only [lastQuote?, ih h.2]
    rw [if_neg (Ne.symm h.1)]

theorem lastQuote?_append {u : Text} (hu : quote ∉ u) :
    ∀ s : Text, lastQuote? (s ++ quote :: u) = some s.length
  | [] => by simp [lastQuote?_of_not_mem hu]
  | b :: s => by simp [lastQuote?_append hu s]

theorem lastQuote?_eq_some {r : Text} {i : Nat} (h : lastQuote? r = some i) :
    r = r.take i ++ quote :: r.drop (i + 1) := by
  induction r generalizing i with
  | nil => simp at h
  | cons b r ih =>
    simp only [lastQuote?] at h
    split at h
    · rename_i j hj
      simp only [Option.some.injEq] at h
      subst h
      simp only [List.take_succ_cons, List.drop_succ_cons, List.cons_append, ← ih hj]
    · split_ifs at h with hb
      simp only [Option.some.injEq] at h
      subst h
      simp [hb]

theorem length_quoted (s : Text) : (quoted s).length = s.length + 2 := by simp [quoted]

theorem quoted_append (s rest : Text) : quoted s ++ rest = quote :: (s ++ quote :: rest) := by
  simp [quoted]

/-- A string ends with its own quote if that is not escaped, and also if no quote follows. -/
theorem strLength?_quoted {s rest : Text} (hs : Closed s)
    (h : escapes false s = true → quote ∉ rest) :
    strLength? (quoted s ++ rest) = some (quoted s).length := by
  rw [quoted_append, length_quoted]
  simp only [strLength?, if_pos]
  rw [plainQuote?_append hs]
  rcases he : escapes false s with _ | _
  · simp
  · have hrest := h he
    simp [plainQuote?_of_not_mem hrest, lastQuote?_append hrest]

/-- A string whose own quote is escaped runs up to the next one, if a backslash is not in front of
that. -/
theorem strLength?_escaped {s m : Text} (hs : Closed s) (he : escapes false s = true)
    (hm : quote ∉ m) (hme : escapes false m = false) (rest : Text) :
    strLength? (quoted s ++ (m ++ [quote]) ++ rest)
      = some (quoted s ++ (m ++ [quote])).length := by
  have hq : (quote == backslash) = false := by decide
  rw [List.append_assoc, List.append_assoc, List.singleton_append, quoted_append]
  simp only [strLength?, if_pos]
  rw [plainQuote?_append hs, he]
  simp only [plainQuote?, Bool.not_true, Bool.false_eq_true, and_false, if_false, hq]
  rw [plainQuote?_append (plainQuote?_of_not_mem hm false), hme]
  simp only [plainQuote?, Bool.not_false, and_self, if_true, Option.map_some, Option.some_or,
    Option.some.injEq, List.length_append, length_quoted, List.length_cons, List.length_nil]
  omega

theorem quote_not_mem_of_lastQuote? : ∀ {r : Text}, lastQuote? r = none → quote ∉ r
  | [], _ => by simp
  | b :: r, h => by
    simp only [lastQuote?] at h
    split at h
    · cases h
    · next hr =>
      split_ifs at h with hb
      exact List.not_mem_cons_of_ne_of_not_mem (Ne.symm hb) (quote_not_mem_of_lastQuote? hr)

theorem quote_not_mem_drop_lastQuote? : ∀ {r : Text} {i : Nat}, lastQuote? r = some i →
    quote ∉ r.drop (i + 1)
  | b :: r, i, h => by
    simp only [lastQuote?] at h
    split at h
    · next j hj =>
      cases h
      rw [List.drop_succ_cons]
      exact quote_not_mem_drop_lastQuote? hj
    · next hr =>
      split_ifs at h
      cases h
      exact quote_not_mem_of_lastQuote? hr

/-- A string at the front of a text ends at the first quote that is not escaped, or else at the last
one there is. -/
theorem exists_of_strLength? {t : Text} {n : Nat} (h : strLength? t = some n) :
    ∃ s r, t = quoted s ++ r ∧ n = (quoted s).length ∧ Closed s ∧
      (escapes false s = true → quote ∉ r) := by
  rcases t with _ | ⟨b, r⟩
  · cases h
  simp only [strLength?] at h
  split_ifs at h with hb
  obtain ⟨i, hi, rfl⟩ := Option.map_eq_some_iff.1 h
  have hfound : Closed (r.take i) ∧ r = r.take i ++ quote :: r.drop (i + 1) ∧
      (escapes false (r.take i) = true → quote ∉ r.drop (i + 1)) := by
    rcases hp : plainQuote? false r with _ | j
    · rw [hp, Option.none_or] at hi
      have hr := lastQuote?_eq_some hi
      rw [hr] at hp
      exact ⟨plainQuote?_none_of_append hp, hr, fun _ => quote_not_mem_drop_lastQuote? hi⟩
    · rw [hp, Option.some_or] at hi
      cases hi
      obtain ⟨hs, hr⟩ := plainQuote?_eq_some hp
      refine ⟨hs, hr, fun he => ?_⟩
      have hlen : (r.take i).length = i := by
        have := congrArg List.length hr
        simp only [List.length_append, List.length_cons, List.length_take, List.length_drop] at *
        omega
      rw [hr, plainQuote?_append hs, he, hlen] at hp
      obtain ⟨j, hj, hij⟩ := Option.map_eq_some_iff.1 hp
      obtain rfl : j = 0 := by omega
      simp at hj
  obtain ⟨hs, hr, hq⟩ := hfound
  refine ⟨r.take i, r.drop (i + 1), ?_, ?_, hs, hq⟩
  · rw [quoted_append, ← hr, hb]
  · have hlen := congrArg List.length hr
    simp only [List.length_append, List.length_cons, List.length_take, List.length_drop] at hlen
    rw [length_quoted, List.length_take]
    omega

/-- What a string takes off the front of a text is the lexeme of a string. -/
theorem quoted_of_strLength? {t : Text} {n : Nat} (h : strLength? t = some n) :
    ∃ s, t.take n = quoted s ∧ Closed s := by
  obtain ⟨s, r, rfl, rfl, hs, -⟩ := exists_of_strLength? h
  exact ⟨s, List.take_left, hs⟩

end Lexeme

/-! ## The preferred lexeme -/

namespace TokenKind

open Lexeme

theorem length?_of_first? {t : Text} {k : TokenKind} {n : Nat} (h : first? t = some (k, n)) :
    k.length? t = some n := by
  obtain ⟨k', -, hk⟩ := List.exists_of_findSome?_eq_some h
  obtain ⟨i, hi, he⟩ := Option.map_eq_some_iff.1 hk
  simp only [Prod.mk.injEq] at he
  rw [← he.1, ← he.2, hi]

theorem first?_fixed {k : TokenKind} (hk : k.isVaried = false) (rest : Text) :
    first? (k.name ++ rest) = some (k, k.name.length) := by
  cases k <;> first | rfl | simp [isVaried] at hk

/-- A numeral is read whole in front of what does not go on with it. -/
theorem first?_numeral {t rest : Text} (ht : IsNumeral t) (h : Ends rest) :
    first? (t ++ rest) = some (.num, t.length) := by
  have := numLength?_append ht.ne_nil h
  rw [ht] at this
  simp [first?, all, length?, this]

theorem numLength?_eq_none {b : UInt8} {t : Text} (h : startsName b = true ∨ b = quote) :
    numLength? (b :: t) = none := by
  have hb : b ≠ '+'.toUInt8 ∧ b ≠ '-'.toUInt8 ∧ Text.isDigit b = false := by
    rcases h with h | rfl
    · rw [startsName_iff] at h
      have h43 : '+'.toUInt8.toNat = 43 := rfl
      have h45 : '-'.toUInt8.toNat = 45 := rfl
      refine ⟨fun he => ?_, fun he => ?_, ?_⟩
      · subst he
        omega
      · subst he
        omega
      · rw [← Bool.not_eq_true, isDigit_iff]
        omega
    · decide
  simp [numLength?, signLength, digitCount, hb]

theorem first?_name {t rest : Text} (ht : IsName t) (h : Ends rest) :
    first? (t ++ rest) = some (.ident, t.length) := by
  have hname := nameLength?_append ht.ne_nil h
  rw [ht] at hname
  rcases t with _ | ⟨b, t⟩
  · exact absurd rfl ht.ne_nil
  · have hb : startsName b = true := by
      simp only [IsName, nameLength?] at ht
      split_ifs at ht with hb
      exact hb
    have hq : b ≠ quote := by
      rintro rfl
      simp [startsName, Text.isLetter, quote] at hb
      revert hb
      decide
    rw [List.cons_append] at hname ⊢
    simp [first?, all, length?, numLength?_eq_none (.inl hb), strLength?, hq, hname]

theorem first?_quote (u : Text) :
    first? (quote :: u) = (strLength? (quote :: u)).map fun n => (.str, n) := by
  have hname : nameLength? (quote :: u) = none := rfl
  rcases hs : strLength? (quote :: u) with _ | n
  · simp only [first?, all, length?, numLength?_eq_none (.inr rfl), hs, hname,
      List.findSome?_cons, List.findSome?_nil, Option.map_none]
    rfl
  · simp [first?, all, length?, numLength?_eq_none (.inr rfl), hs]

theorem first?_str {t : Text} {n : Nat} (h : strLength? t = some n) :
    first? t = some (.str, n) := by
  rcases t with _ | ⟨b, u⟩
  · simp [strLength?] at h
  · have hb : b = quote := by
      simp only [strLength?] at h
      split_ifs at h with hb
      exact hb
    subst hb
    rw [first?_quote, h, Option.map_some]

theorem first?_space {b : UInt8} (h : isSpace b = true) (t : Text) : first? (b :: t) = none := by
  rcases isSpace_iff.1 h with rfl | rfl | rfl | rfl <;> rfl

theorem first?_backslash (t : Text) : first? (backslash :: t) = none := rfl

theorem first?_pos {t : Text} {k : TokenKind} {n : Nat} (h : first? t = some (k, n)) : 0 < n := by
  have hl := length?_of_first? h
  have hfixed : ∀ k' : TokenKind, k'.isVaried = false → fixedLength? k'.name t = some n →
      0 < n := by
    intro k' hk' hn
    obtain ⟨u, -, rfl⟩ := Option.map_eq_some_iff.1 hn
    cases k' <;> decide
  cases k with
  | num =>
    simp only [length?, numLength?] at hl
    split_ifs at hl
    simp only [Option.some.injEq] at hl
    omega
  | str =>
    rcases t with _ | ⟨b, t⟩
    · simp [length?, strLength?] at hl
    · simp only [length?, strLength?] at hl
      split_ifs at hl
      obtain ⟨i, -, rfl⟩ := Option.map_eq_some_iff.1 hl
      omega
  | ident =>
    rcases t with _ | ⟨b, t⟩
    · simp [length?, nameLength?] at hl
    · simp only [length?, nameLength?] at hl
      split_ifs at hl
      simp only [Option.some.injEq] at hl
      omega
  | _ => exact hfixed _ rfl hl

/-- A lexeme lies within the text that it is at the front of. -/
theorem le_length_of_length? {t : Text} {k : TokenKind} {n : Nat} (hl : k.length? t = some n) :
    n ≤ t.length := by
  have hfixed : ∀ k' : TokenKind, fixedLength? k'.name t = some n → n ≤ t.length := by
    intro k' hn
    obtain ⟨u, hu, rfl⟩ := Option.map_eq_some_iff.1 hn
    rw [Text.eq_append_of_after? hu, List.length_append]
    omega
  cases k with
  | num =>
    simp only [length?, numLength?] at hl
    split_ifs at hl
    have h₁ := signLength_le t
    have h₂ := digitCount_le (t.drop (signLength t))
    have h₃ := fractionLength_le (t.drop (signLength t + digitCount (t.drop (signLength t))))
    simp only [List.length_drop, Option.some.injEq] at h₂ h₃ hl
    omega
  | str =>
    obtain ⟨s, r, rfl, rfl, -⟩ := exists_of_strLength? hl
    rw [List.length_append]
    omega
  | ident =>
    rcases t with _ | ⟨b, t⟩
    · cases hl
    · have := (List.takeWhile_prefix (l := t) isNameByte).length_le
      simp only [length?, nameLength?] at hl
      split_ifs at hl
      simp only [Option.some.injEq] at hl
      rw [List.length_cons]
      omega
  | _ => exact hfixed _ hl

theorem le_length_of_first? {t : Text} {k : TokenKind} {n : Nat} (h : first? t = some (k, n)) :
    n ≤ t.length :=
  le_length_of_length? (length?_of_first? h)

theorem not_isInner_of_mem_name (k : TokenKind) : ∀ b ∈ k.name, ¬ isInner b = true := by
  cases k <;> decide +kernel

/-- No lexeme but a string's holds a quote or a backslash. -/
theorem not_isInner_of_first? {t : Text} {k : TokenKind} {n : Nat} (h : first? t = some (k, n))
    (hk : k ≠ .str) : ∀ b ∈ t.take n, ¬ isInner b = true := by
  have hl := length?_of_first? h
  have hfixed : ∀ k' : TokenKind, k'.isVaried = false → fixedLength? k'.name t = some n →
      ∀ b ∈ t.take n, ¬ isInner b = true := by
    intro k' hk' hn
    obtain ⟨u, hu, rfl⟩ := Option.map_eq_some_iff.1 hn
    rw [Text.eq_append_of_after? hu, List.take_left]
    exact not_isInner_of_mem_name k'
  cases k with
  | num => exact not_isInner_of_num hl
  | str => exact absurd rfl hk
  | ident => exact not_isInner_of_name hl
  | _ => exact hfixed _ rfl hl

end TokenKind

/-- The words of a text, if it is made of words and spaces. -/
def words (t : Text) : Option (List (TokenKind × Text)) :=
  match _ht : t.dropWhile isSpace with
  | [] => some []
  | b :: u =>
    match _h : TokenKind.first? (b :: u) with
    | none => none
    | some (k, n) => (words ((b :: u).drop n)).map ((k, (b :: u).take n) :: ·)
termination_by t.length
decreasing_by
  have hlen := (List.dropWhile_suffix (l := t) isSpace).length_le
  have hpos := TokenKind.first?_pos _h
  rw [_ht] at hlen
  simp only [List.length_drop, List.length_cons] at hlen ⊢
  omega

theorem words_eq (t : Text) : words t =
    match t.dropWhile isSpace with
    | [] => some []
    | b :: u =>
      match TokenKind.first? (b :: u) with
      | none => none
      | some (k, n) => (words ((b :: u).drop n)).map ((k, (b :: u).take n) :: ·) := by
  rw [words]
  split
  · rename_i h
    rw [h]
  · rename_i b u h
    rw [h]
    simp only
    split
    · rename_i h'
      rw [h']
    · rename_i k n h'
      rw [h']

theorem words_nil : words [] = some [] := by
  rw [words_eq]
  rfl

theorem words_space {b : UInt8} (h : isSpace b = true) (t : Text) : words (b :: t) = words t := by
  rw [words_eq, words_eq t, List.dropWhile_cons_of_pos h]

theorem words_cons {b : UInt8} (h : isSpace b = false) (t : Text) : words (b :: t) =
    match TokenKind.first? (b :: t) with
    | none => none
    | some (k, n) => (words ((b :: t).drop n)).map ((k, (b :: t).take n) :: ·) := by
  rw [words_eq, List.dropWhile_cons_of_neg (by simp [h])]

/-- A text that starts with a lexeme the reader prefers has it as its first word. -/
theorem words_append {t rest : Text} {k : TokenKind}
    (h : TokenKind.first? (t ++ rest) = some (k, t.length)) :
    words (t ++ rest) = (words rest).map ((k, t) :: ·) := by
  rcases ht : t ++ rest with _ | ⟨b, u⟩
  · have := TokenKind.first?_pos h
    simp only [List.append_eq_nil_iff] at ht
    simp [ht.1] at this
  · have hb : isSpace b = false := by
      rw [← Bool.not_eq_true]
      intro hb
      rw [ht, TokenKind.first?_space hb] at h
      simp at h
    rw [words_cons hb, ← ht, h]
    simp

/-- A text that starts with neither a space nor a lexeme has no words. -/
theorem words_of_unmatched {b : UInt8} {t : Text} (hb : isSpace b = false)
    (h : TokenKind.first? (b :: t) = none) : words (b :: t) = none := by
  rw [words_cons hb, h]

/-- If there are no words from a quote or a backslash on, there are none in front of it either,
as long as no quote stands there. -/
theorem words_eq_none_of_inner {b : UInt8} {rest : Text} (hb : Lexeme.isInner b = true)
    (h : words (b :: rest) = none) :
    ∀ a : Text, Lexeme.quote ∉ a → words (a ++ b :: rest) = none
  | [], _ => h
  | c :: a, ha => by
    simp only [List.mem_cons, not_or] at ha
    rcases hc : isSpace c with _ | _
    · rcases hf : TokenKind.first? (c :: a ++ b :: rest) with _ | ⟨k, n⟩
      · exact words_of_unmatched hc hf
      · have hk : k ≠ .str := by
          rintro rfl
          have hs := TokenKind.length?_of_first? hf
          simp only [List.cons_append, TokenKind.length?, Lexeme.strLength?] at hs
          rw [if_neg (Ne.symm ha.1)] at hs
          simp at hs
        have hpos := TokenKind.first?_pos hf
        have hn : n ≤ (c :: a).length := by
          by_contra hn
          refine TokenKind.not_isInner_of_first? hf hk b ?_ hb
          rw [List.take_append]
          refine List.mem_append_right _ ?_
          obtain ⟨j, hj⟩ : ∃ j, n - (c :: a).length = j + 1 := ⟨n - (c :: a).length - 1, by omega⟩
          rw [hj]
          exact List.mem_cons_self
        have hlen : ((c :: a).take n).length = n := List.length_take_of_le hn
        have hsplit : c :: a ++ b :: rest = (c :: a).take n ++ ((c :: a).drop n ++ b :: rest) := by
          rw [← List.append_assoc, List.take_append_drop]
        have hdrop : ((c :: a).drop n).length < (c :: a).length := by
          simp only [List.length_drop, List.length_cons]
          omega
        have hq : Lexeme.quote ∉ (c :: a).drop n := fun hq =>
          (List.mem_cons.1 (List.mem_of_mem_drop hq)).elim ha.1 ha.2
        rw [hsplit] at hf ⊢
        rw [words_append (k := k) (by rw [hf, hlen]), words_eq_none_of_inner hb h _ hq]
        rfl
    · rw [List.cons_append, words_space hc, words_eq_none_of_inner hb h a ha.2]
termination_by a => a.length

/-- The words of a source are its tokens without their places. -/
theorem tokens_eq_words : ∀ (fuel : Nat) (c : Cursor), c.rest.length < fuel →
    (c.tokens fuel).toOption.map (·.map Token.word) = words c.rest
  | 0, _, h => by omega
  | fuel + 1, c, h => by
    have hskip : c.skipSpace.rest = c.rest.dropWhile isSpace := drop_length_takeWhile _ _
    rw [words_eq, ← hskip]
    simp only [Cursor.tokens, Cursor.read]
    rcases hr : c.skipSpace.rest with _ | ⟨b, u⟩
    · rfl
    · simp only [List.isEmpty_cons, Bool.false_eq_true, if_false]
      rcases hf : TokenKind.first? (b :: u) with _ | ⟨k, n⟩
      · rfl
      · have hpos := TokenKind.first?_pos hf
        have hlen : (b :: u).length ≤ c.rest.length := by
          rw [← hr, hskip]
          exact (List.dropWhile_suffix _).length_le
        have ih := tokens_eq_words fuel (c.skipSpace.advance n) (by
          simp only [Cursor.advance, hr, List.length_drop, List.length_cons] at hlen ⊢
          omega)
        rw [Cursor.advance, hr] at ih
        simp only [Cursor.advance, hr, ← ih]
        rcases Cursor.tokens fuel _ with f | ts
        · rfl
        · rfl

/-- A word as a reader cuts it off. -/
def Spelled (w : TokenKind × Text) : Prop :=
  match w.1 with
  | .str => ∃ s, w.2 = Lexeme.quoted s ∧ Lexeme.Closed s
  | .ident => Lexeme.IsName w.2
  | _ => True

/-- What is preferred at the front of a text is a lexeme of its kind. -/
theorem spelled_of_first? {t : Text} {k : TokenKind} {n : Nat}
    (h : TokenKind.first? t = some (k, n)) : Spelled (k, t.take n) := by
  have hl := TokenKind.length?_of_first? h
  cases k with
  | str => exact Lexeme.quoted_of_strLength? hl
  | ident => exact Lexeme.isName_take hl
  | _ => trivial

theorem spelled_of_mem_words (t : Text) {ws : List (TokenKind × Text)} (h : words t = some ws) :
    ∀ w ∈ ws, Spelled w := by
  rw [words_eq] at h
  rcases hd : t.dropWhile isSpace with _ | ⟨b, u⟩ <;> rw [hd] at h <;> simp only at h
  · simp only [Option.some.injEq] at h
    simp [← h]
  · rcases hf : TokenKind.first? (b :: u) with _ | ⟨k, n⟩ <;> rw [hf] at h <;> simp only at h
    · simp at h
    · obtain ⟨vs, hvs, rfl⟩ := Option.map_eq_some_iff.1 h
      have hlen := (List.dropWhile_suffix (l := t) isSpace).length_le
      have hpos := TokenKind.first?_pos hf
      intro w hw
      rcases List.mem_cons.1 hw with rfl | hw
      · exact spelled_of_first? hf
      · exact spelled_of_mem_words ((b :: u).drop n) hvs w hw
termination_by t.length
decreasing_by
  rw [hd] at hlen
  simp only [List.length_drop, List.length_cons] at hlen ⊢
  omega

/-- The words of a source are its tokens without their places. -/
theorem lex_eq_words (file src : Text) :
    (lex file src).toOption.map (·.map Token.word) = words src :=
  tokens_eq_words _ _ (Nat.lt_succ_self _)

end Tacit
