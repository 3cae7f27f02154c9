import Tacit.Proofs.Trees

/-!
# The words of a canonical source

A canonical source is laid out in bits: words, and the blanks between them. A number or a name is
always followed by a blank or a closing mark, so the text of the bits has their words again, up to
one thing: a string that ends with a backslash runs on to the next quote there is. If that is the
quote of another string, the rest of the text is read inside out, and has no words
(`words_textOf_eq_none`); if there is no other quote, nothing happens (`words_textOf`).
-/

namespace Tacit

open Lexeme

/-- A word of a canonical source, or a blank in it. -/
inductive Bit where
  | num (t : Text)
  | name (t : Text)
  | str (s : Text)
  | mark (k : TokenKind)
  | blank (b : UInt8)

namespace Bit

def text : Bit → Text
  | num t | name t => t
  | str s => quoted s
  | mark k => k.name
  | blank b => [b]

def word? : Bit → Option (TokenKind × Text)
  | num t => some (.num, t)
  | name t => some (.ident, t)
  | str s => some (.str, quoted s)
  | mark k => some (k, k.name)
  | blank _ => none

def string? : Bit → Option Text
  | str s => some s
  | _ => none

/-- A bit is spelled like a lexeme, and cannot run on into the text that follows unless it is a
string. -/
def Fits (rest : Text) : Bit → Prop
  | num t => IsNumeral t ∧ Ends rest
  | name t => IsName t ∧ Ends rest
  | str s => Closed s
  | mark k => k.isVaried = false
  | blank b => isSpace b = true

def textOf (bs : List Bit) : Text := bs.flatMap text

def wordsOf (bs : List Bit) : List (TokenKind × Text) := bs.filterMap word?

def stringsOf (bs : List Bit) : List Text := bs.filterMap string?

/-- Every bit fits in front of those that follow. -/
def Spaced : List Bit → Prop
  | [] => True
  | b :: bs => b.Fits (textOf bs) ∧ Spaced bs

/-- No string but the last one ends with a backslash. -/
def Settled (ss : List Text) : Prop := ∀ s ∈ ss.dropLast, s.getLast? ≠ some backslash

theorem textOf_cons (b : Bit) (bs : List Bit) : textOf (b :: bs) = b.text ++ textOf bs := rfl

theorem textOf_singleton (b : Bit) : textOf [b] = b.text := List.flatMap_singleton ..

theorem textOf_append (bs cs : List Bit) : textOf (bs ++ cs) = textOf bs ++ textOf cs :=
  List.flatMap_append

theorem spaced_of_append : ∀ {bs cs : List Bit}, Spaced (bs ++ cs) → Spaced cs
  | [], _, h => h
  | _ :: _, _, h => spaced_of_append h.2

theorem eq_str_of_string? {b : Bit} {s : Text} (h : b.string? = some s) : b = str s := by
  cases b <;> simp only [string?, Option.some.injEq, reduceCtorEq] at h
  rw [h]

theorem not_isInner_of_fits {rest : Text} {b : Bit} (h : b.Fits rest) (hb : b.string? = none) :
    ∀ c ∈ b.text, ¬ isInner c = true := by
  cases b with
  | num t =>
    have := not_isInner_of_num h.1
    rwa [List.take_length] at this
  | name t =>
    have := not_isInner_of_name h.1
    rwa [List.take_length] at this
  | str s => simp [string?] at hb
  | mark k => exact TokenKind.not_isInner_of_mem_name k
  | blank b =>
    simp only [text, List.mem_singleton, forall_eq]
    rcases isSpace_iff.1 h with rfl | rfl | rfl | rfl <;> decide

/-- Bits without strings have neither quotes nor backslashes. -/
theorem not_isInner_of_strings : ∀ {bs cs : List Bit}, Spaced (bs ++ cs) → stringsOf bs = [] →
    ∀ c ∈ textOf bs, ¬ isInner c = true
  | [], _, _, _ => by simp [textOf]
  | b :: bs, cs, h, hs => by
    have hb : b.string? = none := by
      rcases hb : b.string? with _ | s
      · rfl
      · simp [stringsOf, hb] at hs
    have hbs : stringsOf bs = [] := by simpa [stringsOf, hb] using hs
    intro c hc
    rw [textOf_cons, List.mem_append] at hc
    rcases hc with hc | hc
    · exact not_isInner_of_fits h.1 hb c hc
    · exact not_isInner_of_strings h.2 hbs c hc

theorem quote_not_mem_of_strings {bs : List Bit} (h : Spaced bs) (hs : stringsOf bs = []) :
    quote ∉ textOf bs := by
  have h' : Spaced (bs ++ []) := by rwa [List.append_nil]
  exact fun hq => not_isInner_of_strings h' hs quote hq rfl

theorem quote_not_mem_of_inner {t : Text} (h : ∀ c ∈ t, ¬ isInner c = true) : quote ∉ t :=
  fun hq => h quote hq rfl

theorem escapes_eq_false_of_inner {t : Text} (h : ∀ c ∈ t, ¬ isInner c = true) :
    escapes false t = false := by
  rw [← Bool.not_eq_true, escapes_false_iff]
  intro hl
  exact h backslash (List.mem_of_getLast? hl) rfl

/-- Bits with strings, split at the first of them. -/
theorem split_of_strings : ∀ {bs : List Bit}, stringsOf bs ≠ [] →
    ∃ pre s post, bs = pre ++ str s :: post ∧ stringsOf pre = []
  | [], h => absurd rfl h
  | b :: bs, h => by
    rcases hb : b.string? with _ | s
    · have hbs : stringsOf bs ≠ [] := by simpa [stringsOf, hb] using h
      obtain ⟨pre, s, post, rfl, hpre⟩ := split_of_strings hbs
      exact ⟨b :: pre, s, post, rfl, by simpa [stringsOf, hb] using hpre⟩
    · exact ⟨[], s, bs, by rw [eq_str_of_string? hb, List.nil_append], rfl⟩

/-- The first word or blank of a text of bits. -/
theorem words_cons {b : Bit} {rest : Text} (h : b.Fits rest)
    (hs : ∀ s ∈ b.string?, escapes false s = true → quote ∉ rest) :
    words (b.text ++ rest) = (words rest).map (b.word?.toList ++ ·) := by
  cases b with
  | num t => exact words_append (TokenKind.first?_numeral h.1 h.2)
  | name t => exact words_append (TokenKind.first?_name h.1 h.2)
  | str s =>
    exact words_append (TokenKind.first?_str (strLength?_quoted h (hs s rfl)))
  | mark k => exact words_append (TokenKind.first?_fixed h rest)
  | blank b =>
    simp only [text, word?, Option.toList_none, List.nil_append, Option.map_id_fun']
    exact words_space h rest

theorem settled_cons {s : Text} {ss : List Text} :
    Settled (s :: ss) ↔ (escapes false s = true → ss = []) ∧ Settled ss := by
  rw [escapes_false_iff]
  rcases ss with _ | ⟨s', ss⟩
  · simp [Settled]
  · simp only [Settled, List.dropLast_cons_cons, List.forall_mem_cons, reduceCtorEq, imp_false]

/-- Bits of which no string but the last ends with a backslash are read as the words they
stand for. -/
theorem words_textOf : ∀ {bs : List Bit}, Spaced bs → Settled (stringsOf bs) →
    words (textOf bs) = some (wordsOf bs)
  | [], _, _ => words_nil
  | b :: bs, h, hset => by
    have hs : (∀ s ∈ b.string?, escapes false s = true → quote ∉ textOf bs) ∧
        Settled (stringsOf bs) := by
      rcases hb : b.string? with _ | s
      · exact ⟨by simp, by simpa [stringsOf, hb] using hset⟩
      · have hset' : Settled (s :: stringsOf bs) := by simpa [stringsOf, hb] using hset
        refine ⟨?_, (settled_cons.1 hset').2⟩
        rintro _ ⟨⟩ he
        exact quote_not_mem_of_strings h.2 ((settled_cons.1 hset').1 he)
    rw [textOf_cons, words_cons h.1 hs.1, words_textOf h.2 hs.2]
    cases hw : b.word? <;> simp [wordsOf, hw]

/-- The inside of a string, read as if it stood outside, has no words up to a backslash in it. The
first byte that only strings hold is a backslash, as a quote would have none in front of it. -/
theorem words_closed_append {s rest : Text} (hs : Closed s)
    (h : (∀ c ∈ s, ¬ isInner c = true) → words (s ++ rest) = none) : words (s ++ rest) = none := by
  by_cases hin : ∀ c ∈ s, ¬ isInner c = true
  · exact h hin
  push Not at hin
  obtain ⟨c, hc, hcin⟩ := hin
  have hsplit : s = s.takeWhile (fun b => !isInner b) ++ s.dropWhile (fun b => !isInner b) :=
    (List.takeWhile_append_dropWhile).symm
  have ha : ∀ b ∈ s.takeWhile (fun b => !isInner b), ¬ isInner b = true := by
    intro b hb
    simpa using List.mem_takeWhile_imp hb
  rcases hd : s.dropWhile (fun b => !isInner b) with _ | ⟨d, u⟩
  · rw [hd, List.append_nil] at hsplit
    exact absurd hcin (ha c (hsplit ▸ hc))
  · have hdin : isInner d = true := by
      have := List.head?_dropWhile_not (fun b => !isInner b) s
      simpa [hd] using this
    have hdq : d ≠ quote := by
      rintro rfl
      rw [Closed, hsplit, hd, plainQuote?_append
        (plainQuote?_of_not_mem (quote_not_mem_of_inner ha) false),
        escapes_eq_false_of_inner ha] at hs
      simp [plainQuote?] at hs
    have hdb : d = backslash := by simpa [isInner, hdq] using hdin
    rw [hsplit, hd, List.append_assoc, List.cons_append]
    refine words_eq_none_of_inner hdin ?_ _ (quote_not_mem_of_inner ha)
    rw [hdb]
    exact words_of_unmatched rfl (TokenKind.first?_backslash _)

/-- Bits that are read from inside a string on have no words: every quote that should open a
string closes one. -/
theorem words_inside_out {s : Text} (hs : Closed s) (bs : List Bit) (h : Spaced bs) :
    words (s ++ quote :: textOf bs) = none := by
  refine words_closed_append hs fun hin => ?_
  refine words_eq_none_of_inner (b := quote) rfl ?_ s (quote_not_mem_of_inner hin)
  by_cases hb : stringsOf bs = []
  · have hq := quote_not_mem_of_strings h hb
    refine words_of_unmatched rfl ?_
    rw [TokenKind.first?_quote]
    simp [strLength?, plainQuote?_of_not_mem hq, lastQuote?_of_not_mem hq]
  · obtain ⟨pre, s', post, rfl, hpre⟩ := split_of_strings hb
    have hin' := not_isInner_of_strings h hpre
    have hpost := spaced_of_append h
    have hfirst : (str (textOf pre)).Fits (s' ++ quote :: textOf post) :=
      plainQuote?_of_not_mem (quote_not_mem_of_inner hin') false
    have htext : quote :: textOf (pre ++ str s' :: post)
        = (str (textOf pre)).text ++ (s' ++ quote :: textOf post) := by
      rw [textOf_append, textOf_cons, text, text, quoted_append, quoted_append]
    rw [htext, words_cons hfirst, words_inside_out hpost.1 post hpost.2]
    · rfl
    · rintro _ ⟨⟩ he
      rw [escapes_eq_false_of_inner hin'] at he
      simp at he
termination_by bs.length
decreasing_by
  subst_vars
  simp only [List.length_append, List.length_cons]
  omega

theorem words_textOf_eq_none : ∀ {bs : List Bit}, Spaced bs → ¬ Settled (stringsOf bs) →
    words (textOf bs) = none
  | [], _, hset => absurd (by simp [Settled, stringsOf]) hset
  | b :: bs, h, hset => by
    by_cases hs : ∀ s ∈ b.string?, escapes false s = true → stringsOf bs = []
    · have hset' : ¬ Settled (stringsOf bs) := by
        rcases hb : b.string? with _ | s
        · simpa [stringsOf, hb] using hset
        · have : ¬ Settled (s :: stringsOf bs) := by simpa [stringsOf, hb] using hset
          exact fun h' => this (settled_cons.2 ⟨hs s hb, h'⟩)
      rw [textOf_cons, words_cons h.1 fun s hsb he => quote_not_mem_of_strings h.2 (hs s hsb he),
        words_textOf_eq_none h.2 hset']
      rfl
    · push Not at hs
      obtain ⟨s, hsb, he, hne⟩ := hs
      obtain ⟨pre, s', post, rfl, hpre⟩ := split_of_strings hne
      have hin := not_isInner_of_strings h.2 hpre
      have hpost := spaced_of_append h.2
      obtain rfl := eq_str_of_string? hsb
      have hlen := strLength?_escaped h.1 he
        (quote_not_mem_of_inner hin) (escapes_eq_false_of_inner hin) (s' ++ quote :: textOf post)
      have htext : textOf (str s :: (pre ++ str s' :: post))
          = (quoted s ++ (textOf pre ++ [quote])) ++ (s' ++ quote :: textOf post) := by
        rw [textOf_cons, textOf_append, textOf_cons, text, text, quoted_append s']
        simp
      rw [htext, words_append (TokenKind.first?_str hlen), words_inside_out hpost.1 post hpost.2]
      rfl

/-- Bits that can stand in front of whatever ends a number or a name. -/
def Lays (bs : List Bit) : Prop :=
  ∀ rest, Spaced rest → Ends (textOf rest) → Spaced (bs ++ rest)

theorem ends_of_byte {b : UInt8} (h : isNameByte b = false ∧ b ≠ '.'.toUInt8) (rest : Text) :
    Ends (b :: rest) := by
  rintro _ ⟨⟩
  exact h

theorem ends_blank (bs : List Bit) : Ends (textOf (.blank 32 :: bs)) := ends_of_byte (by decide) _

theorem ends_parenR (bs : List Bit) : Ends (textOf (.mark .parenR :: bs)) :=
  ends_of_byte (by decide) _

theorem ends_braceR (bs : List Bit) : Ends (textOf (.mark .braceR :: bs)) :=
  ends_of_byte (by decide) _

theorem ends_semi (bs : List Bit) : Ends (textOf (.mark .semi :: bs)) :=
  ends_of_byte (by decide) _

/-- Bits between parentheses. -/
def between (bs : List Bit) : List Bit := .mark .parenL :: (bs ++ [.mark .parenR])

/-- What is kept by the ways in which the bits of an expression are put together. -/
structure Layout (P : List Bit → Prop) : Prop where
  nil : P []
  name {n : Text} (h : IsName n) : P [.name n]
  str {s : Text} (h : Closed s) : P [.str s]
  between {bs : List Bit} (h : P bs) : P (between bs)
  brackets {bs : List Bit} (h : P bs) : P (.mark .braceL :: (bs ++ [.mark .braceR]))
  blank {bs cs : List Bit} (h : P bs) (hc : P cs) : P (bs ++ .blank 32 :: cs)

theorem layout_lays : Layout Lays where
  nil := fun _ hr _ => hr
  name h := fun _ hr he => ⟨⟨h, he⟩, hr⟩
  str h := fun _ hr _ => ⟨h, hr⟩
  between h rest hr _ := by
    rw [Bit.between, List.cons_append, List.append_assoc]
    exact ⟨rfl, h _ ⟨rfl, hr⟩ (ends_parenR rest)⟩
  brackets h rest hr _ := by
    rw [List.cons_append, List.append_assoc]
    exact ⟨rfl, h _ ⟨rfl, hr⟩ (ends_braceR rest)⟩
  blank h hc rest hr he := by
    rw [List.append_assoc, List.cons_append]
    exact h _ ⟨rfl, hc rest hr he⟩ (ends_blank _)

/-- Bits without a semicolon. -/
def Unparted (bs : List Bit) : Prop := .mark .semi ∉ bs

theorem layout_unparted : Layout Unparted where
  nil := by simp [Unparted]
  name _ := by simp [Unparted]
  str _ := by simp [Unparted]
  between h := by simpa [Unparted, Bit.between] using h
  brackets h := by simpa [Unparted] using h
  blank h hc := by simpa [Unparted] using And.intro h hc

end Bit

/-- The text of a number is a lexeme, and is read as the number. -/
def Number.ReadsBack (n : Number) : Prop :=
  IsNumeral n.text ∧ (Decimal.read? n.text).map (Number.ofFloat 0) = some n

namespace Expr

open Bit (textOf wordsOf stringsOf Spaced Settled Lays between textOf_cons textOf_append
  textOf_singleton)

/-- The bits of a call. -/
def callBits (lhs : Option (List Bit)) (callee : List Bit) (rhs : Option (List Bit)) : List Bit :=
  match lhs, rhs with
  | some l, some r => between (l ++ .blank 32 :: (callee ++ .blank 32 :: r))
  | none, some x | some x, none => between (callee ++ .blank 32 :: x)
  | none, none => between callee

mutual

/-- The bits of the source of an expression. Literals that are never read have none. -/
def bits : Expr → List Bit
  | literal (.num n) _ => [.num n.text]
  | literal (.str s) _ => [.str s]
  | literal _ _ => []
  | array members _ => .mark .braceL :: (bitsAll members ++ [.mark .braceR])
  | assign name body _ => [.name name, .blank 32, .mark .assign, .blank 32] ++ bits body
  | named name lhs rhs _ => callBits (bitsOf lhs) [.name name] (bitsOf rhs)
  | called callee lhs rhs _ =>
    callBits (bitsOf lhs) (if callee.isCall then bits callee else between (bits callee))
      (bitsOf rhs)

def bitsAll : List Expr → List Bit
  | [] => []
  | [e] => bits e
  | e :: f :: es => bits e ++ .blank 32 :: bitsAll (f :: es)

def bitsOf : Option Expr → Option (List Bit)
  | none => none
  | some e => some (bits e)

end

theorem ofString_blank : Text.ofString " " = [32] := rfl

theorem textOf_between (bs : List Bit) : textOf (between bs) = "(" ++ textOf bs ++ ")" := by
  simp [between, textOf, Bit.text, TokenKind.name]

theorem textOf_callBits (lhs rhs : Option (List Bit)) (callee : List Bit) :
    textOf (callBits lhs callee rhs)
      = callSource (lhs.map textOf) (textOf callee) (rhs.map textOf) := by
  cases lhs <;> cases rhs <;> simp [callBits, callSource, textOf_between, textOf_append,
    textOf_cons, Bit.text, ofString_blank]

theorem textOf_bitsAll : ∀ {es : List Expr}, (∀ e ∈ es, textOf (bits e) = source e) →
    textOf (bitsAll es) = sourceAll es
  | [], _ => rfl
  | [e], h => h e (by simp)
  | e :: f :: es, h => by
    rw [bitsAll, textOf_append, textOf_cons, h e (by simp),
      textOf_bitsAll fun g hg => h g (by simp [hg]), sourceAll]
    simp [Bit.text, ofString_blank]

theorem map_textOf_bitsOf {o : Option Expr} (h : ∀ e ∈ o, textOf (bits e) = source e) :
    (bitsOf o).map textOf = sourceOf o := by
  cases o with
  | none => rfl
  | some e => simp [bitsOf, sourceOf, h e rfl]

/-- The source of an expression is the text of its bits. -/
theorem Readable.textOf_bits {e : Expr} (h : e.Readable) : textOf (bits e) = source e := by
  induction h with
  | number x l => rw [bits, textOf_singleton, Bit.text, source, Value.source]
  | string _ l =>
    rw [bits, textOf_singleton, Bit.text, source, Value.source, Lexeme.quoted]
    rfl
  | array _ l ih =>
    rw [bits, textOf_cons, textOf_append, textOf_bitsAll ih, textOf_singleton, source]
    simp [Bit.text, TokenKind.name]
  | name _ l => rw [bits, textOf_callBits, textOf_singleton]; rfl
  | named _ _ _ l ihl ihr =>
    rw [bits, textOf_callBits, textOf_singleton, map_textOf_bitsOf ihl, bitsOf, Option.map_some,
      ihr]
    rfl
  | @called c lhs rhs _ _ _ l ihc ihl ihr =>
    simp only [bits, source, textOf_callBits, map_textOf_bitsOf ihl]
    split <;> simp [bitsOf, sourceOf, ihr, ihc, textOf_between]

/-- The numbers in an expression read back. -/
def NumbersReadBack (e : Expr) : Prop := ∀ m ∈ e.nodes, ∀ n ∈ m.number?, n.ReadsBack

theorem NumbersReadBack.child {e c : Expr} (h : e.NumbersReadBack) (hc : c ∈ e.children) :
    c.NumbersReadBack :=
  (forall_nodes_iff.1 h).2 c hc

section Layout

variable {P : List Bit → Prop} (hP : Bit.Layout P)
include hP

/-- A layout extends from the parts of a call to the call. -/
theorem layout_callBits {lhs rhs : Option (List Bit)} {callee : List Bit}
    (hl : ∀ bs ∈ lhs, P bs) (hc : P callee) (hr : ∀ bs ∈ rhs, P bs) :
    P (callBits lhs callee rhs) := by
  rcases lhs with _ | l <;> rcases rhs with _ | r <;> simp only [callBits]
  · exact hP.between hc
  · exact hP.between (hP.blank hc (hr r rfl))
  · exact hP.between (hP.blank hc (hl l rfl))
  · exact hP.between (hP.blank (hl l rfl) (hP.blank hc (hr r rfl)))

theorem layout_bitsAll : ∀ {es : List Expr}, (∀ e ∈ es, P (bits e)) → P (bitsAll es)
  | [], _ => hP.nil
  | [e], h => h e (by simp)
  | e :: f :: es, h => hP.blank (h e (by simp)) (layout_bitsAll fun g hg => h g (by simp [hg]))

omit hP in
theorem layout_bitsOf {o : Option Expr} (h : ∀ e ∈ o, P (bits e)) : ∀ bs ∈ bitsOf o, P bs := by
  cases o with
  | none => simp [bitsOf]
  | some e =>
    rintro _ ⟨⟩
    exact h e rfl

/-- What is kept as bits are put together, and holds of numbers, holds of the bits of an
expression. -/
theorem Readable.layout (hnum : ∀ n : Number, n.ReadsBack → P [.num n.text]) {e : Expr}
    (h : e.Readable) (hn : e.NumbersReadBack) : P (bits e) := by
  induction h with
  | number x l => exact hnum _ ((forall_nodes_iff.1 hn).1 _ rfl)
  | string hs l => exact hP.str hs
  | array _ l ih => exact hP.brackets (layout_bitsAll hP fun m hm => ih m hm (hn.child hm))
  | name hname l =>
    exact layout_callBits hP (by simp [bitsOf]) (hP.name hname) (by simp [bitsOf])
  | named hname _ _ l ihl ihr =>
    refine layout_callBits hP (layout_bitsOf fun x hx => ihl x hx (hn.child ?_)) (hP.name hname)
      (layout_bitsOf ?_)
    · simp_all [children]
    · rintro _ ⟨⟩
      exact ihr (hn.child (by simp [children]))
  | called _ _ _ l ihc ihl ihr =>
    have hc := ihc (hn.child (by simp [children]))
    refine layout_callBits hP (layout_bitsOf fun x hx => ihl x hx (hn.child ?_)) ?_
      (layout_bitsOf ?_)
    · simp_all [children]
    · split
      · exact hc
      · exact hP.between hc
    · rintro _ ⟨⟩
      exact ihr (hn.child (by simp [children]))

end Layout

theorem Readable.lays {e : Expr} (h : e.Readable) (hn : e.NumbersReadBack) : Lays (bits e) :=
  h.layout Bit.layout_lays (fun _ hb _ hr he => ⟨⟨hb.1, he⟩, hr⟩) hn

theorem Readable.unparted {e : Expr} (h : e.Readable) (hn : e.NumbersReadBack) :
    Bit.Unparted (bits e) :=
  h.layout Bit.layout_unparted (fun _ _ => by simp [Bit.Unparted]) hn

theorem stringsOf_append (bs cs : List Bit) :
    stringsOf (bs ++ cs) = stringsOf bs ++ stringsOf cs :=
  List.filterMap_append

theorem stringsOf_marked (k k' : TokenKind) (bs : List Bit) :
    stringsOf (.mark k :: (bs ++ [.mark k'])) = stringsOf bs := by
  calc stringsOf (.mark k :: (bs ++ [.mark k'])) = stringsOf (bs ++ [.mark k']) := rfl
    _ = stringsOf bs := by rw [stringsOf_append]; exact List.append_nil _

theorem stringsOf_between (bs : List Bit) : stringsOf (between bs) = stringsOf bs :=
  stringsOf_marked _ _ bs

theorem stringsOf_callBits (lhs : Option (List Bit)) (callee rhs : List Bit) :
    stringsOf (callBits lhs callee (some rhs))
      = lhs.toList.flatMap stringsOf ++ stringsOf callee ++ stringsOf rhs := by
  have hblank : ∀ bs, stringsOf (.blank 32 :: bs) = stringsOf bs := fun _ => rfl
  cases lhs <;> simp [callBits, stringsOf_between, stringsOf_append, hblank]

theorem stringsOf_bitsAll : ∀ {es : List Expr},
    (∀ e ∈ es, stringsOf (bits e) = e.nodes.filterMap string?) →
      stringsOf (bitsAll es) = (es.flatMap nodes).filterMap string?
  | [], _ => rfl
  | [e], h => by simpa [bitsAll] using h e (by simp)
  | e :: f :: es, h => by
    rw [bitsAll, stringsOf_append, h e (by simp), List.flatMap_cons, List.filterMap_append,
      ← stringsOf_bitsAll fun g hg => h g (by simp [hg])]
    rfl

/-- The strings in an expression come in the order of its nodes. -/
theorem Readable.stringsOf_bits {e : Expr} (h : e.Readable) :
    stringsOf (bits e) = e.nodes.filterMap string? := by
  induction h with
  | number x l => rfl
  | string _ l => rfl
  | array _ l ih =>
    rw [bits, stringsOf_marked, nodes_eq, List.filterMap_cons_none rfl, children,
      stringsOf_bitsAll ih]
  | name _ l => rfl
  | @named n lhs rhs _ _ _ l ihl ihr =>
    rw [bits, bitsOf, stringsOf_callBits, nodes_eq, List.filterMap_cons_none rfl, children, ihr]
    cases lhs with
    | none => simp [bitsOf, stringsOf, Bit.string?]
    | some x => simp [bitsOf, stringsOf, Bit.string?, ← ihl x rfl]
  | @called c lhs rhs _ _ _ l ihc ihl ihr =>
    have hc : stringsOf (if c.isCall then bits c else between (bits c)) = stringsOf (bits c) := by
      split
      · rfl
      · exact stringsOf_between _
    rw [bits, bitsOf, stringsOf_callBits, nodes_eq, List.filterMap_cons_none rfl, children, ihr, hc,
      ihc]
    cases lhs with
    | none => simp [bitsOf]
    | some x => simp [bitsOf, ihl x rfl]

theorem Stated.textOf_bits {e : Expr} (h : e.Stated) : textOf (bits e) = source e := by
  cases h with
  | expr h => exact h.textOf_bits
  | @assign n e _ he l =>
    rw [bits, textOf_append, he.textOf_bits, source, textOf_cons, Bit.text]
    rfl

theorem Stated.lays {e : Expr} (h : e.Stated) (hn : e.NumbersReadBack) : Lays (bits e) := by
  cases h with
  | expr h => exact h.lays hn
  | assign hname he l =>
    intro rest hr hend
    exact ⟨⟨hname, Bit.ends_blank _⟩, rfl, rfl, rfl,
      he.lays (hn.child (by simp [children])) rest hr hend⟩

theorem Stated.stringsOf_bits {e : Expr} (h : e.Stated) :
    stringsOf (bits e) = e.nodes.filterMap string? := by
  cases h with
  | expr h => exact h.stringsOf_bits
  | assign _ he l =>
    rw [nodes_eq, List.filterMap_cons_none rfl, children, List.flatMap_singleton,
      ← he.stringsOf_bits]
    rfl

end Expr

namespace Program

open Bit (textOf wordsOf stringsOf Spaced Settled)

/-- The bits of the source of a program. -/
def bits (p : Program) : List Bit := p.flatMap fun e => e.bits ++ [.mark .semi, .blank 10]

theorem textOf_bits : ∀ {p : Program}, (∀ e ∈ p, e.Stated) → textOf p.bits = p.source
  | [], _ => rfl
  | e :: p, h => by
    have ih := textOf_bits (p := p) fun f hf => h f (by simp [hf])
    have he := (h e (by simp)).textOf_bits
    simp only [bits, source, List.flatMap_cons] at ih ⊢
    rw [Bit.textOf_append, ih, Bit.textOf_append, he]
    rfl

theorem spaced_bits : ∀ {p : Program}, (∀ e ∈ p, e.Stated) → (∀ e ∈ p, e.NumbersReadBack) →
    Spaced p.bits
  | [], _, _ => trivial
  | e :: p, h, hn => by
    have ih := spaced_bits (p := p) (fun f hf => h f (by simp [hf])) fun f hf => hn f (by simp [hf])
    simp only [bits, List.flatMap_cons, List.append_assoc]
    exact (h e (by simp)).lays (hn e (by simp)) _ ⟨rfl, rfl, ih⟩ (Bit.ends_semi _)

theorem stringsOf_bits : ∀ {p : Program}, (∀ e ∈ p, e.Stated) →
    stringsOf p.bits = (p.flatMap Expr.nodes).filterMap Expr.string?
  | [], _ => rfl
  | e :: p, h => by
    have ih := stringsOf_bits (p := p) fun f hf => h f (by simp [hf])
    simp only [bits, List.flatMap_cons] at ih ⊢
    rw [Expr.stringsOf_append, ih, Expr.stringsOf_append, (h e (by simp)).stringsOf_bits,
      List.filterMap_append]
    exact congrArg (· ++ _) (List.append_nil _)

theorem strings_eq (p : Program) :
    p.strings = (p.flatMap Expr.nodes).filterMap Expr.string? := by
  rw [strings, ← map_node_visits, List.filterMap_map]
  rfl

theorem numbersReadBack {p : Program} (h : ∀ n ∈ p.numbers, n.ReadsBack) :
    ∀ e ∈ p, e.NumbersReadBack := by
  intro e he m hm n hn
  refine h n ?_
  have hmem : m ∈ p.visits.map (·.node) := by
    rw [map_node_visits]
    exact List.mem_flatMap.2 ⟨e, he, hm⟩
  obtain ⟨v, hv, rfl⟩ := List.mem_map.1 hmem
  exact List.mem_filterMap.2 ⟨v, hv, hn⟩

section Source

variable {p : Program} (h : ∀ e ∈ p, e.Stated) (hn : ∀ n ∈ p.numbers, n.ReadsBack)
include h hn

/-- A canonical source in which only the last string may end with a backslash has the words it is
laid out in. -/
theorem words_source (hs : Settled p.strings) : words p.source = some (wordsOf p.bits) := by
  rw [← textOf_bits h]
  rw [strings_eq, ← stringsOf_bits h] at hs
  exact Bit.words_textOf (spaced_bits h (numbersReadBack hn)) hs

/-- Where some string but the last one ends with a backslash, the source of a program
has no words. -/
theorem words_source_eq_none (hs : ¬ Settled p.strings) : words p.source = none := by
  rw [← textOf_bits h]
  rw [strings_eq, ← stringsOf_bits h] at hs
  exact Bit.words_textOf_eq_none (spaced_bits h (numbersReadBack hn)) hs

end Source

end Program

end Tacit
