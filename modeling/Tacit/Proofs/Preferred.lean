import Mathlib
import Tacit.Pattern.Notation
import Tacit.Pattern.Search
import Tacit.Proofs.Glyphs
import Tacit.Proofs.Words

/-!
# The stretch that a pattern prefers

From a place in a text a pattern may match several stretches, and one way of trying alternatives and
repetitions one after the other finds all of them in order of preference (`Pattern.ends`). The
lexemes of numbers, strings and names are what their patterns prefer at the front of a text, also
where the text does not spell characters (`TokenKind.length?_eq_preferred?`).
-/

namespace Tacit

open Text (glyphs)

namespace Pattern

/-- A place in a text: the character in front of it, and the glyphs behind it. -/
structure Place where
  before : Option Char
  rest : List Glyph

def Place.surroundings (s : Place) : Surroundings := ⟨s.before, s.rest.head?.map Glyph.toChar⟩

/-- The place behind the next character, if that is in a set. -/
def Place.next (test : Char → Bool) : Place → List Place
  | ⟨_, []⟩ => []
  | ⟨_, g :: rest⟩ => if test g.toChar then [⟨g.toChar, rest⟩] else []

/-- The places that some steps lead to, at most `n` of them and each further on, those with more
steps first or last. -/
def repeated (greedy : Bool) (step : Place → List Place) : Nat → Place → List Place
  | 0, s => [s]
  | n + 1, s =>
    let further := ((step s).filter fun u => u.rest.length < s.rest.length).flatMap
      (repeated greedy step n)
    if greedy then further ++ [s] else s :: further

/-- Where the stretches end that a pattern without bounded repetitions matches from a place on, the
preferred first. -/
def ends : Pattern → Place → List Place
  | .empty, s => [s]
  | .set test, s => s.next test
  | .assertion a, s => if s.surroundings.satisfy a then [s] else []
  | .seq a b, s => (ends a s).flatMap (ends b)
  | .either a b, s => ends a s ++ ends b s
  | .group p, s => ends p s
  | .rep .optional greedy p, s => if greedy then ends p s ++ [s] else s :: ends p s
  | .rep .star greedy p, s => repeated greedy (ends p) s.rest.length s
  | .rep .plus greedy p, s => (ends p s).flatMap fun u => repeated greedy (ends p) u.rest.length u
  | .times _ _ _ p, s => ends p s

/-- The length of the stretch that a pattern prefers at the front of a text. -/
def preferred? (p : Pattern) (t : Text) : Option Nat :=
  (ends p.unrolled ⟨none, glyphs t⟩).head?.map fun s => t.length - (Text.ofGlyphs s.rest).length

end Pattern

namespace TokenKind

/-- How the pattern of the lexemes of a kind is written, unless they are all the same. -/
def written? : TokenKind → Option Text
  | .num => some "[+-]?[0-9]+(\\.[0-9]+)?"
  | .str => some "\"(?:\\\\\"|[^\"])*\""
  | .ident => some "[a-zA-Z_][a-zA-Z0-9_]*"
  | _ => none

/-- The length of what the pattern of a kind prefers at the front of a text. -/
def preferred? (k : TokenKind) (t : Text) : Option Nat :=
  match k.written? with
  | some w => (Pattern.read w).toOption.bind fun p => p.preferred? t
  | none => if k.name <+: t then some k.name.length else none

end TokenKind

namespace Pattern

attribute [local simp] ends repeated

/-- Whichever character is in front of a text, the stretch that a pattern prefers leaves some text
behind it, if there is one. -/
def Leaves (p : Pattern) (t : Text) (r : Option Text) : Prop :=
  ∀ before, (ends p ⟨before, glyphs t⟩).head?.map Place.rest = r.map glyphs

/-- A set has the characters of some bytes and no other. -/
structure Bytewise (test : Char → Bool) (p : UInt8 → Bool) : Prop where
  ascii : ∀ b : UInt8, b < 0x80 → test (Char.ofNat b.toNat) = p b
  high : ∀ b : UInt8, ¬ b < 0x80 → p b = false
  char : ∀ c : Char, 0x80 ≤ c.toNat → test c = false

section Bytewise

variable {test : Char → Bool} {p : UInt8 → Bool} (h : Bytewise test p)
include h

theorem Bytewise.next_eq (before : Option Char) (b : UInt8) (t : Text) :
    Place.next test ⟨before, glyphs (b :: t)⟩ =
      if p b then [⟨some (Char.ofNat b.toNat), glyphs t⟩] else [] := by
  by_cases hb : b < 0x80
  · rw [Text.glyphs_ascii hb, Place.next, Glyph.toChar, h.ascii b hb]
  · obtain ⟨g, r, hg⟩ := Text.leads_high hb t
    rw [hg.glyphs_eq, Place.next, h.high b hb, h.char _ hg.char]
    rfl

theorem Bytewise.ascii_of_mem {b : UInt8} (hb : p b = true) : b < 0x80 := by
  by_contra hc
  rw [h.high b hc] at hb
  cases hb

end Bytewise

theorem repeated_ne_nil (greedy : Bool) (step : Place → List Place) (n : Nat) (s : Place) :
    repeated greedy step n s ≠ [] := by
  cases n with
  | zero => exact List.cons_ne_nil _ _
  | succ n => cases greedy <;> simp

theorem optional_ne_nil (p : Pattern) (s : Place) : ends (.rep .optional true p) s ≠ [] := by
  simp

section Parts

variable {p q : Pattern} {t u : Text} {r : Option Text}

theorem Leaves.seq_none (h : Leaves p t none) : Leaves (.seq p q) t none := by
  intro before
  have hp : ends p ⟨before, glyphs t⟩ = [] := by simpa using h before
  simp [hp]

/-- Where the second part matches anything, the first takes what it prefers. -/
theorem Leaves.seq_some (h : Leaves p t (some u)) (htotal : ∀ s, ends q s ≠ [])
    (hq : Leaves q u r) : Leaves (.seq p q) t r := by
  intro before
  have hp := h before
  rcases hends : ends p ⟨before, glyphs t⟩ with _ | ⟨⟨before', rest⟩, ss⟩ <;> rw [hends] at hp
  · cases hp
  · obtain rfl : rest = glyphs u := by simpa using hp
    rw [ends, hends, List.flatMap_cons, List.head?_append_of_ne_nil _ (htotal _)]
    exact hq before'

theorem Leaves.group (h : Leaves p t r) : Leaves (.group p) t r := h

theorem Leaves.optional (h : Leaves p t r) :
    Leaves (.rep .optional true p) t (some (r.getD t)) := by
  intro before
  have hp := h before
  simp only [ends, if_pos, List.head?_append]
  rcases hends : ends p ⟨before, glyphs t⟩ with _ | ⟨s, ss⟩ <;> rw [hends] at hp <;>
    rcases r with _ | r
  · rfl
  · cases hp
  · cases hp
  · exact hp

end Parts

section Bytewise

variable {test : Char → Bool} {p : UInt8 → Bool} (h : Bytewise test p) {q : Pattern} {t : Text}
include h

theorem Bytewise.seq {b : UInt8} {r : Option Text} (hq : p b = true → Leaves q t r) :
    Leaves (.seq (.set test) q) (b :: t) (if p b then r else none) := by
  intro before
  rw [ends, ends, h.next_eq]
  by_cases hb : p b = true
  · rw [if_pos hb, if_pos hb, List.flatMap_singleton]
    exact hq hb _
  · rw [if_neg hb, if_neg hb]
    rfl

theorem Bytewise.optional_seq {b : UInt8} {r r' : Option Text} (hq : Leaves q t r)
    (hq' : Leaves q (b :: t) r') :
    Leaves (.seq (.rep .optional true (.set test)) q) (b :: t) (if p b then r.or r' else r') := by
  intro before
  simp only [ends, if_pos, h.next_eq, List.flatMap_append, List.head?_append,
    List.flatMap_singleton, Option.map_or, hq' before]
  by_cases hb : p b = true
  · rw [if_pos hb, if_pos hb, List.flatMap_singleton, hq, Option.map_or]
  · rw [if_neg hb, if_neg hb]
    rfl

/-- As many characters of a set as there are. -/
theorem Bytewise.repeated_leaves : ∀ (t : Text) (n : Nat) (before : Option Char),
    (glyphs t).length ≤ n →
      (repeated true (ends (.set test)) n ⟨before, glyphs t⟩).head?.map Place.rest =
        some (glyphs (t.dropWhile p))
  | [], 0, _, _ => rfl
  | [], _ + 1, _, _ => rfl
  | b :: t, 0, _, hn => absurd (List.length_eq_zero_iff.1 (Nat.le_zero.1 hn))
      (Text.glyphs_cons_ne_nil b t)
  | b :: t, n + 1, before, hn => by
    simp only [repeated, ends, if_pos, h.next_eq]
    by_cases hb : p b = true
    · have hg := Text.glyphs_ascii (h.ascii_of_mem hb) t
      rw [hg, List.length_cons] at hn
      have ih := repeated_leaves t n (some (Char.ofNat b.toNat)) (by omega)
      have hshorter : (glyphs t).length < (glyphs (b :: t)).length := by
        rw [hg, List.length_cons]
        omega
      rw [if_pos hb, List.dropWhile_cons_of_pos hb, ← ih]
      simp only [hshorter, decide_true, List.filter_cons_of_pos, List.filter_nil,
        List.flatMap_cons, List.flatMap_nil, List.append_nil]
      rw [List.head?_append_of_ne_nil _ (repeated_ne_nil _ _ _ _)]
      rfl
    · rw [if_neg hb, List.dropWhile_cons_of_neg hb]
      rfl

theorem Bytewise.star (t : Text) :
    Leaves (.rep .star true (.set test)) t (some (t.dropWhile p)) :=
  fun before => h.repeated_leaves t _ before (Nat.le_refl _)

theorem Bytewise.plus : ∀ t : Text, Leaves (.rep .plus true (.set test)) t
    (if 0 < (t.takeWhile p).length then some (t.dropWhile p) else none)
  | [] => fun _ => rfl
  | b :: t => by
    intro before
    rw [ends, ends, h.next_eq]
    by_cases hb : p b = true
    · rw [if_pos hb, List.flatMap_singleton, h.repeated_leaves t _ _ (Nat.le_refl _),
        List.takeWhile_cons_of_pos hb, List.dropWhile_cons_of_pos hb, if_pos (by simp)]
      rfl
    · rw [if_neg hb, List.takeWhile_cons_of_neg hb, if_neg (by simp)]
      rfl

end Bytewise

/-- The pattern `[0-9]+`. -/
def digits : Pattern := .rep .plus true (.set (rangeTest 0x30 0x39))

/-- The pattern `(\.[0-9]+)?`. -/
def fraction : Pattern := .rep .optional true (.group (.seq (.set (rangeTest 0x2E 0x2E)) digits))

/-- The pattern `[+-]?[0-9]+(\.[0-9]+)?`. -/
def numeral : Pattern :=
  .seq (.rep .optional true (.set fun c => rangeTest 0x2B 0x2B c || rangeTest 0x2D 0x2D c))
    (.seq digits fraction)

theorem read_numeral : Pattern.read ("[+-]?[0-9]+(\\.[0-9]+)?" : Text) = .ok numeral := by
  set_option maxRecDepth 8000 in
  cbv

open Lexeme

theorem bytewise_range (lo : Nat) {hi : Nat} (h : hi < 0x80) :
    Bytewise (rangeTest lo hi) fun b => lo ≤ b.toNat && b.toNat ≤ hi where
  ascii b hb := by rw [rangeTest, Text.toNat_ascii hb]
  high b hb := by
    rw [UInt8.lt_iff_toNat_lt] at hb
    have hb' : ¬ b.toNat < 128 := hb
    simp only [Bool.and_eq_false_iff, decide_eq_false_iff_not]
    omega
  char c hc := by
    simp only [rangeTest, Bool.and_eq_false_iff, decide_eq_false_iff_not]
    omega

theorem Bytewise.or {test test' : Char → Bool} {p p' : UInt8 → Bool} (h : Bytewise test p)
    (h' : Bytewise test' p') : Bytewise (fun c => test c || test' c) fun b => p b || p' b where
  ascii b hb := by rw [h.ascii b hb, h'.ascii b hb]
  high b hb := by rw [h.high b hb, h'.high b hb, Bool.or_false]
  char c hc := by rw [h.char c hc, h'.char c hc, Bool.or_false]

theorem Bytewise.congr {test : Char → Bool} {p p' : UInt8 → Bool} (h : Bytewise test p)
    (hp : ∀ b, p b = true ↔ p' b = true) : Bytewise test p' := by
  obtain rfl : p = p' := funext fun b => Bool.eq_iff_iff.2 (hp b)
  exact h

theorem bytewise_digit : Bytewise (rangeTest 0x30 0x39) Text.isDigit :=
  (bytewise_range 0x30 (by decide)).congr fun b => by simp [isDigit_iff]

theorem bytewise_byte {b : UInt8} (h : b < 0x80) :
    Bytewise (rangeTest b.toNat b.toNat) (· == b) :=
  (bytewise_range b.toNat (UInt8.lt_iff_toNat_lt.1 h)).congr fun c => by
    simp only [Bool.and_eq_true, decide_eq_true_eq, beq_iff_eq, ← UInt8.toNat_inj]
    omega

theorem bytewise_point : Bytewise (rangeTest 0x2E 0x2E) (· == '.'.toUInt8) :=
  bytewise_byte (b := '.'.toUInt8) (by decide)

theorem bytewise_sign : Bytewise (fun c => rangeTest 0x2B 0x2B c || rangeTest 0x2D 0x2D c)
    fun b => b == '+'.toUInt8 || b == '-'.toUInt8 :=
  (bytewise_byte (b := '+'.toUInt8) (by decide)).or (bytewise_byte (b := '-'.toUInt8) (by decide))

theorem digits_leaves (t : Text) :
    Leaves digits t (if 0 < digitCount t then some (t.drop (digitCount t)) else none) := by
  have h := bytewise_digit.plus t
  rwa [← drop_length_takeWhile] at h

theorem fraction_leaves : ∀ t : Text, Leaves fraction t (some (t.drop (fractionLength t)))
  | [] => fun _ => rfl
  | b :: t => by
    have h := (bytewise_point.seq (b := b) fun _ => digits_leaves t).group.optional
    have hdrop : ((if (b == '.'.toUInt8) = true then
        if 0 < digitCount t then some (t.drop (digitCount t)) else none else none).getD (b :: t)) =
          (b :: t).drop (fractionLength (b :: t)) := by
      simp only [fractionLength, beq_iff_eq]
      split_ifs <;> simp_all [Nat.add_comm 1]
    rwa [hdrop] at h

theorem numeral_leaves : ∀ t : Text, Leaves numeral t ((numLength? t).map fun n => t.drop n)
  | [] => fun _ => rfl
  | b :: t => by
    have htail : ∀ u : Text, Leaves (.seq digits fraction) u (if 0 < digitCount u then
        some (u.drop (digitCount u + fractionLength (u.drop (digitCount u)))) else none) := by
      intro u
      have hd := digits_leaves u
      split_ifs at hd ⊢
      · rw [← List.drop_drop]
        exact hd.seq_some (optional_ne_nil _) (fraction_leaves _)
      · exact hd.seq_none
    have h := bytewise_sign.optional_seq (htail t) (htail (b :: t))
    simp only [Bool.or_eq_true, beq_iff_eq] at h
    by_cases hb : b = '+'.toUInt8 ∨ b = '-'.toUInt8
    · have hdigit : Text.isDigit b = false := by rcases hb with rfl | rfl <;> rfl
      have hnone : ¬ 0 < digitCount (b :: t) := by simp [digitCount, hdigit]
      have hsign : signLength (b :: t) = 1 := if_pos hb
      rw [if_pos hb, if_neg hnone, Option.or_none] at h
      simp only [numLength?, hsign, List.drop_succ_cons, List.drop_zero]
      split_ifs at h ⊢
      · rw [Option.map_some, Nat.add_comm 1, Nat.add_right_comm, List.drop_succ_cons,
          List.drop_succ_cons]
        exact h
      · exact h
    · have hsign : signLength (b :: t) = 0 := if_neg hb
      rw [if_neg hb] at h
      simp only [numLength?, hsign, List.drop_zero, Nat.zero_add]
      split_ifs at h ⊢ <;> exact h

/-- The pattern `[a-zA-Z_][a-zA-Z0-9_]*`. -/
def identifier : Pattern :=
  .seq (.set fun c => rangeTest 0x61 0x7A c || rangeTest 0x41 0x5A c || rangeTest 0x5F 0x5F c)
    (.rep .star true (.set fun c =>
      rangeTest 0x61 0x7A c || rangeTest 0x41 0x5A c || rangeTest 0x30 0x39 c ||
        rangeTest 0x5F 0x5F c))

theorem read_identifier : Pattern.read ("[a-zA-Z_][a-zA-Z0-9_]*" : Text) = .ok identifier := by
  set_option maxRecDepth 8000 in
  cbv

theorem bytewise_startsName : Bytewise (fun c =>
    rangeTest 0x61 0x7A c || rangeTest 0x41 0x5A c || rangeTest 0x5F 0x5F c) startsName :=
  (((bytewise_range 0x61 (by decide)).or (bytewise_range 0x41 (by decide))).or
    (bytewise_range 0x5F (by decide))).congr fun b => by
      simp only [startsName_iff, Bool.or_eq_true, Bool.and_eq_true, decide_eq_true_eq]
      omega

theorem bytewise_isNameByte : Bytewise (fun c =>
    rangeTest 0x61 0x7A c || rangeTest 0x41 0x5A c || rangeTest 0x30 0x39 c ||
      rangeTest 0x5F 0x5F c) isNameByte :=
  ((((bytewise_range 0x61 (by decide)).or (bytewise_range 0x41 (by decide))).or
    (bytewise_range 0x30 (by decide))).or (bytewise_range 0x5F (by decide))).congr fun b => by
      simp only [isNameByte, isDigit_iff, startsName_iff, Bool.or_eq_true, Bool.and_eq_true,
        decide_eq_true_eq]
      omega

theorem identifier_leaves : ∀ t : Text,
    Leaves identifier t ((nameLength? t).map fun n => t.drop n)
  | [] => fun _ => rfl
  | b :: t => by
    have h := bytewise_startsName.seq (b := b) fun _ => bytewise_isNameByte.star t
    rw [← drop_length_takeWhile] at h
    simp only [nameLength?]
    split_ifs at h ⊢
    · rw [Option.map_some, Nat.add_comm, List.drop_succ_cons]
      exact h
    · exact h

/-- The pattern `\\"|[^"]`. -/
def inside : Pattern :=
  .either (.seq (.set (rangeTest 0x5C 0x5C)) (.set (rangeTest 0x22 0x22)))
    (.set fun c => !rangeTest 0x22 0x22 c)

/-- The pattern `"(?:\\"|[^"])*"`. -/
def quotation : Pattern :=
  .seq (.set (rangeTest 0x22 0x22)) (.seq (.rep .star true inside) (.set (rangeTest 0x22 0x22)))

theorem read_quotation : Pattern.read ("\"(?:\\\\\"|[^\"])*\"" : Text) = .ok quotation := by
  set_option maxRecDepth 8000 in
  cbv

/-- What is left behind the quote that ends a string, of a text in front of which it starts. -/
def closed? (t : Text) : Option Text :=
  ((plainQuote? false t).or (lastQuote? t)).map fun i => t.drop (i + 1)

theorem map_drop_strLength? (b : UInt8) (t : Text) :
    ((strLength? (b :: t)).map fun n => (b :: t).drop n) =
      if b == quote then closed? t else none := by
  simp only [strLength?, closed?, beq_iff_eq]
  split_ifs
  · rw [Option.map_map]
    rfl
  · rfl

theorem closed?_quote (t : Text) : closed? (quote :: t) = some t := rfl

/-- An escaped quote belongs to the inside, unless no other quote follows. -/
theorem closed?_escaped (t : Text) :
    closed? (backslash :: quote :: t) = some ((closed? t).getD t) := by
  have hplain : plainQuote? false (backslash :: quote :: t) =
      ((plainQuote? false t).map (· + 1)).map (· + 1) := rfl
  rw [closed?, hplain]
  rcases hp : plainQuote? false t with _ | i
  · rcases hl : lastQuote? t with _ | i <;> simp [closed?, lastQuote?, hp, hl]
  · simp [closed?, hp]

theorem closed?_cons {b : UInt8} {t : Text} (hb : b ≠ quote)
    (ht : b = backslash → t.head? ≠ some quote) : closed? (b :: t) = closed? t := by
  have hplain : plainQuote? (b == backslash) t = plainQuote? false t := by
    rcases t with _ | ⟨d, t⟩
    · rfl
    · by_cases hd : d = quote
      · rw [beq_false_of_ne fun h => ht h (congrArg some hd)]
      · simp [plainQuote?, hd]
  have hlast : lastQuote? (b :: t) = (lastQuote? t).map (· + 1) := by
    rcases hl : lastQuote? t with _ | i <;> simp [lastQuote?, hl, hb]
  have hcons : plainQuote? false (b :: t) = (plainQuote? false t).map (· + 1) := by
    rw [plainQuote?, if_neg fun h => hb h.1, hplain]
  rw [closed?, hcons, hlast, ← Option.map_or, Option.map_map]
  rfl

theorem closed?_high {t r : Text} {g : Glyph} (h : Text.Leads t g r) : closed? t = closed? r := by
  obtain ⟨-, rfl, -, hhigh, -⟩ := h
  generalize g.bytes = bs at hhigh
  induction bs with
  | nil => rfl
  | cons b bs ih =>
    have hb := hhigh b List.mem_cons_self
    rw [List.cons_append, closed?_cons, ih fun d hd => hhigh d (List.mem_cons_of_mem b hd)]
    · rintro rfl
      exact absurd hb (by decide)
    · rintro rfl
      exact absurd hb (by decide)

theorem bytewise_quote : Bytewise (rangeTest 0x22 0x22) (· == quote) :=
  bytewise_byte (b := quote) (by decide)

theorem bytewise_backslash : Bytewise (rangeTest 0x5C 0x5C) (· == backslash) :=
  bytewise_byte (b := backslash) (by decide)

theorem ends_inside (s : Place) : ends inside s =
    ((s.next (rangeTest 0x5C 0x5C)).flatMap fun u => u.next (rangeTest 0x22 0x22)) ++
      s.next fun c => !rangeTest 0x22 0x22 c := rfl

theorem next_not_quote {b : UInt8} (hb : b < 0x80) (before : Option Char) (t : Text) :
    Place.next (fun c => !rangeTest 0x22 0x22 c) ⟨before, glyphs (b :: t)⟩ =
      if b = quote then [] else [⟨some (Char.ofNat b.toNat), glyphs t⟩] := by
  rw [Text.glyphs_ascii hb, Place.next, Glyph.toChar, bytewise_quote.ascii b hb]
  by_cases hq : b = quote <;> simp [hq]

theorem ends_inside_quote (before : Option Char) (t : Text) :
    ends inside ⟨before, glyphs (quote :: t)⟩ = [] := by
  have hb : ¬ (quote == backslash) = true := by decide
  rw [ends_inside, bytewise_backslash.next_eq, if_neg hb, next_not_quote (by decide), if_pos rfl]
  rfl

theorem ends_inside_escaped (before : Option Char) (t : Text) :
    ends inside ⟨before, glyphs (backslash :: quote :: t)⟩ =
      [⟨some '"', glyphs t⟩, ⟨some '\\', glyphs (quote :: t)⟩] := by
  have hb : backslash ≠ quote := by decide
  rw [ends_inside, bytewise_backslash.next_eq, if_pos (beq_self_eq_true _),
    next_not_quote (by decide), if_neg hb, List.flatMap_singleton, bytewise_quote.next_eq,
    if_pos (beq_self_eq_true _)]
  rfl

theorem ends_inside_ascii {b : UInt8} (hb : b < 0x80) {t : Text} (hquote : b ≠ quote)
    (ht : b = backslash → t.head? ≠ some quote) (before : Option Char) :
    ends inside ⟨before, glyphs (b :: t)⟩ = [⟨some (Char.ofNat b.toNat), glyphs t⟩] := by
  rw [ends_inside, bytewise_backslash.next_eq, next_not_quote hb, if_neg hquote]
  split_ifs with h
  · rcases t with _ | ⟨d, t⟩
    · rfl
    · have hd : ¬ (d == quote) = true := fun hd =>
        ht (beq_iff_eq.1 h) (congrArg some (beq_iff_eq.1 hd))
      rw [List.flatMap_singleton, bytewise_quote.next_eq, if_neg hd, List.nil_append]
  · rfl

theorem ends_inside_high {t r : Text} {g : Glyph} (h : Text.Leads t g r) (before : Option Char) :
    ends inside ⟨before, glyphs t⟩ = [⟨some g.toChar, glyphs r⟩] := by
  rw [ends_inside, h.glyphs_eq, Place.next, Place.next, bytewise_backslash.char _ h.char,
    bytewise_quote.char _ h.char]
  rfl

/-- What is left behind the closing quote, if the inside in front of it takes at most `n` steps. -/
def closing (n : Nat) (s : Place) : Option (List Glyph) :=
  ((repeated true (ends inside) n s).flatMap
    (ends (.set (rangeTest 0x22 0x22)))).head?.map Place.rest

/-- A step further on is preferred, and the quote closes only where no step leads to one. -/
theorem closing_succ (n : Nat) (s : Place) : closing (n + 1) s =
    (((ends inside s).filter fun u => u.rest.length < s.rest.length).findSome? (closing n)).or
      ((s.next (rangeTest 0x22 0x22)).head?.map Place.rest) := by
  simp only [closing, repeated, if_pos, List.flatMap_append, List.head?_append,
    List.flatMap_singleton, Option.map_or, List.flatMap_assoc, List.head?_flatMap]
  rw [List.map_findSome?]
  simp only [Function.comp_def, ← List.head?_flatMap]
  rfl

/-- The pattern of strings goes on to the quote that closes one. A quote that is escaped belongs to
the inside, unless no other follows. -/
theorem closing_eq : ∀ (n : Nat) (t : Text) (before : Option Char), (glyphs t).length ≤ n →
    closing n ⟨before, glyphs t⟩ = (closed? t).map glyphs
  | 0, [], _, _ => rfl
  | _ + 1, [], _, _ => rfl
  | 0, b :: t, _, hn => absurd (List.length_eq_zero_iff.1 (Nat.le_zero.1 hn))
      (Text.glyphs_cons_ne_nil b t)
  | n + 1, b :: t, before, hn => by
    rw [closing_succ]
    by_cases hb : b < 0x80
    · have hlen : (glyphs (b :: t)).length = (glyphs t).length + 1 := by
        rw [Text.glyphs_ascii hb, List.length_cons]
      have ih := fun before => closing_eq n t before (by omega)
      rw [bytewise_quote.next_eq]
      by_cases hquote : b = quote
      · subst hquote
        rw [ends_inside_quote, closed?_quote]
        rfl
      · rw [if_neg (by simpa using hquote)]
        by_cases ht : b = backslash → t.head? ≠ some quote
        · rw [ends_inside_ascii hb hquote ht, closed?_cons hquote ht]
          simp [hlen, ih]
        · obtain ⟨rfl, t, rfl⟩ : b = backslash ∧ ∃ u, t = quote :: u := by
            simpa [List.head?_eq_some_iff] using ht
          have hlen' : (glyphs (quote :: t)).length = (glyphs t).length + 1 := by
            rw [Text.glyphs_ascii (by decide), List.length_cons]
          have ih' := fun before => closing_eq n t before (by omega)
          have hshort : (glyphs t).length < (glyphs (backslash :: quote :: t)).length := by omega
          rw [ends_inside_escaped, closed?_escaped,
            List.filter_cons_of_pos (by simpa only [decide_eq_true_eq] using hshort),
            List.filter_cons_of_pos (by simp [hlen])]
          simp only [List.findSome?_cons, ih, ih', closed?_quote]
          rcases closed? t with _ | u <;> rfl
    · obtain ⟨g, r, h⟩ := Text.leads_high hb t
      have hlen : (glyphs (b :: t)).length = (glyphs r).length + 1 := by
        rw [h.glyphs_eq, List.length_cons]
      have ih := fun before => closing_eq n r before (by omega)
      rw [ends_inside_high h, closed?_high h, bytewise_quote.next_eq,
        if_neg (by simp [bytewise_quote.high b hb])]
      simp [hlen, ih]

/-- The pattern of strings takes what a string takes. -/
theorem quotation_leaves : ∀ t : Text,
    Leaves quotation t ((strLength? t).map fun n => t.drop n)
  | [] => fun _ => rfl
  | b :: t => by
    have h := bytewise_quote.seq (b := b) (t := t)
      (q := .seq (.rep .star true inside) (.set (rangeTest 0x22 0x22))) fun _ before =>
        closing_eq _ t before (Nat.le_refl _)
    rwa [← map_drop_strLength?] at h

end Pattern

/-! ## Lexemes -/

namespace TokenKind

open Pattern

/-- What a pattern prefers is as long as what it takes first. -/
theorem preferred?_eq {p : Pattern} {t : Text} {n? : Option Nat}
    (hp : ends p.unrolled = ends p) (h : Leaves p t (n?.map fun n => t.drop n))
    (hn : ∀ n ∈ n?, n ≤ t.length) : p.preferred? t = n? := by
  have hsplit : p.preferred? t = ((ends p ⟨none, glyphs t⟩).head?.map Place.rest).map fun r =>
      t.length - (Text.ofGlyphs r).length := by
    rw [Pattern.preferred?, hp, Option.map_map]
    rfl
  rw [hsplit, h none]
  rcases n? with _ | n
  · rfl
  · have := hn n rfl
    simp only [Option.map_some, Text.ofGlyphs_glyphs, List.length_drop, Option.some.injEq]
    omega

theorem fixedLength?_eq (l t : Text) :
    Lexeme.fixedLength? l t = if l <+: t then some l.length else none := by
  rw [Lexeme.fixedLength?]
  split_ifs with h
  · obtain ⟨u, rfl⟩ := h
    rw [Text.after?_append, Option.map_some]
  · rw [Option.map_eq_none_iff, Option.eq_none_iff_forall_not_mem]
    exact fun u hu => h ⟨u, (Text.eq_append_of_after? hu).symm⟩

/-- The lexeme of a kind is what its pattern prefers. -/
theorem length?_eq_preferred? (k : TokenKind) (t : Text) : k.length? t = k.preferred? t := by
  have hn : ∀ n ∈ k.length? t, n ≤ t.length := fun n => le_length_of_length?
  cases k with
  | num =>
    rw [preferred?, written?]
    simp only [read_numeral]
    exact (preferred?_eq rfl (numeral_leaves t) hn).symm
  | str =>
    rw [preferred?, written?]
    simp only [read_quotation]
    exact (preferred?_eq rfl (quotation_leaves t) hn).symm
  | ident =>
    rw [preferred?, written?]
    simp only [read_identifier]
    exact (preferred?_eq rfl (identifier_leaves t) hn).symm
  | _ => exact fixedLength?_eq _ t

end TokenKind
end Tacit
