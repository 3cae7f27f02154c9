import Mathlib.Tactic.SplitIfs
import Tacit.Text.Utf8

/-!
# The glyphs of a text

What follows the first glyph of a text is read on its own. A byte below 128 is a character by itself
(`glyphs_ascii`), and any other glyph has neither a byte nor a character below 128 (`leads_high`).
So the bytes of the glyphs are the text (`ofGlyphs_glyphs`), and in front of a byte below 128 a text
may be parted (`glyphs_append_ascii`).
-/

namespace Tacit.Text

theorem tail?_eq_some {b : UInt8} {m : Nat} (h : tail? b = some m) :
    0x80 ≤ b.toNat ∧ b.toNat < 0xC0 ∧ m = b.toNat % 0x40 := by
  unfold tail? at h
  split_ifs at h with hb
  simp only [Bool.and_eq_true, decide_eq_true_eq, UInt8.le_iff_toNat_le, UInt8.lt_iff_toNat_lt]
    at hb
  exact ⟨hb.1, hb.2, (Option.some.inj h).symm⟩

theorem scalar?_eq_some {least n : Nat} {c : Char} (h : scalar? least n = some c) :
    least ≤ n ∧ c.toNat = n := by
  unfold scalar? at h
  by_cases hl : least ≤ n
  · by_cases hn : n.isValidChar
    · rw [if_pos hl, dif_pos hn] at h
      cases h
      exact ⟨hl, rfl⟩
    · rw [if_pos hl, dif_neg hn] at h
      cases h
  · rw [if_neg hl] at h
    cases h

theorem toUInt8_eq {n : Nat} {b : UInt8} (h : n = b.toNat) : n.toUInt8 = b := by
  rw [h]
  exact UInt8.ofNat_toNat

/-- Bytes that none of which is a character by itself, and a character that is none by itself
either. -/
structure High (c : Char) (bs : Text) : Prop where
  bytes : ofChar c = bs
  high : ∀ b ∈ bs, 0x80 ≤ b.toNat
  char : 0x80 ≤ c.toNat

theorem high_two {a b : UInt8} {c : Char} (h : two? a b = some c) : High c [a, b] := by
  unfold two? at h
  split_ifs at h with ha
  obtain ⟨m, hm, hc⟩ := Option.bind_eq_some_iff.1 h
  obtain ⟨hb, hb', rfl⟩ := tail?_eq_some hm
  obtain ⟨hl, hn⟩ := scalar?_eq_some hc
  simp only [Bool.and_eq_true, decide_eq_true_eq, UInt8.le_iff_toNat_le, UInt8.lt_iff_toNat_lt,
    UInt8.reduceToNat] at ha
  refine ⟨?_, by simp; omega, by omega⟩
  simp only [ofChar, hn]
  rw [if_neg (by omega), if_pos (by omega), toUInt8_eq (b := a) (by omega),
    toUInt8_eq (b := b) (by omega)]

theorem high_three {a b d : UInt8} {c : Char} (h : three? a b d = some c) : High c [a, b, d] := by
  unfold three? at h
  split_ifs at h with ha
  obtain ⟨m, hm, h⟩ := Option.bind_eq_some_iff.1 h
  obtain ⟨k, hk, hc⟩ := Option.bind_eq_some_iff.1 h
  obtain ⟨hb, hb', rfl⟩ := tail?_eq_some hm
  obtain ⟨hd, hd', rfl⟩ := tail?_eq_some hk
  obtain ⟨hl, hn⟩ := scalar?_eq_some hc
  simp only [Bool.and_eq_true, decide_eq_true_eq, UInt8.le_iff_toNat_le, UInt8.lt_iff_toNat_lt,
    UInt8.reduceToNat] at ha
  refine ⟨?_, by simp; omega, by omega⟩
  simp only [ofChar, hn]
  rw [if_neg (by omega), if_neg (by omega), if_pos (by omega), toUInt8_eq (b := a) (by omega),
    toUInt8_eq (b := b) (by omega), toUInt8_eq (b := d) (by omega)]

/-- Four bytes that are read as a character spell it. -/
theorem high_four {a b d e : UInt8} {c : Char} (h : four? a b d e = some c) :
    High c [a, b, d, e] := by
  unfold four? at h
  split_ifs at h with ha
  obtain ⟨m, hm, h⟩ := Option.bind_eq_some_iff.1 h
  obtain ⟨k, hk, h⟩ := Option.bind_eq_some_iff.1 h
  obtain ⟨j, hj, hc⟩ := Option.bind_eq_some_iff.1 h
  obtain ⟨hb, hb', rfl⟩ := tail?_eq_some hm
  obtain ⟨hd, hd', rfl⟩ := tail?_eq_some hk
  obtain ⟨he, he', rfl⟩ := tail?_eq_some hj
  obtain ⟨hl, hn⟩ := scalar?_eq_some hc
  simp only [Bool.and_eq_true, decide_eq_true_eq, UInt8.le_iff_toNat_le, UInt8.lt_iff_toNat_lt,
    UInt8.reduceToNat] at ha
  refine ⟨?_, by simp; omega, by omega⟩
  simp only [ofChar, hn]
  rw [if_neg (by omega), if_neg (by omega), if_neg (by omega), toUInt8_eq (b := a) (by omega),
    toUInt8_eq (b := b) (by omega), toUInt8_eq (b := d) (by omega), toUInt8_eq (b := e) (by omega)]

theorem glyphs_ascii {b : UInt8} (h : b < 0x80) (rest : Text) :
    glyphs (b :: rest) = .char (Char.ofNat b.toNat) :: glyphs rest := by
  rw [glyphs.eq_def]
  simp only [if_pos h]

theorem toNat_ascii {b : UInt8} (h : b < 0x80) : (Char.ofNat b.toNat).toNat = b.toNat := by
  have hb : b.toNat < 128 := UInt8.lt_iff_toNat_lt.1 h
  have hvalid : b.toNat.isValidChar := .inl (by omega)
  rw [Char.ofNat, dif_pos hvalid]
  rfl

theorem ofChar_ascii {b : UInt8} (h : b < 0x80) : ofChar (Char.ofNat b.toNat) = [b] := by
  have hb : b.toNat < 128 := UInt8.lt_iff_toNat_lt.1 h
  simp only [ofChar, toNat_ascii h]
  rw [if_pos hb, toUInt8_eq rfl]

/-- A text starts with a glyph that is no character of one byte. -/
structure Leads (t : Text) (g : Glyph) (r : Text) : Prop where
  glyphs_eq : glyphs t = g :: glyphs r
  split : t = g.bytes ++ r
  nonempty : g.bytes ≠ []
  high : ∀ b ∈ g.bytes, 0x80 ≤ b.toNat
  char : 0x80 ≤ g.toChar.toNat

theorem Leads.length_lt {t r : Text} {g : Glyph} (h : Leads t g r) : r.length < t.length := by
  have := List.length_pos_iff.2 h.nonempty
  rw [h.split, List.length_append]
  omega

theorem leads_high {b : UInt8} (h : ¬ b < 0x80) (rest : Text) : ∃ g r, Leads (b :: rest) g r := by
  have hstray : glyphs (b :: rest) = .stray b :: glyphs rest →
      ∃ g r, Leads (b :: rest) g r := by
    intro hg
    refine ⟨.stray b, rest, hg, rfl, List.cons_ne_nil _ _, ?_, ?_⟩
    · simpa [Glyph.bytes, UInt8.le_iff_toNat_le] using h
    · show 0x80 ≤ Glyph.replacement.toNat
      decide
  have hchar : ∀ (c : Char) (bs r : Text), High c bs → bs ≠ [] → b :: rest = bs ++ r →
      glyphs (b :: rest) = .char c :: glyphs r → ∃ g r, Leads (b :: rest) g r := by
    rintro c bs r ⟨rfl, hhigh, hc⟩ hne hsplit hg
    exact ⟨.char c, r, hg, hsplit, hne, hhigh, hc⟩
  rcases rest with _ | ⟨d, rest⟩
  · exact hstray (by rw [glyphs.eq_def]; simp only [if_neg h]; rfl)
  rcases h₂ : two? b d with _ | c
  · rcases rest with _ | ⟨e, rest⟩
    · exact hstray (by rw [glyphs.eq_def]; simp only [if_neg h, h₂])
    rcases h₃ : three? b d e with _ | c
    · rcases rest with _ | ⟨f, rest⟩
      · exact hstray (by rw [glyphs.eq_def]; simp only [if_neg h, h₂, h₃])
      rcases h₄ : four? b d e f with _ | c
      · exact hstray (by rw [glyphs.eq_def]; simp only [if_neg h, h₂, h₃, h₄])
      · refine hchar c _ rest (high_four h₄) (List.cons_ne_nil _ _) rfl ?_
        rw [glyphs.eq_def]
        simp only [if_neg h, h₂, h₃, h₄]
    · refine hchar c _ rest (high_three h₃) (List.cons_ne_nil _ _) rfl ?_
      rw [glyphs.eq_def]
      simp only [if_neg h, h₂, h₃]
  · refine hchar c _ rest (high_two h₂) (List.cons_ne_nil _ _) rfl ?_
    rw [glyphs.eq_def]
    simp only [if_neg h, h₂]

theorem glyphs_cons_ne_nil (b : UInt8) (t : Text) : glyphs (b :: t) ≠ [] := by
  by_cases hb : b < 0x80
  · rw [glyphs_ascii hb]
    exact List.cons_ne_nil _ _
  · obtain ⟨g, r, h⟩ := leads_high hb t
    rw [h.glyphs_eq]
    exact List.cons_ne_nil _ _

/-- No byte of a text is lost when it is read as glyphs. -/
theorem ofGlyphs_glyphs (t : Text) : ofGlyphs (glyphs t) = t := by
  rcases t with _ | ⟨b, rest⟩
  · rfl
  · by_cases hb : b < 0x80
    · have hrest := ofGlyphs_glyphs rest
      rw [ofGlyphs] at hrest
      rw [glyphs_ascii hb, ofGlyphs, List.flatMap_cons, Glyph.bytes, ofChar_ascii hb, hrest,
        List.singleton_append]
    · obtain ⟨g, r, h⟩ := leads_high hb rest
      have hrest := ofGlyphs_glyphs r
      rw [ofGlyphs] at hrest
      rw [h.glyphs_eq, ofGlyphs, List.flatMap_cons, hrest, ← h.split]
termination_by t.length
decreasing_by
  · exact Nat.lt_succ_self _
  · exact h.length_lt

theorem length_bytes_pos (g : Glyph) : 0 < g.bytes.length := by
  cases g with
  | stray b => exact Nat.one_pos
  | char c =>
    show 0 < (ofChar c).length
    unfold ofChar
    dsimp only
    split_ifs <;> simp

/-- There are as many bytes as glyphs at least. -/
theorem length_le_ofGlyphs : ∀ gs : List Glyph, gs.length ≤ (ofGlyphs gs).length
  | [] => Nat.le_refl _
  | g :: gs => by
    have ih := length_le_ofGlyphs gs
    have hg := length_bytes_pos g
    rw [ofGlyphs, List.flatMap_cons, List.length_append, List.length_cons]
    rw [ofGlyphs] at ih
    omega

/-- There are as many bytes as glyphs exactly if each glyph is of one byte. -/
theorem length_ofGlyphs_eq_iff : ∀ gs : List Glyph,
    (ofGlyphs gs).length = gs.length ↔ ∀ g ∈ gs, g.bytes.length = 1
  | [] => by simp [ofGlyphs]
  | g :: gs => by
    have ih := length_ofGlyphs_eq_iff gs
    have hg := length_bytes_pos g
    have hgs := length_le_ofGlyphs gs
    rw [ofGlyphs] at ih hgs
    rw [ofGlyphs, List.flatMap_cons, List.length_append, List.length_cons, List.forall_mem_cons,
      ← ih]
    omega

/-- A glyph is a character of one byte, or all its bytes are from 128 on. -/
theorem ascii_or_high : ∀ (t : Text) {g : Glyph}, g ∈ glyphs t →
    (∃ b : UInt8, g = .char (Char.ofNat b.toNat) ∧ g.bytes = [b]) ∨
      ∀ b ∈ g.bytes, 0x80 ≤ b.toNat
  | [], _, hg => absurd hg List.not_mem_nil
  | b :: rest, g, hg => by
    by_cases hb : b < 0x80
    · rw [glyphs_ascii hb] at hg
      rcases List.mem_cons.1 hg with rfl | hg
      · exact .inl ⟨b, rfl, ofChar_ascii hb⟩
      · exact ascii_or_high rest hg
    · obtain ⟨g', r, h⟩ := leads_high hb rest
      rw [h.glyphs_eq] at hg
      rcases List.mem_cons.1 hg with rfl | hg
      · exact .inr h.high
      · exact ascii_or_high r hg
termination_by t => t.length
decreasing_by
  · exact Nat.lt_succ_self _
  · exact h.length_lt

/-- The character of several bytes that starts with a byte, and what is behind it. -/
def multi? (a : UInt8) : Text → Option (Char × Text)
  | [] => none
  | b :: t =>
    match two? a b, t with
    | some x, _ => some (x, t)
    | none, [] => none
    | none, c :: t =>
      match three? a b c, t with
      | some x, _ => some (x, t)
      | none, [] => none
      | none, d :: t => (four? a b c d).map (·, t)

theorem glyphs_high {a : UInt8} (h : ¬ a < 0x80) (t : Text) : glyphs (a :: t) =
    (multi? a t).elim (.stray a :: glyphs t) fun r => .char r.1 :: glyphs r.2 := by
  rw [glyphs.eq_def]
  simp only [if_neg h]
  rcases t with _ | ⟨b, t⟩
  · rfl
  rcases h₂ : two? a b with _ | x
  · rcases t with _ | ⟨c, t⟩
    · simp [multi?, h₂]
    rcases h₃ : three? a b c with _ | x
    · rcases t with _ | ⟨d, t⟩
      · simp [multi?, h₂, h₃]
      rcases h₄ : four? a b c d with _ | x <;> simp [multi?, h₂, h₃, h₄]
    · simp [multi?, h₂, h₃]
  · simp [multi?, h₂]

theorem length_multi? {a : UInt8} {t : Text} {r : Char × Text} (h : multi? a t = some r) :
    r.2.length < t.length := by
  unfold multi? at h
  split at h
  · cases h
  · split at h
    · cases h
      exact Nat.lt_succ_self _
    · cases h
    · split at h
      · cases h
        simp only [List.length_cons]
        omega
      · cases h
      · obtain ⟨x, -, rfl⟩ := Option.map_eq_some_iff.1 h
        simp only [List.length_cons]
        omega

theorem tail?_ascii {b : UInt8} (h : b < 0x80) : tail? b = none := by
  rcases ht : tail? b with _ | m
  · rfl
  · have := (tail?_eq_some ht).1
    rw [UInt8.lt_iff_toNat_lt] at h
    exact absurd this (Nat.not_le.2 h)

/-- A byte below 128 continues no character. -/
theorem multi?_append_ascii {b : UInt8} (hb : b < 0x80) (a : UInt8) (t u : Text) :
    multi? a (t ++ b :: u) = (multi? a t).map fun r => (r.1, r.2 ++ b :: u) := by
  have htail := tail?_ascii hb
  have htwo : two? a b = none := by simp [two?, htail]
  have hsecond : ∀ c, three? a b c = none := fun c => by simp [three?, htail]
  have hthird : ∀ c, three? a c b = none := fun c => by simp [three?, htail]
  have hfour : ∀ c d, four? a b c d = none ∧ four? a c b d = none ∧ four? a c d b = none :=
    fun c d => by simp [four?, htail]
  rcases t with _ | ⟨c, t⟩
  · rcases u with _ | ⟨x, _ | ⟨y, u⟩⟩ <;> simp [multi?, htwo, hsecond, hfour]
  rcases h₂ : two? a c with _ | x
  · rcases t with _ | ⟨d, t⟩
    · rcases u with _ | ⟨y, u⟩ <;> simp [multi?, h₂, hthird, hfour]
    rcases h₃ : three? a c d with _ | x
    · rcases t with _ | ⟨e, t⟩
      · simp [multi?, h₂, h₃, hfour]
      · simp [multi?, h₂, h₃, Function.comp_def]
    · simp [multi?, h₂, h₃]
  · simp [multi?, h₂]

/-- What is in front of a byte below 128 is read as if nothing came behind it. -/
theorem glyphs_append_ascii {b : UInt8} (hb : b < 0x80) (u : Text) : ∀ t : Text,
    glyphs (t ++ b :: u) = glyphs t ++ glyphs (b :: u)
  | [] => rfl
  | a :: t => by
    have ih := glyphs_append_ascii hb u t
    by_cases ha : a < 0x80
    · rw [List.cons_append, glyphs_ascii ha, glyphs_ascii ha, ih, List.cons_append]
    · rw [List.cons_append, glyphs_high ha, glyphs_high ha, multi?_append_ascii hb]
      rcases hm : multi? a t with _ | r
      · exact congrArg (Glyph.stray a :: ·) ih
      · exact congrArg (Glyph.char r.1 :: ·) (glyphs_append_ascii hb u r.2)
termination_by t => t.length
decreasing_by
  · exact Nat.lt_succ_self _
  · exact Nat.lt_succ_of_lt (length_multi? hm)

end Tacit.Text
