import Tacit.Proofs.Glyphs

/-!
# Characters and the bytes that spell them

The bytes of a character are read as that character, whatever comes behind them, so the text of some
characters is read as just these (`glyphs_ofChars`). A text is valid UTF-8 exactly if it is the text
of its own characters (`validUTF8_iff`).

The first byte of a character continues none, and the others continue it (`Spelt`). So a part of a
text of characters that starts with no continuing byte starts where a character does
(`exists_of_ofChars_eq_append`), and where the bytes of some characters stand in such a text, there
the characters stand (`exists_of_ofChars_infix`).
-/

namespace Tacit.Text

/-- The first byte of a character with the others behind it. -/
structure Spelt (c : Char) (b : UInt8) (bs : Text) : Prop where
  bytes : ofChar c = b :: bs
  lead : tail? b = none
  continuing : ∀ x ∈ bs, tail? x ≠ none
  read : ∀ t, glyphs (b :: bs ++ t) = .char c :: glyphs t

theorem toNat_toUInt8 {n : Nat} (h : n < 256) : n.toUInt8.toNat = n :=
  Nat.mod_eq_of_lt h

theorem tail?_toUInt8 {n : Nat} (h : n < 0x40) : tail? (0x80 + n).toUInt8 = some n := by
  have hn := toNat_toUInt8 (n := 0x80 + n) (by omega)
  simp only [tail?, UInt8.le_iff_toNat_le, UInt8.lt_iff_toNat_lt, hn, UInt8.reduceToNat]
  rw [if_pos (by simp; omega)]
  exact congrArg some (by omega)

theorem tail?_eq_none_of_le {a : UInt8} (h : 0xC0 ≤ a.toNat) : tail? a = none := by
  rcases ht : tail? a with _ | m
  · rfl
  · have := (tail?_eq_some ht).2.1
    omega

theorem scalar?_toNat {least : Nat} {c : Char} (h : least ≤ c.toNat) :
    scalar? least c.toNat = some c := by
  have hvalid : c.toNat.isValidChar := c.valid
  rw [scalar?, if_pos h, dif_pos hvalid]
  rfl

/-- A byte from 192 on and some that continue it are read as the character they are found to be. -/
theorem spelt_of_multi? {c : Char} {a : UInt8} {bs : Text} (hbytes : ofChar c = a :: bs)
    (ha : 0xC0 ≤ a.toNat) (hbs : ∀ x ∈ bs, tail? x ≠ none)
    (hread : ∀ t, multi? a (bs ++ t) = some (c, t)) : Spelt c a bs := by
  refine ⟨hbytes, tail?_eq_none_of_le ha, hbs, fun t => ?_⟩
  have hhigh : ¬ a < 0x80 := by
    simp only [UInt8.lt_iff_toNat_lt, UInt8.reduceToNat]
    omega
  rw [List.cons_append, glyphs_high hhigh, hread]
  rfl

theorem two?_eq_none_of_le {a : UInt8} (h : 0xE0 ≤ a.toNat) (b : UInt8) : two? a b = none := by
  simp only [two?, UInt8.le_iff_toNat_le, UInt8.lt_iff_toNat_lt, UInt8.reduceToNat]
  exact if_neg (by simp; omega)

theorem three?_eq_none_of_le {a : UInt8} (h : 0xF0 ≤ a.toNat) (b d : UInt8) :
    three? a b d = none := by
  simp only [three?, UInt8.le_iff_toNat_le, UInt8.lt_iff_toNat_lt, UInt8.reduceToNat]
  exact if_neg (by simp; omega)

theorem two?_eq_some {a b : UInt8} {m : Nat} {c : Char} (ha : a.toNat = 0xC0 + c.toNat / 0x40)
    (hb : tail? b = some m) (hm : m = c.toNat % 0x40) (h : 0x80 ≤ c.toNat)
    (h' : c.toNat < 0x800) : two? a b = some c := by
  simp only [two?, UInt8.le_iff_toNat_le, UInt8.lt_iff_toNat_lt, UInt8.reduceToNat, hb]
  rw [if_pos (by simp; omega)]
  show scalar? 0x80 (a.toNat % 0x20 * 0x40 + m) = some c
  rw [show a.toNat % 0x20 * 0x40 + m = c.toNat by omega]
  exact scalar?_toNat h

theorem three?_eq_some {a b d : UInt8} {m k : Nat} {c : Char}
    (ha : a.toNat = 0xE0 + c.toNat / 0x1000) (hb : tail? b = some m) (hd : tail? d = some k)
    (hm : m = c.toNat / 0x40 % 0x40) (hk : k = c.toNat % 0x40) (h : 0x800 ≤ c.toNat)
    (h' : c.toNat < 0x10000) : three? a b d = some c := by
  simp only [three?, UInt8.le_iff_toNat_le, UInt8.lt_iff_toNat_lt, UInt8.reduceToNat, hb, hd]
  rw [if_pos (by simp; omega)]
  show scalar? 0x800 ((a.toNat % 0x10 * 0x40 + m) * 0x40 + k) = some c
  rw [show (a.toNat % 0x10 * 0x40 + m) * 0x40 + k = c.toNat by omega]
  exact scalar?_toNat h

theorem four?_eq_some {a b d e : UInt8} {m k j : Nat} {c : Char}
    (ha : a.toNat = 0xF0 + c.toNat / 0x40000) (hb : tail? b = some m) (hd : tail? d = some k)
    (he : tail? e = some j) (hm : m = c.toNat / 0x1000 % 0x40) (hk : k = c.toNat / 0x40 % 0x40)
    (hj : j = c.toNat % 0x40) (h : 0x10000 ≤ c.toNat) (h' : c.toNat < 0x110000) :
    four? a b d e = some c := by
  simp only [four?, UInt8.le_iff_toNat_le, UInt8.lt_iff_toNat_lt, UInt8.reduceToNat, hb, hd, he]
  rw [if_pos (by simp; omega)]
  show scalar? 0x10000 (((a.toNat % 0x08 * 0x40 + m) * 0x40 + k) * 0x40 + j) = some c
  rw [show ((a.toNat % 0x08 * 0x40 + m) * 0x40 + k) * 0x40 + j = c.toNat by omega]
  exact scalar?_toNat h

section Lengths

variable {c : Char}

theorem spelt_one (h : c.toNat < 0x80) : ∃ b bs, Spelt c b bs := by
  have hn := toNat_toUInt8 (n := c.toNat) (by omega)
  have hascii : c.toNat.toUInt8 < 0x80 := by
    simp only [UInt8.lt_iff_toNat_lt, hn, UInt8.reduceToNat]
    exact h
  refine ⟨c.toNat.toUInt8, [], ?_, tail?_ascii hascii, by simp, fun t => ?_⟩
  · simp only [ofChar]
    rw [if_pos h]
  · rw [List.singleton_append, glyphs_ascii hascii, hn, Char.ofNat_toNat]

theorem spelt_two (h : 0x80 ≤ c.toNat) (h' : c.toNat < 0x800) : ∃ b bs, Spelt c b bs := by
  obtain ⟨a, ha, han⟩ : ∃ a : UInt8, a = (0xC0 + c.toNat / 0x40).toUInt8 ∧
      a.toNat = 0xC0 + c.toNat / 0x40 := ⟨_, rfl, toNat_toUInt8 (by omega)⟩
  obtain ⟨b, hb, hbt⟩ : ∃ b : UInt8, b = (0x80 + c.toNat % 0x40).toUInt8 ∧
      tail? b = some (c.toNat % 0x40) := ⟨_, rfl, tail?_toUInt8 (by omega)⟩
  have htwo := two?_eq_some han hbt rfl h h'
  refine ⟨a, [b], spelt_of_multi? ?_ (by omega) (by simp [hbt]) fun t => by simp [multi?, htwo]⟩
  simp only [ofChar]
  rw [if_neg (by omega), if_pos h', ha, hb]

theorem spelt_three (h : 0x800 ≤ c.toNat) (h' : c.toNat < 0x10000) : ∃ b bs, Spelt c b bs := by
  obtain ⟨a, ha, han⟩ : ∃ a : UInt8, a = (0xE0 + c.toNat / 0x1000).toUInt8 ∧
      a.toNat = 0xE0 + c.toNat / 0x1000 := ⟨_, rfl, toNat_toUInt8 (by omega)⟩
  obtain ⟨b, hb, hbt⟩ : ∃ b : UInt8, b = (0x80 + c.toNat / 0x40 % 0x40).toUInt8 ∧
      tail? b = some (c.toNat / 0x40 % 0x40) := ⟨_, rfl, tail?_toUInt8 (by omega)⟩
  obtain ⟨d, hd, hdt⟩ : ∃ b : UInt8, b = (0x80 + c.toNat % 0x40).toUInt8 ∧
      tail? b = some (c.toNat % 0x40) := ⟨_, rfl, tail?_toUInt8 (by omega)⟩
  have htwo := two?_eq_none_of_le (a := a) (by omega) b
  have hthree := three?_eq_some han hbt hdt rfl rfl h h'
  refine ⟨a, [b, d], spelt_of_multi? ?_ (by omega) (by simp [hbt, hdt])
    fun t => by simp [multi?, htwo, hthree]⟩
  simp only [ofChar]
  rw [if_neg (by omega), if_neg (by omega), if_pos h', ha, hb, hd]

theorem spelt_four (h : 0x10000 ≤ c.toNat) : ∃ b bs, Spelt c b bs := by
  have hmax : c.toNat < 0x110000 := by
    have hvalid : c.toNat.isValidChar := c.valid
    unfold Nat.isValidChar at hvalid
    omega
  obtain ⟨a, ha, han⟩ : ∃ a : UInt8, a = (0xF0 + c.toNat / 0x40000).toUInt8 ∧
      a.toNat = 0xF0 + c.toNat / 0x40000 := ⟨_, rfl, toNat_toUInt8 (by omega)⟩
  obtain ⟨b, hb, hbt⟩ : ∃ b : UInt8, b = (0x80 + c.toNat / 0x1000 % 0x40).toUInt8 ∧
      tail? b = some (c.toNat / 0x1000 % 0x40) := ⟨_, rfl, tail?_toUInt8 (by omega)⟩
  obtain ⟨d, hd, hdt⟩ : ∃ b : UInt8, b = (0x80 + c.toNat / 0x40 % 0x40).toUInt8 ∧
      tail? b = some (c.toNat / 0x40 % 0x40) := ⟨_, rfl, tail?_toUInt8 (by omega)⟩
  obtain ⟨e, he, het⟩ : ∃ b : UInt8, b = (0x80 + c.toNat % 0x40).toUInt8 ∧
      tail? b = some (c.toNat % 0x40) := ⟨_, rfl, tail?_toUInt8 (by omega)⟩
  have htwo := two?_eq_none_of_le (a := a) (by omega) b
  have hthree := three?_eq_none_of_le (a := a) (by omega) b d
  have hfour := four?_eq_some han hbt hdt het rfl rfl rfl h hmax
  refine ⟨a, [b, d, e], spelt_of_multi? ?_ (by omega) (by simp [hbt, hdt, het])
    fun t => by simp [multi?, htwo, hthree, hfour]⟩
  simp only [ofChar]
  rw [if_neg (by omega), if_neg (by omega), if_neg (by omega), ha, hb, hd, he]

end Lengths

/-- Every character is spelt by one to four bytes. -/
theorem exists_spelt (c : Char) : ∃ b bs, Spelt c b bs := by
  by_cases h₁ : c.toNat < 0x80
  · exact spelt_one h₁
  · by_cases h₂ : c.toNat < 0x800
    · exact spelt_two (by omega) h₂
    · by_cases h₃ : c.toNat < 0x10000
      · exact spelt_three (by omega) h₃
      · exact spelt_four (by omega)

theorem glyphs_ofChars_append (t : Text) : ∀ cs : List Char,
    glyphs (ofChars cs ++ t) = cs.map .char ++ glyphs t
  | [] => rfl
  | c :: cs => by
    obtain ⟨b, bs, h⟩ := exists_spelt c
    have ih := glyphs_ofChars_append t cs
    rw [ofChars] at ih
    rw [ofChars, List.flatMap_cons, h.bytes, List.append_assoc, h.read, ih]
    rfl

theorem glyphs_ofChars (cs : List Char) : glyphs (ofChars cs) = cs.map .char := by
  simpa [glyphs] using glyphs_ofChars_append [] cs

theorem chars_ofChars (cs : List Char) : chars (ofChars cs) = cs := by
  rw [chars, glyphs_ofChars, List.map_map]
  exact List.map_id cs

theorem charCount_ofChars (cs : List Char) : charCount (ofChars cs) = cs.length := by
  rw [charCount, glyphs_ofChars, List.length_map]

theorem ofChars_append (cs ds : List Char) : ofChars (cs ++ ds) = ofChars cs ++ ofChars ds :=
  List.flatMap_append

/-- Different characters have different texts. -/
theorem ofChars_injective : Function.Injective ofChars :=
  Function.LeftInverse.injective chars_ofChars

theorem ofChar_eq_utf8EncodeChar (c : Char) : ofChar c = String.utf8EncodeChar c := by
  have hmax : c.val.toNat < 0x110000 := by
    have hvalid : c.val.toNat.isValidChar := c.valid
    unfold Nat.isValidChar at hvalid
    omega
  have hn : c.toNat = c.val.toNat := rfl
  have hbyte : ∀ m k : Nat, m = k → m.toUInt8 = UInt8.ofNat k := fun m k h => h ▸ rfl
  simp only [ofChar, String.utf8EncodeChar, hn]
  generalize c.val.toNat = n at hmax
  by_cases h₁ : n < 0x80
  · rw [if_pos h₁, if_pos (by omega)]
  by_cases h₂ : n < 0x800
  · rw [if_neg h₁, if_pos h₂, if_neg (by omega), if_pos (by omega),
      hbyte (0xC0 + n / 0x40) (n / 64 % 32 + 192) (by omega),
      hbyte (0x80 + n % 0x40) (n % 64 + 128) (by omega)]
  by_cases h₃ : n < 0x10000
  · rw [if_neg h₁, if_neg h₂, if_pos h₃, if_neg (by omega), if_neg (by omega), if_pos (by omega),
      hbyte (0xE0 + n / 0x1000) (n / 4096 % 16 + 224) (by omega),
      hbyte (0x80 + n / 0x40 % 0x40) (n / 64 % 64 + 128) (by omega),
      hbyte (0x80 + n % 0x40) (n % 64 + 128) (by omega)]
  · rw [if_neg h₁, if_neg h₂, if_neg h₃, if_neg (by omega), if_neg (by omega), if_neg (by omega),
      hbyte (0xF0 + n / 0x40000) (n / 262144 % 8 + 240) (by omega),
      hbyte (0x80 + n / 0x1000 % 0x40) (n / 4096 % 64 + 128) (by omega),
      hbyte (0x80 + n / 0x40 % 0x40) (n / 64 % 64 + 128) (by omega),
      hbyte (0x80 + n % 0x40) (n % 64 + 128) (by omega)]

theorem toByteArray_ofChars (cs : List Char) : (ofChars cs).toByteArray = cs.utf8Encode := by
  rw [ofChars, funext ofChar_eq_utf8EncodeChar]
  rfl

/-- A text is valid UTF-8 exactly if reading it as characters loses nothing. -/
theorem validUTF8_iff {t : Text} : t.toByteArray.IsValidUTF8 ↔ ofChars (chars t) = t := by
  constructor
  · rintro ⟨cs, h⟩
    rw [← toByteArray_ofChars, List.toByteArray_inj] at h
    rw [h, chars_ofChars]
  · intro h
    exact ⟨chars t, by rw [← toByteArray_ofChars, h]⟩

theorem exists_of_validUTF8 {t : Text} (h : t.toByteArray.IsValidUTF8) : ∃ cs, t = ofChars cs :=
  ⟨chars t, (validUTF8_iff.1 h).symm⟩

/-- A part of a text of characters that starts with no continuing byte starts where a character
does: it would otherwise start with a byte of one that is not its first. -/
theorem exists_of_ofChars_eq_append {b : Text} (hb : ∀ x ∈ b.head?, tail? x = none) :
    ∀ {cs : List Char} {a : Text}, ofChars cs = a ++ b →
      ∃ ds es, cs = ds ++ es ∧ a = ofChars ds ∧ b = ofChars es
  | [], a, h => by
    obtain ⟨rfl, rfl⟩ := List.append_eq_nil_iff.1 h.symm
    exact ⟨[], [], rfl, rfl, rfl⟩
  | c :: cs, [], h => ⟨[], c :: cs, rfl, rfl, h.symm⟩
  | c :: cs, y :: a, h => by
    obtain ⟨x, xs, hc⟩ := exists_spelt c
    have hbytes : ofChars (c :: cs) = (x :: xs) ++ ofChars cs := by
      rw [ofChars, List.flatMap_cons, hc.bytes, ofChars]
    rw [hbytes, List.append_eq_append_iff] at h
    rcases h with ⟨a', ha, hrest⟩ | ⟨b', hx, hrest⟩
    · obtain ⟨ds, es, rfl, rfl, hes⟩ := exists_of_ofChars_eq_append hb hrest
      refine ⟨c :: ds, es, rfl, ?_, hes⟩
      rw [ha, ofChars, ofChars, List.flatMap_cons, hc.bytes]
    · rcases b' with _ | ⟨z, b'⟩
      · refine ⟨[c], cs, rfl, ?_, hrest⟩
        rw [ofChars, List.flatMap_singleton, hc.bytes, hx, List.append_nil]
      · have hz : z ∈ xs := by
          rw [List.cons_append, List.cons.injEq] at hx
          rw [hx.2]
          simp
        exact absurd (hb z (by simp [hrest])) (hc.continuing z hz)

/-- Characters at the start of a text of characters are its first ones. -/
theorem exists_of_ofChars_append_eq {ts us : List Char} {r : Text}
    (h : ofChars ts ++ r = ofChars us) : ∃ vs, us = ts ++ vs ∧ r = ofChars vs := by
  have hglyphs : ts.map Glyph.char ++ glyphs r = us.map .char := by
    rw [← glyphs_ofChars_append, h, glyphs_ofChars]
  have hchars : us = ts ++ chars r := by
    have := congrArg (List.map Glyph.toChar) hglyphs
    rw [List.map_append, List.map_map, List.map_map] at this
    simpa [Function.comp_def, Glyph.toChar, chars] using this.symm
  refine ⟨chars r, hchars, ?_⟩
  rw [hchars, ofChars_append] at h
  exact List.append_cancel_left h

/-- Where the bytes of some characters stand in a text of characters, there the characters
stand. -/
theorem exists_of_ofChars_infix {ss ts : List Char} {a r : Text} (ht : ts ≠ [])
    (h : ofChars ss = a ++ (ofChars ts ++ r)) :
    ∃ ds vs, ss = ds ++ (ts ++ vs) ∧ a = ofChars ds ∧ r = ofChars vs := by
  have hhead : ∀ x ∈ (ofChars ts ++ r).head?, tail? x = none := by
    obtain ⟨c, cs, rfl⟩ := List.exists_cons_of_ne_nil ht
    obtain ⟨x, xs, hc⟩ := exists_spelt c
    have hfirst : (ofChars (c :: cs) ++ r).head? = some x := by
      rw [ofChars, List.flatMap_cons, hc.bytes]
      rfl
    rw [hfirst]
    rintro _ ⟨⟩
    exact hc.lead
  obtain ⟨ds, es, rfl, rfl, hes⟩ := exists_of_ofChars_eq_append hhead h
  obtain ⟨vs, rfl, rfl⟩ := exists_of_ofChars_append_eq hes
  exact ⟨ds, vs, rfl, rfl, rfl⟩

end Tacit.Text
