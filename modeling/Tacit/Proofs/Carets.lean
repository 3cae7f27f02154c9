import Tacit.Diagnostic.Snippet
import Tacit.Proofs.Glyphs
import Tacit.Proofs.Lines

/-!
# Carets point at what is meant

A place counts bytes, and a reader sees characters. Blanks are put under what stands in front of a
place on its line, as many as it has characters when tabs are shown as four blanks, so the first
caret is under the byte that is meant (`regionText_of_assigned`). To know how many these are it is
enough that no character of several bytes has one in it that is a character by itself
(`glyphs_append_ascii`).

Carets, on the other hand, are put under bytes. What stands at a column is underlined over its
whole width, and not beyond, if each of its characters is of one byte and it is no tab
(`underline_marks`).
-/

namespace Tacit

open Location (newline)

namespace Cursor

/-- The place of what is found. -/
def Found.place? : Found → Option Location
  | .nothing => none
  | .token t => some t.place
  | .unmatched f => f.place?

theorem Divides.read {c : Cursor} (h : c.Divides) :
    c.read.2.Divides ∧ c.read.2.file = c.file ∧ c.read.2.src = c.src := by
  rcases hread : c.read with ⟨found, c'⟩
  cases found with
  | token t =>
    obtain ⟨-, -, -, hnext⟩ := h.stands hread
    obtain ⟨k, n, -, -, rfl⟩ := read_eq_token.1 hread
    exact ⟨hnext, rfl, rfl⟩
  | nothing =>
    obtain ⟨-, rfl⟩ := read_eq_nothing.1 hread
    exact ⟨h.skipSpace, rfl, rfl⟩
  | unmatched f =>
    obtain rfl : c.skipSpace = c' := by
      unfold Cursor.read at hread
      simp only at hread
      split at hread
      · cases hread
      · split at hread <;> cases hread
        rfl
    exact ⟨h.skipSpace, rfl, rfl⟩

/-- What is found at a cursor has the place of a byte that is no space. -/
theorem Divides.inked_of_read {c : Cursor} (h : c.Divides) {l : Location}
    (hl : c.read.1.place? = some l) : ∃ p, l.Marks c.file c.src p ∧ Inked c.src p := by
  rcases hread : c.read with ⟨found, c'⟩
  rw [hread] at hl
  cases found with
  | nothing => cases hl
  | token t =>
    cases hl
    obtain ⟨ht, -⟩ := h.stands hread
    exact ⟨_, ht.marks, inked_of_first? (TokenKind.prevails_iff.1 ht.prevails)⟩
  | unmatched f =>
    obtain ⟨l', excerpt, rfl, hmarks, hun⟩ := h.unmatched hread
    cases hl
    exact ⟨_, hmarks, hun.inked⟩

/-- What is found is found by the first read, or behind it. -/
theorem mem_readings {fuel misses : Nat} {c : Cursor} {found : Found}
    (h : found ∈ c.readings (fuel + 1) misses) :
    found = c.read.1 ∨ ∃ misses', found ∈ c.read.2.readings fuel misses' := by
  unfold readings at h
  rcases hread : c.read with ⟨first, c'⟩
  rw [hread] at h
  rcases first with _ | t | f
  · rcases misses with _ | misses
    · exact .inl (List.mem_singleton.1 h)
    · exact (List.mem_cons.1 h).imp_right fun h => ⟨misses, h⟩
  · exact (List.mem_cons.1 h).imp_right fun h => ⟨misses, h⟩
  · rcases misses with _ | misses
    · exact .inl (List.mem_singleton.1 h)
    · exact (List.mem_cons.1 h).imp_right fun h => ⟨misses, h⟩

theorem Divides.inked_of_readings {found : Found} {l : Location} (hl : found.place? = some l) :
    ∀ {fuel misses : Nat} {c : Cursor}, c.Divides → found ∈ c.readings fuel misses →
      ∃ p, l.Marks c.file c.src p ∧ Inked c.src p
  | 0, _, _, _, hmem => absurd hmem List.not_mem_nil
  | _ + 1, _, _, h, hmem => by
    rcases mem_readings hmem with rfl | ⟨misses', hmem⟩
    · exact h.inked_of_read hl
    · obtain ⟨hnext, hfile, hsrc⟩ := h.read
      have ih := inked_of_readings hl hnext hmem
      rwa [hfile, hsrc] at ih

/-- What a source is cut into, and where that fails, is found by reading on. -/
theorem mem_readings_of_tokens : ∀ {fuel fuel' : Nat} (misses : Nat) {c : Cursor},
    fuel ≤ fuel' → (∀ ts, c.tokens fuel = .ok ts → ∀ t ∈ ts, .token t ∈ c.readings fuel' misses) ∧
      ∀ f, c.tokens fuel = .error f → .unmatched f ∈ c.readings fuel' misses
  | 0, _, _, _, _ => by
    refine ⟨?_, by rintro _ ⟨⟩⟩
    rintro _ ⟨⟩ t ht
    exact absurd ht List.not_mem_nil
  | fuel + 1, fuel' + 1, misses, c, hle => by
    unfold tokens readings
    rcases hread : c.read with ⟨first, c'⟩
    rcases first with _ | u | g
    · refine ⟨?_, by rintro _ ⟨⟩⟩
      rintro _ ⟨⟩ t ht
      exact absurd ht List.not_mem_nil
    · obtain ⟨ihok, iherr⟩ :=
        mem_readings_of_tokens (c := c') misses (Nat.le_of_succ_le_succ hle)
      rcases htokens : c'.tokens fuel with f | us <;> simp only [htokens, Except.map]
      · refine ⟨by rintro _ ⟨⟩, ?_⟩
        rintro _ ⟨⟩
        exact List.mem_cons_of_mem _ (iherr f htokens)
      · refine ⟨?_, by rintro _ ⟨⟩⟩
        rintro _ ⟨⟩ t ht
        rcases List.mem_cons.1 ht with rfl | ht
        · exact List.mem_cons_self
        · exact List.mem_cons_of_mem _ (ihok us htokens t ht)
    · refine ⟨by rintro _ ⟨⟩, ?_⟩
      rintro _ ⟨⟩
      rcases misses with _ | misses <;> exact List.mem_cons_self

end Cursor

/-- Reading a source gives a place to a token, or to what is none. -/
def Location.Assigned (file src : Text) (l : Location) : Prop :=
  ∃ found ∈ lexStream file src, found.place? = some l

/-- A place that reading gives is one at which there is no space. -/
theorem Location.Assigned.inked {file src : Text} {l : Location} (h : l.Assigned file src) :
    ∃ p, l.Marks file src p ∧ Inked src p := by
  obtain ⟨found, hmem, hl⟩ := h
  exact (Cursor.divides_start file src).inked_of_readings hl hmem

theorem assigned_of_lex_ok {file src : Text} {ts : List Token} (h : lex file src = .ok ts)
    {t : Token} (ht : t ∈ ts) : t.place.Assigned file src :=
  ⟨.token t, (Cursor.mem_readings_of_tokens 1 (Nat.le_succ _)).1 ts h t ht, rfl⟩

namespace Snippets

open Text (glyphs charCount ofGlyphs)
open Lines (IsLine)

/-- How wide a glyph is shown. -/
def glyphWidth (g : Glyph) : Nat := if g.toChar = '\t' then 4 else 1

theorem displayWidth_eq_sum (t : Text) : displayWidth t = ((glyphs t).map glyphWidth).sum := by
  rw [displayWidth, Text.chars, List.foldl_map, List.sum_eq_foldl, List.foldl_map]
  rfl

/-- A tab is a byte. -/
theorem eq_tab_of_toChar {g : Glyph} (h : g.toChar = '\t') : g = .char '\t' := by
  cases g with
  | char c => exact congrArg Glyph.char h
  | stray b => exact absurd h (show Glyph.replacement ≠ '\t' by decide)

theorem bytes_subset {t : Text} {g : Glyph} (h : g ∈ glyphs t) : g.bytes ⊆ t := by
  intro b hb
  rw [← Text.ofGlyphs_glyphs t]
  exact List.mem_flatMap.2 ⟨g, h, hb⟩

theorem toChar_ne_tab {t : Text} (h : 9 ∉ t) {g : Glyph} (hg : g ∈ glyphs t) : g.toChar ≠ '\t' := by
  intro htab
  rw [eq_tab_of_toChar htab] at hg
  exact h (bytes_subset hg (by decide))

theorem displayWidth_of_not_mem {t : Text} (h : 9 ∉ t) : displayWidth t = charCount t := by
  have hone : (glyphs t).map glyphWidth = (glyphs t).map fun _ => 1 :=
    List.map_congr_left fun g hg => if_neg (toChar_ne_tab h hg)
  rw [displayWidth_eq_sum, hone]
  simp [charCount]

theorem withoutTabs_of_not_mem {t : Text} (h : 9 ∉ t) : withoutTabs t = t := by
  have hone : t.flatMap (fun b => if b = 9 then [32, 32, 32, 32] else [b]) =
      t.flatMap fun b => [b] := by
    refine List.flatMap_congr fun b hb => if_neg ?_
    rintro rfl
    exact h hb
  rw [withoutTabs, hone, List.flatMap_singleton']

theorem withoutTabs_tab {before : Text} (h : 9 ∉ before) (rest : Text) :
    withoutTabs (before ++ 9 :: rest) = before ++ 32 :: 32 :: 32 :: 32 :: withoutTabs rest := by
  have hbefore := withoutTabs_of_not_mem h
  rw [withoutTabs] at hbefore ⊢
  rw [List.flatMap_append, hbefore, List.flatMap_cons]
  rfl

/-- Tabs are as wide as the blanks that they are shown as. -/
theorem displayWidth_eq_charCount (t : Text) : displayWidth t = charCount (withoutTabs t) := by
  by_cases ht : 9 ∈ t
  · obtain ⟨before, rest, hsplit, hbefore⟩ := List.eq_append_cons_of_mem ht
    have hlt : rest.length < t.length := by
      rw [hsplit, List.length_append, List.length_cons]
      omega
    have ih := displayWidth_eq_charCount rest
    have hwidth := displayWidth_of_not_mem hbefore
    have htab : glyphWidth (.char (Char.ofNat (9 : UInt8).toNat)) = 4 := by decide
    rw [displayWidth_eq_sum] at ih hwidth
    rw [displayWidth_eq_sum, hsplit, withoutTabs_tab hbefore, charCount,
      Text.glyphs_append_ascii (by decide), Text.glyphs_append_ascii (by decide),
      Text.glyphs_ascii (by decide), List.map_append, List.sum_append, hwidth]
    simp only [Text.glyphs_ascii (show (32 : UInt8) < 0x80 by decide), List.length_append,
      List.length_cons, List.map_cons, List.sum_cons, ih, htab, charCount]
    omega
  · rw [displayWidth_of_not_mem ht, withoutTabs_of_not_mem ht]
termination_by t.length

theorem withoutReturn_isPrefix (line : Text) : withoutReturn line <+: line := by
  unfold withoutReturn
  split_ifs
  · exact List.dropLast_prefix line
  · exact List.prefix_refl line

theorem take_withoutReturn {t : Text} {k : Nat} (h : k ≤ (withoutReturn t).length) :
    (withoutReturn t).take k = t.take k := by
  obtain ⟨rest, hrest⟩ := withoutReturn_isPrefix t
  calc (withoutReturn t).take k = (withoutReturn t ++ rest).take k :=
        (List.take_append_of_le_length h).symm
    _ = t.take k := by rw [hrest]

/-- What is no carriage return stays when the one at the end of a line is left out. -/
theorem lt_length_withoutReturn {t : Text} {k : Nat} {b : UInt8} (h : t[k]? = some b)
    (hb : b ≠ 13) : k < (withoutReturn t).length := by
  have hk : k < t.length := (List.getElem?_eq_some_iff.1 h).1
  unfold withoutReturn
  split_ifs with hlast
  · have hne : k ≠ t.length - 1 := by
      rintro rfl
      rw [List.getLast?_eq_getElem?, h] at hlast
      exact hb (Option.some.inj hlast)
    rw [List.length_dropLast]
    omega
  · exact hk

theorem ofText_isPrefix (t : Text) : Lines.ofText t <+: Text.pieces newline t := by
  simp only [Lines.ofText]
  split_ifs
  · exact List.dropLast_prefix _
  · exact List.prefix_refl _

/-- A line that is not empty is one of those that are told apart. -/
theorem ofText_line {src before line after : Text} (h : IsLine src before line after)
    (hne : line ≠ []) : (Lines.ofText src)[before.count newline]? = some line := by
  have hpiece := h.piece
  simp only [Lines.ofText]
  split_ifs with hlast
  · obtain ⟨hlt, -⟩ := List.getElem?_eq_some_iff.1 hpiece
    have hbut : before.count newline ≠ (Text.pieces newline src).length - 1 := by
      intro heq
      rw [List.getLast?_eq_getElem?, ← heq, hpiece] at hlast
      exact hne (Option.some.inj hlast)
    rw [List.getElem?_dropLast, if_pos (by omega), hpiece]
  · exact hpiece

/-- A line is found by its number when it and those in front of it are short. -/
theorem lineOf?_eq {src before line after : Text} (h : IsLine src before line after)
    (hne : line ≠ []) (hshort : ∀ before' line' after', IsLine src before' line' after' →
      before'.length ≤ before.length → line'.length < lineLimit) :
    lineOf? src (1 + before.count newline) = some (withoutReturn line) := by
  have hline := ofText_line h hne
  have hfirst : ∀ x ∈ (Lines.ofText src).take (before.count newline + 1),
      decide (x.length < lineLimit) = true := by
    intro x hx
    obtain ⟨i, hi⟩ := List.getElem?_of_mem hx
    rw [List.getElem?_take] at hi
    split_ifs at hi with hle
    obtain ⟨rest, hrest⟩ := ofText_isPrefix src
    have hpiece : (Text.pieces newline src)[i]? = some x := by
      rw [← hrest, List.getElem?_append_left (List.getElem?_eq_some_iff.1 hi).1, hi]
    obtain ⟨before', after', hline', hcount⟩ := Lines.exists_isLine hpiece
    have hbegins := h.begins_le hline' (by omega)
    exact decide_eq_true (hshort _ _ _ hline' hbegins)
  have htake : ((Lines.ofText src).takeWhile (·.length < lineLimit))[before.count newline]? =
      some line := by
    rw [← List.take_append_drop (before.count newline + 1) (Lines.ofText src),
      List.takeWhile_append_of_pos hfirst, List.getElem?_append_left, List.getElem?_take_of_lt,
      hline]
    · exact Nat.lt_succ_self _
    · obtain ⟨hlt, -⟩ := List.getElem?_eq_some_iff.1 hline
      rw [List.length_take]
      omega
  have hindex : (1 + (before.count newline : Int) - 1).toNat = before.count newline := by omega
  rw [lineOf?, if_neg (by omega), hindex, htake, Option.map_some]

/-! ## What is printed -/

/-- A region as it is printed: where it lies, then a line as it is shown, and some carets under it
behind some blanks. -/
def framed (p : Palette) (color : Text) (region : Region) (shown : Text) (indent carets : Nat) :
    Text :=
  let number := Text.ofInt region.line
  let margin (inside : Text) : Text := " " ++ p.boldBlue ++ inside ++ " |" ++ p.reset
  let blank := margin (Text.repeated number.length ' ')
  let label : Text := if region.label.isEmpty then [] else " " ++ color ++ region.label ++ p.reset
  "  " ++ p.boldBlue ++ "-->" ++ p.reset ++ " " ++ whereabouts region ++ "\n" ++ blank ++ "\n"
    ++ margin number ++ "  " ++ shown ++ "\n"
    ++ blank ++ "  " ++ Text.repeated indent ' ' ++ color ++ Text.repeated carets '^' ++ p.reset
    ++ label ++ "\n"
    ++ blank ++ "\n"

theorem regionText_eq {r : Snippets} {region : Region} {t : Text}
    (ht : r.lineAt region.file region.line = t) (hne : t ≠ []) (color : Text) :
    r.regionText color region = framed (.ofMode r.mode) color region (withoutTabs t)
      (underline t region).1 (underline t region).2 := by
  have hfull : ¬ t.isEmpty = true := by simpa using hne
  unfold regionText framed
  dsimp only
  rw [ht, if_neg hfull]

theorem lineAt_eq {r : Snippets} {file src t : Text} {n : Int} (hsrc : r.source? file = some src)
    (ht : lineOf? src n = some t) : r.lineAt file n = t := by
  simp [lineAt, hsrc, ht]

theorem underline_pos (t : Text) (region : Region) : 0 < (underline t region).2 :=
  Nat.succ_pos _

/-- The blanks in front of the carets are as wide as what is in front of the column. -/
theorem underline_indent {t : Text} (region : Region) {k : Nat} (hcol : region.col = 1 + k)
    (hk : k ≤ t.length) : (underline t region).1 = charCount (withoutTabs (t.take k)) := by
  have hcol' : (if region.col ≤ 0 then 1 else region.col.toNat) = k + 1 := by
    rw [if_neg (by omega)]
    omega
  simp only [underline, hcol', Nat.add_sub_cancel, if_pos hk]
  exact displayWidth_eq_charCount _

/-- What is no space is on a line, and no carriage return at the end of it. -/
theorem exists_shown_line {file src : Text} {p : Nat} {l : Location} (hl : l.Marks file src p)
    (hp : Inked src p) : ∃ before line after k, IsLine src before line after ∧
      p = before.length + k ∧ k < (withoutReturn line).length ∧
      l.line = 1 + before.count newline ∧ l.col = 1 + k := by
  obtain ⟨b, hb, hspace⟩ := hp
  obtain ⟨before, line, after, hline, hlo, hhi, hnumber, hcol⟩ :=
    Lines.exists_line_of_marks hl (Nat.le_of_lt (List.getElem?_eq_some_iff.1 hb).1)
  obtain ⟨k, rfl⟩ := Nat.exists_eq_add_of_le hlo
  rw [hline.split, List.getElem?_append_right hlo, Nat.add_sub_cancel_left] at hb
  have hk : k < line.length := by
    by_contra hend
    obtain rfl : k = line.length := by omega
    rw [List.getElem?_append_right (Nat.le_refl _), Nat.sub_self, ← List.head?_eq_getElem?] at hb
    rcases hline.ends with rfl | hafter
    · cases hb
    · obtain rfl : b = newline := Option.some.inj (hb.symm.trans hafter)
      exact absurd hspace (by decide)
  rw [List.getElem?_append_left hk] at hb
  refine ⟨before, line, after, k, hline, rfl, lt_length_withoutReturn hb ?_, hnumber, by omega⟩
  rintro rfl
  exact absurd hspace (by decide)

/-- A place that reading gives is shown with its line, from the first byte to the next newline, and
the first caret comes behind as many blanks as there are characters in front of the place. -/
theorem regionText_of_assigned {file src : Text} {l : Location} (hl : l.Assigned file src)
    {r : Snippets} (hmode : r.mode ≠ .always) (hsrc : r.source? file = some src)
    (hshort : ∀ before line after, IsLine src before line after → before.length ≤ l.pos →
      line.length < lineLimit) (endCol : Int) (label : Text) :
    ∃ before line after carets, IsLine src before line after ∧ before.length ≤ l.pos ∧
      l.pos < before.length + line.length ∧ 0 < carets ∧
      r.regionText [] ⟨l.file, l.line, l.col, endCol, label⟩ =
        framed .plain [] ⟨l.file, l.line, l.col, endCol, label⟩ (withoutTabs (withoutReturn line))
          (charCount (withoutTabs ((src.take l.pos.toNat).drop before.length))) carets := by
  obtain ⟨p, hmarks, hinked⟩ := hl.inked
  obtain ⟨before, line, after, k, hline, rfl, hk, hnumber, hcol⟩ :=
    exists_shown_line hmarks hinked
  have hpos : l.pos = (before.length + k : Nat) := hmarks.pos
  have hlen := (withoutReturn_isPrefix line).length_le
  have hfound : lineOf? src l.line = some (withoutReturn line) := by
    rw [hnumber]
    refine lineOf?_eq hline (List.ne_nil_of_length_pos (by omega)) fun before' line' after' h hle =>
      hshort before' line' after' h (by omega)
  have hplain : Palette.ofMode r.mode = .plain := by
    cases hm : r.mode with
    | auto | never => rfl
    | always => exact absurd hm hmode
  have hfront : (withoutReturn line).take k = (src.take l.pos.toNat).drop before.length := by
    rw [hpos, Int.toNat_natCast, hline.split, List.drop_take, Nat.add_sub_cancel_left,
      List.drop_left, List.take_append_of_le_length (by omega),
      take_withoutReturn (Nat.le_of_lt hk)]
  let region : Region := ⟨l.file, l.line, l.col, endCol, label⟩
  have hheld : r.source? l.file = some src := by rw [hmarks.name, hsrc]
  have htext : r.regionText [] region = _ := regionText_eq (lineAt_eq hheld hfound)
    (List.ne_nil_of_length_pos (by omega)) []
  rw [hplain, underline_indent region hcol (Nat.le_of_lt hk), hfront] at htext
  exact ⟨before, line, after, _, hline, by omega, by omega, underline_pos _ _, htext⟩

/-- A name behind a tab and a character of two bytes, on a line that ends with a carriage return. -/
def tabbedSource : Text := "\t\"é\" x\r\ny"

theorem lex_tabbedSource : lex [] tabbedSource = .ok [⟨.str, "\"é\"", ⟨[], 1, 1, 2⟩⟩,
    ⟨.ident, "x", ⟨[], 6, 1, 7⟩⟩, ⟨.ident, "y", ⟨[], 9, 2, 1⟩⟩] := by
  set_option maxRecDepth 8000 in
  cbv

theorem regionText_of_assigned_tab :
    Location.Assigned [] tabbedSource ⟨[], 6, 1, 7⟩ ∧
      source? ⟨.never, [([], tabbedSource)], none⟩ [] = some tabbedSource ∧
      (∀ before line after, IsLine tabbedSource before line after → (before.length : Int) ≤ 6 →
        line.length < lineLimit) ∧
      ∃ before line after carets, IsLine tabbedSource before line after ∧
        (before.length : Int) ≤ 6 ∧ (6 : Int) < before.length + line.length ∧ 0 < carets ∧
        regionText ⟨.never, [([], tabbedSource)], none⟩ [] ⟨[], 1, 7, 0, []⟩ =
          framed .plain [] ⟨[], 1, 7, 0, []⟩ (withoutTabs (withoutReturn line))
            (charCount (withoutTabs ((tabbedSource.take 6).drop before.length))) carets := by
  have hl : Location.Assigned [] tabbedSource ⟨[], 6, 1, 7⟩ :=
    assigned_of_lex_ok lex_tabbedSource (t := ⟨.ident, "x", ⟨[], 6, 1, 7⟩⟩) (by simp)
  have hshort : ∀ before line after, IsLine tabbedSource before line after →
      (before.length : Int) ≤ 6 → line.length < lineLimit := by
    intro before line after h _
    have hlen := congrArg List.length h.split
    have hsource : tabbedSource.length = 10 := by decide
    rw [List.length_append, List.length_append] at hlen
    unfold lineLimit
    omega
  exact ⟨hl, rfl, hshort, regionText_of_assigned (r := ⟨.never, [([], tabbedSource)], none⟩) hl
    nofun rfl hshort 0 []⟩

/-- What stands at a column of a text, as far as it is underlined. -/
def marked (t : Text) (col : Nat) : Text := (t.take (endColumn t col)).drop (col - 1)

/-- What stands at a column: a character that divides, by itself, or all characters up to the next
that does. -/
inductive StandsAt (t : Text) (col : Nat) : Text → Prop where
  | delimiter {g : Glyph} {rest : List Glyph} (h : glyphs (t.drop (col - 1)) = g :: rest)
      (hg : isDelimiter g.toChar = true) : StandsAt t col g.bytes
  | run {gs rest : List Glyph} (h : glyphs (t.drop (col - 1)) = gs ++ rest) (hne : gs ≠ [])
      (hgs : ∀ g ∈ gs, isDelimiter g.toChar = false)
      (hrest : ∀ g ∈ rest.head?, isDelimiter g.toChar = true) : StandsAt t col (ofGlyphs gs)

/-- A character that divides is one byte. -/
theorem bytes_of_delimiter {g : Glyph} (h : isDelimiter g.toChar = true) :
    g.bytes.length = 1 := by
  cases g with
  | stray b => rfl
  | char c =>
    have hc : c ∈ [' ', '\t', '(', ')', '[', ']', ';'] := by
      rw [show [' ', '\t', '(', ')', '[', ']', ';'] = " \t()[];".toList from rfl]
      simpa [isDelimiter, Glyph.toChar] using h
    simp only [List.mem_cons, List.not_mem_nil, or_false] at hc
    rcases hc with rfl | rfl | rfl | rfl | rfl | rfl | rfl <;> rfl

section Marked

variable {t : Text} {col : Nat}

/-- What is marked runs from the column to the end that is found for it. -/
theorem marked_eq_take : marked t col = (t.drop (col - 1)).take (endColumn t col - (col - 1)) :=
  List.drop_take

/-- From a column on a text is what extends from there, and the rest. -/
theorem extent_append (t : Text) (col : Nat) : ∃ rest, t.drop (col - 1) =
    extent t col ++ ofGlyphs rest ∧ glyphs (t.drop (col - 1)) =
      ((glyphs (t.drop (col - 1))).takeWhile fun g => !isDelimiter g.toChar) ++ rest ∧
    ∀ g ∈ rest.head?, isDelimiter g.toChar = true := by
  refine ⟨(glyphs (t.drop (col - 1))).dropWhile fun g => !isDelimiter g.toChar, ?_,
    List.takeWhile_append_dropWhile.symm, ?_⟩
  · unfold extent
    rw [ofGlyphs, ofGlyphs, ← List.flatMap_append, List.takeWhile_append_dropWhile]
    exact (Text.ofGlyphs_glyphs _).symm
  · intro g hg
    have hhead := List.head?_dropWhile_not (fun g => !isDelimiter g.toChar)
      (glyphs (t.drop (col - 1)))
    rw [Option.mem_def.1 hg] at hhead
    simpa using hhead

theorem endColumn_le (hlo : 1 ≤ col) (hhi : col ≤ t.length) : endColumn t col ≤ t.length := by
  obtain ⟨rest, hsplit, -⟩ := extent_append t col
  have hlen := congrArg List.length hsplit
  rw [List.length_drop, List.length_append] at hlen
  unfold endColumn
  omega

theorem standsAt_marked (hlo : 1 ≤ col) (hhi : col ≤ t.length) :
    StandsAt t col (marked t col) := by
  obtain ⟨rest, hsplit, hglyphs, hrest⟩ := extent_append t col
  rcases hgs : (glyphs (t.drop (col - 1))).takeWhile fun g => !isDelimiter g.toChar
    with _ | ⟨g, gs⟩
  · have hnone : extent t col = [] := by rw [extent, hgs]; rfl
    have hne : t.drop (col - 1) ≠ [] := by
      rw [← List.length_pos_iff, List.length_drop]
      omega
    rcases rest with _ | ⟨g, rest⟩
    · exact absurd (by rw [hsplit, hnone]; rfl) hne
    · have hg : isDelimiter g.toChar = true := hrest g rfl
      have hone := bytes_of_delimiter hg
      have hend : endColumn t col - (col - 1) = g.bytes.length := by
        rw [endColumn, hnone, hone, List.length_nil]
        omega
      have hmarked : marked t col = g.bytes := by
        rw [marked_eq_take, hend, hsplit, hnone, List.nil_append, ofGlyphs, List.flatMap_cons,
          List.take_left]
      rw [hgs, List.nil_append] at hglyphs
      rw [hmarked]
      exact .delimiter hglyphs hg
  · have hpos := Text.length_le_ofGlyphs (g :: gs)
    have hextent : extent t col = ofGlyphs (g :: gs) := by rw [extent, hgs]
    have hend : endColumn t col - (col - 1) = (ofGlyphs (g :: gs)).length := by
      rw [endColumn, hextent]
      rw [List.length_cons] at hpos
      omega
    have hmarked : marked t col = ofGlyphs (g :: gs) := by
      rw [marked_eq_take, hend, hsplit, hextent, List.take_left]
    rw [hgs] at hglyphs
    rw [hmarked]
    refine .run hglyphs (List.cons_ne_nil _ _) (fun x hx => ?_) hrest
    rw [← hgs] at hx
    simpa using List.mem_takeWhile_imp hx

theorem length_marked (hlo : 1 ≤ col) (hhi : col ≤ t.length) :
    (marked t col).length = endColumn t col - (col - 1) := by
  have hend := endColumn_le hlo hhi
  rw [marked_eq_take, List.length_take, List.length_drop]
  omega

/-- A tab is underlined by itself only. -/
theorem StandsAt.eq_tab {u : Text} (h : StandsAt t col u) (htab : 9 ∈ u) : u = [9] := by
  cases h with
  | delimiter _ hg =>
    obtain ⟨b, hb⟩ := List.length_eq_one_iff.1 (bytes_of_delimiter hg)
    rw [hb] at htab ⊢
    rw [List.mem_singleton.1 htab]
  | run h _ hgs _ =>
    obtain ⟨g, hg, hin⟩ := List.mem_flatMap.1 htab
    have hmem : g ∈ glyphs (t.drop (col - 1)) := by
      rw [h]
      exact List.mem_append_left _ hg
    rcases Text.ascii_or_high _ hmem with ⟨b, rfl, hb⟩ | hhigh
    · rw [hb] at hin
      rw [← List.mem_singleton.1 hin] at hg
      exact absurd (hgs _ hg) (by decide)
    · exact absurd (hhigh 9 hin) (by decide)

/-- What is underlined is as wide as it has bytes exactly if it is no tab and each of its
characters is of one byte. -/
theorem StandsAt.length_eq_width_iff {u : Text} (h : StandsAt t col u) :
    u.length = displayWidth u ↔ u ≠ [9] ∧ ∀ g ∈ glyphs u, g.bytes.length = 1 := by
  by_cases htab : 9 ∈ u
  · obtain rfl := h.eq_tab htab
    simp only [ne_eq, not_true_eq_false, false_and, iff_false]
    decide
  · have hne : u ≠ [9] := by
      rintro rfl
      exact htab List.mem_cons_self
    rw [displayWidth_of_not_mem htab, and_iff_right hne, ← Text.length_ofGlyphs_eq_iff,
      Text.ofGlyphs_glyphs]
    rfl

end Marked

/-- What stands at a column of a line is underlined with a caret for each byte. These are as many as
it is wide exactly if it is no tab and each of its characters is of one byte. -/
theorem underline_marks {t : Text} {col : Nat} (hlo : 1 ≤ col) (hhi : col ≤ t.length)
    {region : Region} (hcol : region.col = col) (hend : region.endCol = 0) :
    StandsAt t col (marked t col) ∧ (underline t region).2 = (marked t col).length ∧
      ((underline t region).2 = displayWidth (marked t col) ↔
        marked t col ≠ [9] ∧ ∀ g ∈ glyphs (marked t col), g.bytes.length = 1) ∧
      ∀ (r : Snippets) (color : Text), r.lineAt region.file region.line = t →
        ∃ indent, r.regionText color region =
          framed (.ofMode r.mode) color region (withoutTabs t) indent (marked t col).length := by
  have hstands := standsAt_marked hlo hhi
  have hcol' : (if region.col ≤ 0 then 1 else region.col.toNat) = col := by
    rw [if_neg (by omega)]
    omega
  have hcarets : (underline t region).2 = (marked t col).length := by
    have hle : col ≤ endColumn t col := Nat.le_max_left _ _
    simp only [underline, hcol', hend, Int.le_refl, if_true, length_marked hlo hhi]
    omega
  refine ⟨hstands, hcarets, ?_, fun r color ht => ⟨(underline t region).1, ?_⟩⟩
  · rw [hcarets]
    exact hstands.length_eq_width_iff
  · rw [regionText_eq ht (List.ne_nil_of_length_pos (by omega)), hcarets]

/-- A name is underlined, and a bracket behind it is not. -/
theorem underline_marks_name :
    1 ≤ 2 ∧ 2 ≤ ("(sum)" : Text).length ∧
      (underline "(sum)" ⟨[], 1, 2, 0, []⟩).2 = displayWidth (marked "(sum)" 2) ∧
      marked "(sum)" 2 = "sum" := by
  have hlo : 1 ≤ 2 := by decide
  have hhi : 2 ≤ ("(sum)" : Text).length := by decide
  have hcol : Region.col ⟨[], 1, 2, 0, []⟩ = (2 : Nat) := rfl
  obtain ⟨-, -, hiff, -⟩ := underline_marks hlo hhi hcol rfl
  exact ⟨by decide, by decide, hiff.2 (by decide), by decide⟩

/-- Two carets are put under a character of two bytes. -/
theorem carets_beyond_width : ¬ ∀ (t : Text) (col : Nat) (region : Region), 1 ≤ col →
    col ≤ t.length → region.col = col → region.endCol = 0 →
      (underline t region).2 = displayWidth (marked t col) := by
  intro h
  have := h "é" 1 ⟨[], 1, 1, 0, []⟩ (by decide) (by decide) rfl rfl
  revert this
  decide

end Snippets

end Tacit
