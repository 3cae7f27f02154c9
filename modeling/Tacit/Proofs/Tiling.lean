import Tacit.Proofs.Joining
import Tacit.Proofs.Preferred

/-!
# Tokens tile a source

The tokens of a source stand at the places where their text is, one behind the other, and between
them there are only spaces (`Tiling`). At each place the token is of the first kind that matches
there. What is read at a place depends on the place alone, so two tilings that go on as far agree
on the way. A source either is tiled to its end, or up to the first place from which nothing can go
on, and that is where it is reported to be wrong (`lex_tiles`).
-/

namespace Tacit

/-- A place says where the byte at an offset is: the line is one more than the newlines in front of
it, and the column is one more than the bytes since the last of them. -/
structure Location.Marks (file src : Text) (p : Nat) (l : Location) : Prop where
  name : l.file = file
  pos : l.pos = p
  line : l.line = 1 + (src.take p).count newline
  col : ∃ lines last, src.take p = lines ++ last ∧
    (lines = [] ∨ lines.getLast? = some newline) ∧ newline ∉ last ∧ l.col = 1 + last.length

/-- A kind is the first, in the order of preference, that matches at the front of a text, and it
prefers some length there. -/
def TokenKind.Prevails (k : TokenKind) (t : Text) (n : Nat) : Prop :=
  ∃ earlier later, all = earlier ++ k :: later ∧ (∀ j ∈ earlier, j.preferred? t = none) ∧
    k.preferred? t = some n

/-- The offset of a token's first byte. -/
def Token.start (t : Token) : Nat := t.place.pos.toNat

/-- The offset behind a token's last byte. -/
def Token.stop (t : Token) : Nat := t.start + t.text.length

/-- A token stands in a source at the place that it has. -/
structure Token.Stands (file src : Text) (t : Token) : Prop where
  marks : t.place.Marks file src t.start
  text : t.text = (src.drop t.start).take t.text.length
  nonempty : t.text ≠ []
  prevails : t.kind.Prevails (src.drop t.start) t.text.length

/-- Some tokens stand in a source from one offset to another, one behind the other, with nothing
but spaces around them. -/
structure Tiling (file src : Text) (lo : Nat) (ts : List Token) (hi : Nat) : Prop where
  le : lo ≤ hi
  stands : ∀ t ∈ ts, t.Stands file src
  bounds : ∀ t ∈ ts, lo ≤ t.start ∧ t.stop ≤ hi
  apart : ts.Pairwise fun t u => t.start < u.start ∧ t.stop ≤ u.start
  spaces : ∀ i b, lo ≤ i → i < hi → src[i]? = some b →
    (∀ t ∈ ts, i < t.start ∨ t.stop ≤ i) → isSpace b = true

/-- There is a byte at an offset, and it is no space. -/
def Inked (src : Text) (p : Nat) : Prop := ∃ b, src[p]? = some b ∧ isSpace b = false

/-- A source goes on at an offset, but no kind matches there. -/
structure Unmatched (src : Text) (p : Nat) : Prop where
  inked : Inked src p
  noKind : ∀ k : TokenKind, k.preferred? (src.drop p) = none

theorem Location.within_marks {src : Text} {p : Nat} (h : p ≤ src.length) (file : Text) :
    (within file src p).Marks file src p := by
  have hmin : min (p : Int) src.length = p := by omega
  have hsplit : src.take p = ((src.take p).reverse.dropWhile (· != newline)).reverse ++
      ((src.take p).reverse.takeWhile (· != newline)).reverse := by
    rw [← List.reverse_append, List.takeWhile_append_dropWhile, List.reverse_reverse]
  refine ⟨rfl, hmin, ?_, _, _, hsplit, ?_, ?_, ?_⟩
  · simp only [within, hmin, Int.toNat_natCast, lineAfter]
    omega
  · have hhead := List.head?_dropWhile_not (· != newline) (src.take p).reverse
    rw [List.getLast?_reverse]
    rcases hd : (src.take p).reverse.dropWhile (· != newline) with _ | ⟨b, r⟩ <;> rw [hd] at hhead
    · exact .inl rfl
    · exact .inr (congrArg some (by simpa using hhead))
  · intro hmem
    simpa using List.mem_takeWhile_imp (List.mem_reverse.1 hmem)
  · simp only [within, hmin, Int.toNat_natCast, columnAfter, List.length_reverse]
    omega

namespace TokenKind

theorem mem_all (k : TokenKind) : k ∈ all := by cases k <;> decide

/-- A kind prevails with a length exactly if it is the one that is read first. -/
theorem prevails_iff {k : TokenKind} {t : Text} {n : Nat} :
    k.Prevails t n ↔ first? t = some (k, n) := by
  simp only [Prevails, first?, List.findSome?_eq_some_iff, length?_eq_preferred?,
    Option.map_eq_some_iff, Option.map_eq_none_iff, Prod.mk.injEq]
  constructor
  · rintro ⟨earlier, later, hall, hearlier, hk⟩
    exact ⟨earlier, k, later, hall, ⟨n, hk, rfl, rfl⟩, hearlier⟩
  · rintro ⟨earlier, k', later, hall, ⟨n', hk, rfl, rfl⟩, hearlier⟩
    exact ⟨earlier, later, hall, hearlier, hk⟩

theorem preferred?_eq_none_iff {t : Text} :
    (∀ k : TokenKind, k.preferred? t = none) ↔ first? t = none := by
  simp only [first?, List.findSome?_eq_none_iff, length?_eq_preferred?, Option.map_eq_none_iff,
    mem_all, true_imp_iff]

end TokenKind

/-- There are only spaces from one offset to another. -/
def Spaces (src : Text) (lo hi : Nat) : Prop :=
  ∀ i b, lo ≤ i → i < hi → src[i]? = some b → isSpace b = true

section Tiling

variable {file src : Text} {lo hi : Nat} {t : Token} {ts : List Token}

theorem Token.Stands.start_lt_stop (h : t.Stands file src) : t.start < t.stop :=
  Nat.lt_add_of_pos_right (List.length_pos_iff.2 h.nonempty)

theorem Tiling.nil (hle : lo ≤ hi) (hspaces : Spaces src lo hi) : Tiling file src lo [] hi where
  le := hle
  stands := by simp
  bounds := by simp
  apart := .nil
  spaces i b hlo hhi hb _ := hspaces i b hlo hhi hb

theorem Tiling.spaces_of_nil (h : Tiling file src lo [] hi) : Spaces src lo hi :=
  fun i b hlo hhi hb => h.spaces i b hlo hhi hb (by simp)

theorem Tiling.cons (hle : lo ≤ t.start) (hspaces : Spaces src lo t.start)
    (ht : t.Stands file src) (hts : Tiling file src t.stop ts hi) :
    Tiling file src lo (t :: ts) hi where
  le := by
    have := ht.start_lt_stop
    have := hts.le
    omega
  stands := List.forall_mem_cons.2 ⟨ht, hts.stands⟩
  bounds := by
    have := ht.start_lt_stop
    refine List.forall_mem_cons.2 ⟨⟨hle, hts.le⟩, fun u hu => ?_⟩
    have := hts.bounds u hu
    omega
  apart := by
    have := ht.start_lt_stop
    refine List.pairwise_cons.2 ⟨fun u hu => ?_, hts.apart⟩
    have := hts.bounds u hu
    omega
  spaces i b hlo hhi hb hout := by
    obtain ⟨hi, hout⟩ := List.forall_mem_cons.1 hout
    rcases hi with hi | hi
    · exact hspaces i b hlo hi hb
    · exact hts.spaces i b hi hhi hb hout

theorem Tiling.spaces_of_cons (h : Tiling file src lo (t :: ts) hi) : Spaces src lo t.start := by
  obtain ⟨hbound, -⟩ := List.forall_mem_cons.1 h.bounds
  obtain ⟨hbehind, -⟩ := List.pairwise_cons.1 h.apart
  have := (h.stands t List.mem_cons_self).start_lt_stop
  intro i b hlo hhi hb
  refine h.spaces i b hlo (by omega) hb (List.forall_mem_cons.2 ⟨.inl hhi, fun u hu => .inl ?_⟩)
  have := hbehind u hu
  omega

theorem Tiling.tail (h : Tiling file src lo (t :: ts) hi) : Tiling file src t.stop ts hi := by
  obtain ⟨ht, hstands⟩ := List.forall_mem_cons.1 h.stands
  obtain ⟨⟨hlo, hle⟩, hbounds⟩ := List.forall_mem_cons.1 h.bounds
  obtain ⟨hbehind, hapart⟩ := List.pairwise_cons.1 h.apart
  refine ⟨hle, hstands, fun u hu => ⟨(hbehind u hu).2, (hbounds u hu).2⟩, hapart, ?_⟩
  intro i b hi hhi hb hout
  have := ht.start_lt_stop
  exact h.spaces i b (by omega) hhi hb (List.forall_mem_cons.2 ⟨.inr hi, hout⟩)

end Tiling

/-- Spaces end in front of what is none. -/
theorem Spaces.le_of_inked {src : Text} {lo p q : Nat} (hp : Spaces src lo p) (hlo : lo ≤ q)
    (hq : Inked src q) : p ≤ q := by
  obtain ⟨b, hb, hspace⟩ := hq
  by_contra h
  rw [hp q b hlo (by omega) hb] at hspace
  cases hspace

theorem inked_of_first? {src : Text} {p : Nat} {w : TokenKind × Nat}
    (h : TokenKind.first? (src.drop p) = some w) : Inked src p := by
  rcases hd : src.drop p with _ | ⟨b, r⟩ <;> rw [hd] at h
  · cases h
  · refine ⟨b, by rw [← List.head?_drop, hd, List.head?_cons], ?_⟩
    rw [← Bool.not_eq_true]
    intro hb
    rw [TokenKind.first?_space hb] at h
    cases h

theorem Token.start_eq {file src : Text} {p : Nat} {t : Token} (h : t.place.Marks file src p) :
    t.start = p := by
  rw [start, h.pos, Int.toNat_natCast]

theorem Token.stands_of_first? {file src : Text} {p n : Nat} {t : Token}
    (hplace : t.place.Marks file src p) (htext : t.text = (src.drop p).take n)
    (hf : TokenKind.first? (src.drop p) = some (t.kind, n)) :
    t.Stands file src ∧ t.start = p ∧ t.stop = p + n := by
  have hstart := Token.start_eq hplace
  have hlen : t.text.length = n := by
    rw [htext, List.length_take_of_le (TokenKind.le_length_of_first? hf)]
  have hpos := TokenKind.first?_pos hf
  refine ⟨⟨?_, ?_, ?_, ?_⟩, hstart, by rw [stop, hstart, hlen]⟩
  · rwa [hstart]
  · rwa [hstart, hlen]
  · rw [← List.length_pos_iff]
    omega
  · rwa [hstart, hlen, TokenKind.prevails_iff]

namespace Cursor

/-- The cursor has behind it what its source has there. -/
structure Divides (c : Cursor) : Prop where
  le : c.pos ≤ c.src.length
  rest : c.rest = c.src.drop c.pos

theorem divides_start (file src : Text) : (start file src).Divides := ⟨Nat.zero_le _, rfl⟩

theorem read_eq_unmatched {c c' : Cursor} {f : Fault} (h : c.read = (.unmatched f, c')) :
    c.skipSpace.rest ≠ [] ∧ TokenKind.first? c.skipSpace.rest = none ∧
      f = .unmatched c.skipSpace.place c.skipSpace.excerpt := by
  unfold read at h
  simp only at h
  rcases hr : c.skipSpace.rest with _ | ⟨b, r⟩ <;> rw [hr] at h
  · simp at h
  · rcases hf : TokenKind.first? (b :: r) with _ | ⟨k, n⟩ <;> simp [hf] at h
    exact ⟨List.cons_ne_nil _ _, rfl, h.1.symm⟩

section Divides

variable {c c' : Cursor} (h : c.Divides)
include h

theorem Divides.advance {n : Nat} (hn : n ≤ c.rest.length) : (c.advance n).Divides := by
  have hle := h.le
  rw [h.rest, List.length_drop] at hn
  refine ⟨?_, ?_⟩
  · show c.pos + n ≤ c.src.length
    omega
  · show c.rest.drop n = c.src.drop (c.pos + n)
    rw [h.rest, List.drop_drop]

theorem Divides.skipSpace : c.skipSpace.Divides :=
  h.advance (List.takeWhile_prefix isSpace).length_le

theorem Divides.rest_skipSpace : c.skipSpace.rest = c.src.drop c.skipSpace.pos :=
  h.skipSpace.rest

theorem Divides.spaces : Spaces c.src c.pos c.skipSpace.pos := by
  intro i b hlo hhi hb
  obtain ⟨j, rfl⟩ := Nat.exists_eq_add_of_le hlo
  have hj : j < (c.rest.takeWhile isSpace).length := Nat.lt_of_add_lt_add_left hhi
  rw [← List.getElem?_drop, ← h.rest,
    ← List.takeWhile_append_dropWhile (p := isSpace) (l := c.rest),
    List.getElem?_append_left hj] at hb
  exact List.mem_takeWhile_imp (List.mem_of_getElem? hb)

theorem Divides.inked (hr : c.skipSpace.rest ≠ []) : Inked c.src c.skipSpace.pos := by
  have hrest : c.skipSpace.rest = c.rest.dropWhile isSpace := drop_length_takeWhile _ _
  have hhead := List.head?_dropWhile_not isSpace c.rest
  rw [← hrest, h.rest_skipSpace, List.head?_drop] at hhead
  rcases hb : c.src[c.skipSpace.pos]? with _ | b <;> rw [hb] at hhead
  · rw [h.rest_skipSpace, ← List.length_pos_iff, List.length_drop] at hr
    rw [List.getElem?_eq_none_iff] at hb
    omega
  · exact ⟨b, hb, hhead⟩

theorem Divides.marks : c.place.Marks c.file c.src c.pos := Location.within_marks h.le c.file

/-- A token that is read stands behind the spaces, and the next is looked for behind it. -/
theorem Divides.stands {t : Token} (hread : c.read = (.token t, c')) :
    t.Stands c.file c.src ∧ t.start = c.skipSpace.pos ∧ t.stop = c'.pos ∧ c'.Divides := by
  obtain ⟨k, n, hf, rfl, rfl⟩ := read_eq_token.1 hread
  have hnext := h.skipSpace.advance (TokenKind.le_length_of_first? hf)
  rw [h.rest_skipSpace] at hf ⊢
  obtain ⟨ht, hstart, hstop⟩ := Token.stands_of_first? (t := ⟨k, _, c.skipSpace.place⟩)
    h.skipSpace.marks rfl hf
  exact ⟨ht, hstart, hstop, hnext⟩

/-- A cursor that gives a fault gives it for the first byte behind the spaces. -/
theorem Divides.unmatched {f : Fault} (hread : c.read = (.unmatched f, c')) :
    ∃ l excerpt, f = .unmatched (some l) excerpt ∧ l.Marks c.file c.src c.skipSpace.pos ∧
      Unmatched c.src c.skipSpace.pos := by
  obtain ⟨hr, hf, rfl⟩ := read_eq_unmatched hread
  refine ⟨_, _, rfl, h.skipSpace.marks, h.inked hr, TokenKind.preferred?_eq_none_iff.2 ?_⟩
  rw [← h.rest_skipSpace, hf]

/-- A tiling up to where nothing matches starts with the token that is read. -/
theorem Divides.tiling_of_read {t : Token} (hread : c.read = (.token t, c')) {us : List Token}
    {q : Nat} (hus : Tiling c.file c.src c.pos us q) (hq : Unmatched c.src q) :
    ∃ us', Tiling c'.file c'.src c'.pos us' q := by
  obtain ⟨ht, hstart, hstop, -⟩ := h.stands hread
  have hf := TokenKind.prevails_iff.1 ht.prevails
  have hskip : c.pos ≤ t.start := hstart ▸ Nat.le_add_right _ _
  have hspaces : Spaces c.src c.pos t.start := hstart ▸ h.spaces
  rcases us with _ | ⟨u, us⟩
  · have heq : t.start = q := Nat.le_antisymm (hspaces.le_of_inked hus.le hq.inked)
      (hus.spaces_of_nil.le_of_inked hskip (inked_of_first? hf))
    rw [heq, TokenKind.preferred?_eq_none_iff.1 hq.noKind] at hf
    cases hf
  · have hu := hus.stands u List.mem_cons_self
    have hf' := TokenKind.prevails_iff.1 hu.prevails
    have hlo := (hus.bounds u List.mem_cons_self).1
    have heq : t.start = u.start := Nat.le_antisymm (hspaces.le_of_inked hlo (inked_of_first? hf'))
      (hus.spaces_of_cons.le_of_inked hskip (inked_of_first? hf))
    have hlen : u.text.length = t.text.length := by
      rw [heq, hf'] at hf
      injection hf with hf
      exact (Prod.mk.inj hf).2
    have hstop' : u.stop = c'.pos := by rw [← hstop, Token.stop, Token.stop, heq, hlen]
    obtain ⟨k, n, -, -, rfl⟩ := read_eq_token.1 hread
    exact ⟨us, hstop' ▸ hus.tail⟩

end Divides

/-- From a cursor on, either tokens tile the source to its end, or up to the first offset at which
nothing matches. -/
theorem tokens_tile : ∀ (fuel : Nat) (c : Cursor), c.Divides → c.rest.length < fuel →
    (∃ ts, c.tokens fuel = .ok ts ∧ Tiling c.file c.src c.pos ts c.src.length) ∨
    ∃ ts p l excerpt, c.tokens fuel = .error (.unmatched (some l) excerpt) ∧
      l.Marks c.file c.src p ∧ Tiling c.file c.src c.pos ts p ∧ Unmatched c.src p ∧
      ∀ us q, Tiling c.file c.src c.pos us q → Unmatched c.src q → p ≤ q
  | 0, _, _, hfuel => absurd hfuel (Nat.not_lt_zero _)
  | fuel + 1, c, h, hfuel => by
    have hskip : c.pos ≤ c.skipSpace.pos := Nat.le_add_right _ _
    rcases hread : c.read with ⟨found, c'⟩
    cases found with
    | nothing =>
      obtain ⟨hnil, -⟩ := read_eq_nothing.1 hread
      have hend : c.src.length ≤ c.skipSpace.pos := by
        rwa [h.rest_skipSpace, List.drop_eq_nil_iff] at hnil
      refine .inl ⟨[], by rw [tokens, hread], .nil h.le fun i b hlo hhi => ?_⟩
      exact h.spaces i b hlo (by omega)
    | unmatched f =>
      obtain ⟨l, excerpt, rfl, hl, hp⟩ := h.unmatched hread
      exact .inr ⟨[], _, l, excerpt, by rw [tokens, hread], hl, .nil hskip h.spaces, hp,
        fun us q hus hq => h.spaces.le_of_inked hus.le hq.inked⟩
    | token t =>
      obtain ⟨ht, hstart, hstop, hnext⟩ := h.stands hread
      have hlen := length_rest_of_token hread
      obtain ⟨k, n, -, -, rfl⟩ := read_eq_token.1 hread
      have hlo : c.pos ≤ t.start := hstart ▸ hskip
      have hspaces : Spaces c.src c.pos t.start := hstart ▸ h.spaces
      rcases tokens_tile fuel _ hnext (by omega) with ⟨ts, hts, htile⟩ |
        ⟨ts, p, l, excerpt, herr, hl, htile, hp, hfirst⟩
      · exact .inl ⟨t :: ts, by rw [tokens, hread]; simp only [hts]; rfl,
          .cons hlo hspaces ht (hstop ▸ htile)⟩
      · refine .inr ⟨t :: ts, p, l, excerpt, by rw [tokens, hread]; simp only [herr]; rfl, hl,
          .cons hlo hspaces ht (hstop ▸ htile), hp, fun us q hus hq => ?_⟩
        obtain ⟨us', hus'⟩ := h.tiling_of_read hread hus hq
        exact hfirst us' q hus' hq

end Cursor

/-- A source is cut into tokens that tile it, or else it is wrong at the first offset up to which
tokens tile it and from which nothing goes on. -/
theorem lex_tiles (file src : Text) :
    (∃ ts, lex file src = .ok ts ∧ Tiling file src 0 ts src.length) ∨
    ∃ ts p l excerpt, lex file src = .error (.unmatched (some l) excerpt) ∧
      l.Marks file src p ∧ Tiling file src 0 ts p ∧ Unmatched src p ∧
      ∀ us q, Tiling file src 0 us q → Unmatched src q → p ≤ q :=
  Cursor.tokens_tile _ _ (Cursor.divides_start file src) (Nat.lt_succ_self _)

end Tacit
