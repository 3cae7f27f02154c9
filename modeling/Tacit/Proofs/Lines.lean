import Mathlib.Data.List.TakeWhile
import Mathlib.Tactic.SplitIfs
import Tacit.Proofs.Tiling
import Tacit.Text.Lines

/-!
# The lines of a text

A line of a text stands between two newlines, or between one and an end of the text (`IsLine`). The
pieces between newlines are these lines, in order: the number of newlines in front of a line is its
index (`IsLine.piece`), and at each index there is a line (`exists_isLine`). A place that marks an
offset says which line the offset is on, and where the line begins (`Location.Marks.line`).
-/

namespace Tacit.Lines

open Location (newline)

/-- A line of a text, with what is in front of it and behind it. -/
structure IsLine (src before line after : Text) : Prop where
  split : src = before ++ (line ++ after)
  begins : before = [] ∨ before.getLast? = some newline
  whole : newline ∉ line
  ends : after = [] ∨ after.head? = some newline

theorem pieces_ne_nil (sep : UInt8) : ∀ t : Text, Text.pieces sep t ≠ []
  | [] => List.cons_ne_nil _ _
  | b :: t => by
    unfold Text.pieces
    split
    · exact List.cons_ne_nil _ _
    · split_ifs <;> exact List.cons_ne_nil _ _

theorem pieces_sep (sep : UInt8) (t : Text) :
    Text.pieces sep (sep :: t) = [] :: Text.pieces sep t := by
  obtain ⟨p, ps, hp⟩ := List.exists_cons_of_ne_nil (pieces_ne_nil sep t)
  rw [Text.pieces, hp]
  exact if_pos rfl

theorem pieces_cons {sep b : UInt8} (hb : b ≠ sep) {t p : Text} {ps : List Text}
    (hp : Text.pieces sep t = p :: ps) : Text.pieces sep (b :: t) = (b :: p) :: ps := by
  rw [Text.pieces, hp]
  exact if_neg hb

theorem pieces_line {sep : UInt8} {after : Text} (ha : after = [] ∨ after.head? = some sep) :
    ∀ {line : Text}, sep ∉ line → ∃ ps, Text.pieces sep (line ++ after) = line :: ps
  | [], _ => by
    rcases after with _ | ⟨b, t⟩
    · exact ⟨[], rfl⟩
    · obtain rfl : b = sep := by simpa using ha
      exact ⟨_, pieces_sep b t⟩
  | b :: line, h => by
    obtain ⟨hb, hline⟩ := List.ne_and_not_mem_of_not_mem_cons h
    obtain ⟨ps, hps⟩ := pieces_line ha hline
    exact ⟨ps, pieces_cons hb.symm hps⟩

/-- In front of the pieces behind a separator there are as many as there are separators. -/
theorem pieces_behind {sep : UInt8} : ∀ {before : Text}, before.getLast? = some sep →
    ∃ ps : List Text, ps.length = before.count sep ∧
      ∀ t, Text.pieces sep (before ++ t) = ps ++ Text.pieces sep t
  | [b], h => by
    obtain rfl : b = sep := by simpa using h
    exact ⟨[[]], by simp, pieces_sep b⟩
  | b :: d :: before, h => by
    rw [List.getLast?_cons_cons] at h
    obtain ⟨ps, hlen, hps⟩ := pieces_behind h
    by_cases hb : b = sep
    · subst hb
      refine ⟨[] :: ps, by simp [hlen], fun t => ?_⟩
      rw [List.cons_append, pieces_sep, hps]
      rfl
    · have hpos : 0 < ps.length := hlen ▸ List.count_pos_iff.2 (List.mem_of_getLast? h)
      obtain ⟨p, ps, rfl⟩ := List.exists_cons_of_length_pos hpos
      refine ⟨(b :: p) :: ps, by rw [List.count_cons_of_ne hb, ← hlen]; rfl, fun t => ?_⟩
      exact pieces_cons hb (hps t)

section IsLine

variable {src before line after : Text}

theorem IsLine.piece (h : IsLine src before line after) :
    (Text.pieces newline src)[before.count newline]? = some line := by
  obtain ⟨ps, hps⟩ := pieces_line h.ends h.whole
  rw [h.split]
  rcases h.begins with rfl | hb
  · rw [List.nil_append, hps]
    rfl
  · obtain ⟨qs, hlen, hqs⟩ := pieces_behind hb
    rw [hqs, hps, ← hlen]
    simp

/-- What ends with a newline, or is empty, has a newline if it is not empty. -/
theorem eq_nil_of_count (hb : before = [] ∨ before.getLast? = some newline)
    (hc : before.count newline = 0) : before = [] := by
  rcases hb with hb | hb
  · exact hb
  · exact absurd (List.mem_of_getLast? hb) (List.count_eq_zero.1 hc)

theorem begins_cons (b : UInt8) (hb : before.getLast? = some newline) :
    b :: before = [] ∨ (b :: before).getLast? = some newline := by
  rcases before with _ | ⟨d, before⟩
  · cases hb
  · exact .inr (by rwa [List.getLast?_cons_cons])

/-- The pieces between newlines are lines, each behind as many newlines as its index says. -/
theorem exists_isLine : ∀ {src : Text} {i : Nat} {line : Text},
    (Text.pieces newline src)[i]? = some line →
      ∃ before after, IsLine src before line after ∧ before.count newline = i
  | [], i, line, h => by
    obtain ⟨rfl, rfl⟩ : i = 0 ∧ line = [] := by
      rcases i with _ | i
      · simpa [Text.pieces] using h.symm
      · simp [Text.pieces] at h
    exact ⟨[], [], ⟨rfl, .inl rfl, by simp, .inl rfl⟩, rfl⟩
  | b :: src, i, line, h => by
    obtain ⟨p, ps, hp⟩ := List.exists_cons_of_ne_nil (pieces_ne_nil newline src)
    by_cases hb : b = newline
    · subst hb
      rw [pieces_sep] at h
      rcases i with _ | i
      · obtain rfl : [] = line := by simpa using h
        exact ⟨[], _, ⟨rfl, .inl rfl, by simp, .inr rfl⟩, rfl⟩
      · have hi : (Text.pieces newline src)[i]? = some line := by simpa using h
        obtain ⟨before, after, hline, hi⟩ := exists_isLine hi
        refine ⟨newline :: before, after, ⟨?_, ?_, hline.whole, hline.ends⟩, by simp [hi]⟩
        · rw [hline.split, List.cons_append]
        · rcases hline.begins with rfl | hbegins
          · exact .inr rfl
          · exact begins_cons newline hbegins
    · rw [pieces_cons hb hp] at h
      rcases i with _ | i
      · obtain rfl : b :: p = line := by simpa using h
        have hfirst : (Text.pieces newline src)[0]? = some p := by rw [hp]; rfl
        obtain ⟨before, after, hline, hi⟩ := exists_isLine hfirst
        obtain rfl := eq_nil_of_count hline.begins hi
        refine ⟨[], after, ⟨?_, .inl rfl, ?_, hline.ends⟩, rfl⟩
        · rw [hline.split]
          rfl
        · exact List.not_mem_cons_of_ne_of_not_mem (Ne.symm hb) hline.whole
      · have hlater : (Text.pieces newline src)[i + 1]? = some line := by
          rw [hp]
          simpa using h
        obtain ⟨before, after, hline, hi⟩ := exists_isLine hlater
        have hbegins : before.getLast? = some newline := by
          refine hline.begins.resolve_left ?_
          rintro rfl
          simp at hi
        refine ⟨b :: before, after, ⟨?_, begins_cons b hbegins, hline.whole, hline.ends⟩, ?_⟩
        · rw [hline.split, List.cons_append]
        · rw [List.count_cons_of_ne hb, hi]

/-- Of two lines, one behind no more newlines begins no later. -/
theorem IsLine.begins_le {before' line' after' : Text} (h : IsLine src before line after)
    (h' : IsLine src before' line' after')
    (hc : before'.count newline ≤ before.count newline) : before'.length ≤ before.length := by
  by_contra hlt
  have hpre : before <+: before' := List.prefix_of_prefix_length_le
    ⟨_, h.split.symm⟩ ⟨_, h'.split.symm⟩ (by omega)
  obtain ⟨rest, rfl⟩ := hpre
  have hne : rest ≠ [] := by
    rintro rfl
    simp at hlt
  have hlast : rest.getLast? = some newline := by
    rcases h'.begins with hnil | hlast
    · exact absurd (List.append_eq_nil_iff.1 hnil).2 hne
    · rwa [List.getLast?_append_of_ne_nil _ hne] at hlast
  have hpos := List.count_pos_iff.2 (List.mem_of_getLast? hlast)
  rw [List.count_append] at hc
  omega

end IsLine

/-- The line that an offset is on, and what a place there says of it. -/
theorem exists_line_of_marks {file src : Text} {p : Nat} {l : Location}
    (h : l.Marks file src p) (hp : p ≤ src.length) :
    ∃ before line after, IsLine src before line after ∧ before.length ≤ p ∧
      p ≤ before.length + line.length ∧ l.line = 1 + before.count newline ∧
      l.col = 1 + (p - before.length) := by
  obtain ⟨before, last, hsplit, hbegins, hlast, hcol⟩ := h.col
  have hlen : p = before.length + last.length := by
    rw [← List.length_append, ← hsplit, List.length_take_of_le hp]
  have hrest := List.takeWhile_append_dropWhile (p := (· != newline)) (l := src.drop p)
  refine ⟨before, last ++ (src.drop p).takeWhile (· != newline),
    (src.drop p).dropWhile (· != newline), ⟨?_, hbegins, ?_, ?_⟩, by omega, ?_, ?_, ?_⟩
  · rw [List.append_assoc, hrest, ← List.append_assoc, ← hsplit, List.take_append_drop]
  · intro hmem
    rcases List.mem_append.1 hmem with hmem | hmem
    · exact hlast hmem
    · simpa using List.mem_takeWhile_imp hmem
  · have hhead := List.head?_dropWhile_not (· != newline) (src.drop p)
    rcases hd : (src.drop p).dropWhile (· != newline) with _ | ⟨b, t⟩ <;> rw [hd] at hhead
    · exact .inl rfl
    · exact .inr (congrArg some (by simpa using hhead))
  · rw [List.length_append]
    omega
  · rw [h.line, hsplit, List.count_append, List.count_eq_zero_of_not_mem hlast]
    simp
  · rw [hcol]
    omega

end Tacit.Lines
