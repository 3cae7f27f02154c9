import Tacit.Proofs.Lines
import Tacit.Proofs.ProfileFormat

/-!
# Lines, and the text that they make

A text is some lines, each ended by a newline, and then what stands behind the last newline
(`exists_closed`). Both are told by the text, so its lines can be read off however the text came
about (`ofText_closed`). With a newline behind each, the lines make the text again, except that it
then ends with a newline if it holds anything at all (`closed_ofText`).
-/

namespace Tacit.Lines

open Location (newline)
open Profile.Callgrind (closed closed_nil closed_cons closed_append)

theorem pieces_of_not_mem {sep : UInt8} {t : Text} (h : sep ∉ t) : Text.pieces sep t = [t] := by
  induction t with
  | nil => rfl
  | cons b t ih =>
    obtain ⟨hb, ht⟩ := List.ne_and_not_mem_of_not_mem_cons h
    exact pieces_cons hb.symm (ih ht)

theorem pieces_append_sep {sep : UInt8} {line : Text} (h : sep ∉ line) (rest : Text) :
    Text.pieces sep (line ++ sep :: rest) = line :: Text.pieces sep rest := by
  induction line with
  | nil => exact pieces_sep sep rest
  | cons b line ih =>
    obtain ⟨hb, hline⟩ := List.ne_and_not_mem_of_not_mem_cons h
    exact pieces_cons hb.symm (ih hline)

theorem pieces_closed {sep : UInt8} {ls : List Text} {last : Text} (hls : ∀ l ∈ ls, sep ∉ l)
    (hlast : sep ∉ last) : Text.pieces sep (closed sep ls ++ last) = ls ++ [last] := by
  induction ls with
  | nil => exact pieces_of_not_mem hlast
  | cons l ls ih =>
    obtain ⟨hl, hrest⟩ := List.forall_mem_cons.1 hls
    rw [closed_cons, List.append_assoc, List.cons_append, pieces_append_sep hl, ih hrest]
    rfl

/-- A text is some lines and what stands behind the last newline. -/
theorem exists_closed (sep : UInt8) (t : Text) : ∃ (ls : List Text) (last : Text),
    t = closed sep ls ++ last ∧ (∀ l ∈ ls, sep ∉ l) ∧ sep ∉ last := by
  induction t with
  | nil => exact ⟨[], [], rfl, by simp, by simp⟩
  | cons b t ih =>
    obtain ⟨ls, last, rfl, hls, hlast⟩ := ih
    by_cases hb : b = sep
    · subst hb
      exact ⟨[] :: ls, last, by simp, by simpa using hls, hlast⟩
    · rcases ls with _ | ⟨l, ls⟩
      · exact ⟨[], b :: last, rfl, by simp, by simp [Ne.symm hb, hlast]⟩
      · refine ⟨(b :: l) :: ls, last, by simp, ?_, hlast⟩
        obtain ⟨hl, hrest⟩ := List.forall_mem_cons.1 hls
        exact List.forall_mem_cons.2 ⟨by simp [Ne.symm hb, hl], hrest⟩

section Text

variable {ls : List Text} {last : Text} (hls : ∀ l ∈ ls, newline ∉ l)
include hls

/-- Lines with a newline behind each are these lines, and what stands behind the last newline is one
more unless it is empty. -/
theorem ofText_closed (hlast : newline ∉ last) :
    ofText (closed newline ls ++ last) = ls ++ if last = [] then [] else [last] := by
  simp only [ofText, pieces_closed hls hlast, List.getLast?_concat, List.dropLast_concat,
    Option.some.injEq]
  split_ifs <;> simp

theorem ofText_closed_nil : ofText (closed newline ls) = ls := by
  simpa using ofText_closed hls (show newline ∉ [] by simp)

end Text

/-- With a newline behind each, the lines of a text make the text, which then ends with a newline
if there is a line. -/
theorem closed_ofText (t : Text) : closed newline (ofText t) = t ∨
    closed newline (ofText t) = t ++ [newline] := by
  obtain ⟨ls, last, rfl, hls, hlast⟩ := exists_closed newline t
  rw [ofText_closed hls hlast]
  split_ifs with h
  · exact .inl (by simp [h])
  · exact .inr (by simp)

end Tacit.Lines
