import Tacit.Proofs.Splits

/-!
# What differences say of two texts

In a listing of differences a tag stands in front of every line. The lines that are kept or dropped
are those of the first text, and those that are kept or added are those of the second
(`filterMap_old_changes`, `filterMap_new_changes`). As the lines of a text tell the text, but for a
newline at its end, both texts can be made again from the listing (`difference_determines`).
-/

namespace Tacit.Lines

open Location (newline)
open Profile.Callgrind (closed closed_cons)

namespace Change

/-- The line as one of the first list. -/
def old? : Change → Option Text
  | keep line | drop line => some line
  | add _ => none

/-- The line as one of the second list. -/
def new? : Change → Option Text
  | keep line | add line => some line
  | drop _ => none

/-- How the line is listed, without the newline behind it. -/
def shown : Change → Text
  | keep line => " " ++ line
  | drop line => "-" ++ line
  | add line => "+" ++ line

theorem text_eq (c : Change) : c.text = c.shown ++ [newline] := by
  cases c <;> rfl

theorem newline_not_mem_shown {c : Change} (ho : ∀ l ∈ c.old?, newline ∉ l)
    (hn : ∀ l ∈ c.new?, newline ∉ l) : newline ∉ c.shown := by
  cases c with
  | keep line | drop line =>
    exact List.not_mem_cons_of_ne_of_not_mem (by decide) (ho line rfl)
  | add line => exact List.not_mem_cons_of_ne_of_not_mem (by decide) (hn line rfl)

end Change

section Changes

variable (old new : List Text)

/-- The lines that were there before are the old ones, in order. -/
theorem filterMap_old_changes : (changes old new).filterMap Change.old? = old := by
  fun_induction changes old new with
  | case1 new => simp [List.filterMap_map, Function.comp_def, Change.old?]
  | case2 old => simp [List.filterMap_map, Function.comp_def, Change.old?]
  | case3 a old b new h ih => exact congrArg (a :: ·) ih
  | case4 a old b new h ih => exact congrArg (a :: ·) ih

theorem filterMap_new_changes : (changes old new).filterMap Change.new? = new := by
  fun_induction changes old new with
  | case1 new => simp [List.filterMap_map, Function.comp_def, Change.new?]
  | case2 old => simp [List.filterMap_map, Function.comp_def, Change.new?]
  | case3 a old b new h ih =>
    obtain rfl : a = b := eq_of_beq h
    exact congrArg (a :: ·) ih
  | case4 a old b new h ih => exact ih

/-- What is listed are lines of the two lists. -/
theorem newline_not_mem_changes {old new : List Text} (ho : ∀ l ∈ old, newline ∉ l)
    (hn : ∀ l ∈ new, newline ∉ l) : ∀ c ∈ changes old new, newline ∉ c.shown := by
  intro c hc
  refine Change.newline_not_mem_shown (fun l hl => ho l ?_) fun l hl => hn l ?_
  · rw [← filterMap_old_changes old new]
    exact List.mem_filterMap.2 ⟨c, hc, hl⟩
  · rw [← filterMap_new_changes old new]
    exact List.mem_filterMap.2 ⟨c, hc, hl⟩

end Changes

/-- What stands behind a tag, if it is one of some. -/
def behind (tags : Text) : Text → Option Text
  | [] => none
  | tag :: line => if tag ∈ tags then some line else none

/-- The tags of what is kept or dropped. -/
def oldTags : Text := " -"

/-- The tags of what is kept or added. -/
def newTags : Text := " +"

theorem behind_oldTags (c : Change) : behind oldTags c.shown = c.old? := by
  cases c <;> rfl

theorem behind_newTags (c : Change) : behind newTags c.shown = c.new? := by
  cases c <;> rfl

theorem filterMap_oldTags (old new : List Text) :
    ((changes old new).map Change.shown).filterMap (behind oldTags) = old := by
  have hbehind : behind oldTags ∘ Change.shown = Change.old? := funext behind_oldTags
  rw [List.filterMap_map, hbehind, filterMap_old_changes]

theorem filterMap_newTags (old new : List Text) :
    ((changes old new).map Change.shown).filterMap (behind newTags) = new := by
  have hbehind : behind newTags ∘ Change.shown = Change.new? := funext behind_newTags
  rw [List.filterMap_map, hbehind, filterMap_new_changes]

/-- The lines of a listing that have one of some tags, as a text. The two lines in front have
none. -/
def rebuilt (tags listing : Text) : Text :=
  closed newline (((ofText listing).drop 2).filterMap (behind tags))

/-- Whether texts are the same but for a newline at the end of one of them. -/
def AlikeButEnd (t u : Text) : Prop := t = u ∨ t = u ++ [newline] ∨ u = t ++ [newline]

theorem closed_ofText_alike (t : Text) : AlikeButEnd (closed newline (ofText t)) t := by
  rcases closed_ofText t with h | h
  · exact .inl h
  · exact .inr (.inl h)

theorem AlikeButEnd.of_ofText {t u : Text} (h : ofText t = ofText u) : AlikeButEnd t u := by
  have hclosed : closed newline (ofText t) = closed newline (ofText u) := by rw [h]
  rcases closed_ofText t with ht | ht <;> rcases closed_ofText u with hu | hu <;>
    rw [ht, hu] at hclosed
  · exact .inl hclosed
  · exact .inr (.inl hclosed)
  · exact .inr (.inr hclosed.symm)
  · exact .inl (List.append_cancel_right hclosed)

theorem newline_not_mem_ofText (t : Text) : ∀ l ∈ ofText t, newline ∉ l := by
  obtain ⟨ls, last, rfl, hls, hlast⟩ := exists_closed newline t
  rw [ofText_closed hls hlast]
  refine List.forall_mem_append.2 ⟨hls, ?_⟩
  split_ifs <;> simp [hlast]

variable {path : Text}

/-- A difference is two lines with the path and then a line for each change. -/
theorem difference_eq (path old new : Text) : difference path old new = closed newline
    (("--- " ++ path) :: ("+++ " ++ path) ::
      (changes (ofText old) (ofText new)).map Change.shown) := by
  simp only [difference, closed, List.flatMap_cons, List.flatMap_map, ← Change.text_eq,
    List.append_assoc]
  rfl

/-- The lines of a listing. -/
theorem ofText_difference (hpath : newline ∉ path) (old new : Text) :
    ofText (difference path old new) = ("--- " ++ path) :: ("+++ " ++ path) ::
      (changes (ofText old) (ofText new)).map Change.shown := by
  rw [difference_eq]
  refine ofText_closed_nil (List.forall_mem_cons.2 ⟨?_, List.forall_mem_cons.2 ⟨?_, ?_⟩⟩)
  · exact List.not_mem_append (by decide) hpath
  · exact List.not_mem_append (by decide) hpath
  · exact List.forall_mem_map.2
      (newline_not_mem_changes (newline_not_mem_ofText old) (newline_not_mem_ofText new))

/-- Behind its two first lines, a listing of differences has the lines of the first text, with the
tags of what is kept or dropped, and those of the second, with the tags of what is kept or added.
Texts with the same lines are alike but for a newline at the end. So are both texts and those that
are made again of the listing, and the texts of which the listing is the same. -/
theorem difference_determines (hpath : newline ∉ path) (old new : Text) :
    (∃ listed, ofText (difference path old new) =
        ("--- " ++ path) :: ("+++ " ++ path) :: listed ∧
      listed.filterMap (behind oldTags) = ofText old ∧
      listed.filterMap (behind newTags) = ofText new) ∧
    (∀ t u : Text, ofText t = ofText u → AlikeButEnd t u) ∧
    (AlikeButEnd (rebuilt oldTags (difference path old new)) old ∧
      AlikeButEnd (rebuilt newTags (difference path old new)) new) ∧
    ∀ old' new' : Text, difference path old' new' = difference path old new →
      AlikeButEnd old' old ∧ AlikeButEnd new' new := by
  have hlines := ofText_difference hpath
  have hold := filterMap_oldTags (ofText old) (ofText new)
  have hnew := filterMap_newTags (ofText old) (ofText new)
  refine ⟨⟨_, hlines old new, hold, hnew⟩, fun t u => .of_ofText, ⟨?_, ?_⟩, ?_⟩
  · rw [rebuilt, hlines, List.drop_succ_cons, List.drop_succ_cons, List.drop_zero, hold]
    exact closed_ofText_alike old
  · rw [rebuilt, hlines, List.drop_succ_cons, List.drop_succ_cons, List.drop_zero, hnew]
    exact closed_ofText_alike new
  · intro old' new' h
    have hsame := congrArg ofText h
    rw [hlines, hlines, List.cons_inj_right, List.cons_inj_right] at hsame
    refine ⟨.of_ofText ?_, .of_ofText ?_⟩
    · rw [← hold, ← hsame, filterMap_oldTags]
    · rw [← hnew, ← hsame, filterMap_newTags]

/-- An empty line is dropped, and the end of the last line is added. -/
theorem difference_determines_unended :
    let old : Text := "x\n\ny"
    let new : Text := "x\n-y\n"
    newline ∉ ("a" : Text) ∧ difference "a" old new = "--- a\n+++ a\n x\n-\n-y\n+-y\n" ∧
    AlikeButEnd (rebuilt oldTags (difference "a" old new)) old ∧
    AlikeButEnd (rebuilt newTags (difference "a" old new)) new := by
  intro old new
  have hpath : newline ∉ ("a" : Text) := by decide
  exact ⟨hpath, by decide, (difference_determines hpath old new).2.2.1⟩

end Tacit.Lines
