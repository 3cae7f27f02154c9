import Tacit.Proofs.Spelling
import Tacit.Proofs.Stretches

/-!
# What builtins take for a character

`chars`, `length` and `slice` all read a string as its characters, a stray byte standing for the
replacement character, and a string of characters is read as just these. So a string may be cut
before it is taken apart or after (`characters_agree`). `join` puts the characters together again:
that is the string exactly if no byte of it is stray.
-/

namespace Tacit.Builtin

section Giving

variable (s : Text) (cells : List Value)

theorem chars_str : chars.Gives [.str s] (.ofTexts (charTexts s)) := fun _ _ => rfl

theorem length_str : length.Gives [.str s] (.num (.ofNat (Text.charCount s))) := fun _ _ => rfl

theorem length_array : length.Gives [.array cells] (.num (.ofNat cells.length)) := fun _ _ => rfl

theorem strings_map_str : ∀ ts : List Text, strings (ts.map .str) = .ok ts
  | [] => rfl
  | t :: ts => by
    have ih := strings_map_str ts
    simp only [strings] at ih ⊢
    rw [List.map_cons, List.mapM_cons, ih]
    rfl

theorem join_texts (ts : List Text) (sep : Text) :
    join.Gives [.ofTexts ts, .str sep] (.str (Text.joined sep ts)) := by
  intro call w
  have hcells : (Value.ofTexts ts).asCells = ts.map .str := rfl
  simp only [run, hcells, strings_map_str]
  rfl

end Giving

theorem length_charTexts (s : Text) : (charTexts s).length = Text.charCount s := by
  rw [charTexts, List.length_map, Text.chars, List.length_map, Text.charCount]

theorem charTexts_ofChars (cs : List Char) : charTexts (.ofChars cs) = cs.map .ofChar := by
  rw [charTexts, Text.chars_ofChars]

theorem joined_nil : ∀ ts : List Text, Text.joined [] ts = ts.flatten
  | [] => rfl
  | [t] => by simp [Text.joined]
  | t :: u :: ts => by simp [Text.joined, joined_nil (u :: ts)]

theorem joined_charTexts (s : Text) : Text.joined [] (charTexts s) = Text.ofChars (Text.chars s) := by
  rw [joined_nil, charTexts, Text.ofChars, List.flatMap_def]

/-- A string, valid UTF-8 or not, has as many characters as `chars` gives cells, what `slice` cuts
out of it has the characters that it cuts out of these cells, and joined without a separator the
cells are the string exactly if it is valid UTF-8. -/
theorem characters_agree (s : Text) (start : Number) (stop : Option Number) :
    ∃ (cells cut : List Value) (n : Value) (part joined : Text),
      chars.Gives [.str s] (.array cells) ∧
      length.Gives [.str s] n ∧ length.Gives [.array cells] n ∧
      slice.Gives [.str s, indices start stop] (.str part) ∧
      chars.Gives [.str part] (.array cut) ∧
      slice.Gives [.array cells, indices start stop] (.array cut) ∧
      join.Gives [.array cells, .str []] (.str joined) ∧
      (joined = s ↔ s.toByteArray.IsValidUTF8) := by
  have hcount : length.Gives [.ofTexts (charTexts s)] (.num (.ofNat (Text.charCount s))) := by
    have h := length_array ((charTexts s).map .str)
    rwa [List.length_map, length_charTexts] at h
  have hcut : charTexts (Text.ofChars
      (sliced (Text.chars s) (indexNumber start) (stop.map indexNumber)))
        = sliced (charTexts s) (indexNumber start) (stop.map indexNumber) := by
    rw [charTexts_ofChars, charTexts, sliced_map]
  have hslice : slice.Gives [.ofTexts (charTexts s), indices start stop]
      (.ofTexts (sliced (charTexts s) (indexNumber start) (stop.map indexNumber))) := by
    have h := slice_array start stop ((charTexts s).map .str)
    rwa [sliced_map] at h
  refine ⟨_, _, _, _, _, chars_str s, length_str s, hcount, slice_str start stop s, chars_str _, ?_,
    join_texts (charTexts s) [], ?_⟩
  · rw [hcut]
    exact hslice
  · rw [joined_charTexts, Text.validUTF8_iff]

end Tacit.Builtin
