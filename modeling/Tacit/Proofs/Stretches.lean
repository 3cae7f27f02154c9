import Tacit.Proofs.SafeBuiltins

/-!
# Stretches of a sequence

What `slice` and `take` give of an array, and `slice` of a string, is `sliced` between the integers
that their numbers stand for. Such an integer fits a word of 64 bits (`exists_word`), and computed
on words, whose sums wrap around, the bounds of a stretch are the same (`sliceBounds_words`): a sum
is only ever formed of a negative index and a length.

Whatever the integers, what is in front of an index and what is behind it make up the sequence
(`sliced_append_sliced`), and a stretch has just the members whose positions lie between its
indices, each counted from the end if negative and moved into the sequence (`sliced_eq_between`).
-/

namespace Tacit.Builtin

/-- A builtin gives a value, whatever it has to apply functions with and whatever world it runs in,
and leaves the world as it is. -/
def Gives (b : Builtin) (args : List Value) (v : Value) : Prop :=
  ∀ (call : Applier) (w : World), b.run call args w = .ok v w

/-- The operand that holds one index or two. -/
def indices (start : Number) (stop : Option Number) : Value :=
  .array (.num start :: (stop.map .num).toList)

/-- The integer that a number stands for as an index. -/
def indexNumber (x : Number) : Int := indexOf (.num x)

section Giving

variable (start : Number) (stop : Option Number)

theorem sliceIndices_indices :
    sliceIndices (indices start stop) = .ok (indexNumber start, stop.map indexNumber) := by
  cases stop <;> rfl

theorem slice_str (s : Text) : slice.Gives [.str s, indices start stop]
    (.str (.ofChars (sliced (Text.chars s) (indexNumber start) (stop.map indexNumber)))) := by
  intro call w
  simp only [run, sliceValue, sliceIndices_indices]
  rfl

theorem slice_array (cells : List Value) : slice.Gives [.array cells, indices start stop]
    (.array (sliced cells (indexNumber start) (stop.map indexNumber))) := by
  intro call w
  simp only [run, sliceValue, sliceIndices_indices]
  rfl

theorem take_array (cells : List Value) (x : Number) :
    take.Gives [.array cells, .num x] (.array (sliced cells 0 (some (indexNumber x)))) :=
  fun _ _ => rfl

end Giving

theorem sliced_map {α β : Type} (f : α → β) (xs : List α) (start : Int) (stop : Option Int) :
    sliced (xs.map f) start stop = (sliced xs start stop).map f := by
  simp only [sliced, List.length_map, List.map_take, List.map_drop]

/-- Where an index leads, computed on words. -/
def clampWord (n i : Int64) : Int64 :=
  let i := if i < 0 then i + n else i
  if i < 0 then 0 else if n < i then n else i

/-- The bounds of a stretch, computed on words. -/
def boundsOfWords (n start : Int64) (stop : Option Int64) : Int64 × Int64 :=
  let i := clampWord n start
  let j := stop.elim n (clampWord n)
  (i, if j < i then i else j)

theorem neg_iff {i : Int64} : i < 0 ↔ i.toInt < 0 := Int64.lt_iff_toInt_lt

section Words

variable {n : Int64} (hn : 0 ≤ n)
include hn

/-- A length does not carry a negative index past the greatest word. -/
theorem toInt_add_of_neg {i : Int64} (hi : i < 0) : (i + n).toInt = i.toInt + n.toInt := by
  have hn' : 0 ≤ n.toInt := Int64.le_iff_toInt_le.1 hn
  have hi' : i.toInt < 0 := neg_iff.1 hi
  have hmax := n.toInt_lt
  have hmin := i.le_toInt
  rw [Int64.toInt_add]
  exact Int.bmod_eq_of_le (by omega) (by omega)

theorem toInt_clampWord (i : Int64) :
    (clampWord n i).toInt = clampIndex n.toInt.toNat i.toInt := by
  have hn' : 0 ≤ n.toInt := Int64.le_iff_toInt_le.1 hn
  have hsum : (if i < 0 then i + n else i).toInt
      = if i.toInt < 0 then i.toInt + n.toInt.toNat else i.toInt := by
    by_cases hi : i < 0
    · rw [if_pos hi, if_pos (neg_iff.1 hi), toInt_add_of_neg hn hi]
      omega
    · rw [if_neg hi, if_neg (mt neg_iff.2 hi)]
  simp only [clampWord, clampIndex, ← hsum]
  generalize (if i < 0 then i + n else i) = k
  by_cases hneg : k < 0
  · rw [if_pos hneg, if_pos (neg_iff.1 hneg)]
    rfl
  · have hk : ¬ k.toInt < 0 := mt neg_iff.2 hneg
    rw [if_neg hneg, if_neg hk]
    by_cases hlarge : n < k
    · have hk' : n.toInt < k.toInt := Int64.lt_iff_toInt_lt.1 hlarge
      rw [if_pos hlarge, if_pos (by omega)]
      omega
    · have hk' : ¬ n.toInt < k.toInt := mt Int64.lt_iff_toInt_lt.2 hlarge
      rw [if_neg hlarge, if_neg (by omega)]
      omega

/-- The bounds of a stretch are the same on words as on integers. -/
theorem sliceBounds_words (start : Int64) (stop : Option Int64) :
    sliceBounds n.toInt.toNat start.toInt (stop.map Int64.toInt)
      = ((boundsOfWords n start stop).1.toInt.toNat, (boundsOfWords n start stop).2.toInt.toNat) := by
  have hn' : 0 ≤ n.toInt := Int64.le_iff_toInt_le.1 hn
  have hstart := toInt_clampWord hn start
  have hstop : (stop.elim n (clampWord n)).toInt
      = ((stop.map Int64.toInt).elim n.toInt.toNat (clampIndex n.toInt.toNat) : Nat) := by
    cases stop with
    | none => exact (Int.toNat_of_nonneg hn').symm
    | some j => exact toInt_clampWord hn j
  simp only [boundsOfWords, sliceBounds]
  by_cases hlt : stop.elim n (clampWord n) < clampWord n start
  · have hlt' := Int64.lt_iff_toInt_lt.1 hlt
    rw [if_pos hlt, Nat.max_eq_left (by omega), hstart, Int.toNat_natCast]
  · have hlt' := mt Int64.lt_iff_toInt_lt.2 hlt
    rw [if_neg hlt, Nat.max_eq_right (by omega), hstart, hstop, Int.toNat_natCast,
      Int.toNat_natCast]

/-- The bounds of a stretch, computed on words, are in order and within the sequence. -/
theorem boundsOfWords_le (start : Int64) (stop : Option Int64) :
    0 ≤ (boundsOfWords n start stop).1 ∧
      (boundsOfWords n start stop).1 ≤ (boundsOfWords n start stop).2 ∧
      (boundsOfWords n start stop).2 ≤ n := by
  have hn' : 0 ≤ n.toInt := Int64.le_iff_toInt_le.1 hn
  have hrange : ∀ i, 0 ≤ clampWord n i ∧ clampWord n i ≤ n := by
    intro i
    have hi := toInt_clampWord hn i
    have hle := clampIndex_le n.toInt.toNat i.toInt
    exact ⟨Int64.le_iff_toInt_le.2 (by rw [hi]; exact Int.natCast_nonneg _),
      Int64.le_iff_toInt_le.2 (by omega)⟩
  have hstop : stop.elim n (clampWord n) ≤ n := by
    cases stop with
    | none => exact Int64.le_refl n
    | some j => exact (hrange j).2
  refine ⟨(hrange start).1, ?_⟩
  simp only [boundsOfWords]
  by_cases hlt : stop.elim n (clampWord n) < clampWord n start
  · rw [if_pos hlt]
    exact ⟨Int64.le_refl _, (hrange start).2⟩
  · rw [if_neg hlt]
    exact ⟨Int64.not_lt.1 hlt, hstop⟩

end Words

/-- The integer that a number stands for fits a word. -/
theorem exists_word (x : Number) : ∃ w : Int64, w.toInt = indexNumber x := by
  have hscale : (Binary.scale 63 : Int) = 9223372036854775808 := rfl
  have hrange : -9223372036854775808 ≤ indexNumber x ∧ indexNumber x < 9223372036854775808 := by
    unfold indexNumber indexOf Whole.part
    split
    · rw [Whole.least, hscale]
      omega
    · simp only [Whole.least]
      split_ifs <;> omega
  exact ⟨.ofInt (indexNumber x), Int64.toInt_ofInt_of_le hrange.1 hrange.2⟩

theorem sliced_append_sliced {α : Type} (xs : List α) (i : Int) :
    sliced xs 0 (some i) ++ sliced xs i none = xs := by
  have hzero : clampIndex xs.length 0 = 0 := rfl
  have hback : ((xs.drop (clampIndex xs.length i)).take
      (max (clampIndex xs.length i) xs.length - clampIndex xs.length i))
        = xs.drop (clampIndex xs.length i) :=
    List.take_of_length_le (by rw [List.length_drop]; omega)
  simp only [sliced, sliceBounds, hzero, Option.elim_some, Option.elim_none, hback, List.drop_zero,
    Nat.zero_max, Nat.sub_zero]
  exact List.take_append_drop _ xs

/-- Where an index points in a sequence of `n` members: from the end if it is negative, and within
the sequence. -/
def norm (n : Nat) (m : Int) : Int := max 0 (min n (if m < 0 then m + n else m))

theorem clampIndex_eq_norm (n : Nat) (m : Int) : clampIndex n m = norm n m := by
  simp only [clampIndex, norm]
  split_ifs <;> omega

/-- The members of a sequence at the positions between two, in order. -/
def between {α : Type} (xs : List α) (i j : Int) : List α :=
  (xs.zipIdx.filter fun c => i ≤ c.2 ∧ c.2 < j).map (·.1)

theorem between_from {α : Type} (i j : Nat) : ∀ (xs : List α) (k : Nat),
    ((xs.zipIdx k).filter fun c => (i : Int) ≤ c.2 ∧ (c.2 : Int) < j).map (·.1)
      = (xs.drop (i - k)).take (j - max i k)
  | [], k => by simp
  | x :: xs, k => by
    have ih := between_from i j xs (k + 1)
    rw [List.zipIdx_cons, List.filter_cons]
    rcases Nat.lt_or_ge k i with hki | hki
    · rw [if_neg (by simp; omega), ih, Nat.max_eq_left hki, Nat.max_eq_left (Nat.le_of_lt hki),
        show i - k = (i - (k + 1)) + 1 by omega, List.drop_succ_cons]
    · rw [Nat.max_eq_right hki, Nat.sub_eq_zero_of_le hki, List.drop_zero]
      rw [Nat.max_eq_right (by omega : i ≤ k + 1), Nat.sub_eq_zero_of_le (by omega : i ≤ k + 1),
        List.drop_zero] at ih
      rcases Nat.lt_or_ge k j with hkj | hkj
      · rw [if_pos (by simp; omega), List.map_cons, ih, show j - k = (j - (k + 1)) + 1 by omega,
          List.take_succ_cons]
      · rw [if_neg (by simp; omega), ih, Nat.sub_eq_zero_of_le (by omega : j ≤ k + 1),
          Nat.sub_eq_zero_of_le hkj, List.take_zero, List.take_zero]

/-- A stretch is the members between two positions. -/
theorem sliced_eq_between {α : Type} (xs : List α) (a b : Int) :
    sliced xs a (some b) = between xs (norm xs.length a) (norm xs.length b) := by
  have h := between_from (clampIndex xs.length a) (clampIndex xs.length b) xs 0
  simp only [sliced, sliceBounds, Option.elim_some, between, ← clampIndex_eq_norm]
  rw [h, Nat.sub_zero, Nat.max_zero]
  congr 1
  omega

/-- Numbers enter `take` and `slice` by the integers that they stand for, and these fit words.
Whatever words they are, the bounds computed of them are in order, within the sequence, and those
that `sliced` uses. Whatever integers they are, what is in front of one and what is behind it make
up the array, and between two are just the members at the positions between those they point to. -/
theorem stretches_exact {n : Int64} (hn : 0 ≤ n) (start : Int64) (stop : Option Int64)
    (cells : List Value) (x y : Number) (a b : Int) :
    (0 ≤ (boundsOfWords n start stop).1 ∧
      (boundsOfWords n start stop).1 ≤ (boundsOfWords n start stop).2 ∧
      (boundsOfWords n start stop).2 ≤ n ∧
      sliceBounds n.toInt.toNat start.toInt (stop.map Int64.toInt)
        = ((boundsOfWords n start stop).1.toInt.toNat,
            (boundsOfWords n start stop).2.toInt.toNat)) ∧
    (∃ w : Int64, w.toInt = indexNumber x) ∧
    take.Gives [.array cells, .num x] (.array (sliced cells 0 (some (indexNumber x)))) ∧
    slice.Gives [.array cells, indices x none] (.array (sliced cells (indexNumber x) none)) ∧
    slice.Gives [.array cells, indices x (some y)]
      (.array (sliced cells (indexNumber x) (some (indexNumber y)))) ∧
    sliced cells 0 (some a) ++ sliced cells a none = cells ∧
    sliced cells a (some b) = between cells (norm cells.length a) (norm cells.length b) := by
  obtain ⟨hlow, horder, hhigh⟩ := boundsOfWords_le hn start stop
  exact ⟨⟨hlow, horder, hhigh, sliceBounds_words hn start stop⟩, exists_word x,
    take_array cells x, slice_array x none cells, slice_array x (some y) cells,
    sliced_append_sliced cells a, sliced_eq_between cells a b⟩

/-- From the least word to the greatest is all of three members; and an index that no number gives
points to the first of them. -/
theorem stretches_exact_extremes :
    (0 : Int64) ≤ 3 ∧ boundsOfWords 3 Int64.minValue (some Int64.maxValue) = (0, 3) ∧
      (boundsOfWords 3 Int64.minValue (some Int64.maxValue)).2 ≤ 3 ∧
      slice.Gives [.array [.bool true, .bool false, .str []], indices (.nan 0) none]
        (.array [.bool true, .bool false, .str []]) ∧
      sliced [Value.bool true, .bool false, .str []] (-2) (some 5)
        = between [Value.bool true, .bool false, .str []] 1 3 := by
  have h := stretches_exact (n := 3) (by decide) Int64.minValue (some Int64.maxValue)
    [.bool true, .bool false, .str []] (.nan 0) (.nan 0) (-2) 5
  exact ⟨by decide, by decide, h.1.2.2.1, h.2.2.2.1, h.2.2.2.2.2.2⟩

end Tacit.Builtin
