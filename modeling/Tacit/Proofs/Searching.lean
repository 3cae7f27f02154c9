import Tacit.Proofs.Characters
import Tacit.Proofs.Entering
import Tacit.Proofs.Exactness

/-!
# Where a string stands in another

`indexIn` finds the least byte offset at which a string stands (`indexOf?_eq_some`,
`indexOf?_eq_none`) and gives how many characters are in front of it. The bytes of some characters
stand where the characters do, and the more characters there are in front, the more bytes
(`length_ofChars_lt`). So the number given is the least character index at which `slice` cuts the
string out again, and it is minus one exactly if no index is such (`search_exact`).

Character indices below 2 ^ 53 are exact numbers. A sum of two such need not be, but then it leads
behind the end of any string.
-/

namespace Tacit

namespace Text

/-- The offset found is the least at which the text stands. -/
theorem indexOf?_eq_some {p : Text} : ∀ {t : Text} {i : Nat}, indexOf? p t = some i →
    ∃ a r, t = a ++ (p ++ r) ∧ a.length = i ∧ ∀ b u, t = b ++ (p ++ u) → i ≤ b.length
  | [], i, h => by
    simp only [indexOf?] at h
    split at h
    · next hp =>
      obtain rfl := Option.some.inj h
      exact ⟨[], [], by simpa using hp, rfl, fun _ _ _ => Nat.zero_le _⟩
    · cases h
  | x :: t, i, h => by
    simp only [indexOf?] at h
    split at h
    · next hp =>
      obtain rfl := Option.some.inj h
      obtain ⟨u, hu⟩ := Option.isSome_iff_exists.1 hp
      refine ⟨[], u, ?_, rfl, fun _ _ _ => Nat.zero_le _⟩
      rw [List.nil_append]
      exact eq_append_of_after? hu
    · next hp =>
      obtain ⟨j, hj, rfl⟩ := Option.map_eq_some_iff.1 h
      obtain ⟨a, r, ht, ha, hleast⟩ := indexOf?_eq_some hj
      refine ⟨x :: a, r, by rw [ht]; rfl, by rw [List.length_cons, ha], fun b u hb => ?_⟩
      rcases b with _ | ⟨y, b⟩
      · rw [hb, List.nil_append, after?_append] at hp
        exact absurd rfl hp
      · rw [List.cons_append, List.cons.injEq] at hb
        exact Nat.succ_le_succ (hleast b u hb.2)

/-- A text that is not found stands nowhere. -/
theorem indexOf?_eq_none {p : Text} : ∀ {t : Text}, indexOf? p t = none →
    ∀ b u, t ≠ b ++ (p ++ u)
  | [], h, b, u => by
    intro hb
    obtain ⟨-, hpu⟩ := List.append_eq_nil_iff.1 hb.symm
    obtain ⟨rfl, -⟩ := List.append_eq_nil_iff.1 hpu
    cases h
  | x :: t, h, b, u => by
    intro hb
    simp only [indexOf?] at h
    split at h
    · cases h
    · next hp =>
      rcases b with _ | ⟨y, b⟩
      · rw [hb, List.nil_append, after?_append] at hp
        exact hp rfl
      · rw [List.cons_append, List.cons.injEq] at hb
        exact indexOf?_eq_none (Option.map_eq_none_iff.1 h) b u hb.2

/-- The bytes of fewer characters of a list are fewer. -/
theorem length_ofChars_lt {cs : List Char} {j : Nat} (h : j < cs.length) :
    (ofChars (cs.take j)).length < (ofChars cs).length := by
  have hsplit : ofChars cs = ofChars (cs.take j) ++ ofChars (cs.drop j) := by
    rw [← ofChars_append, List.take_append_drop]
  have hpos : 0 < (ofChars (cs.drop j)).length := by
    refine List.length_pos_iff.2 fun hnil => ?_
    have hdrop : cs.drop j = [] := ofChars_injective hnil
    rw [List.drop_eq_nil_iff] at hdrop
    omega
  rw [hsplit, List.length_append]
  omega

section Offsets

variable {cs ts : List Char}

/-- The bytes of some characters stand behind those of the characters in front of them. -/
theorem ofChars_eq_of_take {j : Nat} (h : (cs.drop j).take ts.length = ts) : ofChars cs
    = ofChars (cs.take j) ++ (ofChars ts ++ ofChars ((cs.drop j).drop ts.length)) := by
  conv_lhs => rw [← List.take_append_drop j cs, ← List.take_append_drop ts.length (cs.drop j), h]
  rw [ofChars_append, ofChars_append]

/-- The least offset of some characters is where they stand first, and at no place in
front of it. -/
theorem indexOf?_ofChars_eq_some {i : Nat} (h : indexOf? (ofChars ts) (ofChars cs) = some i) :
    ∃ ds vs, cs = ds ++ (ts ++ vs) ∧ charCount ((ofChars cs).take i) = ds.length ∧
      ∀ j < ds.length, (cs.drop j).take ts.length ≠ ts := by
  obtain ⟨a, r, hcs, rfl, hleast⟩ := indexOf?_eq_some h
  obtain ⟨ds, vs, hds, rfl⟩ : ∃ ds vs, cs = ds ++ (ts ++ vs) ∧ a = ofChars ds := by
    by_cases hts : ts = []
    · subst hts
      obtain rfl := List.length_eq_zero_iff.1 (Nat.le_zero.1 (hleast [] (ofChars cs) rfl))
      exact ⟨[], cs, rfl, rfl⟩
    · obtain ⟨ds, vs, hds, ha, -⟩ := exists_of_ofChars_infix hts hcs
      exact ⟨ds, vs, hds, ha⟩
  refine ⟨ds, vs, hds, ?_, fun j hj heq => ?_⟩
  · rw [hcs, List.take_left, charCount_ofChars]
  · have hle := hleast _ _ (ofChars_eq_of_take heq)
    rw [hds, List.take_append_of_le_length (Nat.le_of_lt hj)] at hle
    exact absurd (length_ofChars_lt hj) (Nat.not_lt.2 hle)

theorem indexOf?_ofChars_eq_none (h : indexOf? (ofChars ts) (ofChars cs) = none) (j : Nat) :
    (cs.drop j).take ts.length ≠ ts :=
  fun heq => indexOf?_eq_none h _ _ (ofChars_eq_of_take heq)

end Offsets

end Text

namespace Number

/-- The number for no index. -/
def noIndex : Number := .ofFloat 0 (-1)

theorem toFloat_ofFloat {mark : Nat} {x : Float} (h : (x == x) = true) :
    (ofFloat mark x).toFloat = x := by
  rw [ofFloat, dif_pos h]
  rfl

theorem toFloat_ofNat {n : Nat} (h : n < 2 ^ 53) : (ofNat n).toFloat = n.toFloat :=
  toFloat_ofFloat (toFloat_beq_self h)

end Number

namespace Builtin

theorem indexNumber_ofFloat {mark : Nat} {x : Float} (h : (x == x) = true) :
    indexNumber (.ofFloat mark x) = Whole.part x :=
  congrArg Whole.part (Number.toFloat_ofFloat h)

theorem indexNumber_ofNat {n : Nat} (h : n < 2 ^ 53) : indexNumber (.ofNat n) = n :=
  (indexNumber_ofFloat (toFloat_beq_self h)).trans (Whole.part_toFloat h)

theorem indexNumber_noIndex : indexNumber .noIndex = -1 := by
  decide +kernel

theorem ofNat_ne_noIndex {n : Nat} (h : n < 2 ^ 53) : Number.ofNat n ≠ .noIndex := by
  intro heq
  have hindex := congrArg indexNumber heq
  rw [indexNumber_ofNat h, indexNumber_noIndex] at hindex
  omega

theorem ofNat_inj {m n : Nat} (hm : m < 2 ^ 53) (hn : n < 2 ^ 53)
    (h : Number.ofNat m = .ofNat n) : m = n := by
  have hindex := congrArg indexNumber h
  rw [indexNumber_ofNat hm, indexNumber_ofNat hn] at hindex
  exact_mod_cast hindex

/-- `slice s [k (k plus length t)]`. -/
def cutOut (call : Applier) (t s : Text) (k : Number) : Eval Value := do
  let n ← length.run call [.str t]
  let stop ← plus.run call [.num k, n]
  slice.run call [.str s, .array [.num k, stop]]

theorem sliced_eq_take {α : Type} (xs : List α) {k m : Nat} {j : Int}
    (h : j = k + m ∨ xs.length ≤ j ∧ xs.length ≤ k + m) :
    sliced xs k (some j) = (xs.drop k).take m := by
  have hstart : clampIndex xs.length k = min k xs.length := by
    simp only [clampIndex]
    split_ifs <;> omega
  have hstop : clampIndex xs.length j = min (k + m) xs.length := by
    simp only [clampIndex]
    split_ifs <;> omega
  simp only [sliced, sliceBounds, Option.elim_some, hstart, hstop]
  rcases Nat.le_total xs.length k with hk | hk
  · rw [Nat.min_eq_right hk, List.drop_length, List.drop_eq_nil_of_le hk, List.take_nil,
      List.take_nil]
  · rw [Nat.min_eq_left hk]
    rcases Nat.le_total (k + m) xs.length with hm | hm
    · rw [Nat.min_eq_left hm]
      congr 1
      omega
    · rw [Nat.min_eq_right hm, List.take_of_length_le, List.take_of_length_le]
      all_goals
        rw [List.length_drop]
        omega

/-- Cutting out by an index and a length gives the characters there: the sum of both is exact, or
leads behind the end. -/
theorem cutOut_eq {cs ts : List Char} (hcs : cs.length < 2 ^ 53) (hts : ts.length < 2 ^ 53)
    {k : Nat} (hk : k < 2 ^ 53) (call : Applier) (w : World) :
    cutOut call (.ofChars ts) (.ofChars cs) (.ofNat k) w
      = .ok (.str (.ofChars ((cs.drop k).take ts.length))) w := by
  obtain ⟨hself, hpart⟩ : (k.toFloat + ts.length.toFloat == k.toFloat + ts.length.toFloat) = true ∧
      (Whole.part (k.toFloat + ts.length.toFloat) = k + ts.length ∨
        (cs.length : Int) ≤ Whole.part (k.toFloat + ts.length.toFloat) ∧
          cs.length ≤ k + ts.length) := by
    rcases Nat.lt_or_ge (k + ts.length) (2 ^ 53) with hlt | hge
    · rw [toFloat_add hlt, Whole.part_toFloat hlt]
      exact ⟨toFloat_beq_self hlt, .inl (by push_cast; rfl)⟩
    · obtain ⟨hself, hle⟩ := Whole.le_part_toFloat_add hk hts hge
      exact ⟨hself, .inr ⟨by omega, by omega⟩⟩
  have hslice := slice_str (.ofNat k) (some (.ofFloat 0 (k.toFloat + ts.length.toFloat)))
    (.ofChars cs) call w
  rw [Text.chars_ofChars, indexNumber_ofNat hk, Option.map_some, indexNumber_ofFloat hself,
    sliced_eq_take cs hpart] at hslice
  have hplus : plus.run call [.num (.ofNat k), .num (.ofNat ts.length)] w
      = .ok (.num (.ofFloat 0 (k.toFloat + ts.length.toFloat))) w := by
    simp only [run, Value.asNumber, Number.toFloat_ofNat hk, Number.toFloat_ofNat hts, EvalIn.number]
    rw [if_pos hself]
    rfl
  have hlength := length_str (.ofChars ts) call w
  rw [Text.charCount_ofChars] at hlength
  rw [cutOut, EvalIn.bind_of_ok hlength, EvalIn.bind_of_ok hplus]
  exact hslice

/-- The number that `indexIn` gives for valid texts is a character index or minus one. An index is
the least at which `slice` cuts the text out again, and minus one stands just for there being
none. -/
theorem search_exact {t s : Text} (ht : t.toByteArray.IsValidUTF8)
    (hs : s.toByteArray.IsValidUTF8) (hm : Text.charCount t < 2 ^ 53)
    (hn : Text.charCount s < 2 ^ 53) : ∃ (i : Number) (cut : Nat → Text),
      indexIn.Gives [.str t, .str s] (.num i) ∧
      (∀ k < 2 ^ 53, ∀ call w, cutOut call t s (.ofNat k) w = .ok (.str (cut k)) w) ∧
      ((∃ k ≤ Text.charCount s, i = .ofNat k) ∨ i = .noIndex) ∧
      (∀ k < 2 ^ 53, i = .ofNat k → cut k = t ∧ ∀ j < k, cut j ≠ t) ∧
      (i = .noIndex ↔ ∀ k < 2 ^ 53, cut k ≠ t) := by
  obtain ⟨ts, rfl⟩ := Text.exists_of_validUTF8 ht
  obtain ⟨cs, rfl⟩ := Text.exists_of_validUTF8 hs
  rw [Text.charCount_ofChars] at hm hn
  have hcut : ∀ k, Text.ofChars ((cs.drop k).take ts.length) = Text.ofChars ts ↔
      (cs.drop k).take ts.length = ts := fun k => Text.ofChars_injective.eq_iff
  have hslices : ∀ k < 2 ^ 53, ∀ call w, cutOut call (.ofChars ts) (.ofChars cs) (.ofNat k) w
      = .ok (.str (.ofChars ((cs.drop k).take ts.length))) w :=
    fun k hk call w => cutOut_eq hn hm hk call w
  rcases h : Text.indexOf? (.ofChars ts) (.ofChars cs) with _ | i
  · have hnone := Text.indexOf?_ofChars_eq_none h
    refine ⟨.noIndex, _, fun call w => ?_, hslices, .inr rfl,
      fun k hk heq => absurd heq.symm (ofNat_ne_noIndex hk),
      fun _ k _ heq => hnone k ((hcut k).1 heq), fun _ => rfl⟩
    simp only [run, indexInValue, h]
    rfl
  · obtain ⟨ds, vs, hds, hcount, hleast⟩ := Text.indexOf?_ofChars_eq_some h
    have hle : ds.length ≤ cs.length := by
      rw [hds, List.length_append]
      omega
    have hhere : (cs.drop ds.length).take ts.length = ts := by
      rw [hds, List.drop_left, List.take_left]
    refine ⟨.ofNat ds.length, _, fun call w => ?_, hslices,
      .inl ⟨ds.length, by rwa [Text.charCount_ofChars], rfl⟩, fun k hk heq => ?_,
      fun heq => absurd heq (ofNat_ne_noIndex (by omega)),
      fun hnone => absurd ((hcut _).2 hhere) (hnone ds.length (by omega))⟩
    · simp only [run, indexInValue, h, Option.map_some, hcount]
      rfl
    · obtain rfl := ofNat_inj (by omega) hk heq
      exact ⟨(hcut _).2 hhere, fun j hj heq => hleast j hj ((hcut j).1 heq)⟩

/-- In front are two characters of two bytes each, and the index given is two. -/
theorem search_exact_accents :
    ("é" : Text).toByteArray.IsValidUTF8 ∧ ("äüé" : Text).toByteArray.IsValidUTF8 ∧
      indexIn.Gives [.str "é", .str "äüé"] (.num (.ofNat 2)) ∧
      ∃ cut : Nat → Text,
        (∀ call w, cutOut call "é" "äüé" (.ofNat 2) w = .ok (.str (cut 2)) w) ∧
        cut 2 = "é" ∧ cut 1 ≠ "é" := by
  have ht : ("é" : Text).toByteArray.IsValidUTF8 := Text.validUTF8_iff.2 (by decide)
  have hs : ("äüé" : Text).toByteArray.IsValidUTF8 := Text.validUTF8_iff.2 (by decide)
  have htwo : indexIn.Gives [.str "é", .str "äüé"] (.num (.ofNat 2)) := fun _ _ => rfl
  obtain ⟨i, cut, hgives, hcut, -, hfound, -⟩ := search_exact ht hs (by decide) (by decide)
  have hsame := (hgives (fun _ _ => .noFunction) default).symm.trans (htwo _ _)
  obtain rfl : i = .ofNat 2 := by simpa using hsame
  obtain ⟨hhere, hbefore⟩ := hfound 2 (by decide) rfl
  exact ⟨ht, hs, htwo, cut, hcut 2 (by decide), hhere, hbefore 1 (by decide)⟩

end Builtin

end Tacit
