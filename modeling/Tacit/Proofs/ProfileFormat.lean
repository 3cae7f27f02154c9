import Mathlib.Data.List.Induction
import Mathlib.Data.List.Nodup
import Tacit.Profile.Callgrind

/-!
# Reading a profile

What a profile says can be read from its text alone: a number in parentheses with a name behind it
defines the number, and a number alone stands for what it was defined to be (`decode`). Blocks that
are written one after another are read again as they were written (`decode_render`), provided that
no name holds a newline.
-/

namespace Tacit.Profile.Callgrind

open Location (newline)

/-- What a block says: the file and the name of a call, and those of the calls right inside. -/
structure Block where
  file : Text
  name : Text
  calls : List (Text × Text)
  deriving DecidableEq, Repr

/-- The parts of a list, of which each ends with `x`. -/
def ended {α : Type} [DecidableEq α] (x : α) (l : List α) : Option (List (List α)) :=
  if (l.splitOn x).getLast? = some [] then some (l.splitOn x).dropLast else none

/-- The numbers defined so far, and the name that each stands for. -/
abbrev Definitions := List (Text × Text)

abbrev Decoding := StateT Definitions Option

/-- Reads a mention of a name, which defines a new number or is a number that was defined. -/
def mention (t : Text) : Decoding Text := fun defs => do
  let rest ← Text.after? "(" t
  let number := rest.takeWhile (· != ')'.toUInt8)
  match rest.drop number.length with
  | [] => none
  | [_] => return (← defs.lookup number, defs)
  | _ :: b :: name =>
    if b = ' '.toUInt8 ∧ defs.lookup number = none then
      return (name, defs ++ [(number, name)])
    else none

/-- Reads the line of a key. -/
def field (key line : Text) : Decoding Text := fun defs =>
  (Text.after? key line).bind fun t => mention t defs

/-- The line of costs. -/
def costLine : Text := "0 T M"

/-- Reads the lines for the calls inside. -/
def readCalls : List Text → Decoding (List (Text × Text))
  | [] => pure []
  | cfl :: cfn :: calls :: cost :: rest => do
    let file ← field "cfl=" cfl
    let name ← field "cfn=" cfn
    if calls = Text.ofString "calls=1 0" ∧ cost = costLine then
      return (file, name) :: (← readCalls rest)
    else failure
  | _ => failure

/-- Reads the lines of a block. -/
def readBlock : List Text → Decoding Block
  | fl :: fn :: cost :: rest => do
    let file ← field "fl=" fl
    let name ← field "fn=" fn
    if cost = costLine then return ⟨file, name, ← readCalls rest⟩ else failure
  | _ => failure

/-- Reads a profile: what its blocks say, and what the numbers were defined to be, in that order. -/
def decode (t : Text) : Option (List Block × Definitions) := do
  let body ← Text.before? summary (← Text.after? header.flatten t)
  let blocks ← ended [] (← ended newline body)
  (blocks.mapM readBlock).run []

/-- Parts one after another, each ended by `x`. -/
def closed {α : Type} (x : α) (ls : List (List α)) : List α := ls.flatMap (· ++ [x])

@[simp] theorem closed_nil {α : Type} (x : α) : closed x [] = [] := rfl

@[simp] theorem closed_cons {α : Type} (x : α) (l : List α) (ls : List (List α)) :
    closed x (l :: ls) = l ++ x :: closed x ls := by simp [closed]

@[simp] theorem closed_append {α : Type} (x : α) (ls ms : List (List α)) :
    closed x (ls ++ ms) = closed x ls ++ closed x ms := by simp [closed]

theorem splitOn_closed {α : Type} [BEq α] [LawfulBEq α] {x : α} : ∀ {ls : List (List α)},
    (∀ l ∈ ls, x ∉ l) → (closed x ls).splitOn x = ls ++ [[]]
  | [], _ => rfl
  | l :: ls, h => by
    have hl : ∀ y ∈ l, (y == x) = false := by
      intro y hy
      have hne : y ≠ x := fun he => h l (by simp) (he ▸ hy)
      simpa using hne
    rw [closed_cons, List.splitOn, List.splitOnP_append_cons_of_forall_mem hl x (by simp)]
    exact congrArg (l :: ·) (splitOn_closed fun m hm => h m (by simp [hm]))

theorem ended_closed {α : Type} [DecidableEq α] {x : α} {ls : List (List α)}
    (h : ∀ l ∈ ls, x ∉ l) : ended x (closed x ls) = some ls := by
  simp [ended, splitOn_closed h]

theorem before?_append (t p : Text) : Text.before? p (t ++ p) = some t := by
  simp [Text.before?, Text.after?_append]

/-- A decimal digit is a byte of its own, from which it can be told. -/
theorem ofChar_digit {c : Char} (h : c.isDigit = true) :
    ∃ b, Text.ofChar c = [b] ∧ Text.isDigit b = true ∧ Char.ofNat b.toNat = c := by
  have hc : 48 ≤ c.toNat ∧ c.toNat ≤ 57 := by
    simpa [Char.isDigit, UInt32.le_iff_toNat_le] using h
  have hb : c.toNat.toUInt8.toNat = c.toNat := by
    rw [Nat.toUInt8, UInt8.toNat_ofNat']
    omega
  refine ⟨c.toNat.toUInt8, ?_, ?_, ?_⟩
  · unfold Text.ofChar
    rw [if_pos (by omega)]
  · simp only [Text.isDigit, Bool.and_eq_true, decide_eq_true_eq, UInt8.le_iff_toNat_le, hb]
    exact hc
  · rw [hb, Char.ofNat_toNat]

theorem map_ofChars : ∀ {cs : List Char}, (∀ c ∈ cs, c.isDigit = true) →
    (∀ b ∈ Text.ofChars cs, Text.isDigit b = true) ∧
      (Text.ofChars cs).map (fun b => Char.ofNat b.toNat) = cs
  | [], _ => by simp [Text.ofChars]
  | c :: cs, h => by
    obtain ⟨b, hb, hd, hc⟩ := ofChar_digit (h c (by simp))
    obtain ⟨hds, hcs⟩ := map_ofChars fun d hm => h d (List.mem_cons_of_mem c hm)
    have heq : Text.ofChars (c :: cs) = b :: Text.ofChars cs := by
      simp [Text.ofChars, hb]
    rw [heq]
    exact ⟨by simpa [hd] using hds, by simp [hc, hcs]⟩

theorem digits_ofNat (n : Nat) : ∀ b ∈ Text.ofNat n, Text.isDigit b = true :=
  (map_ofChars fun _ => Nat.isDigit_of_mem_toDigits (by omega) (by omega)).1

theorem ofNat_injective : Function.Injective Text.ofNat := by
  intro m n h
  have hdigits : ∀ k, (Text.ofNat k).map (fun b => Char.ofNat b.toNat) = Nat.toDigits 10 k :=
    fun k => (map_ofChars fun _ => Nat.isDigit_of_mem_toDigits (by omega) (by omega)).2
  have hmn : Nat.toDigits 10 m = Nat.toDigits 10 n := by rw [← hdigits, ← hdigits, h]
  have hm := Nat.ofDigitChars_toDigits (b := 10) (n := m) (by omega) (by omega)
  rw [hmn, Nat.ofDigitChars_toDigits (by omega) (by omega)] at hm
  exact hm.symm

/-- The definitions of names by their numbers. -/
def definitions (names : Numbering) : Definitions :=
  names.mapIdx fun i name => (Text.ofNat (i + 1), name)

theorem definitions_concat (names : Numbering) (name : Text) :
    definitions (names ++ [name]) =
      definitions names ++ [(Text.ofNat (names.length + 1), name)] := by
  simp [definitions, List.mapIdx_append]

theorem lookup_definitions (names : Numbering) (i : Nat) :
    (definitions names).lookup (Text.ofNat (i + 1)) = names[i]? := by
  induction names using List.reverseRecOn with
  | nil => rfl
  | append_singleton names name ih =>
    rw [definitions_concat, List.lookup_append, ih, List.lookup_cons]
    by_cases hi : i = names.length
    · simp [hi]
    · have hne : (Text.ofNat (i + 1) == Text.ofNat (names.length + 1)) = false :=
        beq_eq_false_iff_ne.2 fun h => hi (Nat.succ.inj (ofNat_injective h))
      simp only [hne, List.lookup_nil, Option.or_none]
      by_cases hlt : i < names.length
      · rw [List.getElem?_append_left hlt]
      · rw [List.getElem?_eq_none (by omega), List.getElem?_eq_none]
        simp
        omega

theorem takeWhile_ofNat (n : Nat) (rest : Text) :
    (Text.ofNat n ++ ')'.toUInt8 :: rest).takeWhile (· != ')'.toUInt8) = Text.ofNat n := by
  have hdigits : ∀ b ∈ Text.ofNat n, (b != ')'.toUInt8) = true := by
    intro b hb
    have hd := digits_ofNat n b hb
    rw [bne_iff_ne]
    rintro rfl
    exact absurd hd (by decide)
  rw [List.takeWhile_append_of_pos hdigits]
  simp

theorem between_eq (n : Nat) (rest : Text) :
    Text.between "(" ")" (Text.ofNat n) ++ rest =
      Text.ofString "(" ++ (Text.ofNat n ++ ')'.toUInt8 :: rest) := by
  simp only [Text.between, List.append_assoc]
  rfl

theorem mention_number {n : Nat} {name : Text} {defs : Definitions}
    (h : defs.lookup (Text.ofNat n) = some name) :
    mention (Text.between "(" ")" (Text.ofNat n)) defs = some (name, defs) := by
  unfold mention
  rw [← List.append_nil (Text.between _ _ _), between_eq, Text.after?_append]
  simp [takeWhile_ofNat, h]

/-- A number with a name behind it is read as the name, and defines the number. -/
theorem mention_definition {n : Nat} {name : Text} {defs : Definitions}
    (h : defs.lookup (Text.ofNat n) = none) :
    mention (Text.between "(" ")" (Text.ofNat n) ++ " " ++ name) defs =
      some (name, defs ++ [(Text.ofNat n, name)]) := by
  have hspace : Text.ofString " " ++ name = ' '.toUInt8 :: name := rfl
  unfold mention
  rw [List.append_assoc, between_eq, Text.after?_append, hspace]
  simp [takeWhile_ofNat, h]

/-- What a name is written as is read as the name, and defines what the writer has numbered. -/
theorem mention_refer {name t : Text} {names names' : Numbering} (hn : names.Nodup)
    (h : refer name names = (t, names')) :
    mention t (definitions names) = some (name, definitions names') ∧ names'.Nodup := by
  unfold refer at h
  split at h
  · next i hi =>
    obtain ⟨rfl, rfl⟩ := Prod.mk.inj h
    obtain ⟨hlt, hname, -⟩ := List.idxOf?_eq_some_iff.1 hi
    refine ⟨mention_number ?_, hn⟩
    rw [lookup_definitions, List.getElem?_eq_getElem hlt, hname]
  · next hnone =>
    obtain ⟨rfl, rfl⟩ := Prod.mk.inj h
    have hmem : name ∉ names := List.idxOf?_eq_none_iff.1 hnone
    refine ⟨?_, ?_⟩
    · rw [definitions_concat]
      refine mention_definition ?_
      rw [lookup_definitions]
      simp
    · exact List.nodup_append.2 ⟨hn, List.nodup_singleton name, by
        simpa using fun a ha (he : a = name) => hmem (he ▸ ha)⟩

theorem newline_not_mem_refer {name t : Text} {names names' : Numbering} (hn : newline ∉ name)
    (h : refer name names = (t, names')) : newline ∉ t := by
  have hnumber : ∀ n, newline ∉ Text.between "(" ")" (Text.ofNat n) := by
    intro n hmem
    simp only [Text.between, List.mem_append] at hmem
    rcases hmem with (hmem | hmem) | hmem
    · exact absurd hmem (by decide)
    · exact absurd (digits_ofNat n _ hmem) (by decide)
    · exact absurd hmem (by decide)
  unfold refer at h
  split at h
  · obtain ⟨rfl, -⟩ := Prod.mk.inj h
    exact hnumber _
  · obtain ⟨rfl, -⟩ := Prod.mk.inj h
    intro hmem
    simp only [List.mem_append] at hmem
    rcases hmem with (hmem | hmem) | hmem
    · exact hnumber _ hmem
    · exact absurd hmem (by decide)
    · exact hn hmem

/-! ## Blocks -/

/-- Some texts are the lines `ls`, none of which is empty. -/
structure Lines (texts : List Text) (ls : List Text) : Prop where
  text : texts.flatten = closed newline ls
  line : ∀ l ∈ ls, l ≠ [] ∧ newline ∉ l

theorem Lines.nil : Lines [] [] := ⟨rfl, by simp⟩

theorem Lines.append {ts us : List Text} {ls ms : List Text} (h : Lines ts ls)
    (hu : Lines us ms) : Lines (ts ++ us) (ls ++ ms) := by
  refine ⟨by rw [List.flatten_append, h.text, hu.text, closed_append], fun l hl => ?_⟩
  rcases List.mem_append.1 hl with hl | hl
  · exact h.line l hl
  · exact hu.line l hl

theorem Lines.one {t : Text} (ht : t ≠ []) (hn : newline ∉ t) : Lines [t ++ "\n"] [t] :=
  ⟨by simp; rfl, by simpa using ⟨ht, hn⟩⟩

/-- The line of a key for a name. -/
theorem lines_field {key name t : Text} {names names' : Numbering} (hk : key ≠ [])
    (hkn : newline ∉ key) (hn : newline ∉ name) (h : refer name names = (t, names')) :
    Lines [key ++ t ++ "\n"] [key ++ t] :=
  .one (by simp [hk]) (by simpa using ⟨hkn, newline_not_mem_refer hn h⟩)

/-- A mention that was written is read as the name, and the numbers are defined as they
were given. -/
theorem field_refer {key name t : Text} {names names' : Numbering} (hn : names.Nodup)
    (h : refer name names = (t, names')) :
    (field key (key ++ t)).run (definitions names) = some (name, definitions names') := by
  rw [StateT.run, field, Text.after?_append]
  exact (mention_refer hn h).1

theorem newline_not_mem_sourceFile : newline ∉ sourceFile := by decide

theorem callLines_eq {label file name : Text} {names names₁ names₂ : Numbering}
    (hf : refer sourceFile names = (file, names₁)) (hm : refer label names₁ = (name, names₂)) :
    callLines label names =
      (["cfl=" ++ file ++ "\n", "cfn=" ++ name ++ "\n", "calls=1 0\n", costs], names₂) := by
  unfold callLines
  simp only [bind, StateT.bind, hf, hm]
  rfl

theorem readCalls_callLines {label : Text} {names names' : Numbering} {texts : List Text}
    (hl : newline ∉ label) (hn : names.Nodup) (h : callLines label names = (texts, names')) :
    ∃ ls, Lines texts ls ∧ names'.Nodup ∧
      ∀ rest, (readCalls (ls ++ rest)).run (definitions names) =
        ((readCalls rest).run (definitions names')).map fun (cs, defs) =>
          ((sourceFile, label) :: cs, defs) := by
  rcases hf : refer sourceFile names with ⟨file, names₁⟩
  rcases hm : refer label names₁ with ⟨name, names₂⟩
  have hn₁ := (mention_refer hn hf).2
  obtain ⟨rfl, rfl⟩ := Prod.mk.inj ((callLines_eq hf hm).symm.trans h)
  refine ⟨["cfl=" ++ file, "cfn=" ++ name, "calls=1 0", costLine], ?_, (mention_refer hn₁ hm).2,
    fun rest => ?_⟩
  · have hcalls : Lines ["calls=1 0\n"] ["calls=1 0"] :=
      .one (t := "calls=1 0") (by decide) (by decide)
    have hcost : Lines [costs] [costLine] := .one (t := costLine) (by decide) (by decide)
    exact (lines_field (by decide) (by decide) newline_not_mem_sourceFile hf).append
      ((lines_field (by decide) (by decide) hl hm).append (hcalls.append hcost))
  · simp [readCalls, field_refer hn hf, field_refer hn₁ hm]

theorem readCalls_mapM {inner : List Text} {names names' : Numbering} {texts : List (List Text)}
    (hl : ∀ label ∈ inner, newline ∉ label) (hn : names.Nodup)
    (h : inner.mapM callLines names = (texts, names')) :
    ∃ ls, Lines texts.flatten ls ∧ names'.Nodup ∧
      (readCalls ls).run (definitions names) =
        some (inner.map (sourceFile, ·), definitions names') := by
  induction inner generalizing names texts with
  | nil =>
    obtain ⟨rfl, rfl⟩ := Prod.mk.inj h
    exact ⟨[], .nil, hn, rfl⟩
  | cons label inner ih =>
    rcases hc : callLines label names with ⟨t, names₁⟩
    rcases hi : inner.mapM callLines names₁ with ⟨ts, names₂⟩
    have heq : (label :: inner).mapM callLines names = (t :: ts, names₂) := by
      rw [List.mapM_cons]
      simp only [bind, StateT.bind, hc, hi]
      rfl
    obtain ⟨rfl, rfl⟩ := Prod.mk.inj (heq.symm.trans h)
    obtain ⟨ls, hls, hn₁, hread⟩ := readCalls_callLines (hl label (by simp)) hn hc
    obtain ⟨ms, hms, hn₂, hrest⟩ := ih (fun l hm => hl l (by simp [hm])) hn₁ hi
    exact ⟨ls ++ ms, hls.append hms, hn₂, by rw [hread, hrest]; rfl⟩

theorem block_eq {label file name : Text} {inner : List Text} {calls : List (List Text)}
    {names names₁ names₂ names₃ : Numbering}
    (hf : refer sourceFile names = (file, names₁)) (hm : refer label names₁ = (name, names₂))
    (hc : inner.mapM callLines names₂ = (calls, names₃)) :
    block label inner names =
      (["fl=" ++ file ++ "\n", "fn=" ++ name ++ "\n", costs] ++ calls.flatten ++ [separator],
        names₃) := by
  unfold block
  simp only [bind, StateT.bind, hf, hm, hc]
  rfl

/-- A block that was written is read again. -/
theorem readBlock_block {label : Text} {inner : List Text} {names names' : Numbering}
    {texts : List Text} (hl : newline ∉ label) (hi : ∀ l ∈ inner, newline ∉ l) (hn : names.Nodup)
    (h : block label inner names = (texts, names')) :
    ∃ ls, texts.flatten = closed newline (closed [] [ls]) ∧ (∀ l ∈ ls, l ≠ [] ∧ newline ∉ l) ∧
      names'.Nodup ∧ (readBlock ls).run (definitions names) =
        some (⟨sourceFile, label, inner.map (sourceFile, ·)⟩, definitions names') := by
  rcases hf : refer sourceFile names with ⟨file, names₁⟩
  rcases hm : refer label names₁ with ⟨name, names₂⟩
  rcases hc : inner.mapM callLines names₂ with ⟨calls, names₃⟩
  have hn₁ := (mention_refer hn hf).2
  have hn₂ := (mention_refer hn₁ hm).2
  obtain ⟨ls, hls, hn₃, hread⟩ := readCalls_mapM hi hn₂ hc
  obtain ⟨rfl, rfl⟩ := Prod.mk.inj ((block_eq hf hm hc).symm.trans h)
  have hlines : Lines (["fl=" ++ file ++ "\n", "fn=" ++ name ++ "\n", costs] ++ calls.flatten)
      (["fl=" ++ file, "fn=" ++ name, costLine] ++ ls) := by
    have hcost : Lines [costs] [costLine] := .one (t := costLine) (by decide) (by decide)
    exact ((lines_field (by decide) (by decide) newline_not_mem_sourceFile hf).append
      ((lines_field (by decide) (by decide) hl hm).append hcost)).append hls
  refine ⟨_, ?_, hlines.line, hn₃, ?_⟩
  · rw [List.flatten_append, hlines.text]
    simp [separator]
    rfl
  · simp [readBlock, field_refer hn hf, field_refer hn₁ hm, hread]

/-- What the block for a call says. -/
def Block.ofCall (label : Text) (inner : List Text) : Block :=
  ⟨sourceFile, label, inner.map (sourceFile, ·)⟩

/-- The blocks for some calls, each with those right inside it. -/
def render : List (Text × List Text) → StateM Numbering (List Text)
  | [] => pure []
  | (label, inner) :: rest => do return (← block label inner) ++ (← render rest)

theorem render_cons {label : Text} {inner texts us : List Text} {rest : List (Text × List Text)}
    {names names₁ names₂ : Numbering} (hb : block label inner names = (texts, names₁))
    (hr : render rest names₁ = (us, names₂)) :
    render ((label, inner) :: rest) names = (texts ++ us, names₂) := by
  unfold render
  simp only [bind, StateT.bind, hb, hr]
  rfl

theorem render_append {es fs : List (Text × List Text)} {texts us : List Text}
    {names names₁ names₂ : Numbering} (he : render es names = (texts, names₁))
    (hf : render fs names₁ = (us, names₂)) :
    render (es ++ fs) names = (texts ++ us, names₂) := by
  induction es generalizing texts names with
  | nil =>
    obtain ⟨rfl, rfl⟩ := Prod.mk.inj he
    exact hf
  | cons e es ih =>
    rcases hb : block e.1 e.2 names with ⟨t, n⟩
    rcases hr : render es n with ⟨ts, m⟩
    obtain ⟨rfl, rfl⟩ := Prod.mk.inj ((render_cons hb hr).symm.trans he)
    rw [List.cons_append, render_cons hb (ih hr), List.append_assoc]

/-- Blocks that are written are read as what they say, line by line and block by block. -/
theorem readBlock_render {es : List (Text × List Text)} {names names' : Numbering}
    {texts : List Text} (hl : ∀ e ∈ es, newline ∉ e.1 ∧ ∀ l ∈ e.2, newline ∉ l)
    (hn : names.Nodup) (h : render es names = (texts, names')) :
    ∃ bs, texts.flatten = closed newline (closed [] bs) ∧
      (∀ ls ∈ bs, ∀ l ∈ ls, l ≠ [] ∧ newline ∉ l) ∧ names'.Nodup ∧
      (bs.mapM readBlock).run (definitions names) =
        some (es.map fun e => .ofCall e.1 e.2, definitions names') := by
  induction es generalizing names texts with
  | nil =>
    obtain ⟨rfl, rfl⟩ := Prod.mk.inj h
    exact ⟨[], rfl, by simp, hn, rfl⟩
  | cons e es ih =>
    rcases hb : block e.1 e.2 names with ⟨t, names₁⟩
    rcases hr : render es names₁ with ⟨ts, names₂⟩
    obtain ⟨rfl, rfl⟩ := Prod.mk.inj ((render_cons hb hr).symm.trans h)
    obtain ⟨hname, hinner⟩ := hl e (by simp)
    obtain ⟨ls, htext, hline, hn₁, hread⟩ := readBlock_block hname hinner hn hb
    obtain ⟨bs, htexts, hlines, hn₂, hrest⟩ := ih (fun d hd => hl d (by simp [hd])) hn₁ hr
    refine ⟨ls :: bs, ?_, List.forall_mem_cons.2 ⟨hline, hlines⟩, hn₂, ?_⟩
    · rw [List.flatten_append, htext, htexts, ← closed_append, ← closed_append]
      rfl
    · simp [List.mapM_cons, hread, hrest, Block.ofCall]

/-- What was written of some calls is read again, and so are the numbers given. -/
theorem decode_render {es : List (Text × List Text)} {names : Numbering} {texts : List Text}
    (hl : ∀ e ∈ es, newline ∉ e.1 ∧ ∀ l ∈ e.2, newline ∉ l)
    (h : render es [] = (texts, names)) :
    decode (header ++ texts ++ [summary]).flatten =
      some (es.map fun e => .ofCall e.1 e.2, definitions names) ∧ names.Nodup := by
  obtain ⟨bs, htext, hlines, hn, hread⟩ := readBlock_render hl List.nodup_nil h
  refine ⟨?_, hn⟩
  have hinner : ∀ ls ∈ bs, ([] : Text) ∉ ls := fun ls hls hmem => (hlines ls hls _ hmem).1 rfl
  have houter : ∀ l ∈ closed [] bs, newline ∉ l := by
    intro l hl
    obtain ⟨ls, hls, hmem⟩ := List.mem_flatMap.1 hl
    rcases List.mem_append.1 hmem with hmem | hmem
    · exact (hlines ls hls l hmem).2
    · simp_all
  have hshape : (header ++ texts ++ [summary]).flatten =
      header.flatten ++ (closed newline (closed [] bs) ++ summary) := by
    simp [htext]
  unfold decode
  rw [hshape, Text.after?_append]
  simp only [bind, Option.bind, before?_append, ended_closed houter, ended_closed hinner]
  exact hread

end Tacit.Profile.Callgrind
