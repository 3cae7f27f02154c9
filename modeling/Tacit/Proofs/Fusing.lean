import Tacit.Proofs.ReadTrees
import Tacit.Proofs.Rendering

/-!
# Members of an array that are read together

Pieces that are calls between parentheses can be called again. Read one after another as the
members of an array, pieces stay as they are if none of them is a call, or there is just one
(`takeAll_alone`); else the grammar takes some of them together as a call, and the parentheses of
that call make the source longer (`takeAll_longer`).
-/

namespace Tacit

namespace Reading

/-- The tokens in front of all pieces. -/
def front (ts : List Token) : List Token :=
  match _h : piece? ts with
  | none => ts
  | some p => front p.rest
termination_by ts.length
decreasing_by exact (piece?_leaves _h).2

theorem front_of_none {ts : List Token} (h : piece? ts = none) : front ts = ts := by
  rw [front]
  split
  · rfl
  · simp_all

theorem front_of_some {ts : List Token} {p : Piece} (h : piece? ts = some p) :
    front ts = front p.rest := by
  rw [front]
  split
  · simp_all
  · rename_i q hq
    rw [h] at hq
    cases hq
    rfl

theorem pieces_eq_cons {ts : List Token} {y : Piece} {ys : List Piece} (h : pieces ts = y :: ys) :
    pieces y.rest = ys ∧ front y.rest = front ts := by
  rcases hp : piece? ts with _ | p
  · simp [pieces_of_none hp] at h
  · rw [pieces_of_some hp, List.cons.injEq] at h
    rw [front_of_some hp, ← h.1]
    exact ⟨h.2, rfl⟩

/-- What is left of the pieces are the pieces of the tokens left. -/
theorem take_left : ∀ {ys : List Piece} {y : Piece} {ts : List Token}, pieces ts = y :: ys →
    pieces (take y ys).rest = (take y ys).left ∧ front (take y ys).rest = front ts
  | [], y, ts, h => pieces_eq_cons h
  | [y₂], y₁, ts, h => by
    have h₁ := pieces_eq_cons h
    have h₂ := pieces_eq_cons h₁.1
    rw [h₁.2] at h₂
    simp only [take]
    split
    · exact h₂
    · exact h₂
    · exact h₁
  | y₂ :: y₃ :: ys, y₁, ts, h => by
    have h₁ := pieces_eq_cons h
    have h₂ := pieces_eq_cons h₁.1
    have h₃ := pieces_eq_cons h₂.1
    rw [h₁.2] at h₂
    rw [h₂.2] at h₃
    simp only [take]
    split
    · exact h₂.2 ▸ take_left h₂.1
    · exact h₃
    · exact h₁.2 ▸ take_left h₁.1
    · exact h₁

theorem take_left_suffix : ∀ (y : Piece) (ys : List Piece), (take y ys).left <:+ ys
  | _, [] => List.suffix_refl _
  | y₁, [y₂] => by
    simp only [take]
    split <;> simp
  | y₁, y₂ :: y₃ :: ys => by
    have h₂ := take_left_suffix y₂ (y₃ :: ys)
    have h₃ := take_left_suffix y₃ ys
    simp only [take]
    split
    · exact h₃.trans ((List.suffix_cons y₃ ys).trans (List.suffix_cons y₂ _))
    · exact (List.suffix_cons y₃ ys).trans (List.suffix_cons y₂ _)
    · exact h₂.trans (List.suffix_cons y₂ _)
    · exact List.suffix_refl _

/-- The expressions some pieces are read as, in the order of the source. -/
def takeAll : List Piece → List Expr
  | [] => []
  | y :: ys => takeAll (take y ys).left ++ [(take y ys).expr]
termination_by ys => ys.length
decreasing_by exact Nat.lt_succ_of_le (take_left_suffix y ys).length_le

theorem members_eq : ∀ (n : Nat) (read : List Expr) (ts : List Token), ts.length < n →
    members (m := Id) grammar n read ts = (takeAll (pieces ts) ++ read, front ts)
  | 0, _, _, h => by omega
  | n + 1, read, ts, h => by
    simp only [members, bind_id]
    rcases hp : pieces ts with _ | ⟨y, ys⟩
    · have hnone : piece? ts = none := by
        rcases hq : piece? ts with _ | p
        · rfl
        · simp [pieces_of_some hq] at hp
      simp [grammar_eq_taken, hp, takenFrom, takeAll, front_of_none hnone, pure_id]
    · have hg : grammar ts = some ((take y ys).expr, (take y ys).rest) := by
        rw [grammar_eq_taken, hp, takenFrom]
      have hlt := (grammar_advances ts _ _ hg).2
      have hl := take_left hp
      rw [hg]
      simp only
      rw [members_eq n _ _ (by omega), hl.1, hl.2, takeAll, List.append_assoc]
      rfl

/-- The length of an expression's source and of the blank or bracket behind it. -/
def weight (e : Expr) : Nat := e.source.length + 1

def weights : List Expr → Nat
  | [] => 0
  | e :: es => weight e + weights es

theorem length_sourceAll : ∀ es : List Expr, (Expr.sourceAll es).length = weights es - 1
  | [] => rfl
  | [e] => by simp [Expr.sourceAll, weights, weight]
  | e :: f :: es => by
    have ih := length_sourceAll (f :: es)
    simp only [Expr.sourceAll, List.length_append, ih, weights, weight, Expr.ofString_blank,
      List.length_singleton]
    omega

theorem length_callSource (lhs : Option Text) (callee rhs : Text) :
    (Expr.callSource lhs callee (some rhs)).length
      = (lhs.elim 0 fun l => l.length + 1) + callee.length + rhs.length + 3 := by
  have hl : ("(" : Text).length = 1 := rfl
  have hr : (")" : Text).length = 1 := rfl
  cases lhs <;> simp only [Expr.callSource, List.length_append, hl, hr, Expr.ofString_blank,
    List.length_singleton, Option.elim] <;> omega

theorem weight_called {c : Expr} (hc : c.isCall = true) (lhs : Option Expr) (rhs : Expr)
    (place : Option Location) : weight (.called c lhs (some rhs) place)
      = (lhs.elim 0 weight) + weight c + weight rhs + 2 := by
  simp only [weight, Expr.source, hc, if_true, Expr.sourceOf, length_callSource]
  cases lhs <;> simp only [Expr.sourceOf, Option.elim, weight] <;> omega

/-- A piece that is called as an expression, if it is a call, and cannot be called otherwise. -/
def Piece.Upright (p : Piece) : Prop :=
  if p.operand.isCall then ∃ place, p.call? = some fun l r => .called p.operand l r place
  else p.call? = none

theorem Piece.Upright.call?_eq_none {p : Piece} (h : p.Upright) (hc : p.call? = none) :
    p.operand.isCall = false := by
  rcases hi : p.operand.isCall with _ | _
  · rfl
  · simp only [Upright, hi, if_true] at h
    obtain ⟨place, hp⟩ := h
    simp [hp] at hc

/-- What calling an upright piece weighs. -/
theorem Piece.Upright.weight_call {p : Piece} {c : Option Expr → Option Expr → Expr}
    (h : p.Upright) (hc : p.call? = some c) (lhs : Option Expr) (rhs : Expr) :
    weight (c lhs rhs) = (lhs.elim 0 weight) + weight p.operand + weight rhs + 2 := by
  rcases hi : p.operand.isCall with _ | _
  · simp [Upright, hi, hc] at h
  · simp only [Upright, hi, if_true] at h
    obtain ⟨place, hp⟩ := h
    rw [hp, Option.some.injEq] at hc
    rw [← hc, weight_called hi]

def pieceWeights (ys : List Piece) : Nat := weights (ys.map (·.operand))

theorem pieceWeights_cons (y : Piece) (ys : List Piece) :
    pieceWeights (y :: ys) = weight y.operand + pieceWeights ys := rfl

/-- A piece is read alone if it is the last one there is, or if neither it nor the two in front of
it are calls. Otherwise what is read weighs more than the pieces it takes. -/
theorem take_cases : ∀ {ys : List Piece} {y : Piece}, y.Upright → (∀ z ∈ ys, z.Upright) →
    (take y ys = ⟨y.operand, y.rest, ys⟩ ∧
      (ys = [] ∨ ∀ z ∈ (y :: ys).take 3, z.operand.isCall = false)) ∨
    pieceWeights (y :: ys) < weight (take y ys).expr + pieceWeights (take y ys).left
  | [], y, _, _ => .inl ⟨rfl, .inl rfl⟩
  | [y₂], y₁, h₁, hs => by
    have h₂ := hs y₂ (by simp)
    rcases hc₂ : y₂.call? with _ | c₂
    · rcases hc₁ : y₁.call? with _ | c₁
      · refine .inl ⟨by simp [take, hc₁, hc₂], .inr ?_⟩
        simp [h₁.call?_eq_none hc₁, h₂.call?_eq_none hc₂]
      · have := h₁.weight_call hc₁ none y₂.operand
        simp only [Option.elim] at this
        simp only [take, hc₁, hc₂, pieceWeights_cons]
        exact .inr (by omega)
    · have := h₂.weight_call hc₂ none y₁.operand
      simp only [Option.elim] at this
      simp only [take, hc₂, pieceWeights_cons]
      exact .inr (by omega)
  | y₂ :: y₃ :: ys, y₁, h₁, hs => by
    have h₂ := hs y₂ (by simp)
    have h₃ := hs y₃ (by simp)
    have hys : ∀ z ∈ ys, z.Upright := fun z hz => hs z (by simp [hz])
    have hle : ∀ {z : Piece} {zs : List Piece}, (take z zs = ⟨z.operand, z.rest, zs⟩ ∧
        (zs = [] ∨ ∀ w ∈ (z :: zs).take 3, w.operand.isCall = false)) ∨
        pieceWeights (z :: zs) < weight (take z zs).expr + pieceWeights (take z zs).left →
        pieceWeights (z :: zs) ≤ weight (take z zs).expr + pieceWeights (take z zs).left := by
      rintro z zs (⟨h, -⟩ | h)
      · rw [h, pieceWeights_cons]
      · exact h.le
    rcases hc₂ : y₂.call? with _ | c₂
    · rcases hc₃ : y₃.call? with _ | c₃
      · rcases hc₁ : y₁.call? with _ | c₁
        · refine .inl ⟨by simp [take, hc₁, hc₂, hc₃], .inr ?_⟩
          simp [h₁.call?_eq_none hc₁, h₂.call?_eq_none hc₂, h₃.call?_eq_none hc₃]
        · have ih := hle (take_cases h₂ (List.forall_mem_cons.2 ⟨h₃, hys⟩))
          have := h₁.weight_call hc₁ none (take y₂ (y₃ :: ys)).expr
          simp only [Option.elim] at this
          simp only [take, hc₁, hc₂, hc₃, pieceWeights_cons] at ih this ⊢
          exact .inr (by omega)
      · have := h₃.weight_call hc₃ (some y₂.operand) y₁.operand
        simp only [Option.elim] at this
        simp only [take, hc₂, hc₃, pieceWeights_cons]
        exact .inr (by omega)
    · have ih := hle (take_cases h₃ hys)
      have := h₂.weight_call hc₂ (some (take y₃ ys).expr) y₁.operand
      simp only [Option.elim] at this
      simp only [take, hc₂, pieceWeights_cons] at ih this ⊢
      exact .inr (by omega)

/-- Some of the pieces are read together. -/
def Fuses (ys : List Piece) : Prop := 2 ≤ ys.length ∧ ∃ y ∈ ys, y.operand.isCall = true

theorem weights_append (es fs : List Expr) : weights (es ++ fs) = weights es + weights fs := by
  induction es with
  | nil => simp [weights]
  | cons e es ih =>
    simp only [List.cons_append, weights, ih]
    omega

theorem weights_singleton (e : Expr) : weights [e] = weight e := rfl

theorem weights_reverse (es : List Expr) : weights es.reverse = weights es := by
  induction es with
  | nil => rfl
  | cons e es ih =>
    rw [List.reverse_cons, weights_append, weights_singleton, ih, weights]
    omega

theorem upright_left {y : Piece} {ys : List Piece} (h : ∀ z ∈ y :: ys, z.Upright) :
    ∀ z ∈ (take y ys).left, z.Upright :=
  fun z hz => h z (List.mem_cons_of_mem y ((take_left_suffix y ys).subset hz))

theorem takeAll_le (ys : List Piece) (h : ∀ y ∈ ys, y.Upright) :
    pieceWeights ys ≤ weights (takeAll ys) := by
  fun_induction takeAll ys with
  | case1 => simp [pieceWeights, weights]
  | case2 y ys ih =>
    have ih := ih (upright_left h)
    rw [weights_append, weights_singleton]
    rcases take_cases (h y (by simp)) (fun z hz => h z (List.mem_cons_of_mem y hz))
      with ⟨hy, -⟩ | hlt
    · simp only [hy, pieceWeights_cons] at ih ⊢
      omega
    · omega

/-- If some pieces fuse, then taking all of them gives longer expressions: a call that lies further
in front has a piece behind it that is not read alone. -/
theorem takeAll_longer (ys : List Piece) (h : ∀ y ∈ ys, y.Upright) (hf : Fuses ys) :
    pieceWeights ys < weights (takeAll ys) := by
  fun_induction takeAll ys with
  | case1 => simp [Fuses] at hf
  | case2 y ys ih =>
    have hle := takeAll_le _ (upright_left h)
    rw [weights_append, weights_singleton]
    rcases take_cases (h y (by simp)) (fun z hz => h z (List.mem_cons_of_mem y hz))
      with ⟨hy, hys⟩ | hlt
    · have hfuse : Fuses ys := by
        obtain ⟨hlen, z, hz, hcall⟩ := hf
        rcases hys with rfl | hys
        · simp at hlen
        · rcases ys with _ | ⟨y₂, _ | ⟨y₃, ys⟩⟩
          · simp at hlen
          · simp_all
          · refine ⟨by simp, z, ?_, hcall⟩
            rcases List.mem_cons.1 hz with rfl | hz
            · simp [hys z (by simp)] at hcall
            · exact hz
      have ih := ih (upright_left h) (by rwa [hy])
      simp only [hy, pieceWeights_cons] at ih ⊢
      omega
    · omega

theorem Piece.Upright.call?_of_not_call {p : Piece} (h : p.Upright)
    (hi : p.operand.isCall = false) : p.call? = none := by
  simpa [Upright, hi] using h

theorem take_alone {y : Piece} : ∀ {ys : List Piece}, y.Upright → (∀ z ∈ ys, z.Upright) →
    ¬ Fuses (y :: ys) → take y ys = ⟨y.operand, y.rest, ys⟩
  | [], _, _, _ => rfl
  | y₂ :: ys, h, hs, hf => by
    have hnone : ∀ z ∈ y :: y₂ :: ys, z.call? = none := by
      intro z hz
      refine (List.forall_mem_cons.2 ⟨h, hs⟩ z hz).call?_of_not_call ?_
      rw [← Bool.not_eq_true]
      exact fun hc => hf ⟨by simp, z, hz, hc⟩
    have h₁ := hnone y (by simp)
    have h₂ := hnone y₂ (by simp)
    rcases ys with _ | ⟨y₃, ys⟩
    · simp [take, h₁, h₂]
    · simp [take, h₁, h₂, hnone y₃ (by simp)]

/-- If no pieces fuse, each is taken alone. -/
theorem takeAll_alone (ys : List Piece) (h : ∀ y ∈ ys, y.Upright) (hf : ¬ Fuses ys) :
    takeAll ys = (ys.map (·.operand)).reverse := by
  fun_induction takeAll ys with
  | case1 => rfl
  | case2 y ys ih =>
    have hy := take_alone (h y (by simp)) (fun z hz => h z (List.mem_cons_of_mem y hz)) hf
    have hys : ¬ Fuses ys := by
      rintro ⟨hlen, z, hz, hc⟩
      exact hf ⟨by simp only [List.length_cons]; omega, z, List.mem_cons_of_mem y hz, hc⟩
    have ih := ih (upright_left h) (by rwa [hy])
    simp only [hy] at ih ⊢
    rw [ih, List.map_cons, List.reverse_cons]

end Reading

end Tacit
