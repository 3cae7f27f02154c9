import Tacit.Proofs.Fusing

/-!
# Reading a canonical source again

In a canonical source every expression stands as one piece: a literal, an array, or a call between
parentheses. The pieces of a call are its operands and its callee, and are read as the same call
again; only the members of an array may be read together. So an expression is read back as it was
if it is `Steady`, and otherwise as one with a longer source (`Rereads`).
-/

namespace Tacit

open Reading

namespace Expr

/-- What comes of reading the source of an expression again: the same tree, or one with a longer
source if some array has members that are read together. -/
structure Rereads (e e' : Expr) : Prop where
  isCall : e'.isCall = e.isCall
  steady : e.Steady → e'.unplaced = e.unplaced
  longer : ¬ e.Steady → e.source.length < e'.source.length

theorem Rereads.length_le {e e' : Expr} (h : Rereads e e') :
    e.source.length ≤ e'.source.length := by
  by_cases hs : e.Steady
  · rw [source_eq_of_unplaced (h.steady hs)]
  · exact (h.longer hs).le

/-- An expression is steady if it does not fuse and its parts are steady. -/
theorem steady_iff {e : Expr} : e.Steady ↔ ¬ e.Fusible ∧ ∀ c ∈ e.children, c.Steady :=
  forall_nodes_iff

section Parts

variable {es es' : List Expr} (h : List.Forall₂ Rereads es es')
include h

theorem map_unplaced_of_rereads (hs : ∀ e ∈ es, e.Steady) :
    es'.map unplaced = es.map unplaced := by
  induction h with
  | nil => rfl
  | cons hab _ ih =>
    rw [List.map_cons, List.map_cons, hab.steady (hs _ (by simp)),
      ih fun e he => hs e (by simp [he])]

theorem weights_le_of_rereads : weights es ≤ weights es' := by
  induction h with
  | nil => rfl
  | cons hab _ ih =>
    have := hab.length_le
    simp only [weights, weight] at ih ⊢
    omega

theorem weights_lt_of_rereads (hs : ¬ ∀ e ∈ es, e.Steady) : weights es < weights es' := by
  induction h with
  | nil => simp at hs
  | @cons e e' es es' hab hrest ih =>
    have hle := weights_le_of_rereads hrest
    simp only [weights, weight] at ih hle ⊢
    by_cases he : e.Steady
    · have := hab.length_le
      have := ih fun hes => hs (List.forall_mem_cons.2 ⟨he, hes⟩)
      omega
    · have := hab.longer he
      omega

theorem isCall_of_rereads : (∃ e ∈ es, e.isCall = true) ↔ ∃ e ∈ es', e.isCall = true := by
  induction h with
  | nil => simp
  | cons hab _ ih => simp only [List.exists_mem_cons_iff, hab.isCall, ih]

end Parts

/-- A node of which the parts are read again, and whose source is that of the parts and as much
else as before. -/
theorem Rereads.of_children {e e' : Expr} {k : Nat} (hcall : e'.isCall = e.isCall)
    (hf : ¬ e.Fusible) (hc : List.Forall₂ Rereads e.children e'.children)
    (hk : e.source.length = weights e.children + k)
    (hk' : e'.source.length = weights e'.children + k)
    (hu : e'.children.map unplaced = e.children.map unplaced → e'.unplaced = e.unplaced) :
    Rereads e e' := by
  refine ⟨hcall, fun hs => hu (map_unplaced_of_rereads hc (steady_iff.1 hs).2), fun hs => ?_⟩
  have := weights_lt_of_rereads hc fun hcs => hs (steady_iff.2 ⟨hf, hcs⟩)
  omega

theorem rereads_array {ms : List Expr} {ys : List Piece} (l l' : Option Location)
    (hup : ∀ y ∈ ys, y.Upright)
    (h : List.Forall₂ Rereads ms (ys.map (·.operand)).reverse) :
    Rereads (.array ms l) (.array (takeAll ys) l') := by
  have hlen : ∀ es p, (Expr.array es p).source.length = weights es - 1 + 2 := by
    intro es p
    simp only [source, List.length_append, length_sourceAll]
    have h₁ : ("[" : Text).length = 1 := rfl
    have h₂ : ("]" : Text).length = 1 := rfl
    omega
  have hfuse : (Expr.array ms l).Fusible ↔ Fuses ys := by
    have hl := h.length_eq
    have hcall := isCall_of_rereads h
    simp only [List.length_reverse, List.length_map] at hl
    simp only [List.mem_reverse, List.mem_map, exists_exists_and_eq_and] at hcall
    simp only [Fusible, Fuses, hl, hcall]
  have hsum : weights (ys.map (·.operand)).reverse = pieceWeights ys := weights_reverse _
  refine ⟨rfl, fun hs => ?_, fun hs => ?_⟩
  · have hs := steady_iff.1 hs
    simp only [unplaced, unplacedAll_eq]
    rw [takeAll_alone ys hup fun hf => hs.1 (hfuse.2 hf), map_unplaced_of_rereads h hs.2]
  · rw [hlen, hlen]
    have hle := weights_le_of_rereads h
    have hle' := takeAll_le ys hup
    have hpos : 0 < weights ms := by
      rcases ms with _ | ⟨m, ms⟩
      · exact absurd (steady_iff.2 ⟨by simp [Fusible], by simp [children]⟩) hs
      · simp only [weights, weight]
        omega
    rw [hsum] at hle
    by_cases hf : Fuses ys
    · have := takeAll_longer ys hup hf
      omega
    · have := weights_lt_of_rereads h fun hms =>
        hs (steady_iff.2 ⟨fun hf' => hf (hfuse.1 hf'), hms⟩)
      rw [hsum] at this
      omega

theorem rereads_named {n : Text} {lhs lhs' : Option Expr} {rhs rhs' : Expr}
    (hl : Option.Rel Rereads lhs lhs') (hr : Rereads rhs rhs') (l l' : Option Location) :
    Rereads (.named n lhs (some rhs) l) (.named n lhs' (some rhs') l') := by
  have hlen : ∀ (lhs : Option Expr) (rhs : Expr) (l : Option Location),
      (Expr.named n lhs (some rhs) l).source.length
        = weights (Expr.named n lhs (some rhs) l).children + (n.length + 2) := by
    intro lhs rhs l
    simp only [source, sourceOf, length_callSource, children]
    cases lhs <;> simp [sourceOf, weights, weight] <;> omega
  refine .of_children rfl (by simp [Fusible]) ?_ (hlen lhs rhs l) (hlen lhs' rhs' l') ?_
  · cases hl with
    | none => exact .cons hr .nil
    | some hl => exact .cons hl (.cons hr .nil)
  · cases hl <;> simp_all [children, unplaced, unplacedOf]

theorem rereads_called {c c' : Expr} {lhs lhs' : Option Expr} {rhs rhs' : Expr}
    (hc : Rereads c c') (hl : Option.Rel Rereads lhs lhs') (hr : Rereads rhs rhs')
    (l l' : Option Location) :
    Rereads (.called c lhs (some rhs) l) (.called c' lhs' (some rhs') l') := by
  have hlen : ∀ (c : Expr) (lhs : Option Expr) (rhs : Expr) (l : Option Location),
      (Expr.called c lhs (some rhs) l).source.length
        = weights (Expr.called c lhs (some rhs) l).children
          + (if c.isCall then 1 else 3) := by
    intro c lhs rhs l
    have h₁ : ("(" : Text).length = 1 := rfl
    have h₂ : (")" : Text).length = 1 := rfl
    simp only [source, sourceOf, length_callSource, children]
    cases lhs <;> cases c.isCall <;> simp [sourceOf, weights, weight, h₁, h₂] <;> omega
  refine .of_children rfl (by simp [Fusible]) ?_ (hlen c lhs rhs l)
    (hc.isCall ▸ hlen c' lhs' rhs' l') ?_
  · cases hl with
    | none => exact .cons hc (.cons hr .nil)
    | some hl => exact .cons hl (.cons hc (.cons hr .nil))
  · cases hl <;> simp_all [children, unplaced, unplacedOf]

/-- A literal or a name, read again at another place. -/
theorem rereads_of_leaf {e e' : Expr} (hu : e'.unplaced = e.unplaced) (hc : e.children = [])
    (hf : ¬ e.Fusible) : Rereads e e' := by
  refine ⟨?_, fun _ => hu, fun hs => ?_⟩
  · rw [← isCall_unplaced, hu, isCall_unplaced]
  · exact absurd (steady_iff.2 ⟨hf, by simp [hc]⟩) hs

end Expr

namespace Reading

open Bit (wordsOf)

/-- Tokens, the last first, whose words are those of some bits. -/
def Spells (ts : List Token) (bs : List Bit) : Prop := ts.map Token.word = (wordsOf bs).reverse

theorem spells_append {ts : List Token} {bs cs : List Bit} :
    Spells ts (bs ++ cs) ↔ ∃ us vs, ts = us ++ vs ∧ Spells us cs ∧ Spells vs bs := by
  simp only [Spells, wordsOf, List.filterMap_append, List.reverse_append, List.map_eq_append_iff]

theorem spells_blank {ts : List Token} {b : UInt8} {bs : List Bit} :
    Spells ts (.blank b :: bs) ↔ Spells ts bs :=
  Iff.rfl

theorem spells_singleton {ts : List Token} {b : Bit} {w : TokenKind × Text}
    (h : b.word? = some w) : Spells ts [b] ↔ ∃ t, ts = [t] ∧ t.word = w := by
  simp [Spells, wordsOf, h, List.map_eq_singleton_iff]

theorem spells_marked {ts : List Token} {k k' : TokenKind} {bs : List Bit}
    (h : Spells ts (.mark k :: (bs ++ [.mark k']))) :
    ∃ t us o, ts = t :: (us ++ [o]) ∧ t.kind = k' ∧ o.kind = k ∧ Spells us bs := by
  have hsplit : Spells ts ([.mark k] ++ (bs ++ [.mark k'])) := h
  obtain ⟨vs, os, rfl, hvs, hos⟩ := spells_append.1 hsplit
  obtain ⟨o, rfl, ho⟩ := (spells_singleton rfl).1 hos
  obtain ⟨ts, us, rfl, hts, hus⟩ := spells_append.1 hvs
  obtain ⟨t, rfl, ht⟩ := (spells_singleton rfl).1 hts
  exact ⟨t, us, o, rfl, congrArg Prod.fst ht, congrArg Prod.fst ho, hus⟩

/-- Tokens that spell some bits are one piece, whatever stands in front of them. -/
def OnePiece (bs : List Bit) (Q : Piece → Prop) : Prop :=
  ∀ ts us, Spells ts bs → ∃ p, piece? (ts ++ us) = some p ∧ p.rest = us ∧ Q p

/-- Tokens that spell some bits are read as one expression when no piece stands in front. -/
def OneExpr (bs : List Bit) (Q : Expr → Prop) : Prop :=
  ∀ ts us, Spells ts bs → piece? us = none → ∃ e, grammar (ts ++ us) = some (e, us) ∧ Q e

theorem piece?_of_opening {o : Token} (h : o.kind = .parenL ∨ o.kind = .braceL)
    (us : List Token) : piece? (o :: us) = none := by
  rcases h with h | h <;> simp [piece?, h]

theorem OnePiece.expr {bs : List Bit} {Q : Piece → Prop} {R : Expr → Prop} (h : OnePiece bs Q)
    (hQ : ∀ p, Q p → R p.operand) : OneExpr bs R := by
  intro ts us hts hus
  obtain ⟨p, hp, hr, hq⟩ := h ts us hts
  refine ⟨p.operand, ?_, hQ p hq⟩
  rw [grammar_eq_taken, pieces_of_some hp, hr, pieces_of_none hus, takenFrom, take, hr]

/-- What stands between parentheses is one piece, which is called as an expression. -/
theorem OneExpr.between {bs : List Bit} {Q : Expr → Prop} (h : OneExpr bs Q) :
    OnePiece (Bit.between bs) fun p =>
      Q p.operand ∧ ∃ place, p.call? = some fun l r => .called p.operand l r place := by
  intro ts us hts
  obtain ⟨t, vs, o, rfl, ht, ho, hvs⟩ := spells_marked hts
  obtain ⟨e, he, hq⟩ := h vs (o :: us) hvs (piece?_of_opening (.inl ho) us)
  have hb : Reading.between (m := Id) grammar (t :: (vs ++ o :: us)) = some (e, us) := by
    simp [Reading.between, ht, ho, he, bind_id, pure_id]
  have hp : piece? (t :: (vs ++ [o]) ++ us) = some ⟨e, some fun l r => .called e l r
      ((opening? (t :: (vs ++ o :: us)) us).map (·.place)), us⟩ := by
    simp [piece?, ht, hb]
  exact ⟨_, hp, rfl, hq, _, rfl⟩

theorem OnePiece.imp {bs : List Bit} {Q R : Piece → Prop} (h : OnePiece bs Q)
    (hQ : ∀ p, Q p → R p) : OnePiece bs R := by
  intro ts us hts
  obtain ⟨p, hp, hr, hq⟩ := h ts us hts
  exact ⟨p, hp, hr, hQ p hq⟩

section Calls

variable {ls cs rs : List Bit} {M : (Option Expr → Option Expr → Expr) → Prop}
  {L R : Expr → Prop} (hc : OnePiece cs fun p => ∃ c ∈ p.call?, M c)
  (hr : OnePiece rs fun p => R p.operand)
include hc hr

/-- A callee in front of an operand is read as a call of it. -/
theorem OnePiece.unary :
    OneExpr (cs ++ .blank 32 :: rs) fun e => ∃ c r, M c ∧ R r ∧ e = c none (some r) := by
  intro ts us hts hus
  obtain ⟨tr, tc, rfl, htr, htc⟩ := spells_append.1 hts
  obtain ⟨r, hpr, hrr, hR⟩ := hr tr (tc ++ us) htr
  obtain ⟨y, hpc, hyr, c, hcall, hM⟩ := hc tc us htc
  refine ⟨_, ?_, c, r.operand, hM, hR, rfl⟩
  rw [List.append_assoc, grammar_eq_taken, pieces_of_some hpr, hrr, pieces_of_some hpc, hyr,
    pieces_of_none hus]
  simp only [takenFrom, take]
  rw [Option.mem_def.1 hcall]
  simp [hyr]

/-- A callee between two operands is read as a call of them. -/
theorem OnePiece.binary (hl : OnePiece ls fun p => L p.operand) :
    OneExpr (ls ++ .blank 32 :: (cs ++ .blank 32 :: rs)) fun e =>
      ∃ c l r, M c ∧ L l ∧ R r ∧ e = c (some l) (some r) := by
  intro ts us hts hus
  obtain ⟨tcr, tl, rfl, htcr, htl⟩ := spells_append.1 hts
  obtain ⟨tr, tc, rfl, htr, htc⟩ := spells_append.1 (spells_blank.1 htcr)
  obtain ⟨r, hpr, hrr, hR⟩ := hr tr (tc ++ (tl ++ us)) htr
  obtain ⟨y, hpc, hyr, c, hcall, hM⟩ := hc tc (tl ++ us) htc
  obtain ⟨l, hpl, hlr, hL⟩ := hl tl us htl
  refine ⟨_, ?_, c, l.operand, r.operand, hM, hL, hR, rfl⟩
  rw [List.append_assoc, List.append_assoc, grammar_eq_taken, pieces_of_some hpr, hrr,
    pieces_of_some hpc, hyr, pieces_of_some hpl, hlr, pieces_of_none hus]
  simp only [takenFrom, take]
  rw [Option.mem_def.1 hcall]
  simp [hlr]

end Calls

/-- The members of an array, the last first, are read as a piece each. -/
theorem pieces_of_members {Q : Expr → Piece → Prop} {us : List Token} (hus : piece? us = none) :
    ∀ {ms : List Expr} {ts : List Token}, (∀ m ∈ ms, OnePiece m.bits (Q m)) →
      ts.map Token.word = ms.flatMap (fun m => (wordsOf m.bits).reverse) →
      front (ts ++ us) = us ∧ List.Forall₂ Q ms (pieces (ts ++ us))
  | [], ts, _, hts => by
    obtain rfl : ts = [] := by simpa using hts
    rw [List.nil_append, front_of_none hus, pieces_of_none hus]
    exact ⟨rfl, .nil⟩
  | m :: ms, ts, hms, hts => by
    rw [List.flatMap_cons, List.map_eq_append_iff] at hts
    obtain ⟨ts₁, ts₂, rfl, h₁, h₂⟩ := hts
    obtain ⟨p, hp, hr, hq⟩ := hms m (by simp) ts₁ (ts₂ ++ us) h₁
    have ih := pieces_of_members hus (fun m' hm' => hms m' (by simp [hm'])) h₂
    rw [List.append_assoc, front_of_some hp, pieces_of_some hp, hr]
    exact ⟨ih.1, .cons hq ih.2⟩

theorem reverse_wordsOf_bitsAll : ∀ ms : List Expr, (wordsOf (Expr.bitsAll ms)).reverse
    = ms.reverse.flatMap fun m => (wordsOf m.bits).reverse
  | [] => rfl
  | [m] => by simp [Expr.bitsAll]
  | m :: m' :: ms => by
    have ih := reverse_wordsOf_bitsAll (m' :: ms)
    have hb : wordsOf (.blank 32 :: Expr.bitsAll (m' :: ms)) = wordsOf (Expr.bitsAll (m' :: ms)) :=
      rfl
    rw [Expr.bitsAll, List.reverse_cons, List.flatMap_append, ← ih, wordsOf,
      List.filterMap_append, List.reverse_append, List.flatMap_singleton]
    exact congrArg (· ++ _) (congrArg List.reverse hb)

end Reading

namespace Expr

open Bit (wordsOf)

/-- The source of an expression is read as one piece. -/
def Renders (e : Expr) : Prop :=
  OnePiece e.bits fun p => p.Upright ∧ Rereads e p.operand

theorem upright_of_call {p : Piece} (hi : p.operand.isCall = true)
    (h : ∃ place, p.call? = some fun l r => .called p.operand l r place) : p.Upright := by
  simpa [Piece.Upright, hi] using h

/-- A call is read as a call of what its callee and operands are read as. -/
theorem onePiece_call {M : (Option Expr → Option Expr → Expr) → Prop} {cs : List Bit}
    {lhs : Option Expr} {rhs : Expr} (hM : ∀ c, M c → ∀ l r, (c l r).isCall = true)
    (hc : OnePiece cs fun p => ∃ c ∈ p.call?, M c)
    (hl : ∀ x ∈ lhs, x.Renders) (hr : rhs.Renders) :
    OnePiece (callBits (bitsOf lhs) cs (bitsOf rhs)) fun p =>
      p.Upright ∧ ∃ c lhs' rhs', M c ∧ Option.Rel Rereads lhs lhs' ∧ Rereads rhs rhs' ∧
        p.operand = c lhs' (some rhs') := by
  have hr' := hr.imp fun p hp => hp.2
  rcases lhs with _ | x
  · refine (hc.unary hr').between.imp fun p hp => ?_
    obtain ⟨⟨c, r, hmc, hr, he⟩, hcall⟩ := hp
    exact ⟨upright_of_call (he ▸ hM c hmc _ _) hcall, c, none, r, hmc, .none, hr, he⟩
  · have hl' := (hl x rfl).imp fun p hp => hp.2
    refine (hc.binary hr' hl').between.imp fun p hp => ?_
    obtain ⟨⟨c, l, r, hmc, hl, hr, he⟩, hcall⟩ := hp
    exact ⟨upright_of_call (he ▸ hM c hmc _ _) hcall, c, some l, r, hmc, .some hl, hr, he⟩

theorem onePiece_name (n : Text) : OnePiece [.name n] fun p =>
    (∃ l : Location, p.operand = .named n none none l) ∧
      ∃ c ∈ p.call?, ∃ l : Location, c = fun lhs rhs => .named n lhs rhs l := by
  intro ts us hts
  obtain ⟨t, rfl, ht⟩ := (spells_singleton rfl).1 hts
  obtain ⟨hk, hn⟩ := Prod.mk.inj ht
  have hp : piece? ([t] ++ us)
      = some ⟨.named n none none t.place, some fun l r => .named n l r t.place, us⟩ := by
    simp [piece?, hk, hn]
  exact ⟨_, hp, rfl, ⟨_, rfl⟩, _, rfl, _, rfl⟩

/-- A callee is read as a callee, put between parentheses or not. -/
theorem Renders.callee {c : Expr} (h : c.Renders) :
    OnePiece (if c.isCall then c.bits else Bit.between c.bits) fun p =>
      ∃ f ∈ p.call?, ∃ c' l, Rereads c c' ∧ f = fun lhs rhs => .called c' lhs rhs l := by
  split
  · rename_i hc
    refine h.imp fun p hp => ?_
    obtain ⟨hup, hre⟩ := hp
    simp only [Piece.Upright, hre.isCall, hc, if_true] at hup
    obtain ⟨l, hl⟩ := hup
    exact ⟨_, hl, _, l, hre, rfl⟩
  · refine (h.expr (R := Rereads c) fun p hp => hp.2).between.imp fun p hp => ?_
    obtain ⟨hre, l, hl⟩ := hp
    exact ⟨_, hl, _, l, hre, rfl⟩

/-- The source of an array is read as an array of what its members are read as. -/
theorem renders_array {ms : List Expr} (h : ∀ m ∈ ms, m.Renders) (l : Option Location) :
    (Expr.array ms l).Renders := by
  intro ts us hts
  obtain ⟨t, vs, o, rfl, ht, ho, hvs⟩ := spells_marked hts
  rw [Spells, reverse_wordsOf_bitsAll] at hvs
  obtain ⟨hfront, hpieces⟩ := pieces_of_members (piece?_of_opening (.inr ho) us)
    (fun m hm => h m (by simpa using hm)) hvs
  have hm := members_eq ((vs ++ o :: us).length + 1) [] (vs ++ o :: us) (Nat.lt_succ_self _)
  rw [hfront, List.append_nil] at hm
  have ha : Reading.array (m := Id) grammar (t :: (vs ++ o :: us))
      = some (.array (takeAll (pieces (vs ++ o :: us))) o.place, us) := by
    simp only [Reading.array, ht, if_true, bind_id, pure_id]
    rw [hm]
    simp [ho]
  have hp : piece? (t :: (vs ++ [o]) ++ us)
      = some ⟨.array (takeAll (pieces (vs ++ o :: us))) o.place, none, us⟩ := by
    simp [piece?, ht, ha]
  have hup : ∀ y ∈ pieces (vs ++ o :: us), y.Upright := by
    intro y hy
    obtain ⟨m, -, hq⟩ := exists_of_mem_right hpieces hy
    exact hq.1
  refine ⟨_, hp, rfl, rfl, rereads_array l o.place hup ?_⟩
  rw [← List.forall₂_reverse_iff, List.reverse_reverse, List.forall₂_map_right_iff]
  exact hpieces.imp fun _ _ hq => hq.2

/-- The source of a readable expression is read as one piece, which is that expression but for what
fuses. -/
theorem Readable.renders {e : Expr} (h : e.Readable) (hn : e.NumbersReadBack) : e.Renders := by
  induction h with
  | number x l =>
    intro ts us hts
    obtain ⟨t, rfl, ht⟩ := (spells_singleton rfl).1 hts
    obtain ⟨hk, htext⟩ := Prod.mk.inj ht
    obtain ⟨-, hback⟩ := (forall_nodes_iff.1 hn).1 _ rfl
    obtain ⟨y, hy, hxy⟩ := Option.map_eq_some_iff.1 hback
    have hp := piece?_num hk (htext ▸ hy) us
    rw [hxy] at hp
    exact ⟨_, hp, rfl, rfl, rereads_of_leaf rfl rfl (by simp [Fusible])⟩
  | @string s _ l =>
    intro ts us hts
    obtain ⟨t, rfl, ht⟩ := (spells_singleton rfl).1 hts
    obtain ⟨hk, htext⟩ := Prod.mk.inj ht
    have hp : piece? ([t] ++ us) = some ⟨.literal (.str s) t.place, none, us⟩ := by
      simp [piece?, Reading.literal, hk, htext, unquoted, Lexeme.quoted]
    exact ⟨_, hp, rfl, rfl, rereads_of_leaf rfl rfl (by simp [Fusible])⟩
  | array _ l ih => exact renders_array (fun m hm => ih m hm (hn.child hm)) l
  | @name n _ l =>
    refine ((onePiece_name n).expr (R := fun e => ∃ l : Location, e = .named n none none l)
      fun p hp => hp.1).between.imp fun p hp => ?_
    obtain ⟨⟨l', he⟩, hcall⟩ := hp
    exact ⟨upright_of_call (he ▸ rfl) hcall, he ▸ rereads_of_leaf rfl rfl (by simp [Fusible])⟩
  | @named n lhs rhs _ _ _ l ihl ihr =>
    have hc := (onePiece_name n).imp fun p hp => hp.2
    refine (onePiece_call ?_ hc (fun x hx => ihl x hx (hn.child ?_))
      (ihr (hn.child (by simp [children])))).imp fun p hp => ?_
    · rintro _ ⟨l, rfl⟩ _ _
      rfl
    · simp_all [children]
    · obtain ⟨hup, _, lhs', rhs', ⟨l', rfl⟩, hl, hr, he⟩ := hp
      exact ⟨hup, he ▸ rereads_named hl hr l l'⟩
  | @called c lhs rhs _ _ _ l ihc ihl ihr =>
    have hc := (ihc (hn.child (by simp [children]))).callee
    refine (onePiece_call ?_ hc (fun x hx => ihl x hx (hn.child ?_))
      (ihr (hn.child (by simp [children])))).imp fun p hp => ?_
    · rintro _ ⟨c', l, -, rfl⟩ _ _
      rfl
    · simp_all [children]
    · obtain ⟨hup, _, lhs', rhs', ⟨c', l', hc, rfl⟩, hl, hr, he⟩ := hp
      exact ⟨hup, he ▸ rereads_called hc hl hr l l'⟩

end Expr

end Tacit
