import Mathlib.Data.List.Perm.Basic
import Tacit.Proofs.Entering
import Tacit.Proofs.ReadTrees

/-!
# The nodes of what is read and the tokens they are made of

Every node is made of one token of the stretch that an expression is read off, and what is left of
the stretch is punctuation (`Expr.Covered`). This is so because each way of composing an expression
adds one node for one token. When the tokens have different places, a node tells its token by its
place: no number, string or name is lost, made up or used twice, and operands and members stand in
the order of the source (`Expr.readStatement_accounts`).
-/

namespace Tacit

namespace Expr

/-- A node is made of a token: it has its place, and its value or name is that of the lexeme. An
array and a call of an expression are made of the brackets that open them. -/
inductive MadeOf : Expr → Token → Prop where
  | number {t : Token} {x : Float} (hk : t.kind = .num) (hx : Decimal.read? t.text = some x) :
      MadeOf (.literal (.num (.ofFloat 0 x)) t.place) t
  | string {t : Token} (hk : t.kind = .str) :
      MadeOf (.literal (.str (Reading.unquoted t.text)) t.place) t
  | array {t : Token} (hk : t.kind = .braceL) (ms : List Expr) : MadeOf (.array ms t.place) t
  | assigned {t : Token} (hk : t.kind = .ident) (body : Expr) :
      MadeOf (.assign t.text body t.place) t
  | named {t : Token} (hk : t.kind = .ident) (lhs rhs : Option Expr) :
      MadeOf (.named t.text lhs rhs t.place) t
  | called {t : Token} (hk : t.kind = .parenL) (callee : Expr) (lhs rhs : Option Expr) :
      MadeOf (.called callee lhs rhs t.place) t

theorem MadeOf.place {n : Expr} {t : Token} (h : n.MadeOf t) : n.place? = some t.place := by
  cases h <;> rfl

/-- The nodes of an expression account for tokens. -/
structure Accounts (e : Expr) (ts : List Token) : Prop where
  /-- Each node is made of one of them. -/
  made : ∀ n ∈ e.nodes, ∃ t ∈ ts, n.MadeOf t
  /-- Each number, string and name among them is that of one node. -/
  used : ∀ t ∈ ts, t.kind.isVaried = true →
    ∃! i : Fin e.nodes.length, (e.nodes.get i).MadeOf t
  apart : (e.nodes.map place?).Nodup

/-- The parts of a node account for stretches of some tokens that follow each other. -/
structure InOrder (n : Expr) (ts : List Token) : Prop where
  operands : ∀ l ∈ n.lhs?, ∀ r ∈ n.rhs?, ∃ us ls vs rs ws,
    ts = us ++ ls ++ vs ++ rs ++ ws ∧ l.Accounts ls ∧ r.Accounts rs
  members : ∀ ms p, n = .array ms p → ∃ us tss vs,
    ts = us ++ tss.flatten ++ vs ∧ List.Forall₂ Accounts ms tss

/-- Some tokens are those that nodes are made of, one each, and punctuation. -/
def Covered (ns : List Expr) (ts : List Token) : Prop :=
  ∃ us vs, ts.Perm (us ++ vs) ∧ List.Forall₂ MadeOf ns us ∧ ∀ t ∈ vs, t.kind.isVaried = false

namespace Covered

variable {ns ms : List Expr} {ts us : List Token}

theorem nil : Covered [] [] := ⟨[], [], .refl _, .nil, by simp⟩

theorem perm (h : Covered ns us) (hp : ts.Perm us) : Covered ns ts := by
  obtain ⟨vs, ws, hus, hns, hws⟩ := h
  exact ⟨vs, ws, hp.trans hus, hns, hws⟩

theorem append (h : Covered ns ts) (h' : Covered ms us) : Covered (ns ++ ms) (ts ++ us) := by
  obtain ⟨vs, ws, hts, hns, hws⟩ := h
  obtain ⟨vs', ws', hus, hms, hws'⟩ := h'
  refine ⟨vs ++ vs', ws ++ ws', (hts.append hus).trans ?_, List.rel_append hns hms, ?_⟩
  · simpa only [List.append_assoc] using (List.perm_append_comm_assoc ws vs' ws').append_left vs
  · exact List.forall_mem_append.2 ⟨hws, hws'⟩

theorem cons {n : Expr} {t : Token} (hn : n.MadeOf t) (h : Covered ns ts) :
    Covered (n :: ns) (t :: ts) := by
  obtain ⟨vs, ws, hts, hns, hws⟩ := h
  exact ⟨t :: vs, ws, hts.cons t, .cons hn hns, hws⟩

theorem skip {t : Token} (ht : t.kind.isVaried = false) (h : Covered ns ts) :
    Covered ns (t :: ts) := by
  obtain ⟨vs, ws, hts, hns, hws⟩ := h
  exact ⟨vs, t :: ws, (hts.cons t).trans List.perm_middle.symm, hns,
    List.forall_mem_cons.2 ⟨ht, hws⟩⟩

theorem skip_last {t : Token} (ht : t.kind.isVaried = false) (h : Covered ns ts) :
    Covered ns (ts ++ [t]) :=
  (h.skip ht).perm List.perm_append_comm

theorem flatten {es : List Expr} {tss : List (List Token)}
    (h : List.Forall₂ (fun e ts => Covered e.nodes ts) es tss) :
    Covered (es.flatMap nodes) tss.flatten := by
  induction h with
  | nil => exact nil
  | cons h _ ih => exact h.append ih

end Covered

/-- If the nodes of an expression cover some tokens, each token has one node: no two tokens have the
same place. -/
theorem Accounts.of_covered {e : Expr} {ts : List Token} (h : Covered e.nodes ts)
    (hts : (ts.map Token.place).Nodup) : e.Accounts ts := by
  obtain ⟨us, vs, hperm, hmade, hvs⟩ := h
  have hplaces : e.nodes.map place? = (us.map Token.place).map some := by
    rw [← List.forall₂_eq_eq_eq, List.forall₂_map_left_iff, List.forall₂_map_right_iff,
      List.forall₂_map_right_iff]
    exact hmade.imp fun _ _ h => h.place
  have hapart : (e.nodes.map place?).Nodup := by
    have hus : (us.map Token.place).Nodup :=
      ((hperm.map Token.place).nodup_iff.1 hts).sublist ((List.sublist_append_left us vs).map _)
    rw [hplaces]
    exact hus.map (Option.some_injective _)
  refine ⟨fun n hn => ?_, fun t ht hk => ?_, hapart⟩
  · obtain ⟨t, ht, hnt⟩ := exists_of_mem_right hmade.flip hn
    exact ⟨t, hperm.mem_iff.2 (List.mem_append_left _ ht), hnt⟩
  · have htus : t ∈ us := by
      rcases List.mem_append.1 (hperm.mem_iff.1 ht) with h | h
      · exact h
      · rw [hvs t h] at hk
        cases hk
    obtain ⟨n, hn, hnt⟩ := exists_of_mem_right hmade htus
    obtain ⟨i, rfl⟩ := List.get_of_mem hn
    refine ⟨i, hnt, fun j hj => ?_⟩
    have hij : e.nodes.get j = e.nodes.get i :=
      List.inj_on_of_nodup_map hapart (List.get_mem ..) hn (hj.place.trans hnt.place.symm)
    exact List.nodup_iff_injective_get.1 hapart.of_map hij

theorem InOrder.mono {n : Expr} {ts us : List Token} (h : n.InOrder ts) (hts : ts <:+: us) :
    n.InOrder us := by
  obtain ⟨before, after, rfl⟩ := hts
  refine ⟨fun l hl r hr => ?_, fun ms p hn => ?_⟩
  · obtain ⟨us, ls, vs, rs, ws, rfl, hl, hr⟩ := h.operands l hl r hr
    exact ⟨before ++ us, ls, vs, rs, ws ++ after, by simp, hl, hr⟩
  · obtain ⟨us, tss, vs, rfl, hms⟩ := h.members ms p hn
    exact ⟨before ++ us, tss, vs ++ after, by simp, hms⟩

/-- The nodes of an expression cover a stretch of tokens and, if these have different places, their
parts follow each other in it. -/
structure LaidOut (ts : List Token) (e : Expr) : Prop where
  covered : Covered e.nodes ts
  inOrder : (ts.map Token.place).Nodup → ∀ n ∈ e.nodes, n.InOrder ts

theorem LaidOut.accounts {ts us : List Token} {e : Expr} (h : e.LaidOut us)
    (hts : (ts.map Token.place).Nodup) (hus : us <:+: ts) : e.Accounts us :=
  .of_covered h.covered (hts.sublist (hus.sublist.map _))

/-- An expression is laid out on some tokens if its nodes cover them in order and its parts are laid
out on stretches of them. -/
theorem LaidOut.of_children {ts : List Token} {e : Expr} (hc : Covered e.nodes ts)
    (he : (ts.map Token.place).Nodup → e.InOrder ts)
    (hparts : ∀ c ∈ e.children, ∃ us, us <:+: ts ∧ c.LaidOut us) : e.LaidOut ts where
  covered := hc
  inOrder hts := by
    refine forall_nodes_iff.2 ⟨he hts, fun c hc n hn => ?_⟩
    obtain ⟨us, hus, h⟩ := hparts c hc
    exact (h.inOrder (hts.sublist (hus.sublist.map _)) n hn).mono hus

theorem LaidOut.of_leaf {e : Expr} {t : Token} (hn : e.MadeOf t) (hparts : e.children = [])
    (he : e.InOrder [t]) : e.LaidOut [t] := by
  refine .of_children ?_ (fun _ => he) (by simp [hparts])
  rw [nodes_eq, hparts]
  exact .cons hn .nil

end Expr

open Tacit.Expr (Covered LaidOut)

namespace Reading

section Calls

variable {cs : List Token} {call : (lhs rhs : Option Expr) → Expr} {lhs rhs : Option Expr}
  (h : Calls LaidOut cs call)
include h

theorem Calls.covered {ls rs : List Token} (hl : Covered (lhs.toList.flatMap Expr.nodes) ls)
    (hr : Covered (rhs.toList.flatMap Expr.nodes) rs) :
    Covered (call lhs rhs).nodes (cs ++ (ls ++ rs)) := by
  cases h with
  | name hk =>
    rw [Expr.nodes_eq, Expr.children, List.flatMap_append]
    exact .cons (.named hk lhs rhs) (hl.append hr)
  | @between o c us e ho hc he =>
    have hskip : c.kind.isVaried = false := by rw [hc]; rfl
    have hcov := (hl.append he.covered).append (hr.skip hskip)
    rw [Expr.nodes_eq, Expr.children, List.flatMap_append, List.flatMap_append]
    refine .cons (.called ho e lhs rhs) ?_
    rw [List.flatMap_singleton]
    refine hcov.perm (List.perm_iff_count.2 fun t => ?_)
    simp only [List.append_eq, List.count_append, List.count_cons, List.count_nil]
    omega

theorem Calls.operands : (call lhs rhs).lhs? = lhs ∧ (call lhs rhs).rhs? = rhs := by
  cases h <;> exact ⟨rfl, rfl⟩

theorem Calls.ne_array (ms : List Expr) (p : Option Location) : call lhs rhs ≠ .array ms p := by
  cases h <;> nofun

/-- A part of a call is an operand, or laid out between the parentheses that are called. -/
theorem Calls.part {c : Expr} (hc : c ∈ (call lhs rhs).children) :
    c ∈ lhs ∨ c ∈ rhs ∨ ∃ us, us <:+: cs ∧ c.LaidOut us := by
  cases h with
  | name =>
    rcases List.mem_append.1 hc with hc | hc
    · exact .inl (Option.mem_toList.1 hc)
    · exact .inr (.inl (Option.mem_toList.1 hc))
  | @between o d us e ho hd he =>
    simp only [Expr.children, List.mem_append, List.mem_singleton, Option.mem_toList] at hc
    rcases hc with (hc | rfl) | hc
    · exact .inl hc
    · exact .inr (.inr ⟨us, ⟨[o], [d], by simp⟩, he⟩)
    · exact .inr (.inl hc)

/-- A call is laid out if what is called and its operands are, next to each other. -/
theorem Calls.laidOut {ts ls rs : List Token} (hl : Covered (lhs.toList.flatMap Expr.nodes) ls)
    (hr : Covered (rhs.toList.flatMap Expr.nodes) rs) (hts : ts.Perm (cs ++ (ls ++ rs)))
    (hcs : cs <:+: ts) (hparts : ∀ x, x ∈ lhs ∨ x ∈ rhs → ∃ us, us <:+: ts ∧ x.LaidOut us)
    (horder : (ts.map Token.place).Nodup → (call lhs rhs).InOrder ts) :
    (call lhs rhs).LaidOut ts := by
  refine .of_children ((h.covered hl hr).perm hts) horder fun c hc => ?_
  rcases h.part hc with hc | hc | ⟨us, hus, hc⟩
  · exact hparts c (.inl hc)
  · exact hparts c (.inr hc)
  · exact ⟨us, hus.trans hcs, hc⟩

theorem Calls.laidOut_one {x : Expr} {us ts : List Token} (hx : x.LaidOut us)
    (hts : ts.Perm (cs ++ us)) (hcs : cs <:+: ts) (hus : us <:+: ts) :
    (call none (some x)).LaidOut ts := by
  refine h.laidOut .nil (by simpa using hx.covered) hts hcs ?_ fun _ => ⟨?_, ?_⟩
  · rintro y (⟨⟨⟩⟩ | ⟨⟨⟩⟩)
    exact ⟨us, hus, hx⟩
  · simp [h.operands]
  · exact fun ms p hn => absurd hn (h.ne_array ms p)

end Calls

/-- The operands may both follow what is called, or stand on its two sides. -/
theorem Calls.laidOut_two {as bs us vs : List Token} {call : (lhs rhs : Option Expr) → Expr}
    (h : Calls LaidOut (as ++ bs) call) (hcs : (as ++ bs) <:+: as ++ (us ++ (bs ++ vs)))
    {x y : Expr} (hx : x.LaidOut us) (hy : y.LaidOut vs) :
    (call (some x) (some y)).LaidOut (as ++ (us ++ (bs ++ vs))) := by
  have hus : us <:+: as ++ (us ++ (bs ++ vs)) := ⟨as, bs ++ vs, by simp⟩
  have hvs : vs <:+: as ++ (us ++ (bs ++ vs)) := ⟨as ++ us ++ bs, [], by simp⟩
  refine h.laidOut (by simpa using hx.covered) (by simpa using hy.covered) ?_ hcs ?_
    fun hts => ⟨?_, fun ms p hn => absurd hn (h.ne_array ms p)⟩
  · refine List.perm_iff_count.2 fun t => ?_
    simp only [List.count_append]
    omega
  · rintro z (⟨⟨⟩⟩ | ⟨⟨⟩⟩)
    · exact ⟨us, hus, hx⟩
    · exact ⟨vs, hvs, hy⟩
  · rw [h.operands.1, h.operands.2]
    rintro _ ⟨⟩ _ ⟨⟩
    exact ⟨as, us, bs, vs, [], by simp, hx.accounts hts hus, hy.accounts hts hvs⟩

theorem laidOut_array {o c : Token} {tss : List (List Token)} {es : List Expr}
    (ho : o.kind = .braceL) (hc : c.kind = .braceR) (h : List.Forall₂ LaidOut tss es) :
    (Expr.array es o.place).LaidOut (o :: (tss.flatten ++ [c])) := by
  have hcovers : List.Forall₂ (fun e ts => Covered e.nodes ts) es tss :=
    (h.imp fun _ _ h => h.covered).flip
  have hstretch : ∀ ts ∈ tss, ts <:+: o :: (tss.flatten ++ [c]) := by
    intro ts hts
    obtain ⟨before, after, rfl⟩ := List.append_of_mem hts
    exact ⟨o :: before.flatten, after.flatten ++ [c], by simp⟩
  refine .of_children ?_ (fun hts => ⟨nofun, ?_⟩) fun e he => ?_
  · have hskip : c.kind.isVaried = false := by rw [hc]; rfl
    rw [Expr.nodes_eq, Expr.children]
    exact .cons (.array ho es) ((Covered.flatten hcovers).skip_last hskip)
  · rintro ms p ⟨⟩
    refine ⟨[o], tss, [c], by simp, List.Forall₂.flip ?_⟩
    exact ((List.forall₂_and_left _ _).2 ⟨hstretch, h⟩).imp fun _ _ h => h.2.accounts hts h.1
  · obtain ⟨ts, hts, hlaid⟩ := exists_of_mem_right h he
    exact ⟨ts, hstretch ts hts, hlaid⟩

theorem laidOut_between {o c : Token} {us : List Token} {e : Expr} (ho : o.kind = .parenL)
    (hc : c.kind = .parenR) (h : e.LaidOut us) : e.LaidOut (o :: (us ++ [c])) where
  covered := by
    have hskip : o.kind.isVaried = false ∧ c.kind.isVaried = false := by
      rw [ho, hc]
      exact ⟨rfl, rfl⟩
    exact (h.covered.skip_last hskip.2).skip hskip.1
  inOrder hts n hn := by
    have hus : us <:+: o :: (us ++ [c]) := ⟨[o], [c], rfl⟩
    exact (h.inOrder (hts.sublist (hus.sublist.map _)) n hn).mono hus

/-- Every way of composing an expression lays it out. -/
theorem laidOut_composes : Composes LaidOut where
  number hk hx := .of_leaf (.number hk hx) rfl ⟨nofun, nofun⟩
  string hk := .of_leaf (.string hk) rfl ⟨nofun, nofun⟩
  name hk := .of_leaf (.named hk none none) rfl ⟨nofun, nofun⟩
  array := laidOut_array
  between := laidOut_between
  onRight hc hx := hc.laidOut_one hx (.refl _) (List.prefix_append _ _).isInfix
    (List.suffix_append _ _).isInfix
  onLeft hx hc := hc.laidOut_one hx List.perm_append_comm (List.suffix_append _ _).isInfix
    (List.prefix_append _ _).isInfix
  infix_ {cs us vs call _ _} hx hc hy := by
    rw [← List.nil_append cs] at hc
    exact hc.laidOut_two (List.infix_append' us cs vs) hx hy
  leading {cs us vs call _ _} hc hx hy := by
    rw [← List.append_nil cs] at hc
    refine hc.laidOut_two ?_ hx hy
    rw [List.append_nil]
    exact (List.prefix_append _ _).isInfix

end Reading

namespace Expr

variable {ts : List Token} {e : Expr}

theorem laidOut_of_read (h : Expr.read ts = .ok e) : e.LaidOut ts := by
  obtain ⟨us, hus, hlaid⟩ :=
    Reading.grammar_composes Reading.laidOut_composes _ e [] (read_eq_ok.1 h)
  obtain rfl : ts = us := List.reverse_injective (by simpa using hus)
  exact hlaid

theorem laidOut_of_readStatement (h : Expr.readStatement ts = .ok e) : e.LaidOut ts := by
  rcases readStatement_eq_ok h with h | ⟨t, u, us, body, rfl, ht, hu, hbody, rfl⟩
  · exact laidOut_of_read h
  · have hlaid := laidOut_of_read hbody
    have hskip : u.kind.isVaried = false := by rw [hu]; rfl
    refine .of_children ?_ (fun _ => ⟨nofun, nofun⟩) fun c hc => ?_
    · rw [nodes_eq, children, List.flatMap_singleton]
      exact .cons (.assigned ht body) (hlaid.covered.skip hskip)
    · obtain rfl := List.mem_singleton.1 hc
      exact ⟨us, ⟨[t, u], [], by simp⟩, hlaid⟩

/-- A statement accounts for its tokens: each node is made of one of them, no two nodes have the
same place, each number, string and name is that of one node, and the operands of calls and the
members of arrays stand in the order of the source. -/
theorem readStatement_accounts (hts : (ts.map Token.place).Nodup)
    (h : Expr.readStatement ts = .ok e) : e.Accounts ts ∧ ∀ n ∈ e.nodes, n.InOrder ts :=
  have hlaid := laidOut_of_readStatement h
  ⟨hlaid.accounts hts (List.infix_refl ts), hlaid.inOrder hts⟩

/-- The tokens of `x <- "a" f ["b" g]`. -/
def nestedTokens : List Token :=
  [⟨.ident, "x", ⟨[], 0, 1, 1⟩⟩, ⟨.assign, "<-", ⟨[], 2, 1, 3⟩⟩, ⟨.str, "\"a\"", ⟨[], 5, 1, 6⟩⟩,
    ⟨.ident, "f", ⟨[], 9, 1, 10⟩⟩, ⟨.braceL, "[", ⟨[], 11, 1, 12⟩⟩, ⟨.str, "\"b\"", ⟨[], 12, 1, 13⟩⟩,
    ⟨.ident, "g", ⟨[], 16, 1, 17⟩⟩, ⟨.braceR, "]", ⟨[], 17, 1, 18⟩⟩]

/-- What is read off them, in which `g` is called with `"b"`. -/
def nestedStatement : Expr :=
  .assign "x" (.named "f" (some (.literal (.str "a") (some ⟨[], 5, 1, 6⟩)))
    (some (.array [.named "g" none (some (.literal (.str "b") (some ⟨[], 12, 1, 13⟩)))
      (some ⟨[], 16, 1, 17⟩)] (some ⟨[], 11, 1, 12⟩))) (some ⟨[], 9, 1, 10⟩)) (some ⟨[], 0, 1, 1⟩)

theorem readStatement_accounts_nested : (nestedTokens.map Token.place).Nodup ∧
    Expr.readStatement nestedTokens = .ok nestedStatement ∧
    nestedStatement.Accounts nestedTokens ∧
    ∀ n ∈ nestedStatement.nodes, n.InOrder nestedTokens := by
  have hts : (nestedTokens.map Token.place).Nodup := by decide
  have hread : Expr.readStatement nestedTokens = .ok nestedStatement := by cbv
  exact ⟨hts, hread, readStatement_accounts hts hread⟩

end Expr

end Tacit
