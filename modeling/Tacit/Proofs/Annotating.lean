import Mathlib.Data.List.Nodup
import Tacit.Proofs.ProfileTrees

/-!
# Spans are the calls of a run

Spans are numbered in the order in which they begin, each before those inside it, and end in the
order in which calls stop, each behind those inside it (`Trace.begunAll`, `Trace.endedAll`). An
annotator keeps to that whether its endings remember the context to go on in or take it from a
stack, as what it is in between calls is what it was before them (`Annotator.Annotates`). So the
spans of a run are those of its calls, whichever way the annotator goes (`Host.spans_eq_calls`).
-/

namespace Tacit

namespace Profile

namespace Trace

variable (labeling : Labeling)

mutual

/-- The spans of a trace as they begin, the first of them with a number. -/
def begunOf (n : Nat) (parent : Option Nat) : Trace → List Begun
  | call fn inner => ⟨labeling.label fn, fn, parent⟩ :: begunAll (n + 1) (some n) inner

/-- The spans of some traces as they begin. -/
def begunAll (n : Nat) (parent : Option Nat) : List Trace → List Begun
  | [] => []
  | t :: ts => begunOf n parent t ++ begunAll (n + t.size) parent ts

end

mutual

/-- The numbers of the spans of a trace in the order in which they end. -/
def endedOf (n : Nat) : Trace → List Nat
  | call _ inner => endedAll (n + 1) inner ++ [n]

/-- The numbers of the spans of some traces in the order in which they end. -/
def endedAll (n : Nat) : List Trace → List Nat
  | [] => []
  | t :: ts => endedOf n t ++ endedAll (n + t.size) ts

end

theorem sizeAll_append : ∀ ts us : List Trace, sizeAll (ts ++ us) = sizeAll ts + sizeAll us
  | [], us => by simp [sizeAll]
  | t :: ts, us => by simp [sizeAll, sizeAll_append ts us, Nat.add_assoc]

theorem begunAll_append (parent : Option Nat) : ∀ (n : Nat) (ts us : List Trace),
    begunAll labeling n parent (ts ++ us) =
      begunAll labeling n parent ts ++ begunAll labeling (n + sizeAll ts) parent us
  | n, [], us => by simp [begunAll, sizeAll]
  | n, t :: ts, us => by
    simp [begunAll, sizeAll, begunAll_append parent (n + t.size) ts us, Nat.add_assoc]

theorem endedAll_append : ∀ (n : Nat) (ts us : List Trace),
    endedAll n (ts ++ us) = endedAll n ts ++ endedAll (n + sizeAll ts) us
  | n, [], us => by simp [endedAll, sizeAll]
  | n, t :: ts, us => by
    simp [endedAll, sizeAll, endedAll_append (n + t.size) ts us, Nat.add_assoc]

mutual

theorem length_begunOf (n : Nat) (parent : Option Nat) : ∀ t : Trace,
    (begunOf labeling n parent t).length = t.size
  | call _ inner => by rw [begunOf, List.length_cons, length_begunAll (n + 1) (some n) inner, size]

theorem length_begunAll (n : Nat) (parent : Option Nat) : ∀ ts : List Trace,
    (begunAll labeling n parent ts).length = sizeAll ts
  | [] => rfl
  | t :: ts => by
    rw [begunAll, List.length_append, length_begunOf n parent t,
      length_begunAll (n + t.size) parent ts, sizeAll]

end

mutual

theorem endedOf_perm (n : Nat) : ∀ t : Trace, (endedOf n t).Perm (List.range' n t.size)
  | call _ inner => by
    rw [endedOf, size, List.range'_succ]
    exact List.perm_append_comm.trans ((endedAll_perm (n + 1) inner).cons n)

/-- Each span ends once. -/
theorem endedAll_perm (n : Nat) : ∀ ts : List Trace,
    (endedAll n ts).Perm (List.range' n (sizeAll ts))
  | [] => .refl _
  | t :: ts => by
    rw [endedAll, sizeAll, ← List.range'_append_1]
    exact (endedOf_perm n t).append (endedAll_perm (n + t.size) ts)

end

theorem length_endedAll (n : Nat) (ts : List Trace) : (endedAll n ts).length = sizeAll ts := by
  rw [(endedAll_perm n ts).length_eq, List.length_range']

end Trace

theorem prefix_drop_of_append {α : Type} {xs ys zs : List α} {n : Nat}
    (h : xs ++ ys <+: zs.drop n) : xs <+: zs.drop n ∧ ys <+: zs.drop (n + xs.length) := by
  obtain ⟨ws, hws⟩ := h
  refine ⟨⟨ys ++ ws, by simpa using hws⟩, ⟨ws, ?_⟩⟩
  rw [← List.drop_drop, ← hws]
  simp

theorem prefix_drop_of_cons {α : Type} {x : α} {xs zs : List α} {n : Nat}
    (h : x :: xs <+: zs.drop n) : zs[n]? = some x ∧ xs <+: zs.drop (n + 1) := by
  refine ⟨?_, (prefix_drop_of_append (List.singleton_append ▸ h)).2⟩
  obtain ⟨ws, hws⟩ := h
  rw [← Nat.add_zero n, ← List.getElem?_drop, ← hws]
  rfl

theorem idxOf?_of_nodup {xs : List Nat} (hnd : xs.Nodup) {i n : Nat} (h : xs[i]? = some n) :
    xs.idxOf? n = some i := by
  obtain ⟨hi, rfl⟩ := List.getElem?_eq_some_iff.1 h
  refine List.idxOf?_eq_some_iff.2 ⟨hi, rfl, fun j hj hji => ?_⟩
  have := (hnd.getElem_inj_iff).1 hji
  omega

theorem eraseDups_of_nodup : ∀ {xs : List Nat}, xs.Nodup → xs.eraseDups = xs
  | [], _ => rfl
  | x :: xs, h => by
    obtain ⟨hx, hxs⟩ := List.nodup_cons.1 h
    have hfilter : xs.filter (fun y => !y == x) = xs :=
      List.filter_eq_self.2 fun y hy => by simpa using ne_of_mem_of_not_mem hy hx
    rw [List.eraseDups_cons, hfilter, eraseDups_of_nodup hxs]

section Member

variable (labeling : Labeling) (log : SpanLog) {among : List Nat}

mutual

theorem filterMap_member_endedOf (hnd : among.Nodup) (n m : Nat) (parent : Option Nat) :
    ∀ t : Trace,
    Trace.begunOf labeling n parent t <+: log.begun.toList.drop n →
    Trace.endedOf n t <+: among.drop m →
    (Trace.endedOf n t).filterMap (log.member among) =
      Span.ofTrace labeling m (parent.bind fun k => among.idxOf? k) t
  | .call fn inner, hb, he => by
    obtain ⟨hbegun, hbi⟩ := prefix_drop_of_cons hb
    obtain ⟨hei, hen⟩ := prefix_drop_of_append he
    rw [Trace.length_endedAll] at hen
    have hindex : among.idxOf? n = some (m + Trace.sizeAll inner) :=
      idxOf?_of_nodup hnd (prefix_drop_of_cons hen).1
    have hi := filterMap_member_endedAll hnd (n + 1) m (some n) inner hbi hei
    rw [Option.bind_some, hindex] at hi
    rw [Array.getElem?_toList] at hbegun
    rw [Trace.endedOf, List.filterMap_append, hi, Span.ofTrace]
    simp [SpanLog.member, hbegun]

/-- The spans of some traces, found by number, are those of the traces, found by where they stand
among all. -/
theorem filterMap_member_endedAll (hnd : among.Nodup) (n m : Nat) (parent : Option Nat) :
    ∀ ts : List Trace,
    Trace.begunAll labeling n parent ts <+: log.begun.toList.drop n →
    Trace.endedAll n ts <+: among.drop m →
    (Trace.endedAll n ts).filterMap (log.member among) =
      Span.ofTraces labeling m (parent.bind fun k => among.idxOf? k) ts
  | [], _, _ => rfl
  | t :: ts, hb, he => by
    obtain ⟨hbt, hbts⟩ := prefix_drop_of_append hb
    obtain ⟨het, hets⟩ := prefix_drop_of_append he
    rw [Trace.length_begunOf] at hbts
    rw [(Trace.endedOf_perm n t).length_eq, List.length_range'] at hets
    rw [Trace.endedAll, List.filterMap_append, filterMap_member_endedOf hnd n m parent t hbt het,
      filterMap_member_endedAll hnd (n + t.size) (m + t.size) parent ts hbts hets, Span.ofTraces]

end

end Member

/-- A log of spans of some calls. -/
structure SpanLog.Holds (labeling : Labeling) (log : SpanLog) (ts : List Trace) : Prop where
  begun : log.begun.toList = Trace.begunAll labeling 0 none ts
  ended : log.ended.toList = Trace.endedAll 0 ts

section Holds

variable {labeling : Labeling} {log : SpanLog} {ts : List Trace} (h : log.Holds labeling ts)
include h

/-- Every span that was begun has ended, once. -/
theorem SpanLog.Holds.ended_perm : log.ended.toList.Perm (List.range log.begun.size) := by
  rw [h.ended, ← Array.length_toList, h.begun, Trace.length_begunAll, List.range_eq_range']
  exact Trace.endedAll_perm 0 ts

/-- The spans of a log are those of the calls that it holds. -/
theorem SpanLog.Holds.spans_eq : log.spans = Span.ofTraces labeling 0 none ts := by
  have hnd : log.ended.toList.Nodup := h.ended_perm.nodup_iff.2 List.nodup_range
  rw [SpanLog.spans, eraseDups_of_nodup hnd]
  have hmember := filterMap_member_endedAll labeling log hnd 0 0 none ts
    (by simp [h.begun]) (by simp [h.ended])
  rw [← h.ended] at hmember
  exact hmember

end Holds

namespace Annotator

variable {labeling : Labeling} {ts us : List Trace} {a b c : Annotator}

/-- An annotator in between calls, or at their beginning: the span that is ended next is that of the
context. -/
def Steady (a : Annotator) : Prop := a.span = a.context.span?

/-- What following some calls makes of an annotator: their spans begin and end, and all else is as
it was. -/
structure Annotates (labeling : Labeling) (ts : List Trace) (a b : Annotator) : Prop where
  begun : b.log.begun.toList =
    a.log.begun.toList ++ Trace.begunAll labeling a.log.begun.size a.context.span? ts
  ended : b.log.ended.toList = a.log.ended.toList ++ Trace.endedAll a.log.begun.size ts
  context : b.context = a.context
  span : b.span = a.span
  aside : b.aside = a.aside

theorem Annotates.nil (labeling : Labeling) (a : Annotator) : Annotates labeling [] a a :=
  ⟨by simp [Trace.begunAll], by simp [Trace.endedAll], rfl, rfl, rfl⟩

theorem Annotates.size (h : Annotates labeling ts a b) :
    b.log.begun.size = a.log.begun.size + Trace.sizeAll ts := by
  rw [← Array.length_toList, h.begun, List.length_append, Array.length_toList,
    Trace.length_begunAll]

theorem Annotates.append (h : Annotates labeling ts a b) (hu : Annotates labeling us b c) :
    Annotates labeling (ts ++ us) a c where
  begun := by
    rw [hu.begun, h.begun, h.size, h.context, Trace.begunAll_append, List.append_assoc]
  ended := by rw [hu.ended, h.ended, h.size, Trace.endedAll_append, List.append_assoc]
  context := hu.context.trans h.context
  span := hu.span.trans h.span
  aside := hu.aside.trans h.aside

/-- A call adds its span when it ends the span that there is, goes on in the context there was and
leaves aside what was aside. -/
theorem Annotates.call {aside : List Context} {fn : Function} (hs : a.Steady)
    (h : Annotates labeling ts ({ a with aside := aside }.enter (labeling.label fn) fn) b) :
    Annotates labeling [.call fn ts] a { b.leave a.context with aside := a.aside } := by
  have hspan : b.span = some a.log.begun.size := h.span
  refine ⟨?_, ?_, rfl, hs.symm, rfl⟩
  · have hb : b.log.begun.toList =
        (a.log.begun.push ⟨labeling.label fn, fn, a.context.span?⟩).toList ++
          Trace.begunAll labeling (a.log.begun.push _).size (some a.log.begun.size) ts := h.begun
    simpa [leave, hspan, SpanLog.finish, Trace.begunAll, Trace.begunOf] using hb
  · have he : b.log.ended.toList =
        a.log.ended.toList ++ Trace.endedAll (a.log.begun.push _).size ts := h.ended
    simp [leave, hspan, SpanLog.finish, Trace.endedAll, Trace.endedOf, he]

/-- A way of following a call, which begins with what is inside it and has an ending. -/
structure Brackets (way : Annotator → Text → Function → Annotator × Ending) : Prop where
  begins : ∀ a name fn, (way a name fn).1.Steady
  ends : ∀ a name fn b c, (way a name fn).2 b = .ok c → c.Steady
  call : ∀ labeling a fn ts b, a.Steady → Annotates labeling ts (way a (labeling.label fn) fn).1 b →
    ∃ c, (way a (labeling.label fn) fn).2 b = .ok c ∧ Annotates labeling [.call fn ts] a c

theorem brackets_remembering : Brackets remembering where
  begins _ _ _ := rfl
  ends a name fn b c h := by
    cases h
    rfl
  call labeling a fn ts b hs h := by
    have hcall := @Annotates.call labeling ts a b a.aside fn hs h
    have haside : b.aside = a.aside := h.aside
    refine ⟨_, rfl, ?_⟩
    rw [← haside] at hcall
    exact hcall

/-- An ending that takes the context from a stack restores it, as all that was put there inside has
been taken off. -/
theorem brackets_stacking : Brackets stacking where
  begins _ _ _ := rfl
  ends a name fn b c h := by
    simp only [stacking] at h
    split at h <;> cases h
    rfl
  call labeling a fn ts b hs h := by
    have haside : b.aside = a.context :: a.aside := h.aside
    refine ⟨_, ?_, h.call hs⟩
    simp only [stacking, haside]

end Annotator

end Profile

open Profile (Trace Options Annotator SpanLog Span)

namespace Profiler

/-! ## Profilers that make spans -/

/-- Profilers of a kind make spans, following calls in some way. -/
structure Kind.Goes (kind : Kind)
    (way : Annotator → Text → Function → Annotator × Annotator.Ending) : Prop where
  brackets : Annotator.Brackets way
  begin_eq : ∀ (p : Profiler) (label : Text) (fn : Function), p.kind = kind →
    p.begin label fn = ({ p with annotator := (way p.annotator label fn).1 },
      annotating (way p.annotator label fn).2)
  complete_eq : ∀ p : Profiler, p.kind = kind →
    p.complete = .ok ({ p with annotator := p.annotator.complete }, none)

theorem goes_telemetry (tracer : Text) : (Kind.telemetry tracer).Goes Annotator.remembering where
  brackets := Annotator.brackets_remembering
  begin_eq p label fn hp := by simp only [begin, hp]
  complete_eq p hp := by
    simp only [complete, hp]
    rfl

theorem goes_census : Kind.census.Goes Annotator.stacking where
  brackets := Annotator.brackets_stacking
  begin_eq p label fn hp := by simp only [begin, hp]
  complete_eq p hp := by
    simp only [complete, hp]
    rfl

/-- A profiler of a kind in between calls, or at their beginning. -/
structure Steady (kind : Kind) (p : Profiler) : Prop where
  kind : p.kind = kind
  annotator : p.annotator.Steady

/-- A profiler in the middle of a run, so that whatever ends the calls under way leaves it in
between calls. -/
structure Following.Steady (kind : Kind) (s : Following) : Prop where
  profiler : s.profiler.Steady kind
  endings : ∀ ending ∈ s.endings, ∀ p q : Profiler, p.Steady kind → ending p = .ok q →
    q.Steady kind

section Goes

variable {kind : Kind} {way : Annotator → Text → Function → Annotator × Annotator.Ending}
  (hg : kind.Goes way) {p q : Profiler}
include hg

/-- A function that is not left out begins to run. -/
theorem Kind.Goes.start_eq (hp : p.kind = kind) {fn : Function}
    (hs : p.options.filter.skips fn = false) :
    ∃ noted, p.start fn =
      ({ p with
        annotator := (way p.annotator (p.options.labeling.label fn) fn).1
        noted := noted },
        annotating (way p.annotator (p.options.labeling.label fn) fn).2) := by
  obtain ⟨noted, hn⟩ := p.note_eq fn
  refine ⟨noted, ?_⟩
  rw [start, if_neg (by simp [hs]), hg.begin_eq _ _ _ (by rw [hn]; exact hp), hn]

/-- A profiler in between calls is so when a function begins, and whatever ends the call leaves it
so. -/
theorem Steady.start (hp : p.Steady kind) (fn : Function) :
    (p.start fn).1.Steady kind ∧
      ∀ q r : Profiler, q.Steady kind → (p.start fn).2 q = .ok r → r.Steady kind := by
  rcases hskip : p.options.filter.skips fn with _ | _
  · obtain ⟨noted, hstart⟩ := hg.start_eq hp.kind hskip
    rw [hstart]
    refine ⟨⟨hp.kind, hg.brackets.begins ..⟩, fun q r hq h => ?_⟩
    simp only [annotating] at h
    rcases hc : (way p.annotator (p.options.labeling.label fn) fn).2 q.annotator with s | c <;>
      rw [hc] at h <;> cases h
    exact ⟨hq.kind, hg.brackets.ends _ _ _ _ _ hc⟩
  · rw [Profiler.start, if_pos hskip]
    refine ⟨hp, fun q r hq h => ?_⟩
    cases h
    exact hq

theorem Following.Steady.step {s u : Following} (hs : s.Steady kind) {e : Event}
    (h : s.step e = .ok u) : u.Steady kind := by
  obtain ⟨p, endings⟩ := s
  cases e with
  | composed | curried =>
    rw [step_aside rfl] at h
    cases h
    exact hs
  | entered fn args =>
    rw [step_entered] at h
    cases h
    obtain ⟨hbegun, hending⟩ := Profiler.Steady.start hg hs.profiler fn
    exact ⟨hbegun, List.forall_mem_cons.2 ⟨hending, hs.endings⟩⟩
  | left fn result =>
    cases endings with
    | nil =>
      cases h
      exact hs
    | cons ending endings =>
      obtain ⟨hending, hendings⟩ := List.forall_mem_cons.1 hs.endings
      rcases hq : ending p with t | q
      · change (do return ⟨← ending p, endings⟩ : Except Stop Following) = _ at h
        rw [hq] at h
        cases h
      · rw [step_left hq] at h
        cases h
        exact ⟨hending p q hs.profiler hq, hendings⟩

theorem Following.Steady.foldlM : ∀ {es : List Event} {s u : Following}, s.Steady kind →
    es.foldlM Following.step s = .ok u → u.Steady kind
  | [], s, u, hs, h => by
    cases h
    exact hs
  | e :: es, s, u, hs, h => by
    rw [List.foldlM_cons] at h
    rcases he : s.step e with t | v <;> rw [he] at h
    · cases h
    · exact foldlM (Following.Steady.step hg hs he) h

/-- Following what is inside a call, it can follow the call. What is inside a call that is left out
goes to the call around. -/
theorem Steady.call (hp : p.Steady kind) {fn : Function} {inner : List Trace} {b : Annotator}
    (h : Annotator.Annotates (p.start fn).1.options.labeling
      (Trace.keptAll (p.start fn).1.options.filter inner) (p.start fn).1.annotator b)
    (noted : Array Text) :
    ∃ c noted', (p.start fn).2 { (p.start fn).1 with annotator := b, noted := noted } =
        .ok { p with annotator := c, noted := noted' } ∧
      Annotator.Annotates p.options.labeling (Trace.kept p.options.filter (.call fn inner))
        p.annotator c := by
  rcases hskip : p.options.filter.skips fn with _ | _
  · obtain ⟨noted', hstart⟩ := hg.start_eq hp.kind hskip
    rw [hstart] at h ⊢
    obtain ⟨c, hc, hac⟩ := hg.brackets.call _ _ _ _ _ hp.annotator h
    refine ⟨c, noted, ?_, ?_⟩
    · simp only [annotating, hc]
      rfl
    · rw [Trace.kept, if_neg (by simp [hskip])]
      exact hac
  · rw [Profiler.start, if_pos hskip] at h ⊢
    refine ⟨b, noted, rfl, ?_⟩
    rw [Trace.kept, if_pos hskip]
    exact h

/-- A profiler that makes spans follows calls: their spans begin and end, and all else is as it was,
besides the signatures noted. -/
theorem foldlM_annotates {ts : List Trace} {es : List Event} (h : Trace.Recorded ts es) :
    ∀ {p : Profiler} (_ : p.Steady kind) (endings : List Ending), ∃ a noted,
      es.foldlM Following.step ⟨p, endings⟩ =
        .ok ⟨{ p with annotator := a, noted := noted }, endings⟩ ∧
      Annotator.Annotates p.options.labeling (Trace.keptAll p.options.filter ts) p.annotator a := by
  induction h with
  | nil => exact fun {p} _ _ => ⟨p.annotator, p.noted, rfl, .nil _ _⟩
  | aside he _ ih =>
    intro p hp endings
    rw [List.foldlM_cons, Following.step_aside he]
    exact ih hp endings
  | @call fn args result inner ts es fs _ _ ihi ih =>
    intro p hp endings
    obtain ⟨hbegun, -⟩ := Steady.start hg hp fn
    obtain ⟨b, noted, hb, hinner⟩ := ihi hbegun ((p.start fn).2 :: endings)
    obtain ⟨c, noted', hc, hac⟩ := Steady.call hg hp hinner noted
    have hcs : Steady kind { p with annotator := c, noted := noted' } := by
      refine ⟨hp.kind, ?_⟩
      show c.span = c.context.span?
      rw [hac.span, hac.context]
      exact hp.annotator
    obtain ⟨d, noted'', hd, hcd⟩ := ih hcs endings
    refine ⟨d, noted'', ?_, ?_⟩
    · rw [Following.foldlM_call hb hc]
      exact hd
    · rw [Trace.keptAll]
      exact hac.append hcd

end Goes

/-- What a profiler has made of some calls. -/
structure HasSpans (options : Options) (ts : List Trace) (q : Profiler) : Prop where
  /-- Its spans are those of the calls that are not left out, in the order in which they stopped. -/
  spans : q.spans = Span.ofTraces options.labeling 0 none (Trace.keptAll options.filter ts)
  /-- Every span that was begun has been ended, once. -/
  once : q.annotator.log.ended.toList.Perm (List.range q.annotator.log.begun.size)
  /-- No span is left to be ended. -/
  complete : q.complete = .ok (q, none)

/-- When a profiler follows a record, after each call its context is the one before the call. -/
def Returns (p : Profiler) (record : List Event) : Prop :=
  ∀ (before call after : List Event) (t : Trace), record = before ++ call ++ after →
    Trace.Recorded [t] call → ∃ q r, p.follow before = .ok q ∧ p.follow (before ++ call) = .ok r ∧
      r.annotator.context = q.annotator.context ∧ r.annotator.span = q.annotator.span

/-- A profiler that was enabled and has followed nothing yet. -/
def enabled (kind : Kind) (options : Options) : Profiler :=
  { new kind options true with isAttached := true, isEnabled := true }

theorem enabled_steady (kind : Kind) (options : Options) :
    (enabled kind options).Steady kind :=
  ⟨rfl, rfl⟩

theorem enabled_follow (kind : Kind) (options : Options) (es : List Event) :
    (enabled kind options).follow es =
      (·.profiler) <$> es.foldlM Following.step ⟨enabled kind options, []⟩ :=
  if_pos rfl

section Enabled

variable {kind : Kind} {way : Annotator → Text → Function → Annotator × Annotator.Ending}
  (hg : kind.Goes way) (options : Options) {ts : List Trace} {es : List Event}
  (h : Trace.Recorded ts es)
include hg h

/-- A profiler that was just enabled can follow any calls, and has their spans. -/
theorem exists_follow : ∃ q, (enabled kind options).follow es = .ok q ∧
    q.HasSpans options ts := by
  obtain ⟨a, noted, ha, hannot⟩ := foldlM_annotates hg h (enabled_steady kind options) []
  have hholds : a.log.Holds options.labeling (Trace.keptAll options.filter ts) :=
    ⟨hannot.begun.trans (List.nil_append _), hannot.ended.trans (List.nil_append _)⟩
  refine ⟨{ enabled kind options with annotator := a, noted := noted }, ?_,
    hholds.spans_eq, hholds.ended_perm, ?_⟩
  · rw [enabled_follow, ha]
    rfl
  · have hspan : a.span = none := hannot.span
    have hcomplete : a.complete = a := by
      cases a
      cases hspan
      rfl
    rw [hg.complete_eq _ rfl]
    simp only [hcomplete]

theorem enabled_returns : (enabled kind options).Returns es := by
  rintro before call after t rfl hcall
  obtain ⟨a, noted, ha, -⟩ := foldlM_annotates hg h (enabled_steady kind options) []
  rw [List.append_assoc, List.foldlM_append] at ha
  rcases hb : before.foldlM Following.step ⟨enabled kind options, []⟩ with u | s <;> rw [hb] at ha
  · cases ha
  have hstart : Following.Steady kind ⟨enabled kind options, []⟩ :=
    ⟨enabled_steady kind options, by simp⟩
  have hs := Following.Steady.foldlM hg hstart hb
  obtain ⟨b, noted', hb', hannot⟩ := foldlM_annotates hg hcall hs.profiler s.endings
  refine ⟨s.profiler, { s.profiler with annotator := b, noted := noted' }, ?_, ?_, hannot.context,
    hannot.span⟩
  · rw [enabled_follow, hb]
    rfl
  · rw [enabled_follow, List.foldlM_append, hb]
    exact congrArg (Except.map Following.profiler) hb'

end Enabled

end Profiler

namespace Host

theorem profile_enable {kind : Profiler.Kind} {tracer : Text}
    (hk : kind ∈ [Profiler.Kind.telemetry tracer, .census]) (options : Options) (w : World)
    (level : Log.Level) :
    (Host.profile ⟨w, level, some (.new kind options true)⟩ Profiler.enable).1 =
      ⟨w, level, some (.enabled kind options)⟩ := by
  have henable : (Profiler.new kind options true).enable = (.enabled kind options, none) := by
    rcases List.mem_pair.1 hk with rfl | rfl <;> rfl
  simp only [Host.profile, henable]
  exact withProfiler_of_no_file rfl _

/-- How a host program runs something while calls are annotated, given how it is run without that
and which calls are made. -/
structure Annotates (options : Options) (ts : List Trace) (bare : Run Value) (h : Host)
    (r : Run Value) : Prop where
  result : r.result = bare.result
  record : r.record = bare.record
  world : r.host.world = bare.host.world
  profiler : ∃ q₀ q, h.profiler = some q₀ ∧ r.host.profiler = some q ∧ q.HasSpans options ts ∧
    q₀.Returns r.record

/-- A run in which calls are annotated is a run without that. The spans are those of its calls,
whichever the annotator: one for each call that is not left out, with its name, under the span of
the nearest call around it that has one, and in the order in which the calls stopped. All of them
have been ended once, and whatever a call does, its end restores the context it began in. -/
theorem spans_eq_calls (options : Options) {w : World} (hw : w.record = #[]) (level : Log.Level)
    (p : Program) (fuel : Nat) :
    let bare := Host.run ⟨w, level, none⟩ (p.eval fuel)
    ∃ ts, Trace.Recorded ts bare.record ∧
      ∀ tracer, ∀ kind ∈ [Profiler.Kind.telemetry tracer, .census],
        let h := (Host.profile ⟨w, level, some (.new kind options true)⟩ Profiler.enable).1
        Annotates options ts bare h (h.run (p.eval fuel)) := by
  intro bare
  obtain ⟨ts, hts⟩ : ∃ ts, Trace.Recorded ts bare.record :=
    exists_recorded (h := ⟨w, level, none⟩) hw fun _ => Program.eval_nests p
  refine ⟨ts, hts, fun tracer kind hk => ?_⟩
  obtain ⟨way, hg⟩ : ∃ way, kind.Goes way := by
    rcases List.mem_pair.1 hk with rfl | rfl
    · exact ⟨_, Profiler.goes_telemetry tracer⟩
    · exact ⟨_, Profiler.goes_census⟩
  obtain ⟨q, hq, hspans⟩ := Profiler.exists_follow hg options hts
  have hrun : Host.run ⟨w, level, some (.enabled kind options)⟩ (p.eval fuel) =
      { bare with host := { bare.host with profiler := some q } } := run_eq rfl rfl hq
  rw [profile_enable hk]
  simp only [hrun]
  exact ⟨rfl, rfl, rfl, _, q, rfl, rfl, hspans, Profiler.enabled_returns hg options hts⟩

/-- The program `["a"] map toInt`, which fails in a call inside another one. -/
def failingProgram : Program :=
  [.named "map" (some (.array [.literal (.str "a") none] none))
    (some (.named "toInt" none none none)) none]

theorem spans_eq_calls_failing :
    let w := World.initial ⟨[], true⟩
    let options : Options := ⟨.continuations, .name⟩
    let bare := Host.run ⟨w, .info, none⟩ (failingProgram.eval 5)
    w.record = #[] ∧
      (∃ ts, Trace.Recorded ts bare.record ∧
        ∀ tracer, ∀ kind ∈ [Profiler.Kind.telemetry tracer, .census],
          let h := (Host.profile ⟨w, .info, some (.new kind options true)⟩ Profiler.enable).1
          Annotates options ts bare h (h.run (failingProgram.eval 5))) ∧
      bare.result.toBool = false ∧
      (∀ kind ∈ [Profiler.Kind.telemetry Profile.standardTracer, .census],
        let h := (Host.profile ⟨w, .info, some (.new kind options true)⟩ Profiler.enable).1
        (h.run (failingProgram.eval 5)).host.profiler.map
            (fun q => (q.spans.map (·.name), q.spans.map (·.parent))) =
          some ((["toInt", "map"] : List Text), [some 1, none])) := by
  intro w options bare
  refine ⟨rfl, spans_eq_calls options rfl .info failingProgram 5, ?_, ?_⟩
  · decide +kernel
  · decide +kernel

end Host

end Tacit
