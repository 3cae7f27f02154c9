import Tacit.Proofs.Profiling

/-!
# Writers that do not fail

An output of the host program may take all that is written to it. A profiler with such an output
never fails for it. While it follows a run it writes nothing but blocks, and each of them begins in
the same way (`Writer.Adds`, `block_isPrefix`); when it is enabled it writes the header, whether or
not that is then refused (`Profiler.Unfailing.enable`).
-/

namespace Tacit

open Profile (Options Trace Output)

namespace Profile.Output

/-- Each write to an output succeeds, also when it has been closed. -/
structure TakesAll (o : Output) : Prop where
  path : o.path = none
  room : o.room = none

/-- The output with texts written to it. -/
def add (o : Output) (ts : List Text) : Output := { o with written := ts.reverse ++ o.written }

variable {o : Output}

theorem takesAll_toHost : (toHost none).TakesAll := ⟨rfl, rfl⟩

theorem TakesAll.add (h : o.TakesAll) (ts : List Text) : (o.add ts).TakesAll := ⟨h.path, h.room⟩

theorem TakesAll.close (h : o.TakesAll) : o.close.TakesAll := ⟨h.path, h.room⟩

/-- Each write to an output succeeds until it is closed. -/
structure IsOpen (o : Output) : Prop where
  isOpen : (o.path.isSome && 0 < o.closings) = false
  room : o.room = none

theorem TakesAll.isOpen (h : o.TakesAll) : o.IsOpen := ⟨by simp [h.path], h.room⟩

/-- Nothing was written to an output that takes all until it is closed. -/
structure IsNew (o : Output) : Prop extends o.IsOpen where
  written : o.written = []

theorem isNew_toHost : (toHost none).IsNew := ⟨⟨rfl, rfl⟩, rfl⟩

theorem isNew_toFile (path : Text) : (toFile path).IsNew := ⟨⟨rfl, rfl⟩, rfl⟩

theorem IsOpen.add (h : o.IsOpen) (ts : List Text) : (o.add ts).IsOpen := ⟨h.isOpen, h.room⟩

@[simp] theorem add_nil (o : Output) : o.add [] = o := rfl

theorem add_add (o : Output) (ts us : List Text) : (o.add ts).add us = o.add (ts ++ us) := by
  simp [add]

@[simp] theorem text_add (o : Output) (ts : List Text) :
    (o.add ts).text = o.text ++ ts.flatten := by
  simp [add, text]

@[simp] theorem text_close (o : Output) : o.close.text = o.text := rfl

theorem IsOpen.writeAll : ∀ {o : Output} (_ : o.IsOpen) (ts : List Text),
    o.writeAll ts = (o.add ts, none)
  | _, _, [] => rfl
  | o, h, t :: ts => by
    have hw : o.write t = .ok (o.add [t]) := by
      rw [write, if_neg (by simp [h.isOpen])]
      simp [h.room, Output.add]
    rw [Output.writeAll, hw]
    simp only [(h.add [t]).writeAll ts, add_add, List.singleton_append]

end Profile.Output

namespace Profile.Callgrind

/-- A text that is empty or begins as a block does. -/
def BlockLike (t : Text) : Prop := t = [] ∨ ("fl=" : Text) <+: t

theorem BlockLike.append {t u : Text} (ht : BlockLike t) (hu : BlockLike u) :
    BlockLike (t ++ u) := by
  rcases ht with rfl | ht
  · exact hu
  · exact .inr (ht.trans (List.prefix_append t u))

theorem block_isPrefix (label : Text) (inner : List Text) (names : Numbering) :
    ("fl=" : Text) <+: (block label inner names).1.flatten := by
  show _ <+: (("fl=" ++ _ ++ "\n" : Text) :: _).flatten
  rw [List.flatten_cons, List.append_assoc, List.append_assoc]
  exact List.prefix_append _ _

namespace Writer

/-- Nothing has failed, and nothing will. -/
structure Unfailing (w : Writer) : Prop where
  failure : w.failure = none
  takesAll : ∀ o ∈ w.output, o.TakesAll

variable {w u v : Writer}

theorem Unfailing.map (hw : w.Unfailing) {f : Output → Output}
    (hf : ∀ o : Output, o.TakesAll → (f o).TakesAll) (hu : u.failure = none)
    (ho : u.output = w.output.map f) : u.Unfailing := by
  refine ⟨hu, fun o hm => ?_⟩
  rw [ho] at hm
  obtain ⟨o', ho', rfl⟩ := Option.map_eq_some_iff.1 hm
  exact hf o' (hw.takesAll o' ho')

theorem Unfailing.write (hw : w.Unfailing) (names : Numbering) (calls : List Call)
    (ts : List Text) : write { w with calls := calls, names := names } ts =
      ({ w with output := w.output.map (·.add ts), calls := calls, names := names }, none) := by
  unfold Writer.write
  rcases ho : w.output with _ | o
  · simp
  · simp [(hw.takesAll o ho).isOpen.writeAll ts]

/-- A profile that is started begins with the header. -/
theorem start_of_isOpen {o : Output} (ho : w.output = some o) (h : o.IsOpen) :
    w.start = ({ w with
      output := w.output.map (·.add header), names := [], calls := [⟨entryPoint, []⟩] }, none) := by
  unfold Writer.start
  simp only [ho, h.writeAll header]
  rfl

/-- Nothing but blocks was written, and that did not fail. -/
structure Adds (w u : Writer) : Prop where
  unfailing : u.Unfailing
  output : ∃ ts, u.output = w.output.map (·.add ts) ∧ BlockLike ts.flatten

theorem Adds.of_output_eq (hw : w.Unfailing) (hu : u.failure = none) (ho : u.output = w.output) :
    w.Adds u := by
  refine ⟨⟨hu, ho ▸ hw.takesAll⟩, [], ?_, .inl rfl⟩
  simp [ho]

theorem Adds.trans (h : w.Adds u) (hv : u.Adds v) : w.Adds v := by
  obtain ⟨ts, hts, hlike⟩ := h.output
  obtain ⟨us, hus, hlike'⟩ := hv.output
  refine ⟨hv.unfailing, ts ++ us, ?_, ?_⟩
  · rw [hus, hts, Option.map_map]
    exact congrArg (Option.map · w.output) (funext fun o => o.add_add ts us)
  · rw [List.flatten_append]
    exact hlike.append hlike'

theorem enter_failure (w : Writer) (label : Text) : (w.enter label).failure = w.failure := by
  unfold enter
  split <;> rfl

theorem Adds.leave (hw : w.Unfailing) {label : Text} (h : w.leave label = .ok u) : w.Adds u := by
  rcases hc : w.calls with _ | ⟨c, cs⟩
  · simp [Writer.leave, hw.failure, hc] at h
  · have hprefix := block_isPrefix label c.inner.reverse w.names
    rw [leave_of_calls label hw.failure hc] at h
    generalize block label c.inner.reverse w.names = b at h hprefix
    simp only [hw.write] at h
    obtain rfl := Except.ok.inj h
    exact ⟨hw.map (fun o ho => ho.add b.1) rfl rfl, b.1, rfl, .inr hprefix⟩

/-- Whatever happens, nothing but blocks is written. -/
theorem Adds.step {options : Options} {e : Event} (hw : w.Unfailing)
    (h : w.step options e = .ok u) : w.Adds u := by
  cases e with
  | entered fn args =>
    obtain rfl := Except.ok.inj h
    split_ifs
    · exact .of_output_eq hw hw.failure rfl
    · exact .of_output_eq hw ((enter_failure ..).trans hw.failure) (enter_output ..)
  | left fn result =>
    simp only [Writer.step] at h
    split_ifs at h
    · obtain rfl := Except.ok.inj h
      exact .of_output_eq hw hw.failure rfl
    · exact .leave hw h
  | composed | curried =>
    obtain rfl := Except.ok.inj h
    exact .of_output_eq hw hw.failure rfl

/-- While events are followed nothing but blocks is written. -/
theorem Adds.foldlM {options : Options} : ∀ {es : List Event} {w : Writer} (_ : w.Unfailing),
    es.foldlM (Writer.step options) w = .ok u → w.Adds u
  | [], w, hw, h => by
    obtain rfl := Except.ok.inj h
    exact .of_output_eq hw hw.failure rfl
  | e :: es, w, hw, h => by
    rw [List.foldlM_cons] at h
    rcases hv : w.step options e with stop | v <;> rw [hv] at h
    · cases h
    · have hadds := Adds.step hw hv
      exact hadds.trans (Adds.foldlM hadds.unfailing h)

/-- A profile that is completed ends with a block and is closed. -/
theorem Unfailing.finish (hw : w.Unfailing) (hc : w.calls ≠ []) :
    ∃ u ts, w.finish = .ok (u, none) ∧ u.Unfailing ∧
      u.output = w.output.map (fun o => (o.add ts).close) ∧ ("fl=" : Text) <+: ts.flatten := by
  obtain ⟨c, cs, hc⟩ := List.exists_cons_of_ne_nil hc
  have hprefix := block_isPrefix c.label c.inner.reverse w.names
  rw [finish_of_calls hw.failure hc]
  generalize block c.label c.inner.reverse w.names = b at hprefix
  simp only [hw.write]
  refine ⟨_, b.1 ++ [summary], rfl, ?_, Option.map_map .., ?_⟩
  · exact hw.map (fun o ho => (ho.add _).close) hw.failure (Option.map_map ..)
  · rw [List.flatten_append]
    exact hprefix.trans (List.prefix_append ..)

end Writer

end Profile.Callgrind

namespace Profiler

/-- What is known of a profiler whose outputs take all. -/
structure Unfailing (options : Options) (p : Profiler) : Prop where
  writes : p.Writes options
  profile : p.profile.Unfailing
  output : p.isEnabled → p.profile.output.isSome

variable {options : Options} {p : Profiler}

theorem new_unfailing (options : Options) (hasContext : Bool) :
    (new .callgrind options hasContext).Unfailing options :=
  ⟨new_writes options hasContext, ⟨rfl, nofun⟩, nofun⟩

/-- An output that takes all, even after it was closed, is no file. -/
theorem Unfailing.file? (hp : p.Unfailing options) : p.file? = none := by
  unfold Profiler.file? Profile.Callgrind.Writer.file?
  rcases ho : p.profile.output with _ | o
  · rfl
  · rw [Option.bind_some, Output.file?, (hp.profile.takesAll o ho).path, ite_self]

theorem setOutput_of_enabled (he : p.isEnabled = true) (o : Output) :
    p.setOutput o = (p, some alreadyEnabled) := if_pos he

theorem Unfailing.setOutput (hp : p.Unfailing options) (he : p.isEnabled = false) {o : Output}
    (ho : o.TakesAll) :
    ∃ q, p.setOutput o = (q, none) ∧ q.Unfailing options ∧ q.isEnabled = false ∧
      q.profile.output = some o := by
  have hnot : ¬ p.isEnabled = true := by simp [he]
  refine ⟨_, if_neg hnot, ⟨?_, ⟨hp.profile.failure, ?_⟩, fun h => absurd h hnot⟩, he, rfl⟩
  · exact ⟨hp.writes.kind, hp.writes.options, hp.writes.attached, fun h => absurd h hnot⟩
  · simpa using ho

theorem enable_of_no_output (hk : p.kind = .callgrind) (ho : p.profile.output = none) :
    p.enable = (p, some (.plain "no output set in profiler")) := by
  have hs : p.profile.start = (p.profile, some (.plain "no output set in profiler")) := by
    unfold Profile.Callgrind.Writer.start
    rw [ho]
  simp only [enable, hk, hs]
  rw [← hk]

/-- A profile is started, and only then may enabling be refused. -/
theorem Unfailing.enable (hp : p.Unfailing options) (ho : p.profile.output.isSome) :
    ∃ q, p.enable = (q, if p.isEnabled then some alreadyEnabled else none) ∧ q.Unfailing options ∧
      q.isEnabled = true ∧
      q.profile.output = p.profile.output.map (·.add Profile.Callgrind.header) := by
  have hwrites := hp.writes.enable.1
  obtain ⟨o, hout⟩ := Option.isSome_iff_exists.1 ho
  have hstart := Profile.Callgrind.Writer.start_of_isOpen hout (hp.profile.takesAll o hout).isOpen
  unfold Profiler.enable at hwrites ⊢
  simp only [hp.writes.kind, hstart, turnOn] at hwrites ⊢
  have hadd (o : Output) (h : o.TakesAll) := h.add Profile.Callgrind.header
  have hout : (p.profile.output.map (·.add Profile.Callgrind.header)).isSome := by simpa using ho
  split_ifs at hwrites ⊢ with he
  · exact ⟨_, rfl, ⟨hwrites, hp.profile.map hadd hp.profile.failure rfl, fun _ => hout⟩,
      he, rfl⟩
  · exact ⟨_, rfl, ⟨hwrites, hp.profile.map hadd hp.profile.failure rfl, fun _ => hout⟩,
      rfl, rfl⟩

theorem complete_of_not_enabled (hk : p.kind = .callgrind) (he : p.isEnabled = false) :
    p.complete = .ok (p, some (.plain "profiler not enabled")) := by
  simp [complete, hk, he]
  rfl

theorem Unfailing.complete (hp : p.Unfailing options) (he : p.isEnabled = true) :
    ∃ q ts, p.complete = .ok (q, none) ∧ q.Unfailing options ∧ q.isEnabled = false ∧
      q.profile.output = p.profile.output.map (fun o => (o.add ts).close) ∧
      ("fl=" : Text) <+: ts.flatten := by
  obtain ⟨u, ts, hu, hprofile, hout, hts⟩ := hp.profile.finish (hp.writes.underWay he)
  obtain ⟨q, fault, hq, hqw, -⟩ := hp.writes.complete
  have hcomplete : p.complete = .ok ({ p with isEnabled := false, profile := u }, none) := by
    unfold Profiler.complete
    simp only [hp.writes.kind, if_pos he, hu]
    rfl
  obtain ⟨rfl, rfl⟩ := Prod.mk.inj (Except.ok.inj (hq.symm.trans hcomplete))
  exact ⟨_, ts, hq, ⟨hqw, hprofile, nofun⟩, rfl, hout, hts⟩

/-- A profiler follows any calls, and writes nothing but blocks while it does. -/
theorem Unfailing.follow (hp : p.Unfailing options) {ts : List Trace} {es : List Event}
    (h : Trace.Recorded ts es) :
    ∃ q us, p.follow es = .ok q ∧ q.Unfailing options ∧ q.isEnabled = p.isEnabled ∧
      q.profile.output = p.profile.output.map (·.add us) ∧
      Profile.Callgrind.BlockLike us.flatten := by
  by_cases ha : p.isActive = true
  · obtain ⟨w, hw, -⟩ := Profile.Callgrind.Writer.follows p.options h p.profile
    obtain ⟨noted, hn⟩ := follow_eq hp.writes.kind ha h hw
    obtain ⟨q, hq, hqw⟩ := hp.writes.follow h
    obtain rfl := Except.ok.inj (hq.symm.trans hn)
    have hadds := Profile.Callgrind.Writer.Adds.foldlM hp.profile hw
    obtain ⟨us, hus, hlike⟩ := hadds.output
    have hout : p.isEnabled → w.output.isSome := fun he => by
      simpa [hus] using hp.output he
    exact ⟨_, us, hq, ⟨hqw, hadds.unfailing, hout⟩, rfl, hus, hlike⟩
  · refine ⟨p, [], if_neg ha, hp, rfl, ?_, .inl rfl⟩
    simp

end Profiler

namespace Host

variable {options : Options} {h : Host} {p q : Profiler} {fault : Option Fault}

theorem profile_of_unfailing (act : Profiler → Profiler × Option Fault)
    (hp : h.profiler = some p) (ha : act p = (q, fault)) (hq : q.Unfailing options) :
    h.profile act = ({ h with profiler := some q }, fault) := by
  unfold Host.profile
  simp only [hp, ha, withProfiler_of_no_file hq.file?]

theorem completeProfile_of_unfailing (hp : h.profiler = some p)
    (hc : p.complete = .ok (q, fault)) (hq : q.Unfailing options) :
    h.completeProfile = ({ h with profiler := some q }, fault.map .fault) := by
  unfold Host.completeProfile
  simp only [hp, hc, withProfiler_of_no_file hq.file?]

theorem with_profiler (hp : h.profiler = some p) : { h with profiler := some p } = h := by
  rw [← hp]

theorem unprofiled_run {α : Type} (h : Host) (x : ∀ {view : View}, EvalIn view α) :
    (h.unprofiled.run x).host.unprofiled = (h.unprofiled.run x).host := by
  rw [run_eq_settle]
  rfl

end Host

end Tacit
