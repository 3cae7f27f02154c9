import Tacit.Host
import Tacit.Proofs.Files
import Tacit.Proofs.Unread

/-!
# Profiles that are written

A profiler writes a profile as it follows calls. No call ends that did not begin: once the writing
has failed, calls are still put on the stack of those under way but no longer taken off it, so it is
never shorter than where a call began (`Writer.follows`). A profiler can thus follow whatever is
recorded of a run (`Profiler.Writes.follow`).

It writes to the same file all the time (`Profiler.follow_file?`), if to any, and that is all of the
files that it changes (`Profiler.view_eq`).
-/

namespace Tacit

open FileSystem (key)
open Profile (Trace Options)

namespace Profile.Output

/-- The file that an output writes to, as long as the file holds what was written. -/
def file? (o : Output) : Option Text := if o.isLinked then o.path else none

theorem save_eq (o : Output) (files : FileSystem) :
    o.save files = o.file?.elim files fun path => files.store path o.text := by
  unfold save file?
  rcases o.path with _ | path <;> split_ifs <;> simp

theorem write_file? {o o' : Output} {t : Text} (h : o.write t = .ok o') : o'.file? = o.file? := by
  unfold write at h
  split_ifs at h
  split at h <;> cases h <;> rfl

theorem writeAll_file? : ∀ (ts : List Text) (o : Output), (o.writeAll ts).1.file? = o.file?
  | [], _ => rfl
  | t :: ts, o => by
    unfold writeAll
    rcases hw : o.write t with f | o'
    · rfl
    · exact (writeAll_file? ts o').trans (write_file? hw)

/-- An output is no longer the file that is made anew, and is the file that it was otherwise. -/
theorem file?_unlinkedAt (path : Text) (o : Output) :
    (o.unlinkedAt path).file? = none ∨ (o.unlinkedAt path).file? = o.file? := by
  unfold unlinkedAt
  split_ifs
  · exact .inl rfl
  · exact .inr rfl

end Profile.Output

namespace Profile.Callgrind

namespace Writer

/-- The file that is written to. -/
def file? (w : Writer) : Option Text := w.output.bind Output.file?

/-- What was written may have changed, but not where to, and as many calls are under way at
least. -/
structure Continues (w u : Writer) : Prop where
  file : u.file? = w.file?
  calls : w.calls.length ≤ u.calls.length

theorem Continues.refl (w : Writer) : w.Continues w := ⟨rfl, Nat.le_refl _⟩

theorem Continues.trans {w u v : Writer} (h : w.Continues u) (hv : u.Continues v) :
    w.Continues v :=
  ⟨hv.file.trans h.file, h.calls.trans hv.calls⟩

/-- Follows an event. -/
def step (options : Options) (w : Writer) : Event → Except Stop Writer
  | .entered fn _ =>
    .ok (if options.filter.skips fn then w else w.enter (options.labeling.label fn))
  | .left fn _ =>
    if options.filter.skips fn then .ok w else w.leave (options.labeling.label fn)
  | .composed .. | .curried .. => .ok w

theorem step_aside {options : Options} {e : Event} (he : e.isAside = true) (w : Writer) :
    step options w e = .ok w := by
  cases e <;> first | rfl | cases he

theorem enter_output (w : Writer) (label : Text) : (w.enter label).output = w.output := by
  unfold enter
  split <;> rfl

theorem enter_calls (w : Writer) (label : Text) :
    (w.enter label).calls.length = w.calls.length + 1 := by
  unfold enter
  split <;> simp [*]

theorem enter_file? (w : Writer) (label : Text) : (w.enter label).file? = w.file? :=
  congrArg (Option.bind · Output.file?) (w.enter_output label)

theorem write_file? (w : Writer) (texts : List Text) : (w.write texts).1.file? = w.file? := by
  unfold write file?
  split
  · rfl
  · next h => simp [h, Output.writeAll_file?]

theorem write_calls (w : Writer) (texts : List Text) : (w.write texts).1.calls = w.calls := by
  unfold write
  split <;> rfl

/-- A call under way ends, and its block is written. -/
theorem leave_of_calls {w : Writer} {c : Call} {cs : List Call} (label : Text)
    (hf : w.failure = none) (hc : w.calls = c :: cs) :
    w.leave label =
      let (texts, names) := block label c.inner.reverse w.names
      let (u, fault) := write { w with calls := cs, names := names } texts
      .ok { u with failure := fault } := by
  unfold leave
  rw [hf, hc]
  rfl

theorem leave_file? {w u : Writer} {label : Text} (h : w.leave label = .ok u) :
    u.file? = w.file? := by
  rcases hf : w.failure with _ | f
  · rcases hc : w.calls with _ | ⟨c, cs⟩
    · simp [leave, hf, hc] at h
    · rw [leave_of_calls label hf hc] at h
      generalize block label c.inner.reverse w.names = b at h
      obtain ⟨texts, names⟩ := b
      have hfile := write_file? { w with calls := cs, names := names } texts
      dsimp only at h
      generalize write { w with calls := cs, names := names } texts = r at h hfile
      cases h
      exact hfile
  · rw [leave, if_pos (by simp [hf])] at h
    cases h
    rfl

/-- A call that began can end, whatever has become of those inside it. After a failure no call is
taken off those under way. -/
theorem Continues.leave {w u : Writer} {label : Text} (h : (w.enter label).Continues u) :
    ∃ v, u.leave label = .ok v ∧ w.Continues v := by
  have hfile : u.file? = w.file? := h.file.trans (w.enter_file? label)
  have hcalls := h.calls
  rw [enter_calls] at hcalls
  rcases hf : u.failure with _ | f
  · rcases hc : u.calls with _ | ⟨c, cs⟩
    · simp [hc] at hcalls
    · rw [leave_of_calls label hf hc]
      rcases block label c.inner.reverse u.names with ⟨texts, names⟩
      have hsame := write_file? { u with calls := cs, names := names } texts
      have hrest := write_calls { u with calls := cs, names := names } texts
      dsimp only
      generalize write { u with calls := cs, names := names } texts = r at hsame hrest
      refine ⟨_, rfl, hsame.trans hfile, ?_⟩
      show _ ≤ r.1.calls.length
      rw [show r.1.calls = cs from hrest]
      simpa [hc] using hcalls
  · exact ⟨u, if_pos (by simp [hf]), hfile, by omega⟩

/-- The record of a run can be followed to its end: no more calls end than began. A call that the
filter skips is neither entered nor left. -/
theorem follows (options : Options) {ts : List Trace} {es : List Event}
    (h : Trace.Recorded ts es) :
    ∀ w : Writer, ∃ u, es.foldlM (step options) w = .ok u ∧ w.Continues u := by
  induction h with
  | nil => exact fun w => ⟨w, rfl, .refl w⟩
  | aside he _ ih =>
    intro w
    rw [List.foldlM_cons, step_aside he w]
    exact ih w
  | @call fn args result inner ts es fs _ _ ihi ih =>
    intro w
    obtain ⟨u, hu, hwu⟩ :=
      ihi (if options.filter.skips fn then w else w.enter (options.labeling.label fn))
    obtain ⟨v, hv, hwv⟩ :
        ∃ v, step options u (.left fn result) = .ok v ∧ w.Continues v := by
      by_cases hs : options.filter.skips fn = true
      · exact ⟨u, if_pos hs, by simpa [hs] using hwu⟩
      · simp only [step, if_neg hs] at hwu ⊢
        exact hwu.leave
    obtain ⟨x, hx, hvx⟩ := ih v
    refine ⟨x, ?_, hwv.trans hvx⟩
    show (es ++ .left fn result :: fs).foldlM (step options) _ = _
    rw [List.foldlM_append, hu]
    show (Event.left fn result :: fs).foldlM (step options) u = _
    rw [List.foldlM_cons, hv]
    exact hx

theorem start_file? (w : Writer) : w.start.1.file? = w.file? := by
  unfold start file?
  rcases ho : w.output with _ | o
  · simp [ho]
  · have hfile := Output.writeAll_file? header o
    rcases hw : o.writeAll header with ⟨o', _ | f⟩ <;> rw [hw] at hfile <;> simpa [hw] using hfile

/-- Unless it is started, a profile is left with the calls that it had. -/
theorem start_calls (w : Writer) :
    w.start.1.calls = if w.start.2.isSome then w.calls else [⟨entryPoint, []⟩] := by
  unfold start
  rcases w.output with _ | o
  · rfl
  · rcases hw : o.writeAll header with ⟨o', _ | f⟩ <;> simp only [hw] <;> rfl

/-- A profile ends with the block of the call that is left, and its output is closed. -/
theorem finish_of_calls {w : Writer} {c : Call} {cs : List Call} (hf : w.failure = none)
    (hc : w.calls = c :: cs) :
    w.finish =
      let (texts, names) := block c.label c.inner.reverse w.names
      let (u, fault) := write { w with calls := cs, names := names } (texts ++ [summary])
      .ok ({ u with output := if fault.isSome then u.output else u.output.map .close },
        fault) := by
  unfold finish
  rw [hc]
  simp only [hf]
  rcases block c.label c.inner.reverse w.names with ⟨texts, names⟩
  dsimp only
  rcases write ⟨w.output, none, names, cs⟩ (texts ++ [summary]) with ⟨u, _ | f⟩ <;> rfl

/-- While a call is under way a profile can be completed. -/
theorem exists_finish {w : Writer} (h : w.calls ≠ []) :
    ∃ r, w.finish = .ok r ∧ r.1.file? = w.file? := by
  obtain ⟨c, cs, hc⟩ := List.exists_cons_of_ne_nil h
  rcases hf : w.failure with _ | f
  · rw [finish_of_calls hf hc]
    rcases block c.label c.inner.reverse w.names with ⟨texts, names⟩
    have hfile := write_file? { w with calls := cs, names := names } (texts ++ [summary])
    dsimp only
    generalize write { w with calls := cs, names := names } (texts ++ [summary]) = r at hfile
    refine ⟨_, rfl, Eq.trans ?_ hfile⟩
    unfold file?
    dsimp only
    split_ifs
    · rfl
    · rw [Option.bind_map]
      rfl
  · exact ⟨({ w with calls := cs }, some f), by simp [finish, hc, hf], rfl⟩

end Writer

end Profile.Callgrind

open Profile.Callgrind (Writer)
open Profile (Output)

namespace Profiler

/-- The file that a profile is written to. -/
def file? (p : Profiler) : Option Text := p.profile.file?

/-- What is known of a profiler that writes a profile. -/
structure Writes (options : Options) (p : Profiler) : Prop where
  kind : p.kind = .callgrind
  options : p.options = options
  attached : p.isAttached = true
  underWay : p.isEnabled → p.profile.calls ≠ []

variable {options : Options} {p q : Profiler}

theorem new_writes (options : Options) (hasContext : Bool) :
    (new .callgrind options hasContext).Writes options :=
  ⟨rfl, rfl, rfl, nofun⟩

theorem Writes.setOutput (hp : p.Writes options) (o : Output) :
    (p.setOutput o).1.Writes options := by
  unfold Profiler.setOutput
  by_cases he : p.isEnabled
  · rwa [if_pos he]
  · rw [if_neg he]
    exact ⟨hp.kind, hp.options, hp.attached, fun h => absurd h he⟩

theorem Writes.setFile (hp : p.Writes options) (files : FileSystem) (path : Text) :
    (p.setFile files path).2.1.Writes options := by
  have hunlinked (o : Option Output) :
      Profiler.Writes options { p with profile := { p.profile with output := o } } :=
    ⟨hp.kind, hp.options, hp.attached, hp.underWay⟩
  unfold Profiler.setFile
  rcases files.write path [] with f | files'
  · exact hp
  · dsimp only
    exact (hunlinked _).setOutput (.toFile path)

theorem Writes.enable (hp : p.Writes options) :
    p.enable.1.Writes options ∧ p.enable.1.file? = p.file? := by
  have hcalls := p.profile.start_calls
  have hfile := p.profile.start_file?
  unfold Profiler.enable
  rw [hp.kind]
  rcases hs : p.profile.start with ⟨w, _ | f⟩ <;> rw [hs] at hcalls hfile
  · have hne : w.calls ≠ [] := by
      rw [show w.calls = _ from hcalls]
      exact List.cons_ne_nil _ _
    simp only [turnOn]
    split_ifs <;> exact ⟨⟨rfl, hp.options, hp.attached, fun _ => hne⟩, hfile⟩
  · have hsame : w.calls = p.profile.calls := hcalls
    exact ⟨⟨rfl, hp.options, hp.attached, fun he => hsame ▸ hp.underWay he⟩, hfile⟩

theorem Writes.complete (hp : p.Writes options) :
    ∃ q fault, p.complete = .ok (q, fault) ∧ q.Writes options ∧ q.file? = p.file? := by
  unfold Profiler.complete
  rw [hp.kind]
  by_cases he : p.isEnabled
  · obtain ⟨⟨w, fault⟩, hw, hfile⟩ := Writer.exists_finish (hp.underWay he)
    simp only [if_pos he, hw]
    exact ⟨_, fault, rfl, ⟨rfl, hp.options, hp.attached, nofun⟩, hfile⟩
  · exact ⟨p, _, if_neg he, hp, rfl⟩

theorem Following.step_aside {e : Event} (he : e.isAside = true) (s : Following) :
    s.step e = .ok s := by
  cases e <;> first | rfl | cases he

theorem Following.step_entered (p : Profiler) (endings : List Ending) (fn : Function)
    (args : List Value) : Following.step ⟨p, endings⟩ (.entered fn args) =
      .ok ⟨(p.start fn).1, (p.start fn).2 :: endings⟩ :=
  rfl

theorem Following.step_left {ending : Ending} (h : ending p = .ok q) (endings : List Ending)
    (fn : Function) (result : Option Value) :
    Following.step ⟨p, ending :: endings⟩ (.left fn result) = .ok ⟨q, endings⟩ := by
  simp only [Following.step, h]
  rfl

/-- Follows a call to its end, given what becomes of the profiler inside it. -/
theorem Following.foldlM_call {fn : Function} {es : List Event} {endings : List Ending}
    {r : Profiler}
    (hi : es.foldlM Following.step ⟨(p.start fn).1, (p.start fn).2 :: endings⟩ =
      .ok ⟨q, (p.start fn).2 :: endings⟩)
    (hr : (p.start fn).2 q = .ok r) (args : List Value) (result : Option Value)
    (fs : List Event) :
    (.entered fn args :: (es ++ .left fn result :: fs)).foldlM Following.step ⟨p, endings⟩ =
      fs.foldlM Following.step ⟨r, endings⟩ := by
  rw [List.foldlM_cons, step_entered]
  show (es ++ Event.left fn result :: fs).foldlM Following.step _ = _
  rw [List.foldlM_append, hi]
  show (Event.left fn result :: fs).foldlM Following.step _ = _
  rw [List.foldlM_cons, step_left hr]
  rfl

theorem note_eq (p : Profiler) (fn : Function) :
    ∃ noted, p.note fn = { p with noted := noted } := by
  unfold note
  split_ifs
  · exact ⟨_, rfl⟩
  · exact ⟨p.noted, rfl⟩

/-- When a call begins, all that may change besides the profile are the signatures noted. -/
theorem start_writes (hp : p.kind = .callgrind) (fn : Function) : ∃ noted, (p.start fn).1 =
    { p with
      profile := if p.options.filter.skips fn then p.profile
        else p.profile.enter (p.options.labeling.label fn)
      noted := noted } := by
  unfold start
  split_ifs
  · exact ⟨p.noted, rfl⟩
  · obtain ⟨noted, hn⟩ := p.note_eq fn
    exact ⟨noted, by simp only [hn, begin, hp]⟩

/-- When a call stops, all that changes is the profile. -/
theorem ending_writes (hp : p.kind = .callgrind) {fn : Function} {result : Option Value}
    {w : Writer} (h : q.profile.step p.options (.left fn result) = .ok w) :
    (p.start fn).2 q = .ok { q with profile := w } := by
  simp only [Writer.step] at h
  unfold start
  split_ifs at h ⊢
  · cases h
    rfl
  · obtain ⟨noted, hn⟩ := p.note_eq fn
    simp only [hn, begin, hp, h]
    rfl

/-- The profile follows what happened, and all else that may change are the signatures noted. -/
theorem foldlM_step_eq {ts : List Trace} {es : List Event} (h : Trace.Recorded ts es) :
    ∀ {p : Profiler} (_ : p.kind = .callgrind) (endings : List Ending) {w : Writer},
      es.foldlM (Writer.step p.options) p.profile = .ok w →
        ∃ noted, es.foldlM Following.step ⟨p, endings⟩ =
          .ok ⟨{ p with profile := w, noted := noted }, endings⟩ := by
  induction h with
  | nil =>
    intro p _ endings w hw
    cases hw
    exact ⟨p.noted, rfl⟩
  | aside he _ ih =>
    intro p hp endings w hw
    rw [List.foldlM_cons, Writer.step_aside he] at hw
    rw [List.foldlM_cons, Following.step_aside he]
    exact ih hp endings hw
  | @call fn args result inner ts es fs _ _ ihi ih =>
    intro p hp endings w hw
    obtain ⟨noted, hstart⟩ := start_writes hp fn
    rw [List.foldlM_cons] at hw
    change (es ++ Event.left fn result :: fs).foldlM (Writer.step p.options) (if _ then _ else _) =
      _ at hw
    rw [List.foldlM_append] at hw
    rcases hu : es.foldlM (Writer.step p.options) (if p.options.filter.skips fn then p.profile
      else p.profile.enter (p.options.labeling.label fn)) with s | u <;> rw [hu] at hw
    · cases hw
    change (Event.left fn result :: fs).foldlM (Writer.step p.options) u = _ at hw
    rw [List.foldlM_cons] at hw
    rcases hv : u.step p.options (.left fn result) with s | v <;> rw [hv] at hw
    · cases hw
    obtain ⟨noted', hi⟩ := ihi (p := (p.start fn).1) (by rw [hstart]; exact hp)
      ((p.start fn).2 :: endings) (by rw [hstart]; exact hu)
    rw [Following.foldlM_call hi (ending_writes hp hv), hstart]
    exact ih (p := { p with profile := v, noted := noted' }) hp endings hw

/-- A profiler that follows a run does what its profile does. -/
theorem follow_eq (hp : p.kind = .callgrind) (ha : p.isActive = true) {ts : List Trace}
    {es : List Event} (h : Trace.Recorded ts es) {w : Writer}
    (hw : es.foldlM (Writer.step p.options) p.profile = .ok w) :
    ∃ noted, p.follow es = .ok { p with profile := w, noted := noted } := by
  obtain ⟨noted, hn⟩ := foldlM_step_eq h hp [] hw
  rw [Profiler.follow, if_pos ha, hn]
  exact ⟨noted, rfl⟩

/-- A profiler can follow all that is recorded of a run. -/
theorem Writes.follow (hp : p.Writes options) {ts : List Trace} {es : List Event}
    (h : Trace.Recorded ts es) : ∃ q, p.follow es = .ok q ∧ q.Writes options := by
  by_cases ha : p.isActive = true
  · obtain ⟨w, hw, hpw⟩ := Writer.follows p.options h p.profile
    obtain ⟨noted, hn⟩ := follow_eq hp.kind ha h hw
    refine ⟨_, hn, hp.kind, hp.options, hp.attached, fun he => ?_⟩
    have hpos := List.length_pos_iff.2 (hp.underWay he)
    exact List.length_pos_iff.1 (hpos.trans_le hpw.calls)
  · exact ⟨p, if_neg ha, hp⟩

/-- Whatever is done when a call stops, the same file is written to. -/
def Ending.KeepsFile (e : Ending) : Prop := ∀ {p q : Profiler}, e p = .ok q → q.file? = p.file?

theorem keepsFile_annotating (ending : Profile.Annotator.Ending) :
    (annotating ending).KeepsFile := by
  intro p q h
  unfold annotating at h
  rcases he : ending p.annotator with s | a <;> rw [he] at h <;> cases h
  rfl

theorem keepsFile_ok : Ending.KeepsFile .ok := by
  intro p q h
  cases h
  rfl

theorem keepsFile_leave (label : Text) : Ending.KeepsFile fun q =>
    return { q with profile := ← q.profile.leave label } := by
  intro p q h
  dsimp only at h
  rcases hl : p.profile.leave label with s | w <;> rw [hl] at h <;> cases h
  exact Writer.leave_file? hl

theorem start_file? (p : Profiler) (fn : Function) :
    (p.start fn).1.file? = p.file? ∧ (p.start fn).2.KeepsFile := by
  unfold start
  split_ifs
  · exact ⟨rfl, keepsFile_ok⟩
  · obtain ⟨noted, hn⟩ := p.note_eq fn
    rw [hn]
    unfold begin
    split
    · exact ⟨rfl, keepsFile_annotating _⟩
    · exact ⟨rfl, keepsFile_annotating _⟩
    · exact ⟨rfl, keepsFile_ok⟩
    · exact ⟨Writer.enter_file? _ _, keepsFile_leave _⟩

theorem foldlM_step_file? : ∀ {es : List Event} {s s' : Following},
    es.foldlM Following.step s = .ok s' → (∀ e ∈ s.endings, e.KeepsFile) →
      s'.profiler.file? = s.profiler.file?
  | [], _, _, h, _ => by
    cases h
    rfl
  | e :: es, ⟨p, endings⟩, s', h, hends => by
    rw [List.foldlM_cons] at h
    cases e with
    | composed | curried => exact foldlM_step_file? h hends
    | entered fn args =>
      obtain ⟨hfile, hkeeps⟩ := p.start_file? fn
      exact (foldlM_step_file? h (List.forall_mem_cons.2 ⟨hkeeps, hends⟩)).trans hfile
    | left fn result =>
      cases endings with
      | nil => exact foldlM_step_file? h hends
      | cons ending endings =>
        obtain ⟨hending, hends⟩ := List.forall_mem_cons.1 hends
        rcases hq : ending p with t | q
        · simp only [Following.step, hq] at h
          cases h
        · rw [Following.step_left hq] at h
          exact (foldlM_step_file? h hends).trans (hending hq)

/-- Whatever a profiler follows, it writes to the same file. -/
theorem follow_file? {es : List Event} (h : p.follow es = .ok q) : q.file? = p.file? := by
  unfold Profiler.follow at h
  split_ifs at h
  · rcases hs : es.foldlM Following.step ⟨p, []⟩ with t | s <;> rw [hs] at h <;> cases h
    exact foldlM_step_file? hs (by simp)
  · cases h
    rfl

theorem setFile_holds {files : FileSystem} (hp : ∀ path ∈ p.file?, files.Holds path)
    (path : Text) :
    ∀ other ∈ (p.setFile files path).2.1.file?, (p.setFile files path).1.Holds other := by
  unfold Profiler.setFile
  rcases hw : files.write path [] with f | files'
  · exact hp
  · unfold FileSystem.write at hw
    split_ifs at hw
    obtain rfl := Except.ok.inj hw
    dsimp only
    unfold Profiler.setOutput
    split_ifs
    · intro other hother
      obtain ⟨o, ho, hother⟩ := Option.bind_eq_some_iff.1 hother
      obtain ⟨o', ho', rfl⟩ := Option.map_eq_some_iff.1 ho
      have hfile : o'.file? = some other := by
        rcases o'.file?_unlinkedAt path with hnone | hsame
        · rw [hnone] at hother
          cases hother
        · exact hsame ▸ hother
      exact (hp other (Option.bind_eq_some_iff.2 ⟨o', ho', hfile⟩)).store path []
    · intro other hother
      obtain rfl : path = other := Option.some.inj hother
      exact FileSystem.holds_store files path []

theorem save_eq (p : Profiler) : ∃ content, ∀ files, p.save files =
    p.file?.elim files fun path => files.store path content := by
  unfold Profiler.save file? Writer.file?
  rcases p.profile.output with _ | o
  · exact ⟨[], fun _ => rfl⟩
  · refine ⟨o.text, fun files => ?_⟩
    rw [Option.elim_some, Option.bind_some, o.save_eq]

/-- A file that a profile is written to is there when it is saved. -/
theorem save_holds {path : Text} (h : path ∈ p.file?) (files : FileSystem) :
    (p.save files).Holds path := by
  obtain ⟨content, hsave⟩ := p.save_eq
  rw [hsave, show p.file? = some path from h, Option.elim_some]
  exact FileSystem.holds_store files path content

/-- All that a profiler changes of the files is what the one holds that it writes to. -/
theorem map_save_eq (p : Profiler) (files : Option FileSystem) :
    files.map p.save = files ∨
      ∃ path ∈ p.file?, ∃ content, files.map p.save = files.map (·.store path content) := by
  obtain ⟨content, hsave⟩ := p.save_eq
  rw [show p.save = _ from funext hsave]
  rcases hf : p.file? with _ | path
  · exact .inl Option.map_id_apply
  · exact .inr ⟨path, rfl, content, by simp only [Option.elim_some]⟩

/-- A file that a profile is written to is read as what was written. -/
theorem read_saved {o : Output} (ho : p.profile.output = some o) {path : Text}
    (h : path ∈ p.file?) (hne : key path ≠ FileSystem.root) (files : FileSystem) :
    (p.save files).read path = .ok o.text := by
  have hfile : o.file? = some path := by rwa [Profiler.file?, Writer.file?, ho] at h
  rw [save, ho, Option.elim_some, o.save_eq, hfile, Option.elim_some]
  exact FileSystem.read_store_self files hne o.text

theorem save_of_no_file (h : p.file? = none) (files : FileSystem) : p.save files = files := by
  obtain ⟨content, hsave⟩ := p.save_eq
  rw [hsave, h]
  rfl

/-- All that a profiler may change of the files is what the one holds that it writes to. -/
theorem view_eq (p : Profiler) (record : List Event) (files : FileSystem) :
    p.view record files = files ∨
      ∃ path ∈ p.file?, ∃ content, p.view record files = files.store path content := by
  unfold view
  split_ifs
  · rcases hq : p.follow record with s | q
    · exact .inl rfl
    · obtain ⟨content, hsave⟩ := q.save_eq
      rw [follow_file? hq] at hsave
      dsimp only
      rw [hsave]
      rcases hf : p.file? with _ | path
      · exact .inl rfl
      · exact .inr ⟨path, rfl, content, Option.elim_some ..⟩
  · exact .inl rfl

theorem view_of_no_file (h : p.file? = none) : p.view = View.still := by
  funext record files
  rcases p.view_eq record files with hview | ⟨path, hpath, -⟩
  · exact hview
  · rw [h] at hpath
    cases hpath

/-- What runs sees of a profile only the file that it is written to. -/
theorem view_alikeBut {files : FileSystem} {path : Text} (hp : path ∈ p.file?)
    (hfiles : files.Holds path) : View.AlikeBut path files .still p.view := by
  intro record other hother
  rcases p.view_eq record files with hview | ⟨path', hpath', content, hview⟩ <;> rw [hview]
  · rfl
  · obtain rfl := Option.mem_unique hp hpath'
    exact (hfiles.read_store content hother).symm

end Profiler

end Tacit
