import Tacit.Proofs.ProfileFormat
import Tacit.Proofs.Unfailing

/-!
# A profile holds the trees of calls

The block of a call is written when the call stops, from what was put down for it while it was
under way. What has been written when a run is over are therefore the blocks of its calls, those
inside a call in front of its own (`blocks_trees`), and so it is when the profile is completed, with
a block for all of the run behind them (`profile_decodes`).
-/

namespace Tacit

open FileSystem (key)
open Profile (Trace Options Filter Labeling Output)
open Profile.Callgrind (Writer)

namespace Profile.Trace

mutual

/-- What is traced of a call that a filter may leave out: what is inside it then takes its
place. -/
def kept (filter : Filter) : Trace → List Trace
  | call fn inner =>
    if filter.skips fn then keptAll filter inner else [call fn (keptAll filter inner)]

/-- What is traced of some calls. -/
def keptAll (filter : Filter) : List Trace → List Trace
  | [] => []
  | t :: ts => kept filter t ++ keptAll filter ts

end

/-- What a call is shown as. -/
def label (labeling : Labeling) : Trace → Text
  | call fn _ => labeling.label fn

mutual

/-- What is shown of a call: all inside it, then the call and the calls right inside. -/
def shown (labeling : Labeling) : Trace → List (Text × List Text)
  | call fn inner =>
    shownAll labeling inner ++ [(labeling.label fn, inner.map (label labeling))]

/-- What is shown of some calls. -/
def shownAll (labeling : Labeling) : List Trace → List (Text × List Text)
  | [] => []
  | t :: ts => shown labeling t ++ shownAll labeling ts

end

/-- What is shown of a run: its calls, and then all of the run with the calls right inside. -/
def shownRun (labeling : Labeling) (ts : List Trace) : List (Text × List Text) :=
  shownAll labeling ts ++ [(Callgrind.entryPoint, ts.map (label labeling))]

theorem keptAll_append (filter : Filter) : ∀ ts us : List Trace,
    keptAll filter (ts ++ us) = keptAll filter ts ++ keptAll filter us
  | [], _ => rfl
  | t :: ts, us => by simp [keptAll, keptAll_append filter ts us]

theorem shownAll_append (labeling : Labeling) : ∀ ts us : List Trace,
    shownAll labeling (ts ++ us) = shownAll labeling ts ++ shownAll labeling us
  | [], _ => rfl
  | t :: ts, us => by simp [shownAll, shownAll_append labeling ts us]

end Profile.Trace

namespace Profile.Callgrind.Writer

/-- A writer to an output, after some texts. -/
def writing (o : Output) (texts : List Text) (names : Numbering) (calls : List Call) : Writer :=
  ⟨some (o.add texts), none, names, calls⟩

variable {o : Output} (ho : o.IsOpen)
include ho

theorem write_writing (texts us : List Text) (names : Numbering) (calls : List Call) :
    (writing o texts names calls).write us = (writing o (texts ++ us) names calls, none) := by
  simp only [writing, write, (ho.add texts).writeAll us, Output.add_add]

/-- When a call stops its block is written behind the others. -/
theorem leave_writing {texts us : List Text} {names names' : Numbering} {c : Call}
    {calls : List Call} {label : Text} (h : block label c.inner.reverse names = (us, names')) :
    (writing o texts names (c :: calls)).leave label =
      .ok (writing o (texts ++ us) names' calls) := by
  rw [leave_of_calls label rfl rfl]
  have hw := write_writing ho texts us names' calls
  simp only [writing] at h hw ⊢
  simp only [h, hw]

theorem finish_writing (texts : List Text) {us : List Text} {names names' : Numbering} (c : Call)
    (h : block c.label c.inner.reverse names = (us, names')) :
    (writing o texts names [c]).finish =
      .ok (⟨some (o.add (texts ++ (us ++ [summary]))).close, none, names', []⟩, none) := by
  rw [finish_of_calls rfl rfl]
  have hw := write_writing ho texts (us ++ [summary]) names' []
  simp only [writing] at h hw ⊢
  simp only [h, hw]
  rfl

omit ho

/-- While some events happen the blocks of some calls are written, and the calls are put down for
the one around them. -/
def Blocks (options : Options) (ts : List Trace) (es : List Event) : Prop :=
  ∀ (o : Output) (_ : o.IsOpen) (texts : List Text) {us : List Text} {names names' : Numbering}
    (c : Call) (calls : List Call),
    render (Trace.shownAll options.labeling ts) names = (us, names') →
      es.foldlM (step options) (writing o texts names (c :: calls)) =
        .ok (writing o (texts ++ us) names' ({ c with inner :=
          (ts.map (Trace.label options.labeling)).reverse ++ c.inner } :: calls))

theorem Blocks.append {options : Options} {ts us : List Trace} {es fs : List Event}
    (h : Blocks options ts es) (hu : Blocks options us fs) :
    Blocks options (ts ++ us) (es ++ fs) := by
  intro o ho texts _ names _ c calls hr
  rcases ht : render (Trace.shownAll options.labeling ts) names with ⟨us₁, names₁⟩
  rcases hu' : render (Trace.shownAll options.labeling us) names₁ with ⟨us₂, names₂⟩
  rw [Trace.shownAll_append, render_append ht hu'] at hr
  obtain ⟨rfl, rfl⟩ := Prod.mk.inj hr
  rw [List.foldlM_append, h o ho texts c calls ht]
  show fs.foldlM (step options) _ = _
  rw [hu o ho _ _ calls hu']
  simp

/-- When a call stops its block is written, behind those of the calls inside it. What is inside a
call that is left out goes to the call around it. -/
theorem blocks_call (options : Options) (fn : Function) (args : List Value)
    (result : Option Value) {inner : List Trace} {es : List Event}
    (hi : Blocks options (Trace.keptAll options.filter inner) es) :
    Blocks options (Trace.kept options.filter (.call fn inner))
      (.entered fn args :: (es ++ [.left fn result])) := by
  intro o ho texts us names names' c calls hr
  by_cases hs : options.filter.skips fn = true
  · rw [Trace.kept, if_pos hs] at hr ⊢
    rw [List.foldlM_cons, step, if_pos hs]
    show (es ++ [Event.left fn result]).foldlM (step options) _ = _
    rw [List.foldlM_append, hi o ho texts c calls hr]
    show [Event.left fn result].foldlM (step options) _ = _
    rw [List.foldlM_cons, step, if_pos hs]
    rfl
  · rw [Trace.kept, if_neg hs] at hr ⊢
    rcases hin : render (Trace.shownAll options.labeling
      (Trace.keptAll options.filter inner)) names with ⟨us₁, names₁⟩
    rcases hb : block (options.labeling.label fn) ((Trace.keptAll options.filter inner).map
      (Trace.label options.labeling)) names₁ with ⟨us₂, names₂⟩
    have hshown : Trace.shownAll options.labeling [.call fn (Trace.keptAll options.filter inner)] =
        Trace.shownAll options.labeling (Trace.keptAll options.filter inner) ++
          [(options.labeling.label fn, (Trace.keptAll options.filter inner).map
            (Trace.label options.labeling))] := by simp [Trace.shownAll, Trace.shown]
    have hown := render_cons hb (show render [] names₂ = ([], names₂) from rfl)
    rw [List.append_nil] at hown
    rw [hshown, render_append hin hown] at hr
    obtain ⟨rfl, rfl⟩ := Prod.mk.inj hr
    rw [List.foldlM_cons, step, if_neg hs]
    show (es ++ [Event.left fn result]).foldlM (step options) (writing o texts names
      (⟨options.labeling.label fn, []⟩ ::
        { c with inner := options.labeling.label fn :: c.inner } :: calls)) = _
    rw [List.foldlM_append, hi o ho texts _ _ hin]
    show [Event.left fn result].foldlM (step options) _ = _
    rw [List.foldlM_cons, step, if_neg hs, leave_writing ho (by simpa using hb)]
    simp [Trace.label]

/-- What is written while calls are recorded are the blocks of those that are not left out. -/
theorem blocks_trees (options : Options) {ts : List Trace} {es : List Event}
    (h : Trace.Recorded ts es) : Blocks options (Trace.keptAll options.filter ts) es := by
  induction h with
  | nil =>
    intro o ho texts us names names' c calls hr
    obtain ⟨rfl, rfl⟩ := Prod.mk.inj hr
    simp [Trace.keptAll]
    rfl
  | aside he _ ih =>
    intro o ho texts us names names' c calls hr
    rw [List.foldlM_cons, step_aside he]
    exact ih o ho texts c calls hr
  | @call fn args result inner ts es fs _ _ ihi ih =>
    have hfirst : Event.entered fn args :: (es ++ Event.left fn result :: fs) =
        Event.entered fn args :: (es ++ [Event.left fn result]) ++ fs := by simp
    rw [hfirst, Trace.keptAll]
    exact (blocks_call options fn args result ihi).append ih

end Profile.Callgrind.Writer

theorem Profile.Callgrind.Writer.start_writing {w : Writer} {o : Output}
    (ho : w.output = some o) (hopen : o.IsOpen) (hf : w.failure = none) :
    w.start =
      (.writing o Profile.Callgrind.header [] [⟨Profile.Callgrind.entryPoint, []⟩], none) := by
  rw [start_of_isOpen ho hopen, ho, hf]
  rfl

namespace Host

/-- A run while a profile is written: the profiler was enabled, with a new output, and is not
completed yet. All that happened is recorded. No session before has failed, as a profiler never
forgets that its writing has failed, and then neither writes nor completes another profile. -/
inductive Profiled (options : Options) : Host → List Event → Prop where
  | enable {h h' : Host} {p : Profiler} {o : Output} (hh : h.Profiles options)
      (hp : h.profiler = some p) (ho : p.profile.output = some o) (hnew : o.IsNew)
      (hf : p.profile.failure = none) (he : h.profile Profiler.enable = (h', none)) :
      Profiled options h' []
  | run {h : Host} {es : List Event} (hh : Profiled options h es) {α : Type}
      {x : ∀ {view : View}, EvalIn view α} (hx : ∀ view, (@x view).Nests) :
      Profiled options (h.run x).host (es ++ (h.run x).record)

variable {options : Options} {h : Host}

/-- The header and the blocks of some calls have been written. -/
structure Written (options : Options) (h : Host) (ts : List Trace) : Prop where
  ready : h.Ready options
  profiler : ∃ p o us names, h.profiler = some p ∧ p.Writes options ∧ p.isEnabled = true ∧
    Profile.Callgrind.render
      (Trace.shownAll options.labeling (Trace.keptAll options.filter ts)) [] = (us, names) ∧
    o.IsNew ∧ p.profile = .writing o (Profile.Callgrind.header ++ us) names
      [⟨Profile.Callgrind.entryPoint, ((Trace.keptAll options.filter ts).map
        (Trace.label options.labeling)).reverse⟩]

section Enable

variable {p : Profiler} {o : Output} (hh : h.Profiles options) (hp : h.profiler = some p)
  (ho : p.profile.output = some o) (hnew : o.IsNew) (hf : p.profile.failure = none)
include hh hp ho hnew hf

theorem Written.enable {h' : Host} (he : h.profile Profiler.enable = (h', none)) :
    h'.Written options [] := by
  obtain ⟨q, hq, hpw⟩ := hh.ready.profiler
  obtain rfl : p = q := Option.some.inj (hp.symm.trans hq)
  have hready : (h.profile Profiler.enable).1.Ready options :=
    hh.ready.profile fun _ hp => hp.enable.1
  have hen := hpw.enable.1
  rw [he] at hready
  unfold Host.profile at he
  rw [hp] at he
  simp only [Profiler.enable, hpw.kind, Writer.start_writing ho hnew.toIsOpen hf,
    Profiler.turnOn] at he hen
  split_ifs at he hen with hon
  · simp at he
  · obtain ⟨rfl, -⟩ := Prod.mk.inj he
    exact ⟨hready, _, o, [], [], rfl, hen, rfl, rfl, hnew, rfl⟩

/-- A profiler that is not enabled yet can be, when its output is new. -/
theorem Profiled.enabled (hoff : p.isEnabled = false) :
    (h.profile Profiler.enable).1.Profiled options [] := by
  obtain ⟨q, hq, hpw⟩ := hh.ready.profiler
  obtain rfl : p = q := Option.some.inj (hp.symm.trans hq)
  have hnone : (h.profile Profiler.enable).2 = none := by
    unfold Host.profile
    rw [hp]
    simp [Profiler.enable, hpw.kind, Writer.start_writing ho hnew.toIsOpen hf, Profiler.turnOn,
      hoff]
  exact .enable hh hp ho hnew hf (Prod.ext rfl hnone)

end Enable

/-- A file that is made for a profiler becomes its output, as the profiler is not enabled. -/
theorem setFile_of_made {p : Profiler} {files : FileSystem} {path : Text}
    (hmade : (p.setFile files path).2.2 = none) :
    p.isEnabled = false ∧ (p.setFile files path).2.1 =
      { p with profile := { p.profile with output := some (.toFile path) } } := by
  unfold Profiler.setFile Profiler.setOutput at hmade ⊢
  rcases hw : files.write path [] with f | files' <;> simp only [hw] at hmade ⊢
  · cases hmade
  · split_ifs at hmade ⊢ with hon
    exact ⟨by simpa using hon, rfl⟩

theorem profileTo_eq {p : Profiler} (hp : h.profiler = some p) {files : FileSystem}
    (hfiles : h.world.files = some files) (path : Text) :
    h.profileTo path =
      ({ h with
          profiler := some (p.setFile files path).2.1
          world := { h.world with files := some (p.setFile files path).1 } },
        (p.setFile files path).2.2.map .fault) := by
  unfold profileTo
  rw [hp, hfiles]

/-- A profile can be written to any file that can be made for it. -/
theorem Profiled.enabled_file {p : Profiler} (hh : h.Profiles options) (hp : h.profiler = some p)
    (hf : p.profile.failure = none) {path : Text} (hmade : (h.profileTo path).2 = none) :
    ((h.profileTo path).1.profile Profiler.enable).1.Profiled options [] := by
  have hset := hh.setFile path
  rcases hfiles : h.world.files with _ | files
  · unfold profileTo at hmade
    rw [hp, hfiles] at hmade
    cases hmade
  rw [profileTo_eq hp hfiles] at hmade hset ⊢
  obtain ⟨hoff, hto⟩ := setFile_of_made (Option.map_eq_none_iff.1 hmade)
  rw [hto] at hset ⊢
  exact .enabled hset rfl rfl (Profile.Output.isNew_toFile path) hf hoff

/-- A run writes the blocks of its calls behind those before it. -/
theorem Written.run {ts : List Trace} (hh : h.Written options ts) {α : Type}
    {x : ∀ {view : View}, EvalIn view α} (hx : ∀ view, (@x view).Nests) :
    ∃ us, Trace.Recorded us (h.run x).record ∧ (h.run x).host.Written options (ts ++ us) := by
  obtain ⟨p, o, texts, names, hp, hpw, hon, hr, hnew, hprof⟩ := hh.profiler
  obtain ⟨us, q, hus, hq, hqw, hprofiler, hready⟩ := hh.ready.run hp hpw hx
  refine ⟨us, hus, ?_⟩
  rcases hru : Profile.Callgrind.render (Trace.shownAll options.labeling
    (Trace.keptAll options.filter us)) names with ⟨texts', names'⟩
  have hw := Writer.blocks_trees options hus o hnew.toIsOpen (Profile.Callgrind.header ++ texts)
    ⟨Profile.Callgrind.entryPoint, ((Trace.keptAll options.filter ts).map
      (Trace.label options.labeling)).reverse⟩ [] hru
  rw [← hprof, ← hpw.options] at hw
  have hactive : p.isActive = true := by simp [Profiler.isActive, hpw.attached, hon]
  obtain ⟨noted, hn⟩ := Profiler.follow_eq hpw.kind hactive hus hw
  obtain rfl := Except.ok.inj (hn.symm.trans hq)
  refine ⟨hready, _, o, texts ++ texts', names', hprofiler, hqw, hon, ?_, hnew, ?_⟩
  · rw [Trace.keptAll_append, Trace.shownAll_append]
    exact Profile.Callgrind.render_append hr hru
  · simp [Trace.keptAll_append, hpw.options]

/-- A profile that is completed is that of all calls, also in a file that it is written to. -/
theorem Written.complete {ts : List Trace} (hh : h.Written options ts) :
    ∃ h' o texts names, h.completeProfile = (h', none) ∧
      (h'.profiler.bind fun p => p.profile.output) = some o ∧
      (∀ path ∈ h.profileFile?, key path ≠ FileSystem.root →
        ∀ files ∈ h'.world.files, files.read path = .ok o.text) ∧
      Profile.Callgrind.render
        (Trace.shownRun options.labeling (Trace.keptAll options.filter ts)) [] = (texts, names) ∧
      o.text = (Profile.Callgrind.header ++ texts ++ [Profile.Callgrind.summary]).flatten := by
  obtain ⟨p, o, us, names, hp, hpw, hon, hr, hnew, hprof⟩ := hh.profiler
  rcases hb : Profile.Callgrind.block Profile.Callgrind.entryPoint
    ((Trace.keptAll options.filter ts).map (Trace.label options.labeling)) names with ⟨bs, names'⟩
  have hown := Profile.Callgrind.render_cons hb
    (show Profile.Callgrind.render [] names' = ([], names') from rfl)
  rw [List.append_nil] at hown
  obtain ⟨q, fault, hq, -, hfile⟩ := hpw.complete
  have hblock := hb
  rw [← List.reverse_reverse (List.map _ _)] at hblock
  have hfin := Writer.finish_writing hnew.toIsOpen (Profile.Callgrind.header ++ us)
    ⟨Profile.Callgrind.entryPoint, ((Trace.keptAll options.filter ts).map
      (Trace.label options.labeling)).reverse⟩ hblock
  rw [← hprof] at hfin
  have hcomplete := hq
  rw [Profiler.complete, hpw.kind] at hcomplete
  simp only [if_pos hon, hfin] at hcomplete
  obtain ⟨hqe, rfl⟩ := Prod.mk.inj (Except.ok.inj hcomplete)
  have hout : q.profile.output =
      some (o.add (Profile.Callgrind.header ++ us ++ (bs ++ [Profile.Callgrind.summary]))).close :=
    by rw [← hqe]
  refine ⟨h.withProfiler q, _, us ++ bs, names', ?_, hout, fun path hpath hne files hfiles => ?_,
    Profile.Callgrind.render_append hr hown, ?_⟩
  · unfold completeProfile
    simp only [hp, hq]
    rfl
  · rw [profileFile?, hp, Option.bind_some, ← hfile] at hpath
    obtain ⟨before, -, rfl⟩ := Option.map_eq_some_iff.1 hfiles
    exact Profiler.read_saved hout hpath hne before
  · have hempty : o.text = [] := by rw [Output.text, hnew.written]; rfl
    simp [hempty]

theorem Profiled.written {es : List Event} (hh : h.Profiled options es) :
    ∃ ts, Trace.Recorded ts es ∧ h.Written options ts := by
  induction hh with
  | enable hh hp ho hnew hf he => exact ⟨[], .nil, .enable hh hp ho hnew hf he⟩
  | run _ hx ih =>
    obtain ⟨ts, hts, hw⟩ := ih
    obtain ⟨us, hus, hw'⟩ := hw.run hx
    exact ⟨ts ++ us, hts.append hus, hw'⟩

/-- Names that are shown are those of the calls in the record that are not left out. -/
theorem shown_of_recorded (ok : Text → Prop) {ts : List Trace} {es : List Event}
    (h : Trace.Recorded ts es)
    (hok : ∀ fn args, Event.entered fn args ∈ es → options.filter.skips fn = false →
      ok (options.labeling.label fn)) :
    (∀ t ∈ Trace.keptAll options.filter ts, ok (t.label options.labeling)) ∧
      ∀ e ∈ Trace.shownAll options.labeling (Trace.keptAll options.filter ts),
        ok e.1 ∧ ∀ l ∈ e.2, ok l := by
  induction h with
  | nil => simp [Trace.keptAll, Trace.shownAll]
  | aside _ _ ih => exact ih fun fn args hmem => hok fn args (by simp [hmem])
  | @call fn args result inner ts es fs _ _ ihi ih =>
    obtain ⟨hi, his⟩ := ihi fun fn args hmem => hok fn args (by simp [hmem])
    obtain ⟨ht, hts⟩ := ih fun fn args hmem => hok fn args (by simp [hmem])
    have hkept : (∀ t ∈ Trace.kept options.filter (.call fn inner), ok (t.label options.labeling)) ∧
        ∀ e ∈ Trace.shownAll options.labeling (Trace.kept options.filter (.call fn inner)),
          ok e.1 ∧ ∀ l ∈ e.2, ok l := by
      rw [Trace.kept]
      split_ifs with hs
      · exact ⟨hi, his⟩
      · have hfn : ok (options.labeling.label fn) := hok fn args (by simp) (by simpa using hs)
        refine ⟨by simpa [Trace.label] using hfn, fun e he => ?_⟩
        simp only [Trace.shownAll, Trace.shown, List.append_nil, List.mem_append,
          List.mem_singleton] at he
        rcases he with he | rfl
        · exact his e he
        · refine ⟨hfn, fun l hl => ?_⟩
          obtain ⟨t, ht, rfl⟩ := List.mem_map.1 hl
          exact hi t ht
    rw [Trace.keptAll, Trace.shownAll_append]
    refine ⟨fun t hm => ?_, fun e hm => ?_⟩
    · exact (List.mem_append.1 hm).elim (hkept.1 t) (ht t)
    · exact (List.mem_append.1 hm).elim (hkept.2 e) (hts e)

/-- A profile that is completed is read as what is shown of the run: its calls, without those left
out, in the order in which they stopped, each with the calls right inside in the order in which they
were made, and all of the run at the end. The names in it are numbered in the order in which they
were first used, each name once. If it was written to a file, then the file holds it. -/
theorem profile_decodes {es : List Event} (hh : h.Profiled options es)
    (hl : ∀ fn args, Event.entered fn args ∈ es → options.filter.skips fn = false →
      Location.newline ∉ options.labeling.label fn) :
    ∃ ts h' o names, Trace.Recorded ts es ∧ h.completeProfile = (h', none) ∧
      (h'.profiler.bind fun p => p.profile.output) = some o ∧
      Profile.Callgrind.decode o.text =
        some ((Trace.shownRun options.labeling (Trace.keptAll options.filter ts)).map
          fun e => .ofCall e.1 e.2, Profile.Callgrind.definitions names) ∧
      names.Nodup ∧
      ∀ path ∈ h.profileFile?, key path ≠ FileSystem.root →
        ∀ files ∈ h'.world.files, files.read path = .ok o.text := by
  obtain ⟨ts, hts, hw⟩ := hh.written
  obtain ⟨hlabels, hshown⟩ := shown_of_recorded (Location.newline ∉ ·) hts hl
  obtain ⟨h', o, texts, names, hcomplete, ho, hsaved, hrender, htext⟩ := hw.complete
  have hfree : ∀ e ∈ Trace.shownRun options.labeling (Trace.keptAll options.filter ts),
      Location.newline ∉ e.1 ∧ ∀ l ∈ e.2, Location.newline ∉ l := by
    intro e he
    rcases List.mem_append.1 he with he | he
    · exact hshown e he
    · obtain rfl := List.mem_singleton.1 he
      have hentry : Location.newline ∉ Profile.Callgrind.entryPoint := by decide
      refine ⟨hentry, fun l hl => ?_⟩
      obtain ⟨t, ht, rfl⟩ := List.mem_map.1 hl
      exact hlabels t ht
  obtain ⟨hdecode, hnodup⟩ := Profile.Callgrind.decode_render hfree hrender
  exact ⟨ts, h', o, names, hts, hcomplete, ho, htext ▸ hdecode, hnodup, hsaved⟩

/-- A call inside another one. -/
theorem profile_decodes_nested :
    let options : Options := ⟨.none, .name⟩
    let new : Host := ⟨.initial ⟨[], true⟩, .info, some (.new .callgrind options false)⟩
    let h := ((new.profile (·.setOutput (.toHost none))).1.profile Profiler.enable).1
    let p : Program := [.named "map" (some (.array [.literal (.str "a") none] none))
      (some (.named "chars" none none none)) none]
    let r := h.run (p.eval 5)
    r.host.Profiled options r.record ∧
      (∃ ts h' o names, Trace.Recorded ts r.record ∧ r.host.completeProfile = (h', none) ∧
        (h'.profiler.bind fun p => p.profile.output) = some o ∧
        Profile.Callgrind.decode o.text =
          some ((Trace.shownRun options.labeling (Trace.keptAll options.filter ts)).map
            fun e => .ofCall e.1 e.2, Profile.Callgrind.definitions names) ∧
        names.Nodup ∧
        ∀ path ∈ r.host.profileFile?, key path ≠ FileSystem.root →
          ∀ files ∈ h'.world.files, files.read path = .ok o.text) ∧
      ((r.host.completeProfile.1.profiler.bind fun p => p.profile.output).bind fun o =>
          Profile.Callgrind.decode o.text) =
        some ([.ofCall "chars" [], .ofCall "map" ["chars"], .ofCall "ENTRYPOINT" ["map"]],
          Profile.Callgrind.definitions ["brook", "chars", "map", "ENTRYPOINT"]) := by
  intro options new h p r
  have hnew : new.Profiles options := .new rfl .info false
  have hh : h.Profiled options [] :=
    .enabled (hnew.setOutput none) rfl rfl Profile.Output.isNew_toHost rfl rfl
  have hr : r.host.Profiled options r.record := by
    have hrun := hh.run (x := p.eval 5) fun _ => Program.eval_nests p
    rwa [List.nil_append] at hrun
  have hnames : ∀ e ∈ r.record, (match e with
      | .left .. | .composed .. | .curried .. => true
      | .entered fn _ => decide (Location.newline ∉ fn.name)) = true := by
    rw [← List.all_eq_true]
    decide +kernel
  refine ⟨hr, profile_decodes hr fun fn args he _ => ?_, by decide +kernel⟩
  show Location.newline ∉ fn.name
  simpa using hnames _ he

end Host

end Tacit
