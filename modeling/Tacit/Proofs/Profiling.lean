import Tacit.Proofs.Writing

/-!
# What profiling changes

A host program may enable and complete a profiler that writes a profile as it likes, with outputs
that fail at some write or that are files, and run things in between (`Profiles`). The profiler is
then ready for whatever is run next (`Profiles.ready`).

A file that is written while a program runs is one that the program can read, and then the run may
be another one (`run_profiled_reading`). Otherwise nothing of the profile shows in it
(`run_profiled`).
-/

namespace Tacit

open Profile (Trace Options)

namespace Host

/-- A host program that uses a profiler as it likes: it sets outputs, of its own or files, enables
and completes it, and runs things. -/
inductive Profiles (options : Options) : Host → Prop where
  | new {w : World} (hw : w.record = #[]) (level : Log.Level) (hasContext : Bool) :
      Profiles options ⟨w, level, some (.new .callgrind options hasContext)⟩
  | setOutput {h : Host} (hh : Profiles options h) (room : Option Nat) :
      Profiles options (h.profile (·.setOutput (.toHost room))).1
  | setFile {h : Host} (hh : Profiles options h) (path : Text) :
      Profiles options (h.profileTo path).1
  | enable {h : Host} (hh : Profiles options h) : Profiles options (h.profile Profiler.enable).1
  | complete {h : Host} (hh : Profiles options h) : Profiles options h.completeProfile.1
  | run {h : Host} (hh : Profiles options h) {α : Type} {x : ∀ {view : View}, EvalIn view α}
      (hx : ∀ view, (@x view).Nests) : Profiles options (h.run x).host

variable {options : Options} {h : Host}

/-- The file that a profile is written to. -/
def profileFile? (h : Host) : Option Text := h.profiler.bind Profiler.file?

theorem withProfiler_of_no_file {p : Profiler} (hp : p.file? = none) (h : Host) :
    h.withProfiler p = { h with profiler := some p } := by
  unfold withProfiler
  rw [show p.save = id from funext (Profiler.save_of_no_file hp), Option.map_id]
  rfl

/-- What is known of a host program that uses a profiler: nothing has happened since its last run,
and if a file is written to, then it is there. -/
structure Ready (options : Options) (h : Host) : Prop where
  record : h.world.record = #[]
  profiler : ∃ p, h.profiler = some p ∧ p.Writes options
  holds : ∀ path ∈ h.profileFile?, ∀ files ∈ h.world.files, files.Holds path

theorem Ready.withProfiler (hh : h.Ready options) {p : Profiler} (hp : p.Writes options) :
    (h.withProfiler p).Ready options := by
  refine ⟨hh.record, ⟨p, rfl, hp⟩, fun path hpath files hfiles => ?_⟩
  have hpath : p.file? = some path := hpath
  obtain ⟨before, -, rfl⟩ := Option.map_eq_some_iff.1 hfiles
  exact Profiler.save_holds hpath before

theorem Ready.profile (hh : h.Ready options) {act : Profiler → Profiler × Option Fault}
    (ha : ∀ p : Profiler, p.Writes options → (act p).1.Writes options) :
    (h.profile act).1.Ready options := by
  obtain ⟨p, hp, hpw⟩ := hh.profiler
  unfold Host.profile
  rw [hp]
  exact hh.withProfiler (ha p hpw)

theorem Ready.profileTo (hh : h.Ready options) (path : Text) :
    (h.profileTo path).1.Ready options := by
  obtain ⟨p, hp, hpw⟩ := hh.profiler
  unfold Host.profileTo
  rcases hfiles : h.world.files with _ | files <;> simp only [hp]
  · exact hh
  · refine ⟨hh.record, ⟨_, rfl, hpw.setFile files path⟩, fun other hother files' hfiles' => ?_⟩
    obtain rfl := Option.some.inj hfiles'
    have hholds : ∀ other ∈ p.file?, files.Holds other := fun other hother =>
      hh.holds other (by rwa [profileFile?, hp]) files hfiles
    exact p.setFile_holds hholds path other hother

theorem Ready.complete (hh : h.Ready options) :
    ∃ fault, h.completeProfile.2 = Option.map Stop.fault fault ∧
      h.completeProfile.1.Ready options := by
  obtain ⟨p, hp, hpw⟩ := hh.profiler
  obtain ⟨q, fault, hq, hqw, -⟩ := hpw.complete
  unfold completeProfile
  rw [hp]
  simp only [hq]
  exact ⟨fault, rfl, hh.withProfiler hqw⟩

/-- The host program without its profiler. -/
def unprofiled (h : Host) : Host := { h with profiler := none }

section Run

variable {α : Type} {x : ∀ {view : View}, EvalIn view α} {p q : Profiler}

theorem run_eq_settle (h : Host) (x : ∀ {view : View}, EvalIn view α) :
    h.run x = h.settle (Outcome.result (x (h.world.under h.view)))
      ((Outcome.world (x (h.world.under h.view))).under .still) := by
  unfold Host.run
  beta_reduce
  rcases x (h.world.under h.view) with ⟨a, w⟩ | ⟨s, w⟩ <;> rfl

/-- The profiler follows what happened, and writes to its file. -/
theorem settle_eq (hp : h.profiler = some p) (result : Except Stop α) {w : World}
    (hq : p.follow w.record.toList = .ok q) :
    h.settle result w = ⟨result, w.record.toList,
      { h with
        profiler := some q
        world := { w with
          files := if p.isActive then w.files.map q.save else w.files
          record := #[] } }⟩ := by
  unfold settle
  simp only [hp]
  split_ifs with ha
  · simp only [hq]
    rfl
  · have hsame : q = p := by
      unfold Profiler.follow at hq
      rw [if_neg ha] at hq
      exact (Except.ok.inj hq).symm
    rw [hsame, ← hp]

theorem run_record (h : Host) (x : ∀ {view : View}, EvalIn view α) :
    (h.run x).record = (Outcome.world (x (h.world.under h.view))).record.toList := by
  rw [run_eq_settle]
  unfold settle
  dsimp only
  split
  · rfl
  · split_ifs
    · split <;> rfl
    · rfl

/-- What happens in a run are calls. -/
theorem exists_recorded (hw : h.world.record = #[]) (hx : ∀ view, (@x view).Nests) :
    ∃ ts, Trace.Recorded ts (h.run x).record := by
  obtain ⟨ts, es, hes, hts⟩ := (hx h.view (h.world.under h.view)).calls
  refine ⟨ts, ?_⟩
  rw [run_record, show _ = _ from hes, show (h.world.under h.view).record = #[] from hw]
  exact hts

theorem Ready.run (hh : h.Ready options) (hp : h.profiler = some p) (hpw : p.Writes options)
    (hx : ∀ view, (@x view).Nests) :
    ∃ ts q, Trace.Recorded ts (h.run x).record ∧ p.follow (h.run x).record = .ok q ∧
      q.Writes options ∧ (h.run x).host.profiler = some q ∧ (h.run x).host.Ready options := by
  obtain ⟨ts, hts⟩ := exists_recorded hh.record hx
  obtain ⟨q, hq, hqw⟩ := hpw.follow hts
  refine ⟨ts, q, hts, hq, hqw, ?_⟩
  have hfile := Profiler.follow_file? hq
  have hfiles := (hx h.view (h.world.under h.view)).files
  rw [run_record] at hq
  rw [run_eq_settle, settle_eq hp _ hq]
  refine ⟨rfl, rfl, ⟨q, rfl, hqw⟩, fun path hpath files hmem => ?_⟩
  have hpath : q.file? = some path := hpath
  change files ∈ (if p.isActive then (Outcome.world (x (h.world.under h.view))).files.map q.save
    else (Outcome.world (x (h.world.under h.view))).files) at hmem
  rw [hfiles] at hmem
  split_ifs at hmem
  · obtain ⟨before, -, rfl⟩ := Option.map_eq_some_iff.1 hmem
    exact Profiler.save_holds hpath before
  · have hbefore : h.profileFile? = some path := by rw [profileFile?, hp, ← hpath, hfile]; rfl
    exact hh.holds path hbefore files hmem

/-- With a profiler that can follow what happened, and that the run itself does not notice, the run
is the one without it, but for the file that is written to. -/
theorem run_eq_of_same (hp : h.profiler = some p)
    (hsame : x (h.world.under h.view) = Outcome.under (x h.world) h.view)
    (hq : p.follow (h.unprofiled.run x).record = .ok q) :
    h.run x = { h.unprofiled.run x with
      host := { (h.unprofiled.run x).host with
        profiler := some q
        world := { (h.unprofiled.run x).host.world with
          files := if p.isActive then (h.unprofiled.run x).host.world.files.map q.save
            else (h.unprofiled.run x).host.world.files } } } := by
  have hbare := h.unprofiled.run_eq_settle x
  change h.unprofiled.run x = h.unprofiled.settle (Outcome.result (x h.world))
    (Outcome.world (x h.world)) at hbare
  rw [hbare] at hq
  have hq : p.follow (Outcome.world (x h.world)).record.toList = .ok q := hq
  rw [hbare, run_eq_settle, hsame, Outcome.result_under, Outcome.world_under]
  exact settle_eq hp _ hq

theorem view_of_no_file (hf : h.profileFile? = none) : h.view = View.still := by
  unfold Host.view
  rcases hp : h.profiler with _ | p
  · rfl
  · exact Profiler.view_of_no_file (by simpa [profileFile?, hp] using hf)

/-- A run does not notice a profile that is written to no file. -/
theorem under_view_of_no_file (hf : h.profileFile? = none) (x : ∀ {view : View}, EvalIn view α) :
    x (h.world.under h.view) = Outcome.under (x h.world) h.view := by
  rw [view_of_no_file hf]
  show x h.world = Outcome.under (x h.world) .still
  rcases x h.world with ⟨a, w⟩ | ⟨s, w⟩ <;> rfl

/-- A run with a profiler that writes to no file is a run without it. -/
theorem run_eq (hp : h.profiler = some p) (hf : p.file? = none)
    (hq : p.follow (h.unprofiled.run x).record = .ok q) :
    h.run x = { h.unprofiled.run x with
      host := { (h.unprofiled.run x).host with profiler := some q } } := by
  have hsame := under_view_of_no_file (h := h) (by rw [profileFile?, hp]; exact hf) x
  have hsave : q.save = id :=
    funext (Profiler.save_of_no_file ((Profiler.follow_file? hq).trans hf))
  rw [run_eq_of_same hp hsame hq, hsave, Option.map_id]
  simp only [id, ite_self]

theorem unprofiled_run_record (h : Host) (x : ∀ {view : View}, EvalIn view α) :
    (h.unprofiled.run x).host.world.record = #[] := by
  rw [run_eq_settle]
  rfl

end Run

/-- However a profiler has been used, it is ready for a run. -/
theorem Profiles.ready (hh : h.Profiles options) : h.Ready options := by
  induction hh with
  | new hw level hasContext =>
    exact ⟨hw, ⟨_, rfl, Profiler.new_writes options hasContext⟩, nofun⟩
  | setOutput _ room ih => exact ih.profile fun _ hp => hp.setOutput (.toHost room)
  | setFile _ path ih => exact ih.profileTo path
  | enable _ ih => exact ih.profile fun _ hp => hp.enable.1
  | complete _ ih =>
    obtain ⟨_, _, h⟩ := ih.complete
    exact h
  | run _ hx ih =>
    obtain ⟨p, hp, hpw⟩ := ih.profiler
    obtain ⟨-, -, -, -, -, -, hready⟩ := ih.run hp hpw hx
    exact hready

theorem follow_prefix {p q : Profiler} {es fs : List Event} (h : p.follow (es ++ fs) = .ok q) :
    ∃ q', p.follow es = .ok q' := by
  unfold Profiler.follow at h ⊢
  split_ifs at h ⊢
  · rw [List.foldlM_append] at h
    rcases he : es.foldlM Profiler.Following.step ⟨p, []⟩ with s | ⟨q', endings⟩
    · rw [he] at h
      cases h
    · exact ⟨q', rfl⟩
  · exact ⟨p, rfl⟩

/-- A program does not notice that a profile of its run is written to a file that it does not
read. -/
theorem Ready.under_view (hh : h.Ready options) {p : Program} {fuel : Nat}
    (hno : ∀ path ∈ h.profileFile?, ∀ e ∈ (h.unprofiled.run (p.eval fuel)).record,
      ¬e.Reads path) :
    p.eval fuel (h.world.under h.view) = Outcome.under (p.eval fuel h.world) h.view := by
  rcases hf : h.profileFile? with _ | path
  · exact under_view_of_no_file hf (p.eval fuel)
  · obtain ⟨q, hq, -⟩ := hh.profiler
    have hpath : path ∈ q.file? := by
      rw [profileFile?, hq] at hf
      exact hf
    have hview : h.view = q.view := by rw [Host.view, hq]; rfl
    have hadds : h.world.Adds (Outcome.world (p.eval fuel h.world))
        (h.unprofiled.run (p.eval fuel)).record := by
      rw [World.Adds, run_record, hh.record]
      rfl
    rw [hview]
    exact (Program.eval_unread p).eq
      (fun files hfiles => Profiler.view_alikeBut hpath (hh.holds path hf files hfiles)) hadds
      (hno path hf)

end Host

/-- Two worlds are the same but for what is in a file. -/
structure World.SameBut (file : Option Text) (w u : World) : Prop where
  names : w.names = u.names
  reads : w.reads = u.reads
  serial : w.serial = u.serial
  record : w.record = u.record
  files : w.files = u.files ∨
    ∃ path ∈ file, ∃ content, w.files = u.files.map fun files => files.store path content

namespace Host

/-- At no time of a run does a call end that did not begin, and neither does one when the profile is
then completed. Unless a program reads the file that its profile is written to, its run with a
profiler is its run without it: it ends in the same way, the same happened, and it leaves the same
world, but for that file. -/
theorem run_profiled {options : Options} {h : Host} (hh : h.Profiles options) (p : Program)
    (fuel : Nat) :
    ((∀ path ∈ h.profileFile?, ∀ e ∈ (h.unprofiled.run (p.eval fuel)).record, ¬e.Reads path) →
      (h.run (p.eval fuel)).result = (h.unprofiled.run (p.eval fuel)).result ∧
        (h.run (p.eval fuel)).record = (h.unprofiled.run (p.eval fuel)).record ∧
        (h.run (p.eval fuel)).host.world.SameBut h.profileFile?
          (h.unprofiled.run (p.eval fuel)).host.world) ∧
      (∀ q ∈ h.profiler, ∀ es, es <+: (h.run (p.eval fuel)).record → ∃ q', q.follow es = .ok q') ∧
      ∀ message, (h.run (p.eval fuel)).host.completeProfile.2 ≠ some (.crash message) := by
  have hready := hh.ready
  have hnests (view : View) : (p.eval fuel : EvalIn view Value).Nests := Program.eval_nests p
  obtain ⟨q, hq, hqw⟩ := hready.profiler
  obtain ⟨-, q', -, hf, -, -, hready'⟩ := hready.run hq hqw hnests
  refine ⟨fun hno => ?_, ?_, ?_⟩
  · obtain ⟨ts, hts⟩ := exists_recorded (h := h.unprofiled) hready.record hnests
    obtain ⟨r, hr, -⟩ := hqw.follow hts
    rw [run_eq_of_same hq (hready.under_view hno) hr]
    refine ⟨rfl, rfl, rfl, rfl, rfl, rfl, ?_⟩
    have hfile : h.profileFile? = r.file? := by
      rw [profileFile?, hq, Profiler.follow_file? hr]
      rfl
    rw [hfile]
    dsimp only
    split_ifs
    · exact r.map_save_eq _
    · exact .inl rfl
  · intro x hx es ⟨fs, hfs⟩
    obtain rfl : q = x := Option.some.inj (hq.symm.trans hx)
    exact follow_prefix (hfs ▸ hf)
  · intro message
    obtain ⟨fault, hfault, -⟩ := hready'.complete
    rw [hfault]
    cases fault <;> simp

/-- An output takes the header and a line and fails at the next one, or is a file beside the one
that is read. -/
theorem run_profiled_failing :
    let options : Options := ⟨.none, .name⟩
    let new : Host :=
      ⟨.initial (.ofFiles [("q", [])]), .info, some (.new .callgrind options false)⟩
    let failing := ((new.profile (·.setOutput (.toHost (some 4)))).1.profile Profiler.enable).1
    let beside := ((new.profileTo "p").1.profile Profiler.enable).1
    let p : Program := [.named "readFile" none (some (.literal (.str "q") none)) none]
    (failing.Profiles options ∧ failing.profileFile? = none ∧
      ((failing.run (p.eval 5)).host.profiler.bind fun q => q.profile.failure).isSome ∧
      (failing.run (p.eval 5)).result = (failing.unprofiled.run (p.eval 5)).result ∧
      (failing.run (p.eval 5)).host.world.SameBut none
        (failing.unprofiled.run (p.eval 5)).host.world) ∧
    beside.Profiles options ∧ beside.profileFile? = some ("p" : Text) ∧
      (∀ e ∈ (beside.unprofiled.run (p.eval 5)).record, ¬e.Reads "p") ∧
      (beside.run (p.eval 5)).result = (beside.unprofiled.run (p.eval 5)).result ∧
      (beside.run (p.eval 5)).host.world.SameBut (some "p")
        (beside.unprofiled.run (p.eval 5)).host.world := by
  intro options new failing beside p
  have hnew : new.Profiles options := .new rfl .info false
  refine ⟨?_, ?_⟩
  · have hh : failing.Profiles options := (hnew.setOutput (some 4)).enable
    have hnone : failing.profileFile? = none := rfl
    obtain ⟨hresult, -, hworld⟩ := (run_profiled hh p 5).1 (by simp [hnone])
    exact ⟨hh, hnone, by decide +kernel, hresult, hnone ▸ hworld⟩
  · have hh : beside.Profiles options := (hnew.setFile "p").enable
    have hp : beside.profileFile? = some ("p" : Text) := by decide +kernel
    have hno : ∀ e ∈ (beside.unprofiled.run (p.eval 5)).record, ¬e.Reads "p" := by
      decide +kernel
    obtain ⟨hresult, -, hworld⟩ := (run_profiled hh p 5).1 fun path hpath => by
      obtain rfl := Option.mem_unique hp hpath
      exact hno
    exact ⟨hh, hp, hno, hresult, hp ▸ hworld⟩

/-- The program `x <- readFile "p"; y <- readFile "p"; x eq y`. -/
def readingTwice : Program :=
  let reading : Expr := .named "readFile" none (some (.literal (.str "p") none)) none
  [.assign "x" reading none, .assign "y" reading none,
    .named "eq" (some (.named "x" none none none)) (some (.named "y" none none none)) none]

/-- Between its two readings, what a program reads is a profile to which its first was added. -/
theorem run_profiled_reading :
    let options : Options := ⟨.none, .name⟩
    let new : Host :=
      ⟨.initial (.ofFiles [("p", [])]), .info, some (.new .callgrind options false)⟩
    let h := ((new.profileTo "p").1.profile Profiler.enable).1
    h.Profiles options ∧
      (h.run (readingTwice.eval 5)).result.toOption.map Value.isTruthy = some false ∧
      (h.unprofiled.run (readingTwice.eval 5)).result.toOption.map Value.isTruthy = some true := by
  intro options new h
  have hnew : new.Profiles options := .new rfl .info false
  refine ⟨(hnew.setFile "p").enable, ?_, ?_⟩
  · decide +kernel
  · decide +kernel

end Host

end Tacit
