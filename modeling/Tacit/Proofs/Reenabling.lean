import Tacit.Proofs.Unfailing

/-!
# Enabling a profiler again

A host program sets writers, enables and completes a profiler that writes a profile, and runs
programs in between, in any order (`Session`). Enabling may be refused. What else it asks for is
answered as if it had not been: an answer depends only on an outline of the session, which a
refused enabling leaves alone (`Unfailing.step`, `Outline.step_refused`).

What is written is another matter. For want of a writer enabling is refused before anything is
done. A profiler that is enabled starts another profile before it refuses, so the profile under way
gets a second header where otherwise a block, or nothing, would follow, and from there on the two
texts differ (`Parted`).
-/

namespace Tacit

namespace Profile

/-- A host program with its writers, which are numbered. -/
structure Session where
  host : Host
  writers : Nat → Output
  /-- The writer that was set. -/
  current : Option Nat

namespace Session

/-- What a host program asks for. -/
inductive Act where
  | setWriter (n : Nat)
  | enable
  | run (p : Program) (fuel : Nat)
  | complete

/-- What it gets. -/
inductive Answer where
  /-- It is done, or why it is not. -/
  | done (stop : Option Stop)
  /-- How a run ended, what happened in it, and the world it left. -/
  | ended (result : Except Stop Value) (record : List Event) (world : World)

/-- A new profiler, and writers that take all. -/
def new (options : Options) (hasContext : Bool) (level : Log.Level) (w : World) : Session :=
  ⟨⟨w, level, some (.new .callgrind options hasContext)⟩, fun _ => .toHost none, none⟩

/-- The session when the host program has come that far: the writer that was set has what the
profiler wrote. -/
def reach (s : Session) (h : Host) : Session :=
  { s with
    host := h
    writers := fun n =>
      if s.current = some n then (h.profiler.bind fun p => p.profile.output).getD (s.writers n)
      else s.writers n }

def step (s : Session) : Act → Answer × Session
  | .setWriter n =>
    match s.host.profile (·.setOutput (s.writers n)) with
    | (h, some f) => (.done (some (.fault f)), s.reach h)
    | (h, none) => (.done none, { s with host := h, current := some n })
  | .enable =>
    let (h, fault) := s.host.profile Profiler.enable
    (.done (fault.map .fault), s.reach h)
  | .run p fuel =>
    let r := s.host.run (p.eval fuel)
    (.ended r.result r.record r.host.world, s.reach r.host)
  | .complete =>
    let (h, stop) := s.host.completeProfile
    (.done stop, s.reach h)

/-- What is asked for, one thing after the other, with the answers. -/
def transcript : Session → List Act → List (Act × Answer)
  | _, [] => []
  | s, a :: as => (a, (s.step a).1) :: transcript (s.step a).2 as

/-- The session after all of that. -/
def after : Session → List Act → Session
  | s, [] => s
  | s, a :: as => after (s.step a).2 as

/-- Whether enabling was refused. -/
def isRefused : Act × Answer → Bool
  | (.enable, .done (some _)) => true
  | _ => false

/-- What is asked for without the enablings that are refused, with the answers. -/
def unrefused (s : Session) (as : List Act) : List (Act × Answer) :=
  (s.transcript as).filter (!isRefused ·)

/-- What was written to a writer. -/
def text (s : Session) (n : Nat) : Text := (s.writers n).text

def isEnabled (s : Session) : Bool := s.host.profiler.any (·.isEnabled)

/-! ## What the answers depend on -/

/-- A session without what was written and what the profiler has noted of the calls under way. -/
structure Outline where
  /-- The host program without its profiler. -/
  bare : Host
  isEnabled : Bool
  current : Option Nat

def outline (s : Session) : Outline := ⟨s.host.unprofiled, s.isEnabled, s.current⟩

/-- The fault of enabling a profiler without a writer. -/
def noOutput : Fault := .plain "no output set in profiler"

/-- The fault of completing a profiler that is not enabled. -/
def notEnabled : Fault := .plain "profiler not enabled"

def Outline.step (o : Outline) : Act → Answer × Outline
  | .setWriter n =>
    if o.isEnabled then (.done (some (.fault Profiler.alreadyEnabled)), o)
    else (.done none, { o with current := some n })
  | .enable =>
    if o.current = none then (.done (some (.fault noOutput)), o)
    else if o.isEnabled then (.done (some (.fault Profiler.alreadyEnabled)), o)
    else (.done none, { o with isEnabled := true })
  | .run p fuel =>
    let r := o.bare.run (p.eval fuel)
    (.ended r.result r.record r.host.world, { o with bare := r.host })
  | .complete =>
    if o.isEnabled then (.done none, { o with isEnabled := false })
    else (.done (some (.fault notEnabled)), o)

theorem Outline.step_refused {o : Outline} {a : Act} (h : isRefused (a, (o.step a).1) = true) :
    (o.step a).2 = o := by
  cases a with
  | enable =>
    simp only [Outline.step] at h ⊢
    split_ifs at h ⊢
    · rfl
    · rfl
    · cases h
  | setWriter | run | complete => cases h

/-- What an act may write to the writer that was set. -/
def Outline.MayWrite (o : Outline) (t : Text) : Act → Prop
  | .setWriter _ => t = []
  | .enable => t = Callgrind.header.flatten
  | .run .. => Callgrind.BlockLike t
  | .complete => if o.isEnabled then ("fl=" : Text) <+: t else t = []

/-- What is known of a session. -/
structure Unfailing (options : Options) (s : Session) : Prop where
  record : s.host.world.record = #[]
  profiler : ∃ p, s.host.profiler = some p ∧ p.Unfailing options ∧
    p.profile.output = s.current.map s.writers
  writers : ∀ n, (s.writers n).TakesAll

variable {options : Options} {s t : Session}

theorem new_unfailing (options : Options) (hasContext : Bool) (level : Log.Level) {w : World}
    (hw : w.record = #[]) : (new options hasContext level w).Unfailing options :=
  ⟨hw, ⟨_, rfl, Profiler.new_unfailing options hasContext, rfl⟩, fun _ => Output.takesAll_toHost⟩

/-- The writer that was set has what the profiler wrote. -/
theorem Unfailing.reach (hs : s.Unfailing options) {p q : Profiler} (hp : s.host.profiler = some p)
    (hq : q.Unfailing options) {h : Host} (hh : h.world.record = #[]) (hhq : h.profiler = some q)
    {f : Output → Output} (hf : q.profile.output = p.profile.output.map f) :
    (s.reach h).Unfailing options ∧
      ∀ n, (s.reach h).text n =
        if s.current = some n then (f (s.writers n)).text else s.text n := by
  obtain ⟨p', hp', -, hout⟩ := hs.profiler
  obtain rfl := Option.some.inj (hp.symm.trans hp')
  have hwriter : ∀ n, (s.reach h).writers n =
      if s.current = some n then f (s.writers n) else s.writers n := by
    intro n
    unfold Session.reach
    dsimp only
    split_ifs with hn
    · simp [hhq, hf, hout, hn]
    · rfl
  refine ⟨⟨hh, ⟨q, hhq, hq, ?_⟩, fun n => ?_⟩, fun n => ?_⟩
  · rw [hf, hout]
    show _ = s.current.map (s.reach h).writers
    rcases hc : s.current with _ | n
    · rfl
    · simp [hwriter, hc]
  · rw [hwriter]
    split_ifs with hn
    · refine hq.profile.takesAll _ ?_
      simp [hf, hout, hn]
    · exact hs.writers n
  · unfold Session.text
    rw [hwriter]
    split_ifs <;> rfl

theorem Unfailing.reach_self (hs : s.Unfailing options) : s.reach s.host = s := by
  obtain ⟨p, hp, -, hout⟩ := hs.profiler
  obtain ⟨h, writers, current⟩ := s
  unfold Session.reach
  congr
  funext n
  split_ifs with hn
  · obtain rfl : current = some n := hn
    simp [show h.profiler = some p from hp, hout]
  · rfl

theorem isEnabled_eq {p : Profiler} (hp : s.host.profiler = some p) :
    s.isEnabled = p.isEnabled := by
  simp [isEnabled, hp]

/-- An act is answered as the outline says, leaves the outline that it says, and writes what it
may. -/
structure Sound (options : Options) (s : Session) (a : Act) (r : Answer × Session) : Prop where
  unfailing : r.2.Unfailing options
  answer : r.1 = (s.outline.step a).1
  outline : r.2.outline = (s.outline.step a).2
  text : ∃ t, s.outline.MayWrite t a ∧
    ∀ n, r.2.text n = if s.current = some n then s.text n ++ t else s.text n

/-- Nothing is done. -/
theorem Sound.same (hs : s.Unfailing options) {a : Act} {answer : Answer}
    (ho : s.outline.step a = (answer, s.outline)) (hw : s.outline.MayWrite [] a) :
    s.Sound options a (answer, s) := by
  refine ⟨hs, by rw [ho], by rw [ho], [], hw, fun n => ?_⟩
  simp

theorem Unfailing.setWriter (hs : s.Unfailing options) (n : Nat) :
    s.Sound options (.setWriter n) (s.step (.setWriter n)) := by
  obtain ⟨p, hp, hps, hout⟩ := hs.profiler
  rcases he : p.isEnabled
  · obtain ⟨q, hq, hqs, hqe, hqo⟩ := hps.setOutput he (hs.writers n)
    simp only [Session.step, Host.profile_of_unfailing (·.setOutput (s.writers n)) hp hq hqs]
    have ho : s.outline.step (.setWriter n) = (.done none, { s.outline with current := some n }) :=
      if_neg (by simp [Session.outline, isEnabled_eq hp, he])
    refine ⟨⟨hs.record, ⟨q, rfl, hqs, hqo⟩, hs.writers⟩, by rw [ho], ?_, [], rfl, fun m => ?_⟩
    · rw [ho]
      simp [Session.outline, Session.isEnabled, hqe, hp, he, Host.unprofiled]
    · simp [Session.text]
  · simp only [Session.step, Host.with_profiler hp, hs.reach_self, Host.profile_of_unfailing
      (·.setOutput (s.writers n)) hp (Profiler.setOutput_of_enabled he _) hps]
    refine .same hs (if_pos ?_) rfl
    simp [Session.outline, isEnabled_eq hp, he]

/-- Without a writer enabling is refused, and nothing is done. -/
theorem step_enable_of_no_writer (hs : s.Unfailing options) (hc : s.current = none) :
    s.step .enable = (.done (some (.fault noOutput)), s) := by
  obtain ⟨p, hp, hps, hout⟩ := hs.profiler
  rw [hc] at hout
  simp only [Session.step, Host.with_profiler hp, hs.reach_self,
    Host.profile_of_unfailing _ hp (Profiler.enable_of_no_output hps.writes.kind hout) hps]
  rfl

theorem Unfailing.enable (hs : s.Unfailing options) :
    s.Sound options .enable (s.step .enable) := by
  rcases hc : s.current with _ | n
  · rw [step_enable_of_no_writer hs hc]
    have ho : s.outline.step .enable = (.done (some (.fault noOutput)), s.outline) := if_pos hc
    refine ⟨hs, by rw [ho], by rw [ho], _, rfl, fun m => ?_⟩
    simp [hc]
  · obtain ⟨p, hp, hps, hout⟩ := hs.profiler
    obtain ⟨q, hq, hqs, hqe, hqo⟩ := hps.enable (by simp [hout, hc])
    simp only [Session.step, Host.profile_of_unfailing _ hp hq hqs]
    obtain ⟨hunfailing, htext⟩ :=
      hs.reach (h := { s.host with profiler := some q }) hp hqs hs.record rfl hqo
    have hcur : ¬ s.outline.current = none := by simp [Session.outline, hc]
    have ho : s.outline.step .enable = (.done ((if p.isEnabled then some Profiler.alreadyEnabled
        else none).map .fault), { s.outline with isEnabled := true }) := by
      have hen : s.outline.isEnabled = p.isEnabled := isEnabled_eq hp
      simp only [Outline.step, if_neg hcur]
      rcases he : p.isEnabled
      · simp [hen, he]
      · have hsame : ({ s.outline with isEnabled := true } : Outline) = s.outline := by
          rw [← hen.trans he]
        simp [hen, he, hsame]
    refine ⟨hunfailing, by rw [ho], ?_, _, rfl, fun m => ?_⟩
    · rw [ho]
      simp [Session.outline, Session.isEnabled, hqe, Host.unprofiled, Session.reach]
    · rw [htext]
      simp [Session.text]

theorem Unfailing.run (hs : s.Unfailing options) (p : Program) (fuel : Nat) :
    s.Sound options (.run p fuel) (s.step (.run p fuel)) := by
  obtain ⟨q, hq, hqs, hout⟩ := hs.profiler
  have hnests (view : View) : (p.eval fuel : EvalIn view Value).Nests := Program.eval_nests p
  obtain ⟨ts, hts⟩ := Host.exists_recorded (h := s.host.unprofiled) hs.record hnests
  obtain ⟨r, us, hr, hrs, hre, hro, hlike⟩ := hqs.follow hts
  simp only [Session.step, Host.run_eq hq hqs.file? hr]
  obtain ⟨hunfailing, htext⟩ := hs.reach (h := { (s.host.unprofiled.run (p.eval fuel)).host with
    profiler := some r }) hq hrs (Host.unprofiled_run_record _ _) rfl hro
  refine ⟨hunfailing, rfl, ?_, us.flatten, hlike, fun m => ?_⟩
  · have hbare := Host.unprofiled_run s.host (p.eval fuel)
    rw [show s.outline.step (.run p fuel) = (_, { s.outline with
      bare := (s.host.unprofiled.run (p.eval fuel)).host }) from rfl, ← hbare]
    simp [Session.outline, Session.isEnabled, hre, hq, Host.unprofiled, Session.reach]
  · rw [htext]
    simp [Session.text]

theorem Unfailing.complete (hs : s.Unfailing options) :
    s.Sound options .complete (s.step .complete) := by
  obtain ⟨p, hp, hps, hout⟩ := hs.profiler
  rcases he : p.isEnabled
  · simp only [Session.step, Host.with_profiler hp, hs.reach_self, Host.completeProfile_of_unfailing
      hp (Profiler.complete_of_not_enabled hps.writes.kind he) hps]
    have hoff : ¬ s.outline.isEnabled = true := by simp [Session.outline, isEnabled_eq hp, he]
    exact .same hs (if_neg hoff) ((if_neg hoff).mpr rfl)
  · obtain ⟨q, ts, hq, hqs, hqe, hqo, hts⟩ := hps.complete he
    have hon : s.outline.isEnabled = true := by simp [Session.outline, isEnabled_eq hp, he]
    simp only [Session.step, Host.completeProfile_of_unfailing hp hq hqs]
    obtain ⟨hunfailing, htext⟩ :=
      hs.reach (h := { s.host with profiler := some q }) hp hqs hs.record rfl hqo
    have ho : s.outline.step .complete = (.done none, { s.outline with isEnabled := false }) :=
      if_pos hon
    refine ⟨hunfailing, by rw [ho]; rfl, ?_, ts.flatten, ?_, fun m => ?_⟩
    · rw [ho]
      simp [Session.outline, Session.isEnabled, hqe, Host.unprofiled, Session.reach]
    · show if _ then _ else _
      rwa [if_pos hon]
    · rw [htext]
      simp [Session.text]

/-- Each step is one of the outline. -/
theorem Unfailing.step (hs : s.Unfailing options) : ∀ a, s.Sound options a (s.step a)
  | .setWriter n => hs.setWriter n
  | .enable => hs.enable
  | .run p fuel => hs.run p fuel
  | .complete => hs.complete

theorem unrefused_of_refused {a : Act} (h : isRefused (a, (s.step a).1) = true) (as : List Act) :
    s.unrefused (a :: as) = (s.step a).2.unrefused as := by
  simp [unrefused, transcript, h]

theorem unrefused_of_not_refused {a : Act} (h : isRefused (a, (s.step a).1) = false)
    (as : List Act) :
    s.unrefused (a :: as) = (a, (s.step a).1) :: (s.step a).2.unrefused as := by
  simp [unrefused, transcript, h]

theorem Unfailing.outline_of_refused (hs : s.Unfailing options) {a : Act}
    (h : isRefused (a, (s.step a).1) = true) : (s.step a).2.outline = s.outline := by
  rw [(hs.step a).answer] at h
  rw [(hs.step a).outline, Outline.step_refused h]

/-- With the same outline, whatever is asked for is answered alike. -/
theorem Unfailing.answer_eq (hs : s.Unfailing options) (ht : t.Unfailing options)
    (h : s.outline = t.outline) (a : Act) : (s.step a).1 = (t.step a).1 := by
  rw [(hs.step a).answer, (ht.step a).answer, h]

theorem Unfailing.outline_eq (hs : s.Unfailing options) (ht : t.Unfailing options)
    (h : s.outline = t.outline) (a : Act) : (s.step a).2.outline = (t.step a).2.outline := by
  rw [(hs.step a).outline, (ht.step a).outline, h]

/-- All else is answered in the same way without the enablings that are refused. -/
theorem transcript_unrefused : ∀ (as : List Act) {s t : Session} (_ : s.Unfailing options)
    (_ : t.Unfailing options) (_ : s.outline = t.outline),
    t.transcript ((s.unrefused as).map Prod.fst) = s.unrefused as
  | [], _, _, _, _, _ => rfl
  | a :: as, s, t, hs, ht, h => by
    rcases hr : isRefused (a, (s.step a).1)
    · rw [unrefused_of_not_refused hr, List.map_cons, transcript,
        transcript_unrefused as (hs.step a).unfailing (ht.step a).unfailing (hs.outline_eq ht h a),
        hs.answer_eq ht h a]
    · rw [unrefused_of_refused hr]
      exact transcript_unrefused as (hs.step a).unfailing ht ((hs.outline_of_refused hr).trans h)

theorem Unfailing.text_isPrefix (hs : s.Unfailing options) (a : Act) (n : Nat) :
    s.text n <+: (s.step a).2.text n := by
  obtain ⟨t, -, ht⟩ := (hs.step a).text
  rw [ht]
  split_ifs
  · exact List.prefix_append ..
  · exact List.prefix_rfl

/-- Behind a text, the one session has a header. The other one has not written more, and is enabled,
or has a block there. -/
structure Parted (n : Nat) (x : Text) (s t : Session) : Prop where
  header : x ++ ("v" : Text) <+: s.text n
  block : (t.text n = x ∧ t.isEnabled = true ∧ t.current = some n) ∨
    x ++ ("fl=" : Text) <+: t.text n

variable {n : Nat} {x : Text}

theorem Parted.text_ne (h : Parted n x s t) : t.text n ≠ s.text n := by
  intro heq
  obtain ⟨u, hu⟩ := h.header
  rcases h.block with ⟨hx, -⟩ | ⟨v, hv⟩
  · have hlen := congrArg List.length (hu.trans (heq.symm.trans hx))
    have hone : ("v" : Text).length = 1 := rfl
    simp only [List.length_append] at hlen
    omega
  · have hsame := hv.trans (heq.trans hu.symm)
    rw [List.append_assoc, List.append_assoc] at hsame
    have hhead : some 'f'.toUInt8 = some 'v'.toUInt8 :=
      congrArg List.head? (List.append_cancel_left hsame)
    exact absurd hhead (by decide)

theorem header_isPrefix : ("v" : Text) <+: Callgrind.header.flatten := by decide

/-- A session parts when a profiler that is enabled is enabled again. -/
theorem Unfailing.parted (hs : s.Unfailing options) (he : s.isEnabled = true)
    (hc : s.current = some n) : Parted n (s.text n) (s.step .enable).2 s := by
  refine ⟨?_, .inl ⟨rfl, he, hc⟩⟩
  obtain ⟨t, rfl, ht⟩ := (hs.step .enable).text
  rw [ht, if_pos hc]
  exact (List.prefix_append_right_inj _).2 header_isPrefix

theorem Parted.step_left (h : Parted n x s t) (hs : s.Unfailing options) (a : Act) :
    Parted n x (s.step a).2 t :=
  ⟨h.header.trans (hs.text_isPrefix a n), h.block⟩

/-- Sessions that have parted stay so when the other one goes on without an enabling that is
refused. -/
theorem Parted.step_right (h : Parted n x s t) (ht : t.Unfailing options) {a : Act}
    (hr : isRefused (a, (t.step a).1) = false) : Parted n x s (t.step a).2 := by
  refine ⟨h.header, ?_⟩
  rcases h.block with ⟨hx, he, hc⟩ | hblock
  · have hsound := ht.step a
    obtain ⟨u, hu, htext⟩ := hsound.text
    have hout := hsound.outline
    have hon : t.outline.isEnabled = true := he
    rw [htext, if_pos hc, hx, List.prefix_append_right_inj]
    cases a with
    | setWriter m =>
      obtain rfl : u = [] := hu
      simp only [Outline.step, if_pos hon] at hout
      exact .inl ⟨List.append_nil x, (congrArg Outline.isEnabled hout).trans he,
        (congrArg Outline.current hout).trans hc⟩
    | enable =>
      have hcur : ¬ t.outline.current = none := by simp [Session.outline, hc]
      rw [hsound.answer] at hr
      simp only [Outline.step, if_neg hcur, if_pos hon] at hr
      cases hr
    | run p fuel =>
      rcases hu with rfl | hu
      · exact .inl ⟨List.append_nil x, (congrArg Outline.isEnabled hout).trans he,
          (congrArg Outline.current hout).trans hc⟩
      · exact .inr hu
    | complete =>
      simp only [Outline.MayWrite, if_pos hon] at hu
      exact .inr hu
  · exact .inr (hblock.trans (ht.text_isPrefix a n))

/-- Sessions that have parted stay apart. -/
theorem Parted.after : ∀ (as : List Act) {s t : Session} (_ : Parted n x s t)
    (_ : s.Unfailing options) (_ : t.Unfailing options) (_ : s.outline = t.outline),
    Parted n x (s.after as) (t.after ((s.unrefused as).map Prod.fst))
  | [], _, _, h, _, _, _ => h
  | a :: as, s, t, h, hs, ht, ho => by
    have hleft := h.step_left hs a
    rcases hr : isRefused (a, (s.step a).1)
    · rw [unrefused_of_not_refused hr]
      rw [hs.answer_eq ht ho a] at hr
      exact Parted.after as (hleft.step_right ht hr) (hs.step a).unfailing (ht.step a).unfailing
        (hs.outline_eq ht ho a)
    · rw [unrefused_of_refused hr]
      exact Parted.after as hleft (hs.step a).unfailing ht ((hs.outline_of_refused hr).trans ho)

/-- The answer to enabling a profiler that is enabled. -/
def enabledTwice : Act × Answer := (.enable, .done (some (.fault Profiler.alreadyEnabled)))

theorem noOutput_ne : noOutput ≠ Profiler.alreadyEnabled := by
  intro h
  injection h with h
  exact absurd h (by decide)

/-- Enabling is refused for want of a writer, or because the profiler is enabled. -/
theorem Unfailing.refused_cases (hs : s.Unfailing options) {a : Act}
    (h : isRefused (a, (s.step a).1) = true) :
    a = .enable ∧ (s.current = none ∨
      ∃ n, s.current = some n ∧ s.isEnabled = true ∧ (a, (s.step a).1) = enabledTwice) := by
  cases a with
  | enable =>
    refine ⟨rfl, ?_⟩
    rcases hc : s.current with _ | n
    · exact .inl rfl
    · have hcur : ¬ s.outline.current = none := by simp [Session.outline, hc]
      rw [(hs.step _).answer] at h ⊢
      simp only [Outline.step, if_neg hcur] at h ⊢
      split_ifs at h ⊢ with he
      · exact .inr ⟨n, rfl, he, rfl⟩
      · cases h
  | setWriter | run | complete => cases h

/-- All writers have the same texts without the enablings that are refused exactly if none was
refused to a profiler that was enabled. -/
theorem text_unrefused_iff : ∀ (as : List Act) {s : Session} (_ : s.Unfailing options),
    (∀ n, (s.after ((s.unrefused as).map Prod.fst)).text n = (s.after as).text n) ↔
      enabledTwice ∉ s.transcript as
  | [], s, _ => by simp [unrefused, transcript]
  | a :: as, s, hs => by
    have hmem : enabledTwice ∈ s.transcript (a :: as) ↔
        enabledTwice = (a, (s.step a).1) ∨ enabledTwice ∈ (s.step a).2.transcript as :=
      List.mem_cons
    rcases hr : isRefused (a, (s.step a).1)
    · have hne : enabledTwice ≠ (a, (s.step a).1) := by
        intro heq
        rw [← heq] at hr
        cases hr
      rw [unrefused_of_not_refused hr, hmem, or_iff_right hne]
      exact text_unrefused_iff as (hs.step a).unfailing
    · rw [unrefused_of_refused hr, hmem]
      obtain ⟨rfl, hc | ⟨n, hc, he, htwice⟩⟩ := hs.refused_cases hr
      · have hstep := step_enable_of_no_writer hs hc
        have hne : enabledTwice ≠ (Act.enable, Answer.done (some (.fault noOutput))) := by
          simp [enabledTwice, noOutput_ne.symm]
        rw [Session.after, hstep, or_iff_right hne]
        exact text_unrefused_iff as hs
      · have hparted := Parted.after as (hs.parted he hc) (hs.step _).unfailing hs
          (hs.outline_of_refused hr)
        exact ⟨fun h => absurd (h n) hparted.text_ne, fun h => absurd (.inl htwice.symm) h⟩

/-- The session without the enablings that are refused: all else is answered in the same way. The
same was written to each writer just when none of them was refused by a profiler that was enabled
already. -/
theorem refused_enablings {w : World} (hw : w.record = #[]) (options : Options)
    (hasContext : Bool) (level : Log.Level) (as : List Act) :
    let s := new options hasContext level w
    let acts := (s.unrefused as).map Prod.fst
    s.transcript acts = s.unrefused as ∧
      ((∀ n, (s.after acts).text n = (s.after as).text n) ↔ enabledTwice ∉ s.transcript as) := by
  intro s acts
  have hs : s.Unfailing options := new_unfailing options hasContext level hw
  exact ⟨transcript_unrefused as hs hs rfl, text_unrefused_iff as hs⟩

/-- A call, in a session where enabling is refused for want of a writer. -/
theorem refused_enablings_no_writer :
    let s := new ⟨.none, .name⟩ false .info (.initial ⟨[], true⟩)
    let p : Program := [.named "chars" (some (.literal (.str "a") none)) none none]
    let as : List Act := [.enable, .setWriter 0, .enable, .run p 5, .complete]
    let acts := (s.unrefused as).map Prod.fst
    (World.initial ⟨[], true⟩).record = #[] ∧ acts.length = 4 ∧
      s.transcript acts = s.unrefused as ∧
      ((∀ n, (s.after acts).text n = (s.after as).text n) ↔ enabledTwice ∉ s.transcript as) :=
  ⟨rfl, by decide +kernel, refused_enablings rfl _ _ _ _⟩

/-- When the profiler is enabled again after a call, that call is no longer part of the run, and
there is another header. -/
theorem not_text_unrefused :
    ¬ ∀ as : List Act,
      let s := new ⟨.none, .name⟩ false .info (.initial ⟨[], true⟩)
      let acts := (s.unrefused as).map Prod.fst
      s.transcript acts = s.unrefused as ∧ ∀ n, (s.after acts).text n = (s.after as).text n := by
  intro h
  let p : Program := [.named "chars" (some (.literal (.str "a") none)) none none]
  have htext := (h [.setWriter 0, .enable, .run p 5, .enable, .complete]).2 0
  revert htext
  decide +kernel

end Session

end Profile

end Tacit
