import Mathlib
import Tacit.Command
import Tacit.Command.Format
import Tacit.Proofs.Files

/-!
# Formatting files in place

Each file that has a canonical form is replaced by it (`rewritten`), and whatever happens at one
path, the others are still looked at (`formatNext_write`, `formatNext_list`). Paths of different
files do not interfere, so a run over them leaves at each what there was, or its canonical form
(`entry?_foldl_of_mem`), in whatever order they are named (`foldl_rewritten_perm`). Listing tells
beforehand which files those are (`in_place`).
-/

namespace Tacit

namespace Job

variable {α β : Type} {c c' : Console}

/-- What a job has written when it ends, one way or the other. -/
def left (job : Job α) (c : Console) : Console :=
  match job c with
  | .ok _ c => c
  | .error _ c => c

def Fails (job : Job α) (c : Console) : Prop := ∃ p c', job c = .error p c'

theorem bind_of_ok {job : Job α} {a : α} (h : job c = .ok a c') (f : α → Job β) :
    (job >>= f) c = f a c' := by
  show EStateM.bind job f c = f a c'
  unfold EStateM.bind
  rw [h]

theorem bind_of_error {job : Job α} {p : Problem} (h : job c = .error p c') (f : α → Job β) :
    (job >>= f) c = .error p c' := by
  show EStateM.bind job f c = _
  unfold EStateM.bind
  rw [h]

theorem outcome_of_ok {job : Job α} {a : α} (h : job c = .ok a c') :
    job.outcome c = .ok (.ok a) c' := by
  unfold outcome
  rw [h]

theorem outcome_of_error {job : Job α} {p : Problem} (h : job c = .error p c') :
    job.outcome c = .ok (.error p) c' := by
  unfold outcome
  rw [h]

/-- What is printed where there should be a file and is none. -/
def notice (path : Text) : Text := "No such source file " ++ Text.quoted path ++ ".\n"

theorem readSource_of_file {path src : Text} (h : c.files.entry? path = some (.file src)) :
    readSource path c = .ok src c := by
  unfold readSource
  rw [bind_of_ok (show (get : Job Console) c = .ok c c from rfl), h]
  rfl

theorem readSource_of_no_file {path : Text} (h : ∀ src, c.files.entry? path ≠ some (.file src)) :
    ∃ p, readSource path c = .error p { c with output := c.output ++ notice path } := by
  unfold readSource
  rw [bind_of_ok (show (get : Job Console) c = .ok c c from rfl)]
  rcases he : c.files.entry? path with _ | _ | src
  · exact ⟨_, rfl⟩
  · exact absurd he (h _)
  · exact ⟨_, rfl⟩

/-- Showing a fault fails, and writes to the error output alone. -/
theorem report_fails (settings : Settings) (name src : Text) (f : Fault) (c : Console) :
    ∃ p c', (report settings name src f : Job α) c = .error p c' ∧ c'.files = c.files ∧
      c'.output = c.output := by
  unfold report snippets
  rcases ColorMode.ofName (settings.text "color") with fault | mode
  · exact ⟨_, _, rfl, rfl, rfl⟩
  · exact ⟨_, _, rfl, rfl, rfl⟩

end Job

namespace Command.Format

open FileSystem (key)

variable {fs : FileSystem} {path q src formatted : Text}

/-- Whether a path leads to a file that has a canonical form. -/
def Formattable (fs : FileSystem) (path : Text) : Prop :=
  ∃ src formatted, fs.entry? path = some (.file src) ∧
    Program.reformat path src = .ok formatted

/-- The canonical form of the file at a path, if the file has one and is not in it. -/
def revision? (fs : FileSystem) (path : Text) : Option Text :=
  match fs.entry? path with
  | some (.file src) =>
    match Program.reformat path src with
    | .ok formatted => if src = formatted then none else some formatted
    | .error _ => none
  | _ => none

/-- What formatting the file at a path makes of a file system. -/
def rewritten (fs : FileSystem) (path : Text) : FileSystem :=
  match revision? fs path with
  | some formatted => fs.put (key path) (.file formatted)
  | none => fs

theorem revision?_eq_some (h : revision? fs path = some formatted) :
    ∃ src, fs.entry? path = some (.file src) ∧ Program.reformat path src = .ok formatted ∧
      src ≠ formatted := by
  unfold revision? at h
  split at h
  · next src he =>
    split at h
    · next t hf =>
      split_ifs at h with hne
      cases h
      exact ⟨src, he, hf, hne⟩
    · cases h
  · cases h

theorem revision?_congr {gs : FileSystem} (h : gs.entry? path = fs.entry? path) :
    revision? gs path = revision? fs path := by
  unfold revision?
  rw [h]

theorem rewritten_of_some (h : revision? fs path = some formatted) :
    rewritten fs path = fs.put (key path) (.file formatted) := by
  unfold rewritten
  rw [h]

theorem rewritten_of_none (h : revision? fs path = none) : rewritten fs path = fs := by
  unfold rewritten
  rw [h]

theorem writable_rewritten (fs : FileSystem) (path : Text) :
    (rewritten fs path).writable = fs.writable := by
  rcases h : revision? fs path with _ | formatted
  · rw [rewritten_of_none h]
  · obtain ⟨src, he, -, -⟩ := revision?_eq_some h
    rw [rewritten_of_some h, FileSystem.put_of_mem (FileSystem.key_mem_of_file he)]

theorem rooted_rewritten (hfs : fs.Rooted) (path : Text) : (rewritten fs path).Rooted := by
  rcases h : revision? fs path with _ | formatted
  · rwa [rewritten_of_none h]
  · obtain ⟨src, he, -, -⟩ := revision?_eq_some h
    rw [rewritten_of_some h]
    exact hfs.put (hfs _ _ (FileSystem.mem_of_file he).2) _

theorem entry?_rewritten (h : revision? fs path = some formatted) :
    FileSystem.entry? (rewritten fs path) path = some (.file formatted) := by
  obtain ⟨src, he, -, -⟩ := revision?_eq_some h
  rw [rewritten_of_some h, FileSystem.entry?_put he]

/-- The entry at a path is another one if and only if the file there is rewritten. -/
theorem entry?_rewritten_eq_iff :
    FileSystem.entry? (rewritten fs path) path = fs.entry? path ↔ revision? fs path = none := by
  rcases h : revision? fs path with _ | formatted
  · simp [rewritten_of_none h]
  · obtain ⟨src, he, -, hne⟩ := revision?_eq_some h
    simp [entry?_rewritten h, he, hne.symm]

theorem entry?_rewritten_of_ne (hne : key q ≠ key path) :
    FileSystem.entry? (rewritten fs path) q = fs.entry? q := by
  rcases h : revision? fs path with _ | formatted
  · rw [rewritten_of_none h]
  · obtain ⟨src, he, -, -⟩ := revision?_eq_some h
    rw [rewritten_of_some h, FileSystem.entry?_put_of_ne he _ hne]

/-- Different files are rewritten in either order. -/
theorem rewritten_comm (hne : key q ≠ key path) :
    rewritten (rewritten fs path) q = rewritten (rewritten fs q) path := by
  have hq := revision?_congr (@entry?_rewritten_of_ne fs path q hne)
  have hp := revision?_congr (@entry?_rewritten_of_ne fs q path hne.symm)
  rcases h : revision? fs path with _ | formatted <;> rcases h' : revision? fs q with _ | formatted'
  · rw [rewritten_of_none h, rewritten_of_none h', rewritten_of_none h]
  · rw [rewritten_of_none h, rewritten_of_none (hp.trans h)]
  · rw [rewritten_of_none h', rewritten_of_none (hq.trans h')]
  · obtain ⟨src, he, -, -⟩ := revision?_eq_some h
    obtain ⟨src', he', -, -⟩ := revision?_eq_some h'
    rw [rewritten_of_some (hq.trans h'), rewritten_of_some (hp.trans h), rewritten_of_some h,
      rewritten_of_some h', FileSystem.put_comm he he' _ _ hne]

theorem revision?_eq (he : fs.entry? path = some (.file src))
    (hf : Program.reformat path src = .ok formatted) :
    revision? fs path = if src = formatted then none else some formatted := by
  simp only [revision?, he, hf]

theorem entry?_rewritten_of_formatted (he : fs.entry? path = some (.file src))
    (hf : Program.reformat path src = .ok formatted) :
    FileSystem.entry? (rewritten fs path) path = some (.file formatted) := by
  have hrev := revision?_eq he hf
  split_ifs at hrev with hsame
  · rw [rewritten_of_none hrev, he, hsame]
  · exact entry?_rewritten hrev

/-- What is printed for a path that leads to no file. -/
def remark (fs : FileSystem) (path : Text) : Text :=
  match fs.entry? path with
  | some (.file _) => []
  | _ => Job.notice path

theorem remark_of_file (h : fs.entry? path = some (.file src)) : remark fs path = [] := by
  simp only [remark, h]

theorem remark_of_no_file (h : ∀ src, fs.entry? path ≠ some (.file src)) :
    remark fs path = Job.notice path := by
  unfold remark
  split
  · next src he => exact absurd he (h src)
  · rfl

section Step

variable {c : Console}

theorem formatFile_of_file (settings : Settings) (he : c.files.entry? path = some (.file src))
    (mode : Mode) : formatFile settings mode path c = (match Program.reformat path src with
      | .error f => .report settings path src f
      | .ok formatted => do
        emit mode path src formatted
        return if mode = .list ∧ src ≠ formatted then some (unformatted path) else none :
      Job (Option Problem)) c := by
  unfold formatFile
  exact Job.bind_of_ok (Job.readSource_of_file he) _

/-- Where there is nothing to format, a run fails at last, changes no file, and goes on. -/
theorem formatNext_of_not_formattable (settings : Settings) (h : ¬Formattable c.files path)
    (mode : Mode) (failure : Option Problem) : ∃ p c',
      formatNext settings mode failure path c = .ok (some p) c' ∧
      c'.files = c.files ∧ c'.output = c.output ++ remark c.files path := by
  have hfile : ∃ p c', formatFile settings mode path c = .error p c' ∧ c'.files = c.files ∧
      c'.output = c.output ++ remark c.files path := by
    by_cases he : ∃ src, c.files.entry? path = some (.file src)
    · obtain ⟨src, he⟩ := he
      rcases hf : Program.reformat path src with f | formatted
      · obtain ⟨p, c', hreport, hfiles, houtput⟩ :=
          @Job.report_fails (Option Problem) settings path src f c
        rw [formatFile_of_file settings he, hf, remark_of_file he, List.append_nil]
        exact ⟨p, c', hreport, hfiles, houtput⟩
      · exact absurd ⟨src, formatted, he, hf⟩ h
    · have he := not_exists.1 he
      obtain ⟨p, hread⟩ := Job.readSource_of_no_file he
      rw [remark_of_no_file he]
      exact ⟨p, _, Job.bind_of_error hread _, rfl, rfl⟩
  obtain ⟨p, c', hfile, hfiles, houtput⟩ := hfile
  refine ⟨p, c', ?_, hfiles, houtput⟩
  unfold formatNext
  rw [Job.bind_of_ok (Job.outcome_of_error hfile)]
  rfl

theorem emit_write (hfs : c.files.Rooted) (hw : c.files.writable = true)
    (he : c.files.entry? path = some (.file src)) (hf : Program.reformat path src = .ok formatted) :
    emit .write path src formatted c = .ok () { c with files := rewritten c.files path } := by
  have hrev := revision?_eq he hf
  show (if src = formatted then pure () else writeFile path formatted : Job Unit) c = _
  by_cases hsame : src = formatted
  · rw [if_pos hsame] at hrev
    rw [if_pos hsame, rewritten_of_none hrev]
    rfl
  · rw [if_neg hsame] at hrev
    unfold writeFile
    rw [if_neg hsame, Job.bind_of_ok (show (get : Job Console) c = .ok c c from rfl),
      FileSystem.write, if_pos hw, hfs.store_eq he, rewritten_of_some hrev]
    rfl

theorem emit_list (he : c.files.entry? path = some (.file src))
    (hf : Program.reformat path src = .ok formatted) :
    emit .list path src formatted c = .ok () { c with output := c.output ++
      if (revision? c.files path).isSome then path ++ "\n" else [] } := by
  have hrev := revision?_eq he hf
  show (if src = formatted then pure () else Job.print (path ++ "\n") : Job Unit) c = _
  by_cases hsame : src = formatted
  · rw [if_pos hsame] at hrev
    simp only [if_pos hsame, hrev, Option.isSome_none, Bool.false_eq_true, if_false,
      List.append_nil]
    rfl
  · rw [if_neg hsame] at hrev
    simp only [if_neg hsame, hrev, Option.isSome_some, if_true]
    rfl

theorem formatNext_of_formatted (settings : Settings) {c' : Console} {mode : Mode}
    (he : c.files.entry? path = some (.file src)) (hf : Program.reformat path src = .ok formatted)
    (h : emit mode path src formatted c = .ok () c') (failure : Option Problem) :
    formatNext settings mode failure path c = .ok
      ((if mode = .list ∧ src ≠ formatted then some (unformatted path) else none).or failure)
      c' := by
  have hfile : formatFile settings mode path c = .ok
      (if mode = .list ∧ src ≠ formatted then some (unformatted path) else none) c' := by
    rw [formatFile_of_file settings he, hf]
    dsimp only
    rw [Job.bind_of_ok h]
    rfl
  unfold formatNext
  rw [Job.bind_of_ok (Job.outcome_of_ok hfile)]
  rfl

theorem revision?_of_not_formattable (h : ¬Formattable fs path) : revision? fs path = none := by
  rcases hr : revision? fs path with _ | formatted
  · rfl
  · obtain ⟨src, he, hf, -⟩ := revision?_eq_some hr
    exact absurd ⟨src, formatted, he, hf⟩ h

/-- A step in place. -/
theorem formatNext_write (settings : Settings) (hfs : c.files.Rooted)
    (hw : c.files.writable = true) (path : Text) (failure : Option Problem) : ∃ failure' c',
      formatNext settings .write failure path c = .ok failure' c' ∧
      c'.files = rewritten c.files path ∧
      (failure'.isSome ↔ failure.isSome ∨ ¬Formattable c.files path) := by
  by_cases h : Formattable c.files path
  · obtain ⟨src, formatted, he, hf⟩ := h
    refine ⟨_, _, formatNext_of_formatted settings he hf (emit_write hfs hw he hf) failure,
      rfl, ?_⟩
    simp [show Formattable c.files path from ⟨src, formatted, he, hf⟩]
  · obtain ⟨p, c', hnext, hfiles, -⟩ := formatNext_of_not_formattable settings h .write failure
    refine ⟨some p, c', hnext, ?_, by simp [h]⟩
    rw [hfiles, rewritten_of_none (revision?_of_not_formattable h)]

/-- What listing prints for a path. -/
def listing (fs : FileSystem) (path : Text) : Text :=
  remark fs path ++ if (revision? fs path).isSome then path ++ "\n" else []

/-- Listed are the paths of the files that are rewritten. -/
theorem listing_eq (fs : FileSystem) (path : Text) : listing fs path = remark fs path ++
    if FileSystem.entry? (rewritten fs path) path = fs.entry? path then []
    else path ++ ("\n" : Text) := by
  unfold listing
  by_cases h : FileSystem.entry? (rewritten fs path) path = fs.entry? path
  · rw [if_pos h, entry?_rewritten_eq_iff.1 h]
    rfl
  · obtain ⟨formatted, hrev⟩ := Option.ne_none_iff_exists'.1 (entry?_rewritten_eq_iff.not.1 h)
    rw [if_neg h, hrev]
    rfl

/-- A step of a listing. -/
theorem formatNext_list (settings : Settings) (path : Text) (failure : Option Problem) :
    ∃ failure' c',
    formatNext settings .list failure path c = .ok failure' c' ∧ c'.files = c.files ∧
      c'.output = c.output ++ listing c.files path := by
  unfold listing
  by_cases h : Formattable c.files path
  · obtain ⟨src, formatted, he, hf⟩ := h
    refine ⟨_, _, formatNext_of_formatted settings he hf (emit_list he hf) failure, rfl, ?_⟩
    rw [remark_of_file he, List.nil_append]
  · obtain ⟨p, c', hnext, hfiles, houtput⟩ :=
      formatNext_of_not_formattable settings h .list failure
    refine ⟨some p, c', hnext, hfiles, ?_⟩
    rw [houtput, revision?_of_not_formattable h]
    simp

end Step

section Runs

variable {paths : List Text}

theorem formattable_congr {gs : FileSystem} (h : gs.entry? path = fs.entry? path) :
    Formattable gs path ↔ Formattable fs path := by
  unfold Formattable
  rw [h]

theorem entry?_foldl_of_ne {paths : List Text} (h : ∀ p ∈ paths, key q ≠ key p) :
    FileSystem.entry? (paths.foldl rewritten fs) q = fs.entry? q := by
  induction paths generalizing fs with
  | nil => rfl
  | cons p paths ih =>
    obtain ⟨hp, hpaths⟩ := List.forall_mem_cons.1 h
    rw [List.foldl_cons, ih hpaths, entry?_rewritten_of_ne hp]

/-- At the path of a listed file, a run leaves what rewriting that file alone would. -/
theorem entry?_foldl_of_mem {paths : List Text} (hnd : (paths.map key).Nodup) {p : Text}
    (hp : p ∈ paths) : FileSystem.entry? (paths.foldl rewritten fs) p =
      FileSystem.entry? (rewritten fs p) p := by
  induction paths generalizing fs with
  | nil => simp at hp
  | cons path paths ih =>
    obtain ⟨hpath, hnd⟩ := List.nodup_cons.1 hnd
    have hne : ∀ r ∈ paths, key path ≠ key r := fun r hr h => hpath (h ▸ List.mem_map_of_mem hr)
    rcases List.mem_cons.1 hp with rfl | hp
    · exact entry?_foldl_of_ne hne
    · rw [List.foldl_cons, ih hnd hp, rewritten_comm (hne p hp).symm,
        entry?_rewritten_of_ne (hne p hp).symm]

/-- What leads to no file that is rewritten stays as it was. -/
theorem entry?_foldl_of_kept {paths : List Text} (hnd : (paths.map key).Nodup)
    (h : ∀ p ∈ paths, key q = key p → revision? fs p = none) :
    FileSystem.entry? (paths.foldl rewritten fs) q = fs.entry? q := by
  by_cases hmem : ∃ p ∈ paths, key q = key p
  · obtain ⟨p, hp, hkey⟩ := hmem
    rw [FileSystem.entry?_congr hkey, FileSystem.entry?_congr hkey, entry?_foldl_of_mem hnd hp]
    exact entry?_rewritten_eq_iff.2 (h p hp hkey)
  · exact entry?_foldl_of_ne fun p hp hkey => hmem ⟨p, hp, hkey⟩

/-- The order of different files does not matter. -/
theorem foldl_rewritten_perm {paths order : List Text} (hnd : (paths.map key).Nodup)
    (h : order.Perm paths) (fs : FileSystem) :
    order.foldl rewritten fs = paths.foldl rewritten fs := by
  refine h.symm.foldl_eq' ?_ fs |>.symm
  intro p hp q hq gs
  by_cases hpq : p = q
  · rw [hpq]
  · exact rewritten_comm fun hkey => hpq (List.inj_on_of_nodup_map hnd hp hq hkey.symm)

/-- A run in place rewrites all files that can be formatted and fails if some cannot. What was
written does not bear on whether the other files can be formatted. -/
theorem foldlM_write (settings : Settings) {paths : List Text} (hnd : (paths.map key).Nodup)
    {c : Console} (hfs : c.files.Rooted) (hw : c.files.writable = true) (failure : Option Problem) :
    ∃ failure' c', paths.foldlM (formatNext settings .write) failure c = .ok failure' c' ∧
      c'.files = paths.foldl rewritten c.files ∧
      (failure'.isSome ↔ failure.isSome ∨ ∃ p ∈ paths, ¬Formattable c.files p) := by
  induction paths generalizing c failure with
  | nil => exact ⟨failure, c, rfl, rfl, by simp⟩
  | cons path paths ih =>
    obtain ⟨hpath, hnd⟩ := List.nodup_cons.1 hnd
    obtain ⟨failure₁, c₁, hstep, hfiles, hfailure⟩ :=
      formatNext_write settings hfs hw path failure
    obtain ⟨failure', c', hrun, hfiles', hfailure'⟩ := ih hnd (hfiles ▸ rooted_rewritten hfs path)
      (hfiles ▸ (writable_rewritten c.files path).trans hw) failure₁
    refine ⟨failure', c', ?_, ?_, ?_⟩
    · rw [List.foldlM_cons, Job.bind_of_ok hstep, hrun]
    · rw [hfiles', hfiles, List.foldl_cons]
    · have hother : ∀ p ∈ paths, (Formattable c₁.files p ↔ Formattable c.files p) := by
        intro p hp
        refine formattable_congr ?_
        rw [hfiles]
        exact entry?_rewritten_of_ne fun h => hpath (h ▸ List.mem_map_of_mem hp)
      rw [hfailure', hfailure, or_assoc, List.exists_mem_cons_iff]
      have hrest : (∃ p ∈ paths, ¬Formattable c₁.files p) ↔ ∃ p ∈ paths, ¬Formattable c.files p :=
        exists_congr fun p => and_congr_right fun hp => not_congr (hother p hp)
      rw [hrest]

/-- A run that lists leaves the files as they are and gives out the paths of those that would
change. -/
theorem foldlM_list (settings : Settings) (paths : List Text) (c : Console)
    (failure : Option Problem) : ∃ failure' c',
      paths.foldlM (formatNext settings .list) failure c = .ok failure' c' ∧
      c'.files = c.files ∧ c'.output = c.output ++ paths.flatMap (listing c.files) := by
  induction paths generalizing c failure with
  | nil => exact ⟨failure, c, rfl, rfl, by simp⟩
  | cons path paths ih =>
    obtain ⟨failure₁, c₁, hstep, hfiles, houtput⟩ :=
      formatNext_list settings path failure
    obtain ⟨failure', c', hrun, hfiles', houtput'⟩ := ih c₁ failure₁
    refine ⟨failure', c', ?_, hfiles'.trans hfiles, ?_⟩
    · rw [List.foldlM_cons, Job.bind_of_ok hstep, hrun]
    · rw [houtput', houtput, hfiles, List.flatMap_cons, List.append_assoc]

end Runs

/-! ## The command -/

/-- Whether a command line names some files themselves, and leaves none of them out. -/
structure Names (s : Shell) (paths : List Text) : Prop where
  operands : s.operands = paths
  plain : ∀ p ∈ paths, Text.before? "/..." p = none
  excludes : s.settings.texts "exclude" = []

/-- Whether a command line asks for files to be formatted in place. -/
structure Writes (s : Shell) : Prop where
  write : s.settings.switch "write" = true
  list : s.settings.switch "list" = false
  diff : s.settings.switch "diff" = false

/-- Whether a command line asks for the files to be listed that are not in canonical form. -/
def Lists (s : Shell) : Prop := s.settings.switch "list" = true

section Command

variable {s : Shell} {paths : List Text} {c c' : Console}

theorem Writes.mode (h : Writes s) : Mode.ofSettings s.settings = .write := by
  simp [Mode.ofSettings, h.write, h.list, h.diff]

theorem Lists.mode (h : Lists s) : Mode.ofSettings s.settings = .list := by
  simp [Mode.ofSettings, show s.settings.switch "list" = true from h]

theorem expand_of_plain (fs : FileSystem) (h : ∀ p ∈ paths, Text.before? "/..." p = none) :
    fs.expand paths [] = .ok paths := by
  have hone : paths.mapM fs.expandOne = .ok (paths.map fun p => [p]) := by
    induction paths with
    | nil => rfl
    | cons p paths ih =>
      obtain ⟨hp, hpaths⟩ := List.forall_mem_cons.1 h
      have hexpand : fs.expandOne p = .ok [p] := by
        unfold FileSystem.expandOne
        rw [hp]
      rw [List.mapM_cons, hexpand, ih hpaths]
      rfl
  have hall : ((paths.map fun p => [p]).flatten.filter fun p => !Glob.matchesAny p []) =
      paths := by
    rw [← List.flatMap_def, List.flatMap_singleton']
    exact List.filter_eq_self.2 fun p _ => rfl
  unfold FileSystem.expand
  rw [hone]
  exact congrArg Except.ok hall

theorem Names.sourceFiles (h : Names s paths) (c : Console) : s.sourceFiles c = .ok paths c := by
  unfold Shell.sourceFiles
  rw [Job.bind_of_ok (show (get : Job Console) c = .ok c c from rfl), h.operands, h.excludes,
    expand_of_plain _ h.plain]
  rfl

theorem perform_eq (h : Names s paths) (hne : paths ≠ []) {failure : Option Problem}
    (hrun : paths.foldlM (formatNext s.settings (Mode.ofSettings s.settings)) none c =
      .ok failure c') :
    perform s c = failure.elim (.ok () c') fun p => .error p c' := by
  have hoperands : s.operands.isEmpty = false := by simpa [h.operands] using hne
  unfold perform
  rw [hoperands, if_neg (by decide)]
  rw [Job.bind_of_ok (h.sourceFiles c), Job.bind_of_ok hrun]
  cases failure <;> rfl

theorem left_perform (h : Names s paths) (hne : paths ≠ []) {failure : Option Problem}
    (hrun : paths.foldlM (formatNext s.settings (Mode.ofSettings s.settings)) none c =
      .ok failure c') : (perform s).left c = c' := by
  unfold Job.left
  rw [perform_eq h hne hrun]
  cases failure <;> rfl

/-- The command fails exactly if some file has failed. -/
theorem fails_perform_iff (h : Names s paths) (hne : paths ≠ []) {failure : Option Problem}
    (hrun : paths.foldlM (formatNext s.settings (Mode.ofSettings s.settings)) none c =
      .ok failure c') : (perform s).Fails c ↔ failure.isSome := by
  unfold Job.Fails
  rw [perform_eq h hne hrun]
  cases failure <;> simp

/-- A run in place rewrites one file after the other, and fails where one cannot be formatted. -/
theorem perform_write (hs : Names s paths) (hwrites : Writes s) (hne : paths ≠ [])
    (hdistinct : (paths.map key).Nodup) (hfs : c.files.Rooted)
    (hwritable : c.files.writable = true) :
    ((perform s).left c).files = paths.foldl rewritten c.files ∧
      ((perform s).Fails c ↔ ∃ p ∈ paths, ¬Formattable c.files p) := by
  obtain ⟨failure, c', hrun, hfiles, hfailure⟩ :=
    foldlM_write s.settings hdistinct hfs hwritable none
  rw [← hwrites.mode] at hrun
  rw [left_perform hs hne hrun, fails_perform_iff hs hne hrun, hfailure]
  exact ⟨hfiles, by simp⟩

theorem perform_list (hs : Names s paths) (hlists : Lists s) (hne : paths ≠ []) :
    ((perform s).left c).files = c.files ∧
      ((perform s).left c).output = c.output ++ paths.flatMap (listing c.files) := by
  obtain ⟨failure, c', hrun, hfiles, houtput⟩ := foldlM_list s.settings paths c none
  rw [← hlists.mode] at hrun
  rw [left_perform hs hne hrun]
  exact ⟨hfiles, houtput⟩

end Command

/-- Formatting different files in place replaces each that has a canonical form by that form and
leaves everything else as it was, whatever fails and in whatever order the files are named. It
fails if and only if one of them cannot be formatted. Listing changes nothing and prints, besides
what is said of paths without a file, the paths of the files that would be changed, in order. -/
theorem in_place {paths : List Text} {w l : Shell} {c : Console} (hw : Names w paths)
    (hwrites : Writes w) (hl : Names l paths) (hlists : Lists l) (hne : paths ≠ [])
    (hdistinct : (paths.map key).Nodup) (hfs : c.files.Rooted)
    (hwritable : c.files.writable = true) :
    let after := ((perform w).left c).files
    (∀ p ∈ paths, ∀ src formatted, c.files.entry? p = some (.file src) →
      Program.reformat p src = .ok formatted → after.entry? p = some (.file formatted)) ∧
    (∀ q, (∀ p ∈ paths, key q = key p → revision? c.files p = none) →
      after.entry? q = c.files.entry? q) ∧
    (∀ (order : List Text) (w' : Shell), order.Perm paths → Names w' order → Writes w' →
      ((perform w').left c).files = after) ∧
    ((perform w).Fails c ↔ ∃ p ∈ paths, ¬Formattable c.files p) ∧
    ((perform l).left c).files = c.files ∧
    ((perform l).left c).output = c.output ++ paths.flatMap fun p =>
      remark c.files p ++ if after.entry? p = c.files.entry? p then [] else p ++ ("\n" : Text) := by
  obtain ⟨hfiles, hfails⟩ := perform_write hw hwrites hne hdistinct hfs hwritable
  obtain ⟨hkept, houtput⟩ := perform_list (c := c) hl hlists hne
  intro after
  have hafter : after = paths.foldl rewritten c.files := hfiles
  have hlisted : ∀ p ∈ paths, after.entry? p = FileSystem.entry? (rewritten c.files p) p := by
    intro p hp
    rw [hafter, entry?_foldl_of_mem hdistinct hp]
  refine ⟨?_, ?_, ?_, hfails, hkept, ?_⟩
  · intro p hp src formatted he hf
    rw [hlisted p hp, entry?_rewritten_of_formatted he hf]
  · intro q hq
    rw [hafter, entry?_foldl_of_kept hdistinct hq]
  · intro order w' horder hw' hwrites'
    have hne' : order ≠ [] := fun h => hne (List.nil_perm.1 (h ▸ horder))
    have hdistinct' : (order.map key).Nodup := (horder.map key).nodup_iff.2 hdistinct
    rw [(perform_write hw' hwrites' hne' hdistinct' hfs hwritable).1, hafter,
      foldl_rewritten_perm hdistinct horder]
  · rw [houtput]
    refine congrArg (c.output ++ ·) (List.flatMap_congr fun p hp => ?_)
    rw [listing_eq, hlisted p hp]

/-- What the command runs with, given some arguments and no settings otherwise. -/
def shellOf (args : List Text) : Shell :=
  let line := (Flag.Reading.ofArgs Command.format.flags args).toOption.getD .empty
  ⟨⟨Command.format.flags, line, [], []⟩, line.operands, [], .ok, standardFuel⟩

/-- Of a directory, a file that cannot be read, one that is not there and one that is not in
canonical form, only the last is changed. -/
theorem in_place_mixed :
    let paths : List Text := ["d", "b", "d/none", "./a"]
    let w := shellOf ("-w" :: paths)
    let l := shellOf ("-l" :: paths)
    let c : Console := ⟨[], [], .ofFiles [("a", "f x"), ("b", "("), ("d/e", "f x")]⟩
    Names w paths ∧ Writes w ∧ Names l paths ∧ Lists l ∧ (paths.map key).Nodup ∧
    c.files.Rooted ∧ c.files.writable = true ∧
    FileSystem.entry? ((perform w).left c).files "./a" = some (.file "(f (x));\n") ∧
    FileSystem.entry? ((perform w).left c).files "d/e" = some (.file "f x") ∧
    (perform w).Fails c := by
  intro paths w l c
  have hplain : ∀ p ∈ paths, Text.before? "/..." p = none := by decide
  have hw : Names w paths := ⟨by decide, hplain, by decide⟩
  have hwrites : Writes w := ⟨by decide, by decide, by decide⟩
  have hl : Names l paths := ⟨by decide, hplain, by decide⟩
  have hlists : Lists l := show l.settings.switch "list" = true by decide
  have hdistinct : (paths.map key).Nodup := by decide
  have hfs : c.files.Rooted := FileSystem.rooted_ofFiles _
  have hwritable : c.files.writable = true := by decide
  obtain ⟨hchanged, hkept, -, hfails, -⟩ :=
    in_place hw hwrites hl hlists (by decide) hdistinct hfs hwritable
  refine ⟨hw, hwrites, hl, hlists, hdistinct, hfs, hwritable, ?_, ?_, ?_⟩
  · exact hchanged "./a" (by decide) "f x" _ (by decide) (by cbv)
  · rw [hkept "d/e" (by decide)]
    decide
  · have hdir : c.files.entry? "d" = some .directory := by decide
    refine hfails.2 ⟨"d", by decide, ?_⟩
    rintro ⟨src, -, he, -⟩
    simp [hdir] at he

end Command.Format

end Tacit
