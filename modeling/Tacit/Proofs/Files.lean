import Mathlib.Data.List.Basic
import Mathlib.Tactic.SplitIfs
import Tacit.FileSystem

/-!
# Files and the directories above them

The directories above a file exist with it: a file system that is made of files is such
(`rooted_ofFiles`), and stays so when a file is written (`Rooted.store`). In such a file system a
file that is there is replaced where it is, and nothing else is changed (`Rooted.store_eq`,
`lookup_put`).
-/

namespace Tacit.FileSystem

/-- The keys of all that there is, but for the root. -/
def keys (fs : FileSystem) : List Text := fs.entries.map Prod.fst

/-- Whether the directories above every file are there. -/
def Rooted (fs : FileSystem) : Prop :=
  ∀ k content, (k, .file content) ∈ fs.entries → ∀ d ∈ above k, d = root ∨ d ∈ fs.keys

section Put

variable {fs : FileSystem} {k : Text} {e : Entry}

theorem any_key_iff : (fs.entries.any fun x => x.1 == k) = true ↔ k ∈ fs.keys := by
  simp only [List.any_eq_true, beq_iff_eq, keys, List.mem_map]

theorem put_of_mem (h : k ∈ fs.keys) (e : Entry) : fs.put k e =
    { fs with entries := fs.entries.map fun x => if x.1 = k then (k, e) else x } := by
  unfold put
  rw [if_pos (any_key_iff.2 h)]
  simp only [beq_iff_eq]

theorem put_of_not_mem (h : k ∉ fs.keys) (e : Entry) :
    fs.put k e = { fs with entries := fs.entries ++ [(k, e)] } := by
  unfold put
  rw [if_neg (any_key_iff.not.2 h)]

theorem mem_put {x : Text × Entry} (h : x ∈ (fs.put k e).entries) :
    x = (k, e) ∨ x ∈ fs.entries := by
  by_cases hk : k ∈ fs.keys
  · rw [put_of_mem hk] at h
    obtain ⟨y, hy, rfl⟩ := List.mem_map.1 h
    split_ifs
    · exact .inl rfl
    · exact .inr hy
  · rw [put_of_not_mem hk] at h
    exact (List.mem_append.1 h).symm.imp_left List.mem_singleton.1

theorem keys_put (h : k ∈ fs.keys) (e : Entry) : (fs.put k e).keys = fs.keys := by
  rw [put_of_mem h]
  unfold keys
  rw [List.map_map]
  refine List.map_congr_left fun x _ => ?_
  rw [Function.comp_apply]
  split_ifs with hx
  · exact hx.symm
  · rfl

theorem mem_keys_put {d : Text} (e : Entry) : d ∈ (fs.put k e).keys ↔ d ∈ fs.keys ∨ d = k := by
  by_cases hk : k ∈ fs.keys
  · rw [keys_put hk, iff_self_or]
    rintro rfl
    exact hk
  · rw [put_of_not_mem hk]
    simp [keys]

/-- Where something is put in place of something else, nothing else is looked up differently. -/
theorem lookup_put_of_ne {d : Text} (h : k ∈ fs.keys) (e : Entry) (hd : d ≠ k) :
    (fs.put k e).entries.lookup d = fs.entries.lookup d := by
  rw [put_of_mem h]
  dsimp only
  induction fs.entries with
  | nil => rfl
  | cons x xs ih =>
    rw [List.map_cons, List.lookup_cons, List.lookup_cons, ih]
    split_ifs with hx
    · rw [hx, beq_false_of_ne hd]
    · rfl

theorem lookup_put (fs : FileSystem) (k : Text) (e : Entry) :
    (fs.put k e).entries.lookup k = some e := by
  by_cases h : k ∈ fs.keys
  · rw [put_of_mem h]
    obtain ⟨xs, w⟩ := fs
    unfold keys at h
    dsimp only at h ⊢
    induction xs with
    | nil => simp at h
    | cons x xs ih =>
      rw [List.map_cons, List.lookup_cons]
      split_ifs with hx
      · rw [beq_self_eq_true]
      · rw [beq_false_of_ne (Ne.symm hx)]
        exact ih ((List.mem_cons.1 h).resolve_left (Ne.symm hx))
  · have hnone : fs.entries.lookup k = none := by
      rw [List.lookup_eq_none_iff]
      intro x hx
      exact bne_iff_ne.2 fun heq => h (List.mem_map.2 ⟨x, hx, heq.symm⟩)
    rw [put_of_not_mem h, List.lookup_append, hnone]
    simp

end Put

theorem keys_ensureDirectory {fs : FileSystem} {k d : Text} (h : d ∈ fs.keys) :
    d ∈ (fs.ensureDirectory k).keys := by
  unfold ensureDirectory
  split_ifs
  · exact h
  · exact (mem_keys_put _).2 (.inl h)

theorem ensured_directory (fs : FileSystem) (k : Text) :
    k = root ∨ k ∈ (fs.ensureDirectory k).keys := by
  unfold ensureDirectory
  split_ifs with h
  · rw [Bool.or_eq_true, beq_iff_eq, any_key_iff] at h
    exact h
  · exact .inr ((mem_keys_put _).2 (.inr rfl))

/-- Making a directory makes no file. -/
theorem file_mem_ensureDirectory {fs : FileSystem} {k k' content : Text}
    (h : (k', .file content) ∈ (fs.ensureDirectory k).entries) :
    (k', .file content) ∈ fs.entries := by
  unfold ensureDirectory at h
  split_ifs at h
  · exact h
  · exact (mem_put h).resolve_left (by simp)

theorem Rooted.ensureDirectory {fs : FileSystem} (h : fs.Rooted) (k : Text) :
    (fs.ensureDirectory k).Rooted := fun k' content hk' d hd =>
  (h k' content (file_mem_ensureDirectory hk') d hd).imp_right keys_ensureDirectory

theorem keys_foldl_ensureDirectory (fs : FileSystem) (ds : List Text) :
    (∀ d ∈ fs.keys, d ∈ (ds.foldl FileSystem.ensureDirectory fs).keys) ∧
      ∀ d ∈ ds, d = root ∨ d ∈ (ds.foldl FileSystem.ensureDirectory fs).keys := by
  induction ds generalizing fs with
  | nil => exact ⟨fun d hd => hd, by simp⟩
  | cons k ds ih =>
    obtain ⟨hkeys, hds⟩ := ih (fs.ensureDirectory k)
    refine ⟨fun d hd => hkeys d (keys_ensureDirectory hd), ?_⟩
    refine List.forall_mem_cons.2 ⟨?_, hds⟩
    exact (fs.ensured_directory k).imp_right (hkeys k)

theorem Rooted.foldl_ensureDirectory {fs : FileSystem} (h : fs.Rooted) (ds : List Text) :
    (ds.foldl FileSystem.ensureDirectory fs).Rooted := by
  induction ds generalizing fs with
  | nil => exact h
  | cons k ds ih => exact ih (h.ensureDirectory k)

theorem Rooted.put {fs : FileSystem} (h : fs.Rooted) {k : Text}
    (hk : ∀ d ∈ above k, d = root ∨ d ∈ fs.keys) (e : Entry) : (fs.put k e).Rooted := by
  intro k' content hk' d hd
  have hd' : d = root ∨ d ∈ fs.keys := by
    rcases mem_put hk' with heq | hmem
    · cases heq
      exact hk d hd
    · exact h k' content hmem d hd
  exact hd'.imp_right fun hd' => (mem_keys_put e).2 (.inl hd')

/-- With a file the directories above it are made. -/
theorem Rooted.store {fs : FileSystem} (h : fs.Rooted) (path content : Text) :
    (fs.store path content).Rooted := by
  exact (h.foldl_ensureDirectory _).put (keys_foldl_ensureDirectory fs (above (key path))).2 _

/-- A file system that is made of files has the directories above them. -/
theorem rooted_ofFiles (files : List (Text × Text)) : (ofFiles files).Rooted := by
  refine List.foldlRecOn files _ (fun k content hk => by simp [empty] at hk) ?_
  rintro fs h ⟨path, content⟩ -
  dsimp only
  split_ifs
  · exact (h.foldl_ensureDirectory (above (key path))).ensureDirectory (key path)
  · exact h.store path content

/-- There is something at a path, and so are the directories above. -/
structure Holds (fs : FileSystem) (path : Text) : Prop where
  key_mem : key path ∈ fs.keys
  above_mem : ∀ d ∈ above (key path), d = root ∨ d ∈ fs.keys

namespace Holds

variable {fs : FileSystem} {path other : Text}

/-- Nothing but what is at the path is changed when it is stored. -/
theorem store_eq (h : fs.Holds path) (content : Text) :
    fs.store path content = fs.put (key path) (.file content) := by
  have habove : ∀ ds : List Text, (∀ d ∈ ds, d = root ∨ d ∈ fs.keys) →
      ds.foldl FileSystem.ensureDirectory fs = fs := by
    intro ds hds
    induction ds with
    | nil => rfl
    | cons d ds ih =>
      obtain ⟨hd, hds⟩ := List.forall_mem_cons.1 hds
      rw [List.foldl_cons, FileSystem.ensureDirectory, if_pos, ih hds]
      rw [Bool.or_eq_true, beq_iff_eq, any_key_iff]
      exact hd
  unfold FileSystem.store ensureAbove
  rw [habove _ h.above_mem]

theorem read_store (h : fs.Holds path) (content : Text) (hne : key other ≠ key path) :
    (fs.store path content).read other = fs.read other := by
  unfold FileSystem.read entry?
  rw [h.store_eq, lookup_put_of_ne h.key_mem _ hne]

/-- What is there stays there when a file is stored. -/
theorem store (h : fs.Holds path) (other content : Text) : (fs.store other content).Holds path := by
  have hkeys : ∀ d ∈ fs.keys, d ∈ (fs.store other content).keys := fun d hd =>
    (mem_keys_put _).2 (.inl ((keys_foldl_ensureDirectory fs _).1 d hd))
  exact ⟨hkeys _ h.key_mem, fun d hd => (h.above_mem d hd).imp_right (hkeys d)⟩

end Holds

theorem holds_store (fs : FileSystem) (path content : Text) :
    (fs.store path content).Holds path :=
  ⟨(mem_keys_put _).2 (.inr rfl), fun d hd =>
    ((keys_foldl_ensureDirectory fs _).2 d hd).imp_right fun h => (mem_keys_put _).2 (.inl h)⟩

/-- A file that was stored is read as such. -/
theorem read_store_self (fs : FileSystem) {path : Text} (h : key path ≠ root) (content : Text) :
    (fs.store path content).read path = .ok content := by
  unfold FileSystem.read entry?
  rw [if_neg (by simpa using h), FileSystem.store, lookup_put]

section Entry

variable {fs : FileSystem} {path q content : Text}

theorem entry?_congr (h : key q = key path) : fs.entry? q = fs.entry? path := by
  unfold entry?
  rw [h]

theorem entry?_of_ne_root (h : key path ≠ root) :
    fs.entry? path = fs.entries.lookup (key path) := by
  unfold entry?
  rw [if_neg (by simpa using h)]

theorem mem_of_file (h : fs.entry? path = some (.file content)) :
    key path ≠ root ∧ (key path, .file content) ∈ fs.entries := by
  have hroot : key path ≠ root := by
    intro hroot
    unfold entry? at h
    rw [if_pos (by simpa using hroot)] at h
    simp at h
  rw [entry?_of_ne_root hroot, List.lookup_eq_some_iff] at h
  obtain ⟨xs, ys, hentries, -⟩ := h
  exact ⟨hroot, by simp [hentries]⟩

variable (h : fs.entry? path = some (.file content))
include h

theorem key_mem_of_file : key path ∈ fs.keys :=
  List.mem_map.2 ⟨_, (mem_of_file h).2, rfl⟩

/-- Only the content of a file that is there is changed when it is stored. -/
theorem Rooted.store_eq (hfs : fs.Rooted) (content' : Text) :
    fs.store path content' = fs.put (key path) (.file content') :=
  Holds.store_eq ⟨key_mem_of_file h, hfs _ _ (mem_of_file h).2⟩ content'

theorem entry?_put (e : Entry) : FileSystem.entry? (fs.put (key path) e) path = some e := by
  rw [entry?_of_ne_root (mem_of_file h).1, lookup_put]

theorem entry?_put_of_ne (e : Entry) (hq : key q ≠ key path) :
    FileSystem.entry? (fs.put (key path) e) q = fs.entry? q := by
  unfold entry?
  rw [lookup_put_of_ne (key_mem_of_file h) e hq]

/-- Files that are there are replaced in either order. -/
theorem put_comm {content' : Text} (hq : fs.entry? q = some (.file content')) (e e' : Entry)
    (hne : key q ≠ key path) :
    (fs.put (key path) e).put (key q) e' = (fs.put (key q) e').put (key path) e := by
  have hp := key_mem_of_file h
  have hq := key_mem_of_file hq
  have hpq : key q ∈ (fs.put (key path) e).keys := by rwa [keys_put hp]
  have hqp : key path ∈ (fs.put (key q) e').keys := by rwa [keys_put hq]
  rw [put_of_mem hpq, put_of_mem hqp, put_of_mem hp, put_of_mem hq]
  simp only [List.map_map, FileSystem.mk.injEq, and_true]
  refine List.map_congr_left fun x _ => ?_
  by_cases hxp : x.1 = key path
  · simp [hxp, hne.symm]
  · by_cases hxq : x.1 = key q <;> simp [hxp, hxq, hne]

end Entry

end Tacit.FileSystem
