import LpStudio.Storage.Backup

/-! # The order of a manifest
Which project trees have a backup and a migration: the lists of a manifest are in the order of the walk, its checks
demand the order of the paths as strings.
-/
namespace LpStudio.Storage.Backup
open Str Paths Outcome DirTree

/-! ## What is collected -/

def contentAt (tree : ProjectTree) (path : List Text) : Option Bytes :=
  match tree.entries[path]? with
  | some (.file bytes) => some bytes
  | _ => none

def dirsIn (tree : ProjectTree) (paths : List (List Text)) : List (List Text) :=
  paths.filter fun path => (contentAt tree path).isNone

def filesIn (tree : ProjectTree) (paths : List (List Text)) : List (List Text × Bytes) :=
  paths.filterMap fun path => (contentAt tree path).map (Prod.mk path)

def bytesIn (files : List (List Text × Bytes)) : ℕ := (files.map (·.2.length)).sum

/-- A path that `backup_relative_path` accepts. -/
structure ValidPath (K : Crates) (path : List Text) : Prop where
  parts : path.all (backupPart K) = true
  nonempty : path ≠ []
  depth : path.length ≤ maxBackupTreeDepth
  bytes : byteLength (joinPath path) ≤ 4 * maxPathBytes

theorem backupRelativePath_ok {K : Crates} {path : List Text} {relative : Text} :
    backupRelativePath K path = .ok relative ↔ ValidPath K path ∧ relative = joinPath path := by
  unfold backupRelativePath
  split
  · rename_i h
    rw [Except.ok.injEq]
    exact ⟨fun heq => ⟨⟨h.1, h.2.1, h.2.2.1, h.2.2.2⟩, heq.symm⟩, fun heq => heq.2.symm⟩
  · rename_i h
    exact iff_of_false nofun fun hvalid => h ⟨hvalid.1.parts, hvalid.1.nonempty, hvalid.1.depth, hvalid.1.bytes⟩

/-- The lists and the budget after so many more entries. -/
def Collected.advance (K : Crates) (tree : ProjectTree) (collected : Collected) (paths : List (List Text)) :
    Collected where
  directories := collected.directories ++ (dirsIn tree paths).map joinPath
  files := collected.files ++ (filesIn tree paths).map fun file => backupFile K file.1 file.2
  entries := collected.entries + paths.length
  totalBytes := collected.totalBytes + bytesIn (filesIn tree paths)

theorem advance_directory (K : Crates) {tree : ProjectTree} (collected : Collected) {path : List Text}
    (hcontent : contentAt tree path = none) :
    filesIn tree [path] = [] ∧ collected.advance K tree [path] = { collected with
      directories := collected.directories ++ [joinPath path], entries := collected.entries + 1 } := by
  have hfiles : filesIn tree [path] = [] := by simp [filesIn, hcontent]
  exact ⟨hfiles, by simp [Collected.advance, dirsIn, hfiles, hcontent, bytesIn]⟩

theorem advance_file (K : Crates) {tree : ProjectTree} (collected : Collected) {path : List Text} {bytes : Bytes}
    (hcontent : contentAt tree path = some bytes) :
    filesIn tree [path] = [(path, bytes)] ∧ collected.advance K tree [path] = { collected with
      files := collected.files ++ [backupFile K path bytes]
      entries := collected.entries + 1
      totalBytes := collected.totalBytes + bytes.length } := by
  have hfiles : filesIn tree [path] = [(path, bytes)] := by simp [filesIn, hcontent]
  exact ⟨hfiles, by simp [Collected.advance, dirsIn, hfiles, hcontent, bytesIn]⟩

theorem collectEntry_ok {K : Crates} {tree : ProjectTree} {collected next : Collected} {path : List Text}
    (hbytes : collected.totalBytes ≤ maxBackupTotalBytes) :
    collectEntry K tree collected path = .ok next ↔
      ValidPath K path ∧ collected.entries + 1 ≤ maxBackupTreeEntries ∧
      (∀ file ∈ filesIn tree [path], file.2.length ≤ maxBackupFileBytes) ∧
      collected.totalBytes + bytesIn (filesIn tree [path]) ≤ maxBackupTotalBytes ∧
      next = collected.advance K tree [path] := by
  unfold collectEntry
  by_cases hentries : maxBackupTreeEntries < collected.entries + 1
  · rw [if_pos hentries]
    refine iff_of_false nofun ?_
    rintro ⟨-, h, -⟩
    omega
  rw [if_neg hentries]
  simp only [bind_ok, backupRelativePath_ok]
  have hle := Nat.not_lt.mp hentries
  have hdirectory : contentAt tree path = none → ((∃ relative, (ValidPath K path ∧ relative = joinPath path) ∧
      (pure { collected with
        directories := collected.directories ++ [relative]
        entries := collected.entries + 1 } : Except StorageError Collected) = .ok next) ↔
      ValidPath K path ∧ collected.entries + 1 ≤ maxBackupTreeEntries ∧
      (∀ file ∈ filesIn tree [path], file.2.length ≤ maxBackupFileBytes) ∧
      collected.totalBytes + bytesIn (filesIn tree [path]) ≤ maxBackupTotalBytes ∧
      next = collected.advance K tree [path]) := by
    intro hcontent
    obtain ⟨hfiles, hadvance⟩ := advance_directory K collected hcontent
    rw [hfiles, hadvance]
    constructor
    · rintro ⟨relative, ⟨hvalid, rfl⟩, h⟩
      exact ⟨hvalid, hle, fun _ h => absurd h List.not_mem_nil, hbytes, (pure_ok.mp h).symm⟩
    · rintro ⟨hvalid, -, -, -, rfl⟩
      exact ⟨_, ⟨hvalid, rfl⟩, rfl⟩
  cases hentry : tree.entries[path]? with
  | none => exact hdirectory (by rw [contentAt, hentry])
  | some node =>
    cases node with
    | dir => exact hdirectory (by rw [contentAt, hentry])
    | file bytes =>
      obtain ⟨hfiles, hadvance⟩ := advance_file K collected (by rw [contentAt, hentry] : contentAt tree path = some bytes)
      rw [hfiles, hadvance, List.forall_mem_singleton, bytesIn, List.map_singleton, List.sum_singleton]
      simp only
      split
      · rename_i hguard
        refine iff_of_false ?_ ?_
        · rintro ⟨relative, -, h⟩
          cases h
        · rintro ⟨-, -, hlength, htotal, -⟩
          omega
      · rename_i hguard
        rw [not_or, Nat.not_lt, Nat.not_lt] at hguard
        constructor
        · rintro ⟨relative, ⟨hvalid, rfl⟩, h⟩
          exact ⟨hvalid, hle, hguard.1, hguard.2, (pure_ok.mp h).symm⟩
        · rintro ⟨hvalid, -, -, -, rfl⟩
          exact ⟨_, ⟨hvalid, rfl⟩, rfl⟩

theorem dirsIn_cons (tree : ProjectTree) (path : List Text) (paths : List (List Text)) :
    dirsIn tree (path :: paths) = dirsIn tree [path] ++ dirsIn tree paths :=
  List.filter_append [path] paths

theorem filesIn_cons (tree : ProjectTree) (path : List Text) (paths : List (List Text)) :
    filesIn tree (path :: paths) = filesIn tree [path] ++ filesIn tree paths :=
  @List.filterMap_append _ _ [path] paths _

theorem bytesIn_append (files others : List (List Text × Bytes)) :
    bytesIn (files ++ others) = bytesIn files + bytesIn others := by
  rw [bytesIn, List.map_append, List.sum_append]
  rfl

theorem advance_cons (K : Crates) (tree : ProjectTree) (collected : Collected) (path : List Text)
    (paths : List (List Text)) :
    (collected.advance K tree [path]).advance K tree paths = collected.advance K tree (path :: paths) := by
  simp only [Collected.advance, dirsIn_cons tree path paths, filesIn_cons tree path paths, bytesIn_append,
    List.map_append, List.append_assoc, List.length_cons, List.length_nil, Nat.add_assoc, Nat.add_comm 1]

theorem collectEntries_ok {K : Crates} {tree : ProjectTree} {paths : List (List Text)} {collected final : Collected}
    (hentries : collected.entries ≤ maxBackupTreeEntries) (hbytes : collected.totalBytes ≤ maxBackupTotalBytes) :
    paths.foldlM (collectEntry K tree) collected = .ok final ↔
      (∀ path ∈ paths, ValidPath K path) ∧ collected.entries + paths.length ≤ maxBackupTreeEntries ∧
      (∀ file ∈ filesIn tree paths, file.2.length ≤ maxBackupFileBytes) ∧
      collected.totalBytes + bytesIn (filesIn tree paths) ≤ maxBackupTotalBytes ∧
      final = collected.advance K tree paths := by
  induction paths generalizing collected with
  | nil =>
    have hself : collected.advance K tree [] = collected := by simp [Collected.advance, dirsIn, filesIn, bytesIn]
    rw [hself]
    constructor
    · intro h
      exact ⟨fun _ h => absurd h List.not_mem_nil, hentries, fun _ h => absurd h List.not_mem_nil, hbytes,
        (pure_ok.mp h).symm⟩
    · rintro ⟨-, -, -, -, rfl⟩
      rfl
  | cons path paths ih =>
    rw [List.foldlM_cons, bind_ok, filesIn_cons, bytesIn_append, List.forall_mem_append, List.forall_mem_cons,
      List.length_cons, ← Nat.add_assoc]
    constructor
    · rintro ⟨next, hnext, hrest⟩
      obtain ⟨hvalid, hcount, heach, htotal, rfl⟩ := (collectEntry_ok hbytes).mp hnext
      obtain ⟨hvalids, hcounts, heachs, htotals, rfl⟩ := (ih hcount htotal).mp hrest
      rw [advance_cons]
      simp only [Collected.advance, List.length_singleton] at hcounts htotals
      exact ⟨⟨hvalid, hvalids⟩, by omega, ⟨heach, heachs⟩, by omega, rfl⟩
    · rintro ⟨⟨hvalid, hvalids⟩, hcounts, ⟨heach, heachs⟩, htotals, rfl⟩
      have hcount : collected.entries + 1 ≤ maxBackupTreeEntries := by omega
      have htotal : collected.totalBytes + bytesIn (filesIn tree [path]) ≤ maxBackupTotalBytes := by omega
      refine ⟨_, (collectEntry_ok hbytes).mpr ⟨hvalid, hcount, heach, htotal, rfl⟩, (ih hcount htotal).mpr ?_⟩
      refine ⟨hvalids, ?_, heachs, ?_, (advance_cons K tree collected path paths).symm⟩
      · simp only [Collected.advance, List.length_singleton]
        omega
      · simp only [Collected.advance]
        omega

/-- The directories and the files of a tree, in the order of the walk. -/
def dirs (tree : ProjectTree) : List (List Text) := dirsIn tree tree.entries.keys

def files (tree : ProjectTree) : List (List Text × Bytes) := filesIn tree tree.entries.keys

/-- A tree that `collect_backup_tree` accepts. -/
structure Collectable (K : Crates) (tree : ProjectTree) : Prop where
  paths : ∀ path ∈ tree.entries.keys, ValidPath K path
  count : tree.entries.keys.length ≤ maxBackupTreeEntries
  each : ∀ file ∈ files tree, file.2.length ≤ maxBackupFileBytes
  total : bytesIn (files tree) ≤ maxBackupTotalBytes

theorem collectBackupTree_ok {K : Crates} {tree : ProjectTree} {collected : List Text × List BackupFile} :
    collectBackupTree K tree = .ok collected ↔ Collectable K tree ∧
      collected = ((dirs tree).map joinPath, (files tree).map fun file => backupFile K file.1 file.2) := by
  have hvisit : ∀ state path next, collectEntry K tree state path = .ok next → path.length ≤ maxBackupTreeDepth := by
    intro state path next h
    unfold collectEntry at h
    by_cases hentries : maxBackupTreeEntries < state.entries + 1
    · rw [if_pos hentries] at h
      cases h
    · rw [if_neg hentries] at h
      simp only [bind_ok] at h
      obtain ⟨relative, hrelative, -⟩ := h
      exact (backupRelativePath_ok.mp hrelative).1.depth
  have hloop : ∀ final, tree.entries.keys.foldlM (collectEntry K tree) ⟨[], [], 0, 0⟩ = .ok final ↔ _ :=
    fun final => collectEntries_ok (Nat.zero_le _) (Nat.zero_le _)
  unfold collectBackupTree
  rw [bind_ok]
  simp only [tree.walk_root_ok_iff .corrupt hvisit, hloop, pure_ok, Nat.zero_add]
  constructor
  · rintro ⟨final, ⟨hpaths, hcount, heach, htotal, rfl⟩, rfl⟩
    exact ⟨⟨hpaths, hcount, heach, htotal⟩, rfl⟩
  · rintro ⟨hcollectable, rfl⟩
    exact ⟨_, ⟨hcollectable.paths, hcollectable.count, hcollectable.each, hcollectable.total, rfl⟩, rfl⟩

/-! ## The order of the paths -/

theorem compare_trans {a b c : Text} (hab : compare a b = .lt) (hbc : compare b c = .lt) : compare a c = .lt :=
  Std.TransCmp.lt_trans hab hbc

theorem increasing_iff {paths : List Text} : Increasing paths ↔ paths.Pairwise fun a b => compare a b = .lt := by
  have : IsTrans Text fun a b => compare a b = .lt := ⟨fun _ _ _ => compare_trans⟩
  exact List.isChain_iff_pairwise

/-- No two of the paths cross: below one is a further path, beside it is one that continues its last name with a
character before the slash. -/
def InOrder (paths : List (List Text)) : Prop := ∀ p ∈ paths, ∀ q ∈ paths, ¬PathOrder.Crossing '/' p q

theorem crossing_lt {p q : List Text} (h : PathOrder.Crossing '/' p q) : compare p q = .lt := by
  obtain ⟨r, d, c, s, x, xs, ys, rfl, rfl, -⟩ := h
  exact PathOrder.compare_diverge (PathOrder.compare_prefix d s c) r _ _

theorem ValidPath.names {K : Crates} {path : List Text} (h : ValidPath K path) :
    ∀ name ∈ path, name ≠ [] ∧ '/' ∉ name := by
  intro name hname
  have hpart := List.all_eq_true.mp h.parts name hname
  simp only [backupPart, Bool.not_eq_true', Bool.or_eq_false_iff] at hpart
  obtain ⟨⟨⟨⟨hempty, -⟩, hchars⟩, -⟩, -⟩ := hpart
  constructor
  · rintro rfl
    cases hempty
  · intro hslash
    rw [List.any_eq_false] at hchars
    exact hchars '/' hslash (by decide)

/-- The joined paths of a walk increase if and only if no two of the paths cross. -/
theorem increasing_join_iff {K : Crates} {paths : List (List Text)} (hvalid : ∀ path ∈ paths, ValidPath K path)
    (hsorted : paths.Pairwise fun a b => compare a b = .lt) :
    Increasing (paths.map joinPath) ↔ InOrder paths := by
  rw [increasing_iff, List.pairwise_map]
  constructor
  · intro h p hp q hq hcross
    -- the crossing paths stand in their order, their joins do not
    have hall : ∀ a ∈ paths, ∀ b ∈ paths, compare a b = .lt → compare (joinPath a) (joinPath b) = .lt := by
      refine List.Pairwise.forall_of_forall_of_flip ?_ ?_ ?_
      · intro a _ hlt
        have hself : compare a a = .eq := Std.ReflCmp.compare_self
        rw [hself] at hlt
        cases hlt
      · exact h.imp fun {a b} (hlt : compare (joinPath a) (joinPath b) = .lt) (_ : compare a b = .lt) => hlt
      · refine hsorted.imp fun {a b} hlt hgt => ?_
        rw [Std.OrientedCmp.gt_of_lt hlt] at hgt
        cases hgt
    have hlt := crossing_lt hcross
    exact (PathOrder.join_lt_iff '/' (hvalid q hq).names hlt).mp (hall p hp q hq hlt) hcross
  · intro h
    refine hsorted.imp_of_mem fun {p q} hp hq hlt => ?_
    exact PathOrder.join_lt '/' (hvalid q hq).names hlt (h p hp q hq)

/-! ## The manifest -/

/-- A journal and a pointer as the migration reads them. -/
structure ValidNames (journal : MigrationJournal) (pointer : BackupPointer) : Prop where
  backupId : validateIdentifier journal.backupId "bkp_".toList = .ok ()
  projectId : validateIdentifier journal.projectId "prj_".toList = .ok ()
  pointer : validatePointer pointer = .ok ()

/-- The manifest that `create_backup` builds from a tree. -/
def manifestOf (K : Crates) (tree : ProjectTree) (journal : MigrationJournal) (pointer : BackupPointer) : BackupManifest :=
  backupManifest journal pointer ((dirs tree).map joinPath) ((files tree).map fun file => backupFile K file.1 file.2)

theorem segments_joinPath {K : Crates} {path : List Text} (h : ValidPath K path) : segments (joinPath path) = path :=
  List.splitOn_intercalate '/' (fun name hname => (h.names name hname).2) h.nonempty

theorem backupPath_ok {K : Crates} {path : List Text} (h : ValidPath K path) :
    backupPath K (joinPath path) = .ok path := by
  have hempty : ¬(joinPath path).isEmpty = true := by
    intro hempty
    obtain ⟨name, rest, rfl⟩ := List.exists_cons_of_ne_nil h.nonempty
    obtain ⟨more, hmore, -⟩ := PathOrder.join_cons '/' name rest
    rw [joinPath, hmore, List.isEmpty_iff, List.append_eq_nil_iff] at hempty
    exact (h.names name List.mem_cons_self).1 hempty.1
  have hguard : ¬((joinPath path).isEmpty = true ∨ 4 * maxPathBytes < byteLength (joinPath path) ∨
      maxBackupTreeDepth < (segments (joinPath path)).length ∨
      ¬(segments (joinPath path)).all (backupPart K) = true) := by
    rw [segments_joinPath h, not_or, not_or, not_or, not_not]
    exact ⟨hempty, Nat.not_lt.mpr h.bytes, Nat.not_lt.mpr h.depth, h.parts⟩
  rw [backupPath, if_neg hguard, segments_joinPath h]

theorem mem_dirs {tree : ProjectTree} {path : List Text} :
    path ∈ dirs tree ↔ tree.entries[path]? = some .dir := by
  rw [dirs, dirsIn, List.mem_filter, Std.ExtTreeMap.mem_keys, Std.ExtTreeMap.mem_iff_isSome_getElem?, contentAt]
  cases hentry : tree.entries[path]? with
  | none => simp
  | some node => cases node <;> simp

theorem mem_files {tree : ProjectTree} {path : List Text} {bytes : Bytes} :
    (path, bytes) ∈ files tree ↔ tree.entries[path]? = some (.file bytes) := by
  rw [files, filesIn, List.mem_filterMap]
  constructor
  · rintro ⟨other, -, h⟩
    obtain ⟨found, hfound, heq⟩ := Option.map_eq_some_iff.mp h
    cases heq
    unfold contentAt at hfound
    split at hfound
    · rename_i hentry
      cases hfound
      exact hentry
    · cases hfound
  · intro h
    refine ⟨path, Std.ExtTreeMap.mem_keys.mpr (Std.ExtTreeMap.mem_iff_isSome_getElem?.mpr (by rw [h]; rfl)), ?_⟩
    rw [contentAt, h]
    rfl

theorem dirs_length_add (tree : ProjectTree) (paths : List (List Text)) :
    (dirsIn tree paths).length + (filesIn tree paths).length = paths.length := by
  induction paths with
  | nil => rfl
  | cons path paths ih =>
    rw [dirsIn_cons, filesIn_cons, List.length_append, List.length_append, List.length_cons]
    have hone : (dirsIn tree [path]).length + (filesIn tree [path]).length = 1 := by
      cases hcontent : contentAt tree path with
      | none => simp [dirsIn, filesIn, hcontent]
      | some bytes => simp [dirsIn, filesIn, hcontent]
    omega

theorem Collectable.dir {K : Crates} {tree : ProjectTree} (h : Collectable K tree) {path : List Text}
    (hpath : path ∈ dirs tree) : ValidPath K path :=
  h.paths path (List.mem_filter.mp hpath).1

theorem Collectable.file {K : Crates} {tree : ProjectTree} (h : Collectable K tree) {file : List Text × Bytes}
    (hfile : file ∈ files tree) : ValidPath K file.1 := by
  obtain ⟨path, hpath, heq⟩ := List.mem_filterMap.mp hfile
  obtain ⟨bytes, -, rfl⟩ := Option.map_eq_some_iff.mp heq
  exact h.paths path hpath

theorem dirs_sorted (tree : ProjectTree) : (dirs tree).Pairwise fun a b => compare a b = .lt :=
  List.Pairwise.filter _ Std.ExtTreeMap.ordered_keys

theorem map_fst_filesIn (tree : ProjectTree) (paths : List (List Text)) :
    (filesIn tree paths).map Prod.fst = paths.filter fun path => (contentAt tree path).isSome := by
  induction paths with
  | nil => rfl
  | cons path paths ih =>
    rw [filesIn_cons, List.map_append, ih, List.filter_cons]
    cases hcontent : contentAt tree path with
    | none => simp [filesIn, hcontent]
    | some bytes => simp [filesIn, hcontent]

theorem files_sorted (tree : ProjectTree) : ((files tree).map Prod.fst).Pairwise fun a b => compare a b = .lt := by
  rw [files, map_fst_filesIn]
  exact List.Pairwise.filter _ Std.ExtTreeMap.ordered_keys

/-- A tree whose directories, and whose files, have no crossing paths. -/
structure NamesInOrder (tree : ProjectTree) : Prop where
  directories : InOrder (dirs tree)
  files : InOrder ((files tree).map Prod.fst)

theorem validateBackupManifest_iff {K : Crates} {tree : ProjectTree} {journal : MigrationJournal}
    {pointer : BackupPointer} (hnames : ValidNames journal pointer) (hcollect : Collectable K tree) :
    validateBackupManifest K (manifestOf K tree journal pointer) = .ok () ↔ NamesInOrder tree := by
  have hpointer := hnames.pointer
  simp only [validatePointer, check_ok, ensure_ok] at hpointer
  obtain ⟨-, hrevision, -, hartifact⟩ := hpointer
  have hdirPaths : ∀ path ∈ dirs tree, ValidPath K path := fun path => hcollect.dir
  have hfilePaths : ∀ path ∈ (files tree).map Prod.fst, ValidPath K path := by
    intro path hpath
    obtain ⟨file, hfile, rfl⟩ := List.mem_map.mp hpath
    exact hcollect.file hfile
  have hjoined : ((manifestOf K tree journal pointer).files.map (·.path)) = ((files tree).map Prod.fst).map joinPath := by
    rw [manifestOf, backupManifest, List.map_map, List.map_map]
    rfl
  have hlengths : ((manifestOf K tree journal pointer).files.map (·.byteLength)).sum = bytesIn (files tree) := by
    rw [manifestOf, backupManifest, List.map_map]
    rfl
  have hcount : (manifestOf K tree journal pointer).directories.length +
      (manifestOf K tree journal pointer).files.length ≤ maxBackupTreeEntries := by
    have := dirs_length_add tree tree.entries.keys
    have := hcollect.count
    simp only [manifestOf, backupManifest, List.length_map, dirs, files]
    omega
  have hdirectories : ∀ directory ∈ (manifestOf K tree journal pointer).directories,
      (backupPath K directory).toBool = true := by
    intro directory hdirectory
    obtain ⟨path, hpath, rfl⟩ := List.mem_map.mp hdirectory
    rw [backupPath_ok (hcollect.dir hpath)]
    rfl
  have hfiles : ∀ file ∈ (manifestOf K tree journal pointer).files, (backupPath K file.path).toBool = true ∧
      validateSha256 file.sha256 = .ok () ∧ file.byteLength ≤ maxBackupFileBytes := by
    intro file hfile
    obtain ⟨entry, hentry, rfl⟩ := List.mem_map.mp hfile
    refine ⟨?_, sha256_valid K entry.2, hcollect.each entry hentry⟩
    rw [backupFile, backupPath_ok (hcollect.file hentry)]
    rfl
  simp only [validateBackupManifest, check_ok, ensure_ok, hjoined, hlengths]
  constructor
  · rintro ⟨-, -, -, -, -, -, hdirs, -, hincreasing, -⟩
    exact ⟨(increasing_join_iff hdirPaths (dirs_sorted tree)).mp hdirs,
      (increasing_join_iff hfilePaths (files_sorted tree)).mp hincreasing⟩
  · intro h
    exact ⟨hnames.backupId, hnames.projectId, hrevision, hartifact, ⟨rfl, rfl, hcount⟩, hdirectories,
      (increasing_join_iff hdirPaths (dirs_sorted tree)).mpr h.directories, hfiles,
      (increasing_join_iff hfilePaths (files_sorted tree)).mpr h.files, hcollect.total⟩

/-! ## The copy -/

/-- The entries in the order in which the copy creates them. -/
def news (tree : ProjectTree) : List (List Text × Node Bytes) :=
  (dirs tree).map (fun path => (path, .dir)) ++ (files tree).map fun file => (file.1, .file file.2)

theorem mem_news {tree : ProjectTree} {path : List Text} {node : Node Bytes} :
    (path, node) ∈ news tree ↔ tree.entries[path]? = some node := by
  rw [news, List.mem_append, List.mem_map, List.mem_map]
  constructor
  · rintro (⟨directory, h, heq⟩ | ⟨file, h, heq⟩)
    · cases heq
      exact mem_dirs.mp h
    · cases heq
      exact mem_files.mp h
  · intro h
    cases node with
    | dir => exact .inl ⟨path, mem_dirs.mpr h, rfl⟩
    | file bytes => exact .inr ⟨(path, bytes), mem_files.mpr h, rfl⟩

theorem not_lt_self (path : List Text) : compare path path ≠ .lt := by
  have hself : compare path path = .eq := Std.ReflCmp.compare_self
  rw [hself]
  exact nofun

theorem nodup_of_sorted {paths : List (List Text)} (h : paths.Pairwise fun a b => compare a b = .lt) : paths.Nodup := by
  refine h.imp fun {a b} hlt heq => ?_
  rw [heq] at hlt
  exact not_lt_self b hlt

theorem news_nodup (tree : ProjectTree) : ((news tree).map Prod.fst).Nodup := by
  have hmap : (news tree).map Prod.fst = dirs tree ++ (files tree).map Prod.fst := by
    rw [news, List.map_append, List.map_map, List.map_map]
    exact congrArg (· ++ _) (List.map_id _)
  rw [hmap, List.nodup_append]
  refine ⟨nodup_of_sorted (dirs_sorted tree), nodup_of_sorted (files_sorted tree), ?_⟩
  rintro path hdir other hother rfl
  obtain ⟨file, hfile, rfl⟩ := List.mem_map.mp hother
  have hdir := mem_dirs.mp hdir
  rw [mem_files.mp hfile] at hdir
  cases hdir

theorem dropLast_lt {path : List Text} (h : path ≠ []) : compare path.dropLast path = .lt := by
  have hsplit := List.dropLast_append_getLast h
  have hlt := PathOrder.compare_prefix path.dropLast [] (path.getLast h)
  rwa [hsplit] at hlt

/-- No entry comes after one that it holds. -/
theorem news_order (tree : ProjectTree) :
    (news tree).Pairwise fun a b => a.1 ≠ [] → b ≠ (a.1.dropLast, Node.dir) := by
  rw [news, List.pairwise_append, List.pairwise_map, List.pairwise_map]
  refine ⟨(dirs_sorted tree).imp fun {a b} hlt hne heq => ?_, List.pairwise_of_forall fun a b _ heq => ?_, ?_⟩
  · cases heq
    rw [Std.OrientedCmp.gt_of_lt (dropLast_lt hne)] at hlt
    cases hlt
  · cases congrArg Prod.snd heq
  · rintro a - b hb - rfl
    obtain ⟨file, -, heq⟩ := List.mem_map.mp hb
    cases congrArg Prod.snd heq

theorem createEntries_ok {entries : List (List Text × Node Bytes)} {tree final : ProjectTree}
    (h : entries.foldlM (fun tree new => tree.create new.1 new.2) tree = some final) :
    entries.foldlM (fun tree new => createEntry tree new.1 new.2) tree = .ok final := by
  induction entries generalizing tree with
  | nil =>
    cases h
    rfl
  | cons new entries ih =>
    rw [List.foldlM_cons] at h
    obtain ⟨next, hnext, hrest⟩ := Option.bind_eq_some_iff.mp h
    rw [List.foldlM_cons, bind_ok]
    refine ⟨next, ?_, ih hrest⟩
    rw [createEntry, hnext]

/-- The entries of a tree, created in their order, make up the tree. -/
theorem createEntries_news (tree : ProjectTree) : ∃ copy : ProjectTree,
    (news tree).foldlM (fun tree new => createEntry tree new.1 new.2) emptyTree = .ok copy ∧
      copy.entries = tree.entries := by
  have hempty : ∀ path : List Text, ¬path ∈ emptyTree.entries := fun path => Std.ExtTreeMap.not_mem_empty
  have hne : ∀ new ∈ news tree, new.1 ≠ [] := by
    intro new hnew hnil
    have hentry := mem_news.mp (show (new.1, new.2) ∈ news tree from hnew)
    rw [hnil] at hentry
    exact tree.root (Std.ExtTreeMap.mem_iff_isSome_getElem?.mpr (by rw [hentry]; rfl))
  have hparent : ∀ before new after, news tree = before ++ new :: after →
      emptyTree.isDir new.1.dropLast ∨ (new.1.dropLast, Node.dir) ∈ before := by
    intro before new after hsplit
    have hnew : new ∈ news tree := by
      rw [hsplit]
      exact List.mem_append_right _ List.mem_cons_self
    have hentry := mem_news.mp (show (new.1, new.2) ∈ news tree from hnew)
    have hmem : new.1.dropLast ++ [new.1.getLast (hne new hnew)] ∈ tree.entries := by
      rw [List.dropLast_append_getLast]
      exact Std.ExtTreeMap.mem_iff_isSome_getElem?.mpr (by rw [hentry]; rfl)
    rcases tree.parent _ _ hmem with hroot | hdir
    · exact .inl (.inl hroot)
    · right
      have horder := news_order tree
      have hparent : (new.1.dropLast, Node.dir) ∈ news tree := mem_news.mpr hdir
      rw [hsplit] at horder hparent
      rcases List.mem_append.mp hparent with h | h
      · exact h
      · exfalso
        rcases List.mem_cons.mp h with h | h
        · have hlt := dropLast_lt (hne new hnew)
          have heq : new.1.dropLast = new.1 := congrArg Prod.fst h
          rw [heq] at hlt
          exact not_lt_self _ hlt
        · exact (List.pairwise_cons.mp (List.pairwise_append.mp horder).2.1).1 _ h (hne new hnew) rfl
  obtain ⟨copy, hcopy, hentries⟩ := Tree.createAll (t := emptyTree) (fun new hnew => ⟨hne new hnew, hempty new.1⟩)
    (news_nodup tree) hparent
  refine ⟨copy, createEntries_ok hcopy, Std.ExtTreeMap.ext_getElem? fun path => Option.ext fun node => ?_⟩
  rw [hentries, mem_news]
  constructor
  · rintro (h | h)
    · exact h
    · exact absurd (Std.ExtTreeMap.mem_iff_isSome_getElem?.mpr (by rw [h]; rfl)) (hempty path)
  · exact .inl

theorem createDirectory_join {K : Crates} {tree : ProjectTree} {path : List Text} (h : ValidPath K path) :
    createDirectory K tree (joinPath path) = createEntry tree path .dir := by
  rw [createDirectory, backupPath_ok h]
  rfl

theorem copyBackupFile_join {K : Crates} {source tree : ProjectTree} {path : List Text} {bytes : Bytes}
    (h : ValidPath K path) (hentry : source.entries[path]? = some (.file bytes)) :
    copyBackupFile K source tree (backupFile K path bytes) = createEntry tree path (.file bytes) := by
  have hsame : ¬(bytes.length ≠ (backupFile K path bytes).byteLength ∨
      K.sha256 bytes ≠ (backupFile K path bytes).sha256) := by
    rintro (h | h)
    · exact h rfl
    · exact h rfl
  have hpath : backupPath K (backupFile K path bytes).path = .ok path := backupPath_ok h
  simp only [copyBackupFile, hpath, hentry, bind, Except.bind, if_neg hsame]

/-- The copy of a tree is the tree, if its manifest is accepted. -/
theorem copyBackupTree_ok {K : Crates} {source : ProjectTree} {journal : MigrationJournal} {pointer : BackupPointer}
    (hcollect : Collectable K source)
    (hvalid : validateBackupManifest K (manifestOf K source journal pointer) = .ok ()) :
    ∃ copy, copyBackupTree K source (manifestOf K source journal pointer) = .ok copy ∧
      copy.entries = source.entries := by
  obtain ⟨copy, hcopy, hentries⟩ := createEntries_news source
  refine ⟨copy, ?_, hentries⟩
  rw [news, List.foldlM_append, bind_ok] at hcopy
  obtain ⟨created, hcreated, hcopied⟩ := hcopy
  rw [List.foldlM_map] at hcreated hcopied
  have hdirectories : (manifestOf K source journal pointer).directories.foldlM (createDirectory K) emptyTree =
      .ok created := by
    rw [manifestOf, backupManifest, List.foldlM_map, ← hcreated]
    exact foldlM_congr (fun tree path hpath => createDirectory_join (hcollect.dir hpath)) emptyTree
  have hfiles : (manifestOf K source journal pointer).files.foldlM (copyBackupFile K source) created = .ok copy := by
    rw [manifestOf, backupManifest, List.foldlM_map, ← hcopied]
    exact foldlM_congr (fun tree file hfile => copyBackupFile_join (hcollect.file hfile) (mem_files.mp hfile)) created
  unfold copyBackupTree
  exact check_ok.mpr ⟨hvalid, bind_ok.mpr ⟨_, collectBackupTree_ok.mpr ⟨hcollect, rfl⟩,
    check_ok.mpr ⟨ensure_ok.mpr rfl, bind_ok.mpr ⟨created, hdirectories, hfiles⟩⟩⟩⟩

theorem tree_ext {a b : ProjectTree} (h : a.entries = b.entries) : a = b := by
  cases a
  cases b
  cases h
  rfl

/-! ## The backup -/

/-- The manifest of the tree fits the bound of its reader. -/
def ManifestFits (K : Crates) (tree : ProjectTree) (journal : MigrationJournal) (pointer : BackupPointer) : Prop :=
  (canonicalBytes (manifestOf K tree journal pointer).toJson).length ≤ maxBackupManifestBytes

theorem verifyBackupRoot_ok {K : Crates} {tree : ProjectTree} {journal : MigrationJournal} {pointer : BackupPointer}
    (hcollect : Collectable K tree)
    (hvalid : validateBackupManifest K (manifestOf K tree journal pointer) = .ok ())
    (other : Option MigrationJournal) (hother : ∀ j ∈ other, j = journal) :
    verifyBackupRoot K ⟨journal.backupId, manifestOf K tree journal pointer, tree⟩ other = .ok () ↔
      ManifestFits K tree journal pointer := by
  have hjournal : ∀ j ∈ other, (manifestOf K tree journal pointer).backupId = j.backupId ∧
      (manifestOf K tree journal pointer).projectId = j.projectId := by
    intro j hj
    rw [hother j hj]
    exact ⟨rfl, rfl⟩
  simp only [verifyBackupRoot, check_ok, ensure_ok, hvalid, true_and]
  constructor
  · exact fun h => h.1
  · intro h
    exact ⟨h, rfl, hjournal, bind_ok.mpr ⟨_, collectBackupTree_ok.mpr ⟨hcollect, rfl⟩, ensure_ok.mpr rfl⟩⟩

theorem createBackup_ok {K : Crates} {source : ProjectTree} {journal : MigrationJournal} {pointer : BackupPointer}
    (hnames : ValidNames journal pointer) (hcollect : Collectable K source) {root : BackupRoot} :
    createBackup K source pointer journal = .ok root ↔
      NamesInOrder source ∧ ManifestFits K source journal pointer ∧
      root = ⟨journal.backupId, manifestOf K source journal pointer, source⟩ := by
  have hcollected := collectBackupTree_ok.mpr ⟨hcollect, rfl⟩
  rw [← validateBackupManifest_iff hnames hcollect]
  unfold createBackup
  rw [check_ok, and_iff_right hnames.pointer, hcollected]
  simp only [bind_ok, Except.ok.injEq, exists_eq_left', pure_ok]
  constructor
  · rintro ⟨project, hcopy, ⟨⟩, hverify, -, -, rfl⟩
    have hvalid : validateBackupManifest K (manifestOf K source journal pointer) = .ok () := by
      unfold copyBackupTree at hcopy
      exact (check_ok.mp hcopy).1
    obtain ⟨copy, hcopied, hentries⟩ := copyBackupTree_ok hcollect hvalid
    have hsame : project = source := by
      rw [manifestOf] at hcopied
      rw [hcopied] at hcopy
      cases hcopy
      exact tree_ext hentries
    subst hsame
    exact ⟨hvalid, (verifyBackupRoot_ok hcollect hvalid (some journal) (by simp)).mp hverify, rfl⟩
  · rintro ⟨hvalid, hfits, rfl⟩
    obtain ⟨copy, hcopied, hentries⟩ := copyBackupTree_ok hcollect hvalid
    obtain rfl := tree_ext hentries
    have hverify := (verifyBackupRoot_ok hcollect hvalid (some journal) (by simp)).mpr hfits
    exact ⟨copy, hcopied, ⟨⟩, hverify, ⟨⟩, hverify, rfl⟩

end LpStudio.Storage.Backup
