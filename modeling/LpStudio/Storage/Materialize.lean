import LpStudio.ChangeSet.Syntax
import LpStudio.Lib.TreeWrites
import LpStudio.Storage.Root

/-! # The materialized site
The site that `materialize_to` writes from the objects of a manifest, its scan, and which of the file maps that
`stored_files` admits come back from the two.
-/
namespace LpStudio.Storage.Materialize
open Str Paths Outcome DirTree

/-- A directory of regular files and real directories. -/
abbrev SiteDirectory := Tree Text Bytes

/-! ## Materialization -/

def pathFromCanonical (K : Crates) (path : Text) : Except StorageError (List Text) :=
  if validateCanonicalPath K path then .ok (segments path) else .error .unsafeImport

/-- The turn of the loop of `materialize_to`. -/
def materializeFile (K : Crates) (objects : Objects) (target : SiteDirectory) (entry : StoredFile) :
    Except StorageError SiteDirectory := do
  let destination ← pathFromCanonical K entry.path
  let target ← (target.createDirs [] destination.dropLast).elim (.error .io) .ok
  ensure (entry.byteLength ≤ maxFileBytes) .corrupt
  let object : Text × Bytes ← Root.readObject K objects entry
  (target.create destination (.file object.2)).elim (.error .io) .ok

def materializeTo (K : Crates) (objects : Objects) (files : List StoredFile) : Except StorageError SiteDirectory :=
  files.foldlM (materializeFile K objects) Tree.empty

/-! ## The scan -/

def canonicalRelativePath (K : Crates) (path : List Text) : Option Text :=
  let canonical := PathOrder.join '/' (path.map K.nfc)
  if validateCanonicalPath K canonical then some canonical else none

/-- The map and the budget of `scan_materialized_directory`. -/
structure Scanned where
  files : Files
  visitedEntries : ℕ
  totalBytes : ℕ

/-- The turn of the loop of `scan_materialized_directory` for one entry below `root`, before it enters a directory. -/
def scanEntry (K : Crates) (tree : SiteDirectory) (root : List Text) (scanned : Scanned) (path : List Text) :
    Except StorageError Scanned := do
  ensure (scanned.visitedEntries + 1 ≤ maxFiles) .drift
  let relative := path.drop root.length
  match tree.entries[path]? with
  | some (.file bytes) =>
    ensure (scanned.files.size < maxFiles ∧ bytes.length ≤ maxFileBytes) .drift
    ensure (scanned.totalBytes + bytes.length ≤ maxTotalBytes) .drift
    let canonical ← (canonicalRelativePath K relative).elim (.error .drift) .ok
    ensure (canonical ∉ scanned.files) .drift
    return ⟨scanned.files.insert canonical bytes, scanned.visitedEntries + 1, scanned.totalBytes + bytes.length⟩
  | _ =>
    -- the check of the depth with which the call for the directory begins
    ensure (relative.length ≤ maxDepth) .drift
    return { scanned with visitedEntries := scanned.visitedEntries + 1 }

def scanMaterializedFiles (K : Crates) (tree : SiteDirectory) (root : List Text) : Except StorageError Files := do
  ensure (tree.isDir root) .drift
  let scanned ← tree.walk (scanEntry K tree root) .drift (maxDepth + 1) root ⟨∅, 0, 0⟩
  let _ ← (storedFiles K scanned.files.toList).elim (.error .drift) .ok
  return scanned.files

def scanMaterialized (K : Crates) (tree : SiteDirectory) (root : List Text) : Except StorageError (List StoredFile) := do
  let files ← scanMaterializedFiles K tree root
  (storedFiles K files.toList).elim (.error .drift) .ok

/-! ## Paths -/

theorem join_segments (path : Text) : PathOrder.join '/' (segments path) = path := List.intercalate_splitOn '/'

theorem length_segments (path : Text) : (segments path).length = path.count '/' + 1 := by
  induction path with
  | nil => rfl
  | cons c path ih =>
    rw [segments, List.splitOn_cons_eq_if_modifyHead]
    split
    · rename_i hc
      rw [beq_iff_eq.mp hc, List.count_cons_self, List.length_cons]
      exact congrArg (· + 1) ih
    · rename_i hc
      rw [List.length_modifyHead, List.count_cons_of_ne (fun h => hc (beq_iff_eq.mpr h))]
      exact ih

theorem length_le_segments_join {path : List Text} : path.length ≤ (segments (PathOrder.join '/' path)).length := by
  rw [length_segments]
  induction path with
  | nil => exact Nat.zero_le _
  | cons name path ih =>
    cases path with
    | nil => exact Nat.le_add_left 1 _
    | cons next path =>
      rw [PathOrder.join_cons_cons, List.count_append, List.count_cons_self, List.length_cons]
      omega

/-- A part of a text in normal form is in normal form. -/
def NormalParts (K : Crates) : Prop := ∀ part text, part <:+: text → K.nfc text = text → K.nfc part = part

theorem infix_of_mem_segments {path name : Text} (h : name ∈ segments path) : name <:+: path := by
  obtain ⟨before, after, hsplit⟩ := List.append_of_mem h
  have hjoin := join_segments path
  obtain ⟨rest, hrest, -, -⟩ := PathOrder.join_cons '/' name after
  rw [hsplit, PathOrder.join_append, hrest] at hjoin
  exact ⟨_, rest, by rw [List.append_assoc]; exact hjoin⟩

theorem canonicalRelativePath_segments {K : Crates} (hK : NormalParts K) {path : Text}
    (h : validateCanonicalPath K path = true) : canonicalRelativePath K (segments path) = some path := by
  have hnormal : K.nfc path = path := by
    simp only [validateCanonicalPath, Bool.and_eq_true, Bool.not_eq_true', Bool.or_eq_false_iff,
      bne_eq_false_iff_eq] at h
    exact h.1.1.2
  have hnames : (segments path).map K.nfc = segments path :=
    (List.map_congr_left fun name hname => hK name path (infix_of_mem_segments hname) hnormal).trans (List.map_id _)
  rw [canonicalRelativePath, hnames, join_segments, if_pos h]

/-! ## What is written -/

/-- The files of a map, at the places where they are written. -/
def fileEntries (files : Files) : List (List Text × Bytes) := files.toList.map fun file => (segments file.1, file.2)

theorem segments_injective {p q : Text} (h : segments p = segments q) : p = q := by
  rw [← join_segments p, h, join_segments]

theorem fileEntries_nodup (files : Files) : ((fileEntries files).map Prod.fst).Nodup := by
  have hmap : (fileEntries files).map Prod.fst = files.keys.map segments := by
    rw [fileEntries, List.map_map, ← Std.ExtTreeMap.map_fst_toList_eq_keys, List.map_map]
    rfl
  rw [hmap]
  exact Std.ExtTreeMap.nodup_keys.map fun p q => segments_injective

theorem mem_fileEntries {files : Files} {path : List Text} {bytes : Bytes} :
    (path, bytes) ∈ fileEntries files ↔ ∃ canonical, files[canonical]? = some bytes ∧ segments canonical = path := by
  rw [fileEntries, List.mem_map]
  constructor
  · rintro ⟨⟨canonical, found⟩, hfile, heq⟩
    cases heq
    exact ⟨canonical, Std.ExtTreeMap.mem_toList_iff_getElem?_eq_some.mp hfile, rfl⟩
  · rintro ⟨canonical, hfile, rfl⟩
    exact ⟨(canonical, bytes), Std.ExtTreeMap.mem_toList_iff_getElem?_eq_some.mpr hfile, rfl⟩

theorem elim_ok {α : Type} {o : Option α} {e : StorageError} {a : α} :
    o.elim (.error e) .ok = (.ok a : Except StorageError α) ↔ o = some a := by
  cases o with
  | none => exact iff_of_false nofun nofun
  | some b => rw [Option.elim_some, Except.ok.injEq, Option.some.injEq]

/-- What `stored_files` admits. -/
structure Admissible (K : Crates) (files : Files) : Prop where
  count : files.toList.length ≤ maxFiles
  paths : ∀ file ∈ files.toList, validateCanonicalPath K file.1 = true
  each : ∀ file ∈ files.toList, file.2.length ≤ maxFileBytes
  total : (files.toList.map fun file => file.2.length).sum ≤ maxTotalBytes

theorem storedFiles_some {K : Crates} {files : Files} {stored : List StoredFile}
    (h : storedFiles K files.toList = some stored) :
    Admissible K files ∧ stored = files.toList.map (store K) := by
  unfold storedFiles at h
  split at h
  · rename_i hadmitted
    cases h
    exact ⟨⟨hadmitted.1, hadmitted.2.1, hadmitted.2.2.2.1, hadmitted.2.2.2.2⟩, rfl⟩
  · cases h

/-- The objects hold the bytes of the files under their digests. -/
def ObjectsHold (K : Crates) (objects : Objects) (files : Files) : Prop :=
  ∀ file ∈ files.toList, objects[K.sha256 file.2]? = some file.2

theorem materializeFile_ok {K : Crates} {objects : Objects} {target next : SiteDirectory} {file : Text × Bytes}
    (hpath : validateCanonicalPath K file.1 = true) (hlength : file.2.length ≤ maxFileBytes)
    (hobject : objects[K.sha256 file.2]? = some file.2) :
    materializeFile K objects target (store K file) = .ok next ↔
      target.writeNew (segments file.1) file.2 = some next := by
  have hdestination : pathFromCanonical K (store K file).path = .ok (segments file.1) := if_pos hpath
  have hread : Root.readObject K objects (store K file) = .ok (file.1, file.2) := by
    have hentry : objects[(store K file).sha256]? = some file.2 := hobject
    rw [Root.readObject, hentry]
    exact if_pos ⟨rfl, rfl⟩
  have hsize : ensure ((store K file).byteLength ≤ maxFileBytes) .corrupt = .ok () := ensure_ok.mpr hlength
  unfold materializeFile
  rw [hdestination, Tree.writeNew, Option.bind_eq_some_iff]
  simp only [bind_ok, Except.ok.injEq, exists_eq_left', hsize, hread, elim_ok]
  exact exists_congr fun created => and_congr_right fun _ => by simp

theorem materializeTo_ok {K : Crates} {objects : Objects} {files : Files} {site : SiteDirectory}
    (hfiles : Admissible K files) (hobjects : ObjectsHold K objects files) :
    materializeTo K objects (files.toList.map (store K)) = .ok site ↔ Tree.writeAll (fileEntries files) = some site := by
  have hloop : ∀ l : List (Text × Bytes), (∀ file ∈ l, file ∈ files.toList) → ∀ target : SiteDirectory,
      (l.map (store K)).foldlM (materializeFile K objects) target = .ok site ↔
      (l.map fun file => (segments file.1, file.2)).foldlM (fun t file => Tree.writeNew t file.1 file.2) target =
        some site := by
    intro l
    induction l with
    | nil => exact fun _ target => by rw [List.map_nil, List.map_nil, List.foldlM_nil, List.foldlM_nil, pure_ok]; exact Option.some_inj.symm
    | cons file l ih =>
      intro hmem target
      have hfile := hmem file List.mem_cons_self
      rw [List.map_cons, List.map_cons, List.foldlM_cons, List.foldlM_cons, bind_ok]
      refine Iff.trans ?_ Option.bind_eq_some_iff.symm
      exact exists_congr fun next => and_congr
        (materializeFile_ok (hfiles.paths file hfile) (hfiles.each file hfile) (hobjects file hfile))
        (ih (fun other hother => hmem other (List.mem_cons_of_mem _ hother)) next)
  exact hloop files.toList (fun _ h => h) Tree.empty

/-! ## What is scanned -/

/-- The bytes of a file; none for a directory. -/
def sizeAt (site : SiteDirectory) (path : List Text) : ℕ :=
  match site.entries[path]? with
  | some (.file bytes) => bytes.length
  | _ => 0

theorem canonicalRelativePath_length {K : Crates} {path : List Text} {canonical : Text}
    (h : canonicalRelativePath K path = some canonical) : path.length ≤ maxDepth := by
  rw [canonicalRelativePath, Option.ite_none_right_eq_some] at h
  obtain ⟨hvalid, -⟩ := h
  have hdepth : (segments (PathOrder.join '/' (path.map K.nfc))).length ≤ maxDepth := by
    simp only [validateCanonicalPath, Bool.and_eq_true, decide_eq_true_eq] at hvalid
    exact hvalid.1.2
  have hlength := (@length_le_segments_join (path.map K.nfc)).trans hdepth
  rwa [List.length_map] at hlength

theorem scanEntry_some {K : Crates} {site : SiteDirectory} {scanned next : Scanned} {path : List Text}
    (h : scanEntry K site [] scanned path = .ok next) :
    path.length ≤ maxDepth ∧ next.visitedEntries = scanned.visitedEntries + 1 ∧ next.visitedEntries ≤ maxFiles := by
  unfold scanEntry at h
  rw [check_ok, ensure_ok, List.length_nil, List.drop_zero] at h
  obtain ⟨hvisited, h⟩ := h
  split at h
  · obtain ⟨-, h⟩ := check_ok.mp h
    obtain ⟨-, h⟩ := check_ok.mp h
    obtain ⟨canonical, hcanonical, h⟩ := bind_ok.mp h
    obtain ⟨-, h⟩ := check_ok.mp h
    cases h
    exact ⟨canonicalRelativePath_length (elim_ok.mp hcanonical), rfl, hvisited⟩
  · rw [check_ok, ensure_ok] at h
    obtain ⟨hdepth, h⟩ := h
    cases h
    exact ⟨hdepth, rfl, hvisited⟩

/-- Every entry, file or directory, counts. -/
theorem scanEntries_visited {K : Crates} {site : SiteDirectory} {paths : List (List Text)} {scanned final : Scanned}
    (hvisited : scanned.visitedEntries ≤ maxFiles) (h : paths.foldlM (scanEntry K site []) scanned = .ok final) :
    scanned.visitedEntries + paths.length ≤ maxFiles := by
  induction paths generalizing scanned with
  | nil => exact hvisited
  | cons path paths ih =>
    obtain ⟨next, hnext, hrest⟩ := bind_ok.mp h
    obtain ⟨-, hcount, hle⟩ := scanEntry_some hnext
    have := ih hle hrest
    rw [List.length_cons]
    omega

/-- An entry that the scan accepts. -/
structure Scannable (K : Crates) (site : SiteDirectory) (path : List Text) : Prop where
  depth : path.length ≤ maxDepth
  canonical : segments (PathOrder.join '/' path) = path
  file : ∀ bytes, site.entries[path]? = some (.file bytes) →
    canonicalRelativePath K path = some (PathOrder.join '/' path) ∧ bytes.length ≤ maxFileBytes

theorem scanEntry_directory {K : Crates} {site : SiteDirectory} {scanned : Scanned} {path : List Text}
    (hno : ∀ bytes, site.entries[path]? ≠ some (.file bytes)) :
    scanEntry K site [] scanned path = (do
      ensure (scanned.visitedEntries + 1 ≤ maxFiles) .drift
      ensure (path.length ≤ maxDepth) .drift
      return { scanned with visitedEntries := scanned.visitedEntries + 1 }) ∧ sizeAt site path = 0 := by
  unfold scanEntry sizeAt
  rw [List.length_nil, List.drop_zero]
  split
  · rename_i hentry
    exact absurd hentry (hno _)
  · exact ⟨rfl, rfl⟩

theorem scanEntry_exists {K : Crates} {site : SiteDirectory} {scanned : Scanned} {path : List Text}
    (hpath : Scannable K site path) (hvisited : scanned.visitedEntries + 1 ≤ maxFiles)
    (hsize : scanned.files.size ≤ scanned.visitedEntries)
    (hbytes : scanned.totalBytes + sizeAt site path ≤ maxTotalBytes)
    (hnew : PathOrder.join '/' path ∉ scanned.files) :
    ∃ next, scanEntry K site [] scanned path = .ok next ∧ next.visitedEntries = scanned.visitedEntries + 1 ∧
      next.files.size ≤ next.visitedEntries ∧ next.totalBytes = scanned.totalBytes + sizeAt site path ∧
      ∀ canonical bytes, next.files[canonical]? = some bytes ↔ scanned.files[canonical]? = some bytes ∨
        site.entries[path]? = some (.file bytes) ∧ PathOrder.join '/' path = canonical := by
  by_cases hexists : ∃ bytes, site.entries[path]? = some (.file bytes)
  · obtain ⟨bytes, hentry⟩ := hexists
    obtain ⟨hcanonical, hlength⟩ := hpath.file bytes hentry
    have hentrySize : sizeAt site path = bytes.length := by rw [sizeAt, hentry]
    rw [hentrySize] at hbytes ⊢
    refine ⟨⟨scanned.files.insert (PathOrder.join '/' path) bytes, scanned.visitedEntries + 1,
      scanned.totalBytes + bytes.length⟩, ?_, rfl, ?_, rfl, fun canonical other => ?_⟩
    · unfold scanEntry
      rw [hentry, List.length_nil, List.drop_zero]
      exact check_ok.mpr ⟨ensure_ok.mpr hvisited, check_ok.mpr ⟨ensure_ok.mpr ⟨by omega, hlength⟩,
        check_ok.mpr ⟨ensure_ok.mpr hbytes, bind_ok.mpr ⟨_, elim_ok.mpr hcanonical,
          check_ok.mpr ⟨ensure_ok.mpr hnew, rfl⟩⟩⟩⟩⟩
    · exact Std.ExtTreeMap.size_insert_le.trans (Nat.succ_le_succ hsize)
    · change (scanned.files.insert (PathOrder.join '/' path) bytes)[canonical]? = some other ↔ _
      rw [Std.ExtTreeMap.getElem?_insert, hentry]
      split
      · rename_i heq
        have heq := Std.LawfulEqCmp.eq_of_compare heq
        subst heq
        have hnone : scanned.files[PathOrder.join '/' path]? = none := Std.ExtTreeMap.getElem?_eq_none hnew
        rw [hnone]
        constructor
        · intro h
          cases h
          exact .inr ⟨rfl, rfl⟩
        · rintro (h | ⟨h, -⟩)
          · cases h
          · cases h
            rfl
      · rename_i hne
        exact ⟨.inl, fun h => h.resolve_right fun hfile => hne (hfile.2 ▸ Std.ReflCmp.compare_self)⟩
  · have hno : ∀ bytes, site.entries[path]? ≠ some (.file bytes) := fun bytes h => hexists ⟨bytes, h⟩
    obtain ⟨hscan, hzero⟩ := scanEntry_directory hno
    refine ⟨{ scanned with visitedEntries := scanned.visitedEntries + 1 }, ?_, rfl, Nat.le_succ_of_le hsize, ?_, ?_⟩
    · rw [hscan]
      exact check_ok.mpr ⟨ensure_ok.mpr hvisited, check_ok.mpr ⟨ensure_ok.mpr hpath.depth, rfl⟩⟩
    · rw [hzero]
      rfl
    · exact fun canonical bytes => ⟨.inl, fun h => h.resolve_right fun hfile => hno bytes hfile.1⟩

/-- The loop accepts what its turns accept, and collects the files. -/
theorem scanEntries_exists {K : Crates} {site : SiteDirectory} {paths : List (List Text)} {scanned : Scanned}
    (hpaths : ∀ path ∈ paths, Scannable K site path) (hnodup : paths.Nodup)
    (hvisited : scanned.visitedEntries + paths.length ≤ maxFiles)
    (hsize : scanned.files.size ≤ scanned.visitedEntries)
    (hbytes : scanned.totalBytes + (paths.map (sizeAt site)).sum ≤ maxTotalBytes)
    (hnew : ∀ path ∈ paths, PathOrder.join '/' path ∉ scanned.files) :
    ∃ final, paths.foldlM (scanEntry K site []) scanned = .ok final ∧
      ∀ canonical bytes, final.files[canonical]? = some bytes ↔ scanned.files[canonical]? = some bytes ∨
        ∃ path ∈ paths, site.entries[path]? = some (.file bytes) ∧ PathOrder.join '/' path = canonical := by
  induction paths generalizing scanned with
  | nil => exact ⟨scanned, rfl, fun canonical bytes => by simp⟩
  | cons path paths ih =>
    obtain ⟨hpath, hrest⟩ := List.forall_mem_cons.mp hpaths
    obtain ⟨hnot, hnodup⟩ := List.nodup_cons.mp hnodup
    rw [List.length_cons] at hvisited
    rw [List.map_cons, List.sum_cons] at hbytes
    obtain ⟨next, hnext, hcount, hsizes, htotal, hentries⟩ :=
      scanEntry_exists hpath (by omega) hsize (by omega) (hnew path List.mem_cons_self)
    obtain ⟨final, hfinal, hfinals⟩ := @ih next hrest hnodup (by omega) hsizes (by omega) (by
      intro other hother hmem
      rw [Std.ExtTreeMap.mem_iff_isSome_getElem?, Option.isSome_iff_exists] at hmem
      obtain ⟨bytes, hmem⟩ := hmem
      rcases (hentries _ _).mp hmem with hold | ⟨-, heq⟩
      · exact hnew other (List.mem_cons_of_mem _ hother)
          (Std.ExtTreeMap.mem_iff_isSome_getElem?.mpr (by rw [hold]; rfl))
      · have hsame : path = other := by
          rw [← hpath.canonical, heq, (hrest other hother).canonical]
        exact hnot (hsame ▸ hother))
    refine ⟨final, bind_ok.mpr ⟨next, hnext, hfinal⟩, fun canonical bytes => ?_⟩
    rw [hfinals, hentries, or_assoc]
    refine or_congr_right ⟨?_, ?_⟩
    · rintro (hfirst | ⟨other, hother, hfile⟩)
      · exact ⟨path, List.mem_cons_self, hfirst⟩
      · exact ⟨other, List.mem_cons_of_mem _ hother, hfile⟩
    · rintro ⟨other, hother, hfile⟩
      rcases List.mem_cons.mp hother with rfl | hother
      · exact .inl hfile
      · exact .inr ⟨other, hother, hfile⟩

theorem scanWalk_ok_iff {K : Crates} {site : SiteDirectory} {scanned final : Scanned} :
    site.walk (scanEntry K site []) .drift (maxDepth + 1) [] scanned = .ok final ↔
      site.entries.keys.foldlM (scanEntry K site []) scanned = .ok final := by
  have hvisit : ∀ scanned path next, scanEntry K site [] scanned path = .ok next → path.length ≤ maxDepth :=
    fun _ _ _ h => (scanEntry_some h).1
  rw [site.walk_root_ok_iff .drift hvisit]

theorem scanMaterializedFiles_count {K : Crates} {site : SiteDirectory} {files : Files}
    (h : scanMaterializedFiles K site [] = .ok files) : site.entries.keys.length ≤ maxFiles := by
  obtain ⟨scanned, hscanned, -⟩ := bind_ok.mp (check_ok.mp h).2
  have hcount := scanEntries_visited (Nat.zero_le _) (scanWalk_ok_iff.mp hscanned)
  rwa [Nat.zero_add] at hcount

/-! ## The round trip -/

section
variable {K : Crates} {files : Files} {site : SiteDirectory}

theorem sum_sizeAt (h : site.Holds (fileEntries files)) :
    (site.entries.keys.map (sizeAt site)).sum = (files.toList.map fun file => file.2.length).sum := by
  have hfiles : ((fileEntries files).map Prod.fst).map (sizeAt site) =
      files.toList.map fun file => file.2.length := by
    rw [fileEntries, List.map_map, List.map_map]
    refine List.map_congr_left fun file hfile => ?_
    have hentry := (h (segments file.1) (.file file.2)).mpr
      (.inl ⟨file.2, mem_fileEntries.mpr ⟨file.1, Std.ExtTreeMap.mem_toList_iff_getElem?_eq_some.mp hfile, rfl⟩, rfl⟩)
    change sizeAt site (segments file.1) = file.2.length
    rw [sizeAt, hentry]
  have hdirectories : ((Tree.above (fileEntries files)).map (sizeAt site)).sum = 0 := by
    refine List.sum_eq_zero fun size hsize => ?_
    obtain ⟨path, hpath, rfl⟩ := List.mem_map.mp hsize
    have hentry := (h path .dir).mpr (.inr ⟨rfl, Tree.mem_above.mp hpath⟩)
    rw [sizeAt, hentry]
  rw [((h.keys_perm (fileEntries_nodup files)).map _).sum_eq, List.map_append, List.sum_append, hfiles, hdirectories,
    Nat.add_zero]

theorem scannable_of_holds (hK : NormalParts K) (hfiles : Admissible K files) (h : site.Holds (fileEntries files))
    {path : List Text} (hpath : path ∈ site.entries.keys) : Scannable K site path := by
  have hshape : ∀ canonical bytes, files[canonical]? = some bytes →
      validateCanonicalPath K canonical = true ∧ (segments canonical).length ≤ maxDepth ∧ bytes.length ≤ maxFileBytes := by
    intro canonical bytes hfile
    have hmem := Std.ExtTreeMap.mem_toList_iff_getElem?_eq_some.mpr hfile
    have hvalid := hfiles.paths _ hmem
    refine ⟨hvalid, ?_, hfiles.each _ hmem⟩
    exact canonicalRelativePath_length (canonicalRelativePath_segments hK hvalid)
  -- an entry is a file, or stands above one
  have hentry : ∃ canonical bytes, files[canonical]? = some bytes ∧ path <+: segments canonical ∧ path ≠ [] := by
    rw [Std.ExtTreeMap.mem_keys, Std.ExtTreeMap.mem_iff_isSome_getElem?, Option.isSome_iff_exists] at hpath
    obtain ⟨n, hn⟩ := hpath
    rcases (h path n).mp hn with ⟨bytes, hfile, -⟩ | ⟨-, hne, file, hfile, hpre, -⟩
    · obtain ⟨canonical, hfound, rfl⟩ := mem_fileEntries.mp hfile
      exact ⟨canonical, bytes, hfound, List.prefix_rfl, h.nonempty hfile⟩
    · obtain ⟨canonical, hfound, heq⟩ := mem_fileEntries.mp (show (file.1, file.2) ∈ fileEntries files from hfile)
      exact ⟨canonical, file.2, hfound, heq ▸ hpre, hne⟩
  obtain ⟨canonical, bytes, hfile, hpre, hne⟩ := hentry
  refine ⟨hpre.length_le.trans (hshape _ _ hfile).2.1, ?_, fun found hfound => ?_⟩
  · refine List.splitOn_intercalate '/' (fun name hname hslash => ?_) hne
    exact slash_not_mem_segments (hpre.subset hname) hslash
  · rcases (h path _).mp hfound with ⟨content, hmem, heq⟩ | ⟨hdir, -⟩
    · cases heq
      obtain ⟨own, hown, rfl⟩ := mem_fileEntries.mp hmem
      rw [join_segments]
      exact ⟨canonicalRelativePath_segments hK (hshape _ _ hown).1, (hshape _ _ hown).2.2⟩
    · cases hdir

/-- The scan of the files that were written is the map they came from, as long as there are not too many entries. -/
theorem scanMaterializedFiles_of_holds (hK : NormalParts K) {stored : List StoredFile}
    (hstored : storedFiles K files.toList = some stored) (h : site.Holds (fileEntries files))
    (hcount : site.entries.keys.length ≤ maxFiles) : scanMaterializedFiles K site [] = .ok files := by
  obtain ⟨hfiles, -⟩ := storedFiles_some hstored
  obtain ⟨final, hfinal, hentries⟩ := @scanEntries_exists K site site.entries.keys ⟨∅, 0, 0⟩
    (fun path hpath => scannable_of_holds hK hfiles h hpath) Std.ExtTreeMap.nodup_keys
    (by rw [Nat.zero_add]; exact hcount) (by rw [Std.ExtTreeMap.size_empty])
    (by rw [Nat.zero_add, sum_sizeAt h]; exact hfiles.total) (fun path _ => Std.ExtTreeMap.not_mem_empty)
  have hsame : final.files = files := by
    refine Std.ExtTreeMap.ext_getElem? fun canonical => Option.ext fun bytes => ?_
    rw [hentries, Std.ExtTreeMap.getElem?_empty]
    constructor
    · rintro (hnone | ⟨path, -, hfile, rfl⟩)
      · cases hnone
      · rcases (h path _).mp hfile with ⟨content, hmem, heq⟩ | ⟨hdir, -⟩
        · cases heq
          obtain ⟨own, hown, rfl⟩ := mem_fileEntries.mp hmem
          rwa [join_segments]
        · cases hdir
    · intro hfile
      have hentry := (h (segments canonical) (.file bytes)).mpr
        (.inl ⟨bytes, mem_fileEntries.mpr ⟨canonical, hfile, rfl⟩, rfl⟩)
      exact .inr ⟨segments canonical, Std.ExtTreeMap.mem_keys.mpr (Std.ExtTreeMap.mem_iff_isSome_getElem?.mpr
        (by rw [hentry]; rfl)), hentry, join_segments canonical⟩
  refine check_ok.mpr ⟨ensure_ok.mpr (.inl rfl), bind_ok.mpr ⟨final, scanWalk_ok_iff.mpr hfinal, bind_ok.mpr ⟨stored, ?_, ?_⟩⟩⟩
  · rw [hsame]
    exact elim_ok.mpr hstored
  · rw [hsame]
    rfl

end

/-- The files that come back: none leads below another, and with the directories above them they are not too many
entries. -/
structure Rescannable (files : Files) : Prop where
  apart : ∀ p ∈ files, ∀ q ∈ files, p ≠ q → ¬segments p <+: segments q
  entries : files.toList.length + (Tree.above (fileEntries files)).length ≤ maxFiles

theorem apart_iff {files : Files} : ((fileEntries files).Pairwise fun a b => Tree.Apart a.1 b.1) ↔
    ∀ p ∈ files, ∀ q ∈ files, p ≠ q → ¬segments p <+: segments q := by
  have hkeys : (fileEntries files).map Prod.fst = files.keys.map segments := by
    rw [fileEntries, List.map_map, ← Std.ExtTreeMap.map_fst_toList_eq_keys, List.map_map]
    rfl
  rw [← List.pairwise_map, hkeys, List.pairwise_map]
  constructor
  · intro h p hp q hq hne
    have : Std.Symm fun a b : Text => Tree.Apart (segments a) (segments b) := ⟨fun a b hab => ⟨hab.2, hab.1⟩⟩
    exact (List.Pairwise.forall h (Std.ExtTreeMap.mem_keys.mpr hp) (Std.ExtTreeMap.mem_keys.mpr hq) hne).1
  · intro h
    refine Std.ExtTreeMap.nodup_keys.imp_of_mem fun {p q} hp hq hne => ?_
    have hp := Std.ExtTreeMap.mem_keys.mp hp
    have hq := Std.ExtTreeMap.mem_keys.mp hq
    exact ⟨h p hp q hq hne, h q hq p hp hne.symm⟩

/-- The files that the store admits are materialized and scanned back if and only if no file stands below another and,
with the directories above them, they are no more entries than the scan visits. -/
theorem materialize_scan_iff (K : Crates) (objects : Objects) (files : Files) (stored : List StoredFile)
    (hK : NormalParts K) (hstored : storedFiles K files.toList = some stored) (hobjects : ObjectsHold K objects files) :
    (∃ site, materializeTo K objects stored = .ok site ∧ scanMaterializedFiles K site [] = .ok files ∧
        scanMaterialized K site [] = .ok stored) ↔ Rescannable files := by
  obtain ⟨hfiles, rfl⟩ := storedFiles_some hstored
  have hcounted : ∀ {site : SiteDirectory}, site.Holds (fileEntries files) →
      site.entries.keys.length = files.toList.length + (Tree.above (fileEntries files)).length := by
    intro site h
    rw [(h.keys_perm (fileEntries_nodup files)).length_eq, List.length_append, List.length_map, fileEntries,
      List.length_map]
  constructor
  · rintro ⟨site, hsite, hscan, -⟩
    have hwritten := (materializeTo_ok hfiles hobjects).mp hsite
    refine ⟨apart_iff.mp (Tree.writeAll_iff.mp ⟨site, hwritten⟩).2, ?_⟩
    rw [← hcounted (Tree.writeAll_holds hwritten)]
    exact scanMaterializedFiles_count hscan
  · rintro ⟨hapart, hcount⟩
    have hne : ∀ file ∈ fileEntries files, file.1 ≠ [] := by
      intro file hfile
      obtain ⟨canonical, -, heq⟩ := mem_fileEntries.mp (show (file.1, file.2) ∈ fileEntries files from hfile)
      rw [← heq]
      exact List.splitOn_ne_nil _ _
    obtain ⟨site, hwritten⟩ := Tree.writeAll_iff.mpr ⟨hne, apart_iff.mpr hapart⟩
    have hholds := Tree.writeAll_holds hwritten
    have hscan := scanMaterializedFiles_of_holds hK hstored hholds (by rw [hcounted hholds]; exact hcount)
    exact ⟨site, (materializeTo_ok hfiles hobjects).mpr hwritten, hscan,
      bind_ok.mpr ⟨files, hscan, elim_ok.mpr hstored⟩⟩

/-! ## Two pages -/

def pages (names : List String) : Files := names.foldl (fun files name => files.insert name.toList [49]) ∅

def pageObjects : Objects := (∅ : Objects).insert (sampleCrates.sha256 [49]) [49]

theorem pages_hold {files : Files} (h : ∀ file ∈ files.toList, file.2 = [49]) :
    ObjectsHold sampleCrates pageObjects files := by
  intro file hfile
  rw [h file hfile]
  exact Std.ExtTreeMap.getElem?_insert_self

set_option maxRecDepth 100000 in
theorem materialize_scan_pages : ∃ stored site,
    materializeTo sampleCrates pageObjects stored = .ok site ∧
    scanMaterializedFiles sampleCrates site [] = .ok (pages ["index.html", "docs/a.html"]) := by
  have hstored : storedFiles sampleCrates (pages ["index.html", "docs/a.html"]).toList =
      some ((pages ["index.html", "docs/a.html"]).toList.map (store sampleCrates)) := if_pos (by decide)
  have hapart : ∀ p ∈ (pages ["index.html", "docs/a.html"]).keys, ∀ q ∈ (pages ["index.html", "docs/a.html"]).keys,
      p ≠ q → ¬segments p <+: segments q := by decide
  obtain ⟨site, hsite, hscan, -⟩ := (materialize_scan_iff sampleCrates pageObjects (pages ["index.html", "docs/a.html"]) _
    (fun _ _ _ _ => rfl) hstored (pages_hold (by decide))).mpr
    ⟨fun p hp q hq => hapart p (Std.ExtTreeMap.mem_keys.mpr hp) q (Std.ExtTreeMap.mem_keys.mpr hq), by decide⟩
  exact ⟨_, site, hsite, hscan⟩

set_option maxRecDepth 100000 in
theorem no_site_below_docs : ∃ stored, storedFiles sampleCrates (pages ["docs", "docs/a.html"]).toList = some stored ∧
    ObjectsHold sampleCrates pageObjects (pages ["docs", "docs/a.html"]) ∧
    ¬∃ site, materializeTo sampleCrates pageObjects stored = .ok site := by
  have hstored : storedFiles sampleCrates (pages ["docs", "docs/a.html"]).toList =
      some ((pages ["docs", "docs/a.html"]).toList.map (store sampleCrates)) := if_pos (by decide)
  have hobjects : ObjectsHold sampleCrates pageObjects (pages ["docs", "docs/a.html"]) :=
    pages_hold (by decide)
  have hbelow : "docs".toList ∈ (pages ["docs", "docs/a.html"]).keys ∧
      "docs/a.html".toList ∈ (pages ["docs", "docs/a.html"]).keys ∧ "docs".toList ≠ "docs/a.html".toList ∧
      segments "docs".toList <+: segments "docs/a.html".toList := by decide
  refine ⟨_, hstored, hobjects, ?_⟩
  rintro ⟨site, hsite⟩
  have hwritten := (materializeTo_ok (storedFiles_some hstored).1 hobjects).mp hsite
  obtain ⟨hdocs, hpage, hne, hpre⟩ := hbelow
  exact apart_iff.mp (Tree.writeAll_iff.mp ⟨site, hwritten⟩).2 _ (Std.ExtTreeMap.mem_keys.mp hdocs) _
    (Std.ExtTreeMap.mem_keys.mp hpage) hne hpre

end LpStudio.Storage.Materialize
