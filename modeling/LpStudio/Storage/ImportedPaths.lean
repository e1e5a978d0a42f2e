import LpStudio.ChangeSet.Exportable
import LpStudio.Storage.ImportScan

/-! # An imported site can be edited and exported
The importer, the storage, the ChangeSets and the export each have path rules of their own. What the importer keeps
passes all of them.
-/
namespace LpStudio.Storage
open Str Paths Outcome

/-! ## The rules for one path -/

/-- The path check of the ChangeSets is the one of the storage, without the reserved paths. -/
theorem validatePath_iff {K : Crates} {path : Text} :
    ChangeSet.validatePath K path = .ok () ↔ validateCanonicalPath K path = true ∧ reservedPath K path = false := by
  refine ⟨ChangeSet.validatePath_canonical, fun ⟨hcanonical, hreserved⟩ => ?_⟩
  simp only [validateCanonicalPath, Bool.and_eq_true, Bool.not_eq_true', Bool.or_eq_false_iff, List.all_eq_true,
    decide_eq_true_eq] at hcanonical
  obtain ⟨⟨⟨⟨⟨⟨⟨hempty, hlength⟩, -⟩, hslash⟩, hroot⟩, hnfc⟩, hdepth⟩, hsegments⟩ := hcanonical
  have hcontrol : path.any isControl = false := by
    rw [List.any_eq_false]
    intro c hc hbad
    by_cases hsep : c = '/'
    · rw [hsep] at hbad
      revert hbad
      decide
    · obtain ⟨segment, hsegment, hmem⟩ := exists_segment hc hsep
      exact List.any_eq_false.mp (hsegments segment hsegment).2 c hmem hbad
  have hbad : (segments path).any badSegment = false := by
    rw [List.any_eq_false]
    intro segment hsegment hbad
    rw [(hsegments segment hsegment).1] at hbad
    cases hbad
  simp only [ChangeSet.validatePath, hempty, hlength, hroot, hslash, hnfc, hcontrol, hbad, hreserved, Bool.or_false,
    Bool.false_eq_true, ↓reduceIte, Nat.not_lt.mpr hdepth]

/-- The importer leaves out every reserved path. -/
theorem excludedReason_reserved {K : Crates} {path : Text} (h : reservedPath K path = true) :
    (excludedReason K path).isSome = true := by
  simp only [excludedReason]
  split
  · rfl
  next hmetadata =>
  split
  · rfl
  split
  · rfl
  next hcredentials =>
  simp only [reservedPath, Bool.or_eq_true, beq_iff_eq, decide_eq_true_eq] at h
  refine absurd ?_ hmetadata
  rcases h with (((((h | h) | h) | h) | h) | h) | h
  · obtain ⟨segment, hsegment, hmem⟩ := List.any_eq_true.mp h
    refine List.any_eq_true.mpr ⟨segment, hsegment, ?_⟩
    simp only [decide_eq_true_eq, List.mem_cons, List.not_mem_nil, or_false] at hmem ⊢
    tauto
  all_goals exact absurd (by tauto) hcredentials

theorem checkCanonicalPath_ok {K : Crates} {path : Text} (h : checkCanonicalPath K path = .ok ()) :
    validateCanonicalPath K path = true := by
  simp only [checkCanonicalPath, check_ok, ensure_ok] at h
  obtain ⟨hshape, hdepth, hsegments⟩ := h
  simp only [validateCanonicalPath, hshape, hsegments, decide_eq_true hdepth, Bool.and_self]

/-! ## The walk -/

/-- Nothing that the importer leaves out is among the files. -/
def ImportWalk.Kept (K : Crates) (walk : ImportWalk) : Prop := ∀ path ∈ walk.files, excludedReason K path = none

section
variable {K : Crates} {walk walk' : ImportWalk} {path : Text}

theorem ImportWalk.Kept.congr (hk : walk.Kept K) (hfiles : walk'.files = walk.files) : walk'.Kept K := by
  unfold ImportWalk.Kept
  rw [hfiles]
  exact hk

theorem visitImportEntry_files (h : walk.visitImportEntry = .ok walk') : walk'.files = walk.files := by
  unfold ImportWalk.visitImportEntry at h
  split at h
  · cases h
  · cases h
    rfl

theorem addImportFile_files {byteLength : ℕ} (h : walk.addImportFile byteLength = .ok walk') :
    walk'.files = walk.files := by
  unfold ImportWalk.addImportFile at h
  split at h
  · cases h
    rfl
  · cases h

theorem scanImportFile_files {metadata : Metadata} {file : FileRead}
    (h : scanImportFile path metadata file walk = .ok walk') : ∃ bytes, walk'.files = walk.files.insert path bytes := by
  simp only [scanImportFile, bind_ok] at h
  obtain ⟨⟨⟩, -, ⟨⟩, -, ⟨⟩, -, counted, hcounted, h⟩ := h
  cases hopened : file.opened with
  | none =>
    rw [hopened] at h
    cases h
  | some opened =>
  cases hbytes : file.bytes with
  | none =>
    simp only [hopened, hbytes, bind_ok] at h
    obtain ⟨⟨⟩, -, h⟩ := h
    cases h
  | some bytes =>
  cases hafter : file.after with
  | none =>
    simp only [hopened, hbytes, hafter, bind_ok] at h
    obtain ⟨⟨⟩, -, h⟩ := h
    cases h
  | some after =>
  simp only [hopened, hbytes, hafter, bind_ok, Option.map_some, pure_ok] at h
  obtain ⟨⟨⟩, -, ⟨⟩, -, rfl⟩ := h
  exact ⟨bytes.take (maxFileBytes + 1), by rw [addImportFile_files hcounted]⟩

theorem scanImportFile_kept {metadata : Metadata} {file : FileRead} (hk : walk.Kept K)
    (hpath : excludedReason K path = none) (h : scanImportFile path metadata file walk = .ok walk') : walk'.Kept K := by
  obtain ⟨bytes, hfiles⟩ := scanImportFile_files h
  intro other hother
  rw [hfiles, Std.ExtTreeMap.mem_insert, Std.LawfulEqCmp.compare_eq_iff_eq] at hother
  rcases hother with rfl | hother
  · exact hpath
  · exact hk other hother

theorem scanImportDirectory_kept {depth : ℕ} {read : DirectoryRead}
    {visitEntries : ImportWalk → Except StorageError ImportWalk}
    (hvisit : ∀ inner, visitEntries walk = .ok inner → inner.Kept K)
    (h : scanImportDirectory depth read visitEntries walk = .ok walk') : walk'.Kept K := by
  simp only [scanImportDirectory, bind_ok] at h
  obtain ⟨⟨⟩, -, h⟩ := h
  cases hbefore : read.before with
  | none =>
    rw [hbefore] at h
    cases h
  | some before =>
  simp only [hbefore, bind_ok] at h
  obtain ⟨⟨⟩, -, ⟨⟩, -, inner, hinner, h⟩ := h
  cases hafter : read.after with
  | none =>
    rw [hafter] at h
    cases h
  | some after =>
  simp only [hafter, bind_ok, pure_ok] at h
  obtain ⟨⟨⟩, -, rfl⟩ := h
  exact hvisit inner hinner

mutual
theorem scanImportEntry_kept {relative : List (Option Text)} {depth : ℕ} {walk walk' : ImportWalk} (hk : walk.Kept K) :
    (entry : Entry) → scanImportEntry K relative depth entry walk = .ok walk' → walk'.Kept K
  | .unread, h => by
    simp only [scanImportEntry, bind_ok] at h
    obtain ⟨-, -, h⟩ := h
    cases h
  | .read name metadata file directory entries, h => by
    simp only [scanImportEntry, bind_ok] at h
    obtain ⟨visited, hvisited, ⟨⟩, -, path, -, h⟩ := h
    have hk' : visited.Kept K := hk.congr (visitImportEntry_files hvisited)
    split at h
    · cases h
      exact hk'
    next hpath =>
    simp only [bind_ok] at h
    obtain ⟨⟨⟩, -, h⟩ := h
    generalize hfolded : ({ visited with foldedPaths := _ } : ImportWalk) = folded at h
    have hk'' : folded.Kept K := hk'.congr (by rw [← hfolded])
    split at h
    · exact scanImportDirectory_kept (fun inner hinner => scanImportEntries_kept hk'' entries hinner) h
    · exact scanImportFile_kept hk'' hpath h

theorem scanImportEntries_kept {relative : List (Option Text)} {depth : ℕ} {walk walk' : ImportWalk} (hk : walk.Kept K) :
    (entries : List Entry) → scanImportEntries K relative depth entries walk = .ok walk' → walk'.Kept K
  | [], h => by
    rw [scanImportEntries] at h
    cases h
    exact hk
  | entry :: entries, h => by
    rw [scanImportEntries, bind_ok] at h
    obtain ⟨next, hnext, h⟩ := h
    exact scanImportEntries_kept (scanImportEntry_kept hk entry hnext) entries h
end

end

/-! ## The files -/

section
variable {K : Crates} {files : List (Text × Bytes)} {source : ImportSource} {scan : ImportScan}

/-- What the loop of `stored_files` has checked, after the folded paths `foldedPaths`. -/
theorem storeFiles_checked {foldedPaths : List Text} {total : ℕ} {stored : List StoredFile}
    (h : storeFiles K foldedPaths total files = .ok stored) :
    (∀ file ∈ files, validateCanonicalPath K file.1 = true) ∧
      (∀ file ∈ files, K.toFoldedCase file.1 ∉ foldedPaths) ∧ (files.map fun file => K.toFoldedCase file.1).Nodup ∧
      (∀ file ∈ files, file.2.length ≤ maxFileBytes) ∧
      (files = [] ∨ total + (files.map fun file => file.2.length).sum ≤ maxTotalBytes) := by
  induction files generalizing foldedPaths total stored with
  | nil => exact ⟨by simp, by simp, List.nodup_nil, by simp, .inl rfl⟩
  | cons file files ih =>
    simp only [storeFiles, bind_ok, pure_ok] at h
    obtain ⟨⟨⟩, hcanonical, ⟨⟩, hfresh, ⟨⟩, hlength, ⟨⟩, htotal, rest, hrest, rfl⟩ := h
    obtain ⟨hcanonicals, hfreshes, hnodup, hlengths, htotals⟩ := ih hrest
    have htotal := ensure_ok.mp htotal
    simp only [List.mem_cons, not_or] at hfreshes
    refine ⟨List.forall_mem_cons.mpr ⟨checkCanonicalPath_ok hcanonical, hcanonicals⟩,
      List.forall_mem_cons.mpr ⟨ensure_ok.mp hfresh, fun other hother => (hfreshes other hother).2⟩, ?_,
      List.forall_mem_cons.mpr ⟨ensure_ok.mp hlength, hlengths⟩, .inr ?_⟩
    · rw [List.map_cons, List.nodup_cons]
      refine ⟨fun hmem => ?_, hnodup⟩
      obtain ⟨other, hother, heq⟩ := List.mem_map.mp hmem
      exact (hfreshes other hother).1 heq
    · rw [List.map_cons, List.sum_cons]
      rcases htotals with rfl | htotals
      · simpa using htotal
      · omega

theorem storedFiles_of_storeFiles {stored : List StoredFile} (hlength : files.length ≤ maxFiles)
    (h : storeFiles K [] 0 files = .ok stored) : storedFiles K files = some (files.map (store K)) := by
  obtain ⟨hcanonical, -, hnodup, hlengths, htotal⟩ := storeFiles_checked h
  have hsum : (files.map fun file => file.2.length).sum ≤ maxTotalBytes := by
    rcases htotal with rfl | htotal
    · exact Nat.zero_le _
    · omega
  exact if_pos ⟨hlength, hcanonical, hnodup, hlengths, hsum⟩

theorem acceptedPaths_ok {folded paths : List Text} (hvalid : ∀ path ∈ paths, ChangeSet.validatePath K path = .ok ())
    (hnodup : (folded ++ paths.map (ChangeSet.foldedPath K)).Nodup) :
    ChangeSet.validateAcceptedPathsFrom K folded paths = .ok () := by
  induction paths generalizing folded with
  | nil => rfl
  | cons path paths ih =>
    obtain ⟨hpath, hpaths⟩ := List.forall_mem_cons.mp hvalid
    rw [List.map_cons] at hnodup
    have hfresh : ChangeSet.foldedPath K path ∉ folded := by
      intro hmem
      exact (List.nodup_append.mp hnodup).2.2 _ hmem _ List.mem_cons_self rfl
    simp only [ChangeSet.validateAcceptedPathsFrom, bind_ok]
    refine ⟨⟨⟩, hpath, ?_⟩
    rw [if_neg hfresh]
    exact ih hpaths (List.perm_middle.nodup_iff.mp hnodup)

/-- What a scan has made sure of its files. -/
theorem scanImport_files (h : scanImport K source = .ok scan) : ∃ files : Files, files.toList = scan.files ∧
    (∀ path ∈ files, excludedReason K path = none) ∧ files.toList.length ≤ maxFiles ∧
    ∃ stored, storeFiles K [] 0 files.toList = .ok stored := by
  simp only [scanImport, bind_ok] at h
  obtain ⟨⟨⟩, -, walk, hwalk, h⟩ := h
  have hkept : walk.Kept K := by
    refine scanImportDirectory_kept (fun inner hinner => scanImportEntries_kept ?_ source.entries hinner) hwalk
    exact fun path hpath => absurd hpath Std.ExtTreeMap.not_mem_empty
  simp only [finishScan, bind_ok, pure_ok] at h
  obtain ⟨⟨⟩, hlength, stored, hstored, rfl⟩ := h
  exact ⟨walk.files, rfl, hkept, ensure_ok.mp hlength, stored, hstored⟩

end

/-- What the importer has taken passes the path checks of the ChangeSets, of the storage and of the export, whose rules
for one path differ by the reserved paths alone. -/
theorem import_editable (K : Crates) :
    (∀ (source : ImportSource) (scan : ImportScan), scanImport K source = .ok scan →
      ∃ files : Files, files.toList = scan.files ∧ ChangeSet.validateAcceptedPaths K files = .ok () ∧
        storedFiles K files.toList = some (files.toList.map (store K)) ∧
        ∃ entries, StaticExport.canonicalFileEntries K files = .ok entries) ∧
    ∀ path, (ChangeSet.validatePath K path = .ok () ↔
        validateCanonicalPath K path = true ∧ reservedPath K path = false) ∧
      (reservedPath K path = true → (excludedReason K path).isSome = true) := by
  refine ⟨fun source scan h => ?_, fun path => ⟨validatePath_iff, excludedReason_reserved⟩⟩
  obtain ⟨files, hfiles, hkept, hlength, stored, hstored⟩ := scanImport_files h
  obtain ⟨hcanonical, -, hnodup, -⟩ := storeFiles_checked hstored
  have hvalid : ∀ file ∈ files.toList, ChangeSet.validatePath K file.1 = .ok () := by
    intro file hfile
    refine validatePath_iff.mpr ⟨hcanonical file hfile, Bool.eq_false_of_not_eq_true fun hreserved => ?_⟩
    have hexcluded := excludedReason_reserved hreserved
    have hmem : file.1 ∈ files := by
      rw [← Std.ExtTreeMap.mem_keys, ← Std.ExtTreeMap.map_fst_toList_eq_keys]
      exact List.mem_map_of_mem hfile
    rw [hkept file.1 hmem] at hexcluded
    cases hexcluded
  refine ⟨files, hfiles, ?_, storedFiles_of_storeFiles hlength hstored, ?_⟩
  · rw [ChangeSet.validateAcceptedPaths, ← Std.ExtTreeMap.map_fst_toList_eq_keys]
    refine acceptedPaths_ok ?_ ?_
    · intro path hpath
      obtain ⟨file, hfile, rfl⟩ := List.mem_map.mp hpath
      exact hvalid file hfile
    · rw [List.nil_append, List.map_map]
      exact hnodup
  · obtain ⟨entries, hentries, -⟩ := ChangeSet.canonicalFileEntriesFrom_ok [] hvalid hnodup
    exact ⟨entries, hentries⟩

def pageMetadata : Metadata := ⟨.file, (1, 2), 1, 2⟩
def directoryMetadata (inode : ℕ) : Metadata := ⟨.directory, (1, inode), 2, 0⟩

/-- A directory with a page and a repository of Git. -/
def checkedOutSource : ImportSource where
  metadata := some (directoryMetadata 1)
  fileName := some "site".toList
  directory := ⟨some (directoryMetadata 1), true, some (directoryMetadata 1)⟩
  entries := [
    .read (some "index.html".toList) pageMetadata ⟨some pageMetadata, some (encode "hi".toList), some pageMetadata⟩
      ⟨none, false, none⟩ [],
    .read (some ".Git".toList) (directoryMetadata 3) ⟨none, none, none⟩ ⟨none, false, none⟩ []]

theorem import_editable_page : ∃ scan, scanImport sampleCrates checkedOutSource = .ok scan ∧
    scan.files = [("index.html".toList, encode "hi".toList)] ∧
    ∃ files : Files, files.toList = scan.files ∧ ChangeSet.validateAcceptedPaths sampleCrates files = .ok () := by
  have hrun : (scanImport sampleCrates checkedOutSource).toOption.any
      (fun scan => scan.files == [("index.html".toList, encode "hi".toList)]) = true := by
    decide
  obtain ⟨scan, hscan, hfiles⟩ := exists_of_any hrun
  obtain ⟨files, hlist, haccepted, -⟩ := (import_editable sampleCrates).1 checkedOutSource scan hscan
  exact ⟨scan, hscan, eq_of_beq hfiles, files, hlist, haccepted⟩

end LpStudio.Storage
