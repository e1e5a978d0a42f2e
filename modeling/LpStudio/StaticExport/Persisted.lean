import LpStudio.StaticExport.Export
import LpStudio.Storage.Sites

/-! # Persisted exports
`create_export` and `recover_persisted_export` of `lib.rs`: the export that a server persists, and what a later
server makes of it.
-/
namespace LpStudio.StaticExport
open Str Paths Outcome

/-- `generate_static_export` of the program that was built with `CARGO_PKG_VERSION` set to `version`. -/
def generateStaticExportBy (version : Text) (K : Crates) (input : StaticExportInput) :
    Except StaticExportError StaticExportArtifact := do
  validateExportInput K input
  let fileEntries ← canonicalFileEntries K input.files
  if usizeRange ≤ totalByteLength fileEntries then throw .serialization
  let validation ← analyzeReferences K input.files
  let some zipBytes := K.zip input.files.toList | throw .archiveGeneration
  let receipt : ExportReceiptV1 := {
    schema := exportReceiptSchema
    sourceRevisionId := input.sourceRevisionId
    sourceManifestSha256 := input.sourceManifestSha256
    options := ⟨input.entryPoint, "relative_static_http".toList, "report".toList, "zip_stored_v1".toList⟩
    fileManifest := {
      schema := exportManifestSchema
      sha256 := K.sha256 (canonicalJson (manifestIdentity fileEntries))
      totalByteLength := totalByteLength fileEntries
      files := fileEntries }
    validation
    archive := ⟨K.sha256 zipBytes, zipBytes.length⟩
    generatedAtUtc := input.generatedAtUtc
    applicationVersion := version }
  return {
    zipBytes
    receipt
    receiptJson := canonicalJson receipt.toJson
    receiptSha256 := K.sha256 (canonicalJson receipt.toJson) }

theorem generateStaticExport_eq (K : Crates) (input : StaticExportInput) :
    generateStaticExport K input = generateStaticExportBy applicationVersion K input := rfl

/-! ## Reading -/

/-- An entry of a ZIP archive as `ZipArchive::by_index` shows it. -/
structure ZipEntry where
  name : Text
  isDir : Bool
  stored : Bool
  /-- The size that the archive declares. -/
  size : ℕ
  contents : Bytes
  deriving DecidableEq, Repr

/-- What a server reads persisted files with. -/
structure Readers where
  /-- `ZipArchive::new` of `zip`, with all entries read. -/
  zipEntries : Bytes → Option (List ZipEntry)
  /-- `serde_json::from_slice::<ExportReceiptV1>`. -/
  receipt : Bytes → Option ExportReceiptV1

/-- The readers read back what the program of a version writes for an input. -/
structure Readers.Faithful (R : Readers) (version : Text) (K : Crates) (input : StaticExportInput) : Prop where
  zipEntries : ∀ bytes, K.zip input.files.toList = some bytes →
    R.zipEntries bytes = some (input.files.toList.map fun file => ⟨file.1, false, true, file.2.length, file.2⟩)
  receipt : ∀ artifact, generateStaticExportBy version K input = .ok artifact →
    R.receipt artifact.receiptJson = some artifact.receipt

/-- The turn of the loop of `persisted_archive_files`, after the files `read` of `total` bytes. -/
def readEntry (K : Crates) (read : Files × ℕ) (entry : ZipEntry) : Option (Files × ℕ) :=
  if entry.isDir ∨ ¬entry.stored ∨ validateCanonicalPath K entry.name = false ∨ Storage.maxFileBytes < entry.size then
    none
  else
    let contents := entry.contents.take (Storage.maxFileBytes + 1)
    if contents.length ≠ entry.size then none
    else if Storage.maxTotalBytes < read.2 + contents.length ∨ read.1.contains entry.name then none
    else some (read.1.insert entry.name contents, read.2 + contents.length)

def persistedArchiveFiles (R : Readers) (K : Crates) (bytes : Bytes) : Option Files := do
  let entries ← R.zipEntries bytes
  if entries.isEmpty ∨ Storage.maxFiles < entries.length then none
  let read ← entries.foldlM (readEntry K) (∅, 0)
  return read.1

/-! ## The export of a project -/

structure PersistedExport where
  id : Text
  projectId : Text
  revisionId : Text
  archiveSha256 : Text
  archiveZip : Bytes
  receiptJson : Bytes
  deriving DecidableEq, Repr

structure ExportArtifact where
  projectId : Text
  revisionId : Text
  sha256 : Text
  bytes : Bytes
  deriving DecidableEq, Repr

/-- What `create_export` reads of the project, and the identifier and the time it gives to the export. -/
structure ExportRequest where
  projectId : Text
  revisionId : Text
  acceptedManifestSha256 : Text
  acceptedFiles : Files
  exportId : Text
  generatedAtUtc : Text

def ExportRequest.input (request : ExportRequest) : StaticExportInput where
  sourceRevisionId := request.revisionId
  sourceManifestSha256 := request.acceptedManifestSha256
  generatedAtUtc := request.generatedAtUtc
  entryPoint := "index.html".toList
  files := request.acceptedFiles

/-- `create_export`, as far as it persists the export. -/
def createExport (version : Text) (K : Crates) (request : ExportRequest) : Except StaticExportError PersistedExport := do
  let artifact ← generateStaticExportBy version K request.input
  return {
    id := request.exportId
    projectId := request.projectId
    revisionId := request.revisionId
    archiveSha256 := K.sha256 artifact.zipBytes
    archiveZip := artifact.zipBytes
    receiptJson := artifact.receiptJson }

/-- `recover_persisted_export`; `none` for each of its errors. The revision that the project retains under an
identifier verifies against a manifest digest where `verifyRetainedRevision` holds. -/
def recoverPersistedExport (version : Text) (R : Readers) (K : Crates) (verifyRetainedRevision : Text → Text → Bool)
    (expectedProjectId : Text) (persisted : PersistedExport) : Option (Text × ExportArtifact) := do
  if persisted.projectId ≠ expectedProjectId ∨ K.sha256 persisted.archiveZip ≠ persisted.archiveSha256 then none
  let receipt ← R.receipt persisted.receiptJson
  if canonicalJson receipt.toJson ≠ persisted.receiptJson ∨ receipt.sourceRevisionId ≠ persisted.revisionId ∨
      receipt.archive.sha256 ≠ persisted.archiveSha256 ∨ receipt.archive.byteLength ≠ persisted.archiveZip.length then
    none
  if ¬verifyRetainedRevision persisted.revisionId receipt.sourceManifestSha256 then none
  let files ← persistedArchiveFiles R K persisted.archiveZip
  let regenerated ← (generateStaticExportBy version K {
    sourceRevisionId := receipt.sourceRevisionId
    sourceManifestSha256 := receipt.sourceManifestSha256
    generatedAtUtc := receipt.generatedAtUtc
    entryPoint := receipt.options.entryPoint
    files }).toOption
  if regenerated.receipt ≠ receipt ∨ regenerated.receiptJson ≠ persisted.receiptJson ∨
      regenerated.zipBytes ≠ persisted.archiveZip then none
  return (persisted.id, {
    projectId := persisted.projectId
    revisionId := persisted.revisionId
    sha256 := persisted.archiveSha256
    bytes := persisted.archiveZip })

/-! ## Regeneration -/

/-- What an export says of its input. -/
structure Generated (version : Text) (K : Crates) (input : StaticExportInput) (artifact : StaticExportArtifact) :
    Prop where
  zip : K.zip input.files.toList = some artifact.zipBytes
  receiptJson : artifact.receiptJson = canonicalJson artifact.receipt.toJson
  sourceRevisionId : artifact.receipt.sourceRevisionId = input.sourceRevisionId
  sourceManifestSha256 : artifact.receipt.sourceManifestSha256 = input.sourceManifestSha256
  generatedAtUtc : artifact.receipt.generatedAtUtc = input.generatedAtUtc
  entryPoint : artifact.receipt.options.entryPoint = input.entryPoint
  archive : artifact.receipt.archive = ⟨K.sha256 artifact.zipBytes, artifact.zipBytes.length⟩
  applicationVersion : artifact.receipt.applicationVersion = version
  paths : input.files.isEmpty = false ∧ ∀ file ∈ input.files.toList, validateCanonicalPath K file.1 = true

theorem validateExportInput_nonempty {K : Crates} {input : StaticExportInput}
    (h : validateExportInput K input = .ok ()) : input.files.isEmpty = false := by
  unfold validateExportInput at h
  split at h
  · cases h
  · rename_i hempty
    exact Bool.not_eq_true _ ▸ hempty

/-- Another version changes one field of the receipt. -/
theorem generateStaticExportBy_ok {version : Text} {K : Crates} {input : StaticExportInput}
    {artifact : StaticExportArtifact} (h : generateStaticExportBy version K input = .ok artifact) :
    Generated version K input artifact ∧
    ∀ later, ∃ again, generateStaticExportBy later K input = .ok again ∧ again.zipBytes = artifact.zipBytes ∧
      again.receipt = { artifact.receipt with applicationVersion := later } ∧
      again.receiptJson = canonicalJson again.receipt.toJson := by
  unfold generateStaticExportBy at h
  rw [bind_ok] at h
  obtain ⟨⟨⟩, hvalid, h⟩ := h
  rw [bind_ok] at h
  obtain ⟨entries, hentries, h⟩ := h
  simp only at h
  split at h
  · cases h
  rename_i htotal
  rw [bind_ok] at h
  obtain ⟨validation, hvalidation, h⟩ := h
  split at h
  · rename_i zipBytes hzip
    obtain rfl := pure_ok.mp h
    refine ⟨⟨hzip, rfl, rfl, rfl, rfl, rfl, rfl, rfl, validateExportInput_nonempty hvalid,
      canonicalFileEntriesFrom_valid hentries⟩, fun later => ?_⟩
    unfold generateStaticExportBy
    simp only [hvalid, hentries, hvalidation, hzip, bind, Except.bind, if_neg htotal]
    exact ⟨_, rfl, rfl, rfl, rfl⟩
  · cases h

/-! ## The archive -/

/-- Files that the store admits. -/
structure Admitted (files : Files) : Prop where
  count : files.toList.length ≤ Storage.maxFiles
  each : ∀ file ∈ files.toList, file.2.length ≤ Storage.maxFileBytes
  total : (files.toList.map fun file => file.2.length).sum ≤ Storage.maxTotalBytes

theorem admitted_of_storedFiles {K : Crates} {files : Files} (h : (Storage.storedFiles K files.toList).isSome = true) :
    Admitted files := by
  unfold Storage.storedFiles at h
  split at h
  · rename_i hstored
    exact ⟨hstored.1, hstored.2.2.2.1, hstored.2.2.2.2⟩
  · cases h

def entryOf (file : Text × Bytes) : ZipEntry := ⟨file.1, false, true, file.2.length, file.2⟩

/-- The loop reads stored entries of distinct valid paths into the map. -/
theorem readEntries_ok {K : Crates} {files : List (Text × Bytes)} (read : Files) (total : ℕ)
    (hvalid : ∀ file ∈ files, validateCanonicalPath K file.1 = true)
    (heach : ∀ file ∈ files, file.2.length ≤ Storage.maxFileBytes) (hkeys : (files.map Prod.fst).Nodup)
    (hnew : ∀ file ∈ files, read.contains file.1 = false)
    (htotal : total + (files.map fun file => file.2.length).sum ≤ Storage.maxTotalBytes) :
    ∃ sum, (files.map entryOf).foldlM (readEntry K) (read, total) =
      some (files.foldl (fun read file => read.insert file.1 file.2) read, sum) := by
  induction files generalizing read total with
  | nil => exact ⟨total, rfl⟩
  | cons file files ih =>
    rw [List.map_cons, List.sum_cons] at htotal
    rw [List.map_cons, List.nodup_cons] at hkeys
    have hlength := heach file List.mem_cons_self
    have hstep : readEntry K (read, total) (entryOf file) =
        some (read.insert file.1 file.2, total + file.2.length) := by
      have htake : file.2.take (Storage.maxFileBytes + 1) = file.2 := List.take_of_length_le (by omega)
      have hguard : ¬((entryOf file).isDir = true ∨ ¬(entryOf file).stored = true ∨
          validateCanonicalPath K (entryOf file).name = false ∨ Storage.maxFileBytes < (entryOf file).size) := by
        simp only [entryOf, hvalid file List.mem_cons_self]
        simpa using hlength
      have hfits : ¬(Storage.maxTotalBytes < total + file.2.length ∨ read.contains file.1 = true) := by
        rw [hnew file List.mem_cons_self]
        simp only [Bool.false_eq_true, or_false]
        omega
      rw [readEntry, if_neg hguard]
      simp only [entryOf, htake, ne_eq, not_true_eq_false, if_false, if_neg hfits]
    have hrest := ih (read.insert file.1 file.2) (total + file.2.length)
      (fun other hmem => hvalid other (List.mem_cons_of_mem _ hmem))
      (fun other hmem => heach other (List.mem_cons_of_mem _ hmem)) hkeys.2 ?_ (by omega)
    · obtain ⟨sum, hsum⟩ := hrest
      refine ⟨sum, ?_⟩
      rw [List.map_cons, List.foldlM_cons, hstep]
      exact hsum
    · intro other hmem
      have hne : file.1 ≠ other.1 := fun h => hkeys.1 (h ▸ List.mem_map_of_mem hmem)
      rw [Std.ExtTreeMap.contains_insert, hnew other (List.mem_cons_of_mem _ hmem), Bool.or_false]
      exact beq_eq_false_iff_ne.mpr fun h => hne (Std.LawfulEqCmp.eq_of_compare h)

theorem getElem?_foldl_insert {files : List (Text × Bytes)} (hkeys : (files.map Prod.fst).Nodup) (read : Files)
    (path : Text) (bytes : Bytes) :
    (files.foldl (fun read file => read.insert file.1 file.2) read)[path]? = some bytes ↔
      (path, bytes) ∈ files ∨ path ∉ files.map Prod.fst ∧ read[path]? = some bytes := by
  induction files generalizing read with
  | nil => simp
  | cons file files ih =>
    rw [List.map_cons, List.nodup_cons] at hkeys
    rw [List.foldl_cons, ih hkeys.2, Std.ExtTreeMap.getElem?_insert]
    split
    · rename_i heq
      have hpath := Std.LawfulEqCmp.eq_of_compare heq
      subst hpath
      constructor
      · rintro (hmem | ⟨-, h⟩)
        · exact .inl (List.mem_cons_of_mem _ hmem)
        · cases h
          exact .inl List.mem_cons_self
      · rintro (hmem | ⟨hnot, -⟩)
        · rcases List.mem_cons.mp hmem with hfile | hmem
          · exact .inr ⟨hkeys.1, congrArg (fun file => some file.2) hfile.symm⟩
          · exact .inl hmem
        · exact absurd List.mem_cons_self hnot
    · rename_i hne
      have hpath : file.1 ≠ path := fun h => hne (h ▸ Std.ReflCmp.compare_self)
      simp only [List.mem_cons, List.map_cons, not_or]
      constructor
      · rintro (hmem | ⟨hnot, h⟩)
        · exact .inl (.inr hmem)
        · exact .inr ⟨⟨hpath.symm, hnot⟩, h⟩
      · rintro ((hfile | hmem) | ⟨⟨-, hnot⟩, h⟩)
        · exact absurd (congrArg Prod.fst hfile).symm hpath
        · exact .inl hmem
        · exact .inr ⟨hnot, h⟩

theorem foldl_insert_toList (files : Files) :
    files.toList.foldl (fun read file => read.insert file.1 file.2) ∅ = files := by
  have hkeys : (files.toList.map Prod.fst).Nodup := by
    rw [Std.ExtTreeMap.map_fst_toList_eq_keys]
    exact Std.ExtTreeMap.nodup_keys
  refine Std.ExtTreeMap.ext_getElem? fun path => Option.ext fun bytes => ?_
  rw [getElem?_foldl_insert hkeys, ← Std.ExtTreeMap.mem_toList_iff_getElem?_eq_some]
  simp

/-- The archive of admitted files is read back to these files. -/
theorem persistedArchiveFiles_zip {R : Readers} {K : Crates} {files : Files} {bytes : Bytes}
    (hentries : R.zipEntries bytes = some (files.toList.map entryOf)) (hempty : files.isEmpty = false)
    (hvalid : ∀ file ∈ files.toList, validateCanonicalPath K file.1 = true) (hadmitted : Admitted files) :
    persistedArchiveFiles R K bytes = some files := by
  have hkeys : (files.toList.map Prod.fst).Nodup := by
    rw [Std.ExtTreeMap.map_fst_toList_eq_keys]
    exact Std.ExtTreeMap.nodup_keys
  obtain ⟨sum, hsum⟩ := readEntries_ok ∅ 0 hvalid hadmitted.each hkeys (fun file _ => rfl)
    (by rw [Nat.zero_add]; exact hadmitted.total)
  have hguard : ¬((files.toList.map entryOf).isEmpty = true ∨ Storage.maxFiles < (files.toList.map entryOf).length) := by
    rw [List.isEmpty_map, Std.ExtTreeMap.isEmpty_toList, hempty, List.length_map]
    have := hadmitted.count
    simp only [Bool.false_eq_true, false_or]
    omega
  simp only [persistedArchiveFiles, hentries, Option.bind_eq_bind, Option.bind_some, if_neg hguard, hsum]
  rw [foldl_insert_toList]
  rfl

/-- What a later program recovers of an export: everything, if it has the version of the program that made it. -/
theorem recoverPersistedExport_eq (version later : Text) (R : Readers) (K : Crates)
    (verifyRetainedRevision : Text → Text → Bool) (request : ExportRequest) (persisted : PersistedExport)
    (hR : R.Faithful version K request.input)
    (hstored : (Storage.storedFiles K request.acceptedFiles.toList).isSome = true)
    (hretained : verifyRetainedRevision request.revisionId request.acceptedManifestSha256 = true)
    (h : createExport version K request = .ok persisted) :
    recoverPersistedExport later R K verifyRetainedRevision request.projectId persisted =
      if later = version then
        some (request.exportId, ⟨request.projectId, request.revisionId, persisted.archiveSha256, persisted.archiveZip⟩)
      else none := by
  unfold createExport at h
  rw [bind_ok] at h
  obtain ⟨artifact, hgenerate, h⟩ := h
  obtain rfl := pure_ok.mp h
  obtain ⟨hgenerated, hagain⟩ := generateStaticExportBy_ok hgenerate
  obtain ⟨again, hregenerate, hzip, hreceipt, hjson⟩ := hagain later
  have hfiles : persistedArchiveFiles R K artifact.zipBytes = some request.acceptedFiles :=
    persistedArchiveFiles_zip (hR.zipEntries _ hgenerated.zip) hgenerated.paths.1 hgenerated.paths.2
      (admitted_of_storedFiles hstored)
  have hread : R.receipt artifact.receiptJson = some artifact.receipt := hR.receipt artifact hgenerate
  have hsame : again.receipt = artifact.receipt ↔ later = version := by
    rw [hreceipt]
    constructor
    · intro h
      rw [← hgenerated.applicationVersion]
      exact congrArg ExportReceiptV1.applicationVersion h
    · rintro rfl
      rw [← hgenerated.applicationVersion]
  have hinput : (⟨artifact.receipt.sourceRevisionId, artifact.receipt.sourceManifestSha256,
      artifact.receipt.generatedAtUtc, artifact.receipt.options.entryPoint, request.acceptedFiles⟩ : StaticExportInput) =
      request.input := by
    rw [hgenerated.sourceRevisionId, hgenerated.sourceManifestSha256, hgenerated.generatedAtUtc, hgenerated.entryPoint]
    rfl
  have hbinding : ¬(canonicalJson artifact.receipt.toJson ≠ artifact.receiptJson ∨
      artifact.receipt.sourceRevisionId ≠ request.revisionId ∨
      artifact.receipt.archive.sha256 ≠ K.sha256 artifact.zipBytes ∨
      artifact.receipt.archive.byteLength ≠ artifact.zipBytes.length) := by
    rw [hgenerated.archive, hgenerated.sourceRevisionId, hgenerated.receiptJson]
    simp [ExportRequest.input]
  have hverified : ¬¬verifyRetainedRevision request.revisionId artifact.receipt.sourceManifestSha256 = true := by
    rw [hgenerated.sourceManifestSha256]
    exact not_not.mpr hretained
  have hreproduced : (again.receipt ≠ artifact.receipt ∨ again.receiptJson ≠ artifact.receiptJson ∨
      again.zipBytes ≠ artifact.zipBytes) ↔ later ≠ version := by
    rw [hzip, hjson, hgenerated.receiptJson, ← not_iff_not]
    simp only [not_or, not_not, ne_eq, and_true, hsame]
    constructor
    · exact fun h => h.1
    · exact fun h => ⟨h, by rw [hsame.mpr h]⟩
  simp only [recoverPersistedExport, hread, hfiles, hinput, hregenerate, if_neg hbinding, if_neg hverified,
    Option.bind_eq_bind, Option.bind_some, Except.toOption, ne_eq, not_true_eq_false, or_self, if_false]
  by_cases hversion : later = version
  · rw [if_neg (mt hreproduced.mp (not_not.mpr hversion)), if_pos hversion]
    rfl
  · rw [if_pos (hreproduced.mpr hversion), if_neg hversion]
    rfl

/-- A later program recovers an export if and only if it was built with the version of the program that made it. -/
theorem recoverPersistedExport_iff (version later : Text) (R : Readers) (K : Crates)
    (verifyRetainedRevision : Text → Text → Bool) (request : ExportRequest) (persisted : PersistedExport)
    (hR : R.Faithful version K request.input)
    (hstored : (Storage.storedFiles K request.acceptedFiles.toList).isSome = true)
    (hretained : verifyRetainedRevision request.revisionId request.acceptedManifestSha256 = true)
    (h : createExport version K request = .ok persisted) :
    recoverPersistedExport later R K verifyRetainedRevision request.projectId persisted =
        some (request.exportId, ⟨request.projectId, request.revisionId, persisted.archiveSha256, persisted.archiveZip⟩) ↔
      later = version := by
  rw [recoverPersistedExport_eq version later R K verifyRetainedRevision request persisted hR hstored hretained h]
  by_cases hversion : later = version
  · rw [if_pos hversion]
    exact iff_of_true rfl hversion
  · rw [if_neg hversion]
    exact iff_of_false (Option.some_ne_none _).symm hversion

/-- Readers of one export. -/
def readersOf (version : Text) (K : Crates) (input : StaticExportInput) : Readers where
  zipEntries bytes := if K.zip input.files.toList = some bytes then some (input.files.toList.map entryOf) else none
  receipt bytes :=
    ((generateStaticExportBy version K input).toOption.filter (·.receiptJson = bytes)).map (·.receipt)

theorem readersOf_faithful (version : Text) (K : Crates) (input : StaticExportInput) :
    (readersOf version K input).Faithful version K input where
  zipEntries bytes h := if_pos h
  receipt artifact h := by simp [readersOf, h, Except.toOption]

def sampleRequest : ExportRequest where
  projectId := "prj_0".toList
  revisionId := "rev_0".toList
  acceptedManifestSha256 := List.replicate 64 'a'
  acceptedFiles := (∅ : Files).insert "index.html".toList (encode "<p>a</p>".toList)
  exportId := "exp_0".toList
  generatedAtUtc := "2026-07-19T12:00:00Z".toList

set_option maxRecDepth 100000 in
theorem sampleRequest_created : ∃ persisted, createExport "0.0.0".toList sampleCrates sampleRequest = .ok persisted := by
  have hrun : (createExport "0.0.0".toList sampleCrates sampleRequest).toOption.any (fun _ => true) = true := by
    decide
  obtain ⟨persisted, h, -⟩ := exists_of_any hrun
  exact ⟨persisted, h⟩

set_option maxRecDepth 100000 in
theorem recoverPersistedExport_same_version : ∃ persisted,
    createExport "0.0.0".toList sampleCrates sampleRequest = .ok persisted ∧
    (recoverPersistedExport "0.0.0".toList (readersOf "0.0.0".toList sampleCrates sampleRequest.input) sampleCrates
      (fun _ _ => true) "prj_0".toList persisted).isSome = true := by
  obtain ⟨persisted, h⟩ := sampleRequest_created
  refine ⟨persisted, h, ?_⟩
  have hrecovered := (recoverPersistedExport_iff _ "0.0.0".toList _ _ (fun _ _ => true) sampleRequest persisted
    (readersOf_faithful _ _ _) (by decide) rfl h).mpr rfl
  exact Option.isSome_of_eq_some hrecovered

set_option maxRecDepth 100000 in
/-- The next version refuses the export, and with it the data root. -/
theorem recoverPersistedExport_next_version : ∃ persisted,
    createExport "0.0.0".toList sampleCrates sampleRequest = .ok persisted ∧
    (readersOf "0.0.0".toList sampleCrates sampleRequest.input).Faithful "0.0.0".toList sampleCrates
      sampleRequest.input ∧
    recoverPersistedExport "0.0.1".toList (readersOf "0.0.0".toList sampleCrates sampleRequest.input) sampleCrates
      (fun _ _ => true) "prj_0".toList persisted = none := by
  obtain ⟨persisted, h⟩ := sampleRequest_created
  refine ⟨persisted, h, readersOf_faithful _ _ _, ?_⟩
  have hrefused := recoverPersistedExport_eq "0.0.0".toList "0.0.1".toList _ _ (fun _ _ => true) sampleRequest persisted
    (readersOf_faithful _ _ _) (by decide) rfl h
  rw [if_neg (by decide)] at hrefused
  exact hrefused

end LpStudio.StaticExport
