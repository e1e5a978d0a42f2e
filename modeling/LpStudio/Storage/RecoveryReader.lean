import LpStudio.Storage.Backup
import LpStudio.Storage.Materialize

/-! # The recovery reader
The listing of the recovery points of a managed root and the snapshot of one of them, as `RecoveryReader` of
`storage.rs` reads them from a root that may be damaged.
-/
namespace LpStudio.Storage.RecoveryReader
open Str Paths Outcome DirTree

def maxRecoveryPoints : ℕ := maxRecoveryBackups + maxPersistedProjects
def maxPointerBytes : ℕ := 64 * 1024
def maxRevisionManifestBytes : ℕ := 4 * 1024 * 1024

/-- `CurrentPointer`, whose fields a backup reads too. -/
abbrev Pointer := Backup.BackupPointer

/-- `RevisionManifest`, as it is serialized. -/
structure RevisionRecord where
  schemaVersion : Text
  revisionId : Text
  artifactManifestSha256 : Text
  files : List StoredFile
  deriving DecidableEq

/-- What stands under the name of a backup. -/
structure BackupDirectory where
  names : List Text
  /-- `manifest.json`, if it is a regular file. -/
  manifest : Option Bytes
  /-- `project`, if it is made of regular files and real directories only. -/
  project : Option Backup.ProjectTree

/-- What the reader reads of a project: the regular files among `current.json` and the entries of `revisions`. -/
structure ProjectDirectory where
  current : Option Bytes
  revisions : Std.ExtTreeMap Text Bytes compare

inductive Entry (α : Type) where
  | symlink
  | other
  | directory (content : α)

/-- The directories `backups`, `projects` and `objects`, by the bytes of the names of their entries. -/
structure RecoveryRoot where
  backups : Std.ExtTreeMap Bytes (Entry BackupDirectory) compare
  projects : Std.ExtTreeMap Bytes (Entry ProjectDirectory) compare
  objects : Objects

/-- `serde_json::from_slice` at the types of the three records. -/
structure Readers where
  backupManifest : Bytes → Option Backup.BackupManifest
  pointer : Bytes → Option Pointer
  revision : Bytes → Option RevisionRecord

inductive RecoveryPointKind where
  | versionedBackup | lastAccepted
  deriving DecidableEq, Repr

structure RecoveryDiagnostic where
  verified : Bool
  code : Text
  manifestSha256 : Option Text
  fileCount : ℕ
  totalBytes : ℕ
  deriving DecidableEq, Repr

structure RecoveryPointSummary where
  id : Text
  kind : RecoveryPointKind
  projectId : Text
  revisionId : Option Text
  artifactManifestSha256 : Option Text
  diagnostic : RecoveryDiagnostic
  deriving DecidableEq, Repr

structure RecoverySnapshot where
  point : RecoveryPointSummary
  files : Files

/-! ## Names -/

/-- The identifier and the nonce in the name of a staging directory. -/
def stagingParts (namePrefix idPrefix : String) (value : Text) : Option (Text × Text) := do
  let rest ← stripPrefix namePrefix.toList value
  let parts ← splitOnce ".".toList rest
  if validateIdentifier parts.1 idPrefix.toList = .ok () ∧ validateNonce parts.2 = .ok () then some parts else none

def backupDeletingStagingParts : Text → Option (Text × Text) := stagingParts ".deleting-backup-" "bkp_"
def isOwnedCreationStaging (value : Text) : Bool := (stagingParts ".creating-" "prj_" value).isSome
def isOwnedProjectMigrationStaging (value : Text) : Bool := (stagingParts ".migrating-" "prj_" value).isSome
def isOwnedMigrationOld (value : Text) : Bool := (stagingParts ".migration-old-" "prj_" value).isSome
def isOwnedProjectDeletingStaging (value : Text) : Bool := (stagingParts ".deleting-project-" "prj_" value).isSome

def isOwnedBackupStaging (value : Text) : Bool :=
  (stagingParts ".creating-backup-" "bkp_" value).any fun parts => stripPrefix "bkp_".toList parts.1 = some parts.2

/-- A name that `to_str` reads and that `validate_identifier` accepts. -/
def identified (idPrefix : String) (rawName : Bytes) : Option Text :=
  (decode rawName).filter fun name => validateIdentifier name idPrefix.toList = .ok ()

/-- The first half of a digest. -/
def shortDigest (K : Crates) (fingerprint : Bytes) : Text := (K.sha256 fingerprint).take 32

def entryFingerprint (sourceKind : String) (sourceName : Bytes) : Bytes := encode sourceKind.toList ++ 0 :: sourceName

def recoveryUnverifiedId (K : Crates) (idPrefix sourceKind : String) (sourceName : Bytes) : Text :=
  idPrefix.toList ++ shortDigest K (entryFingerprint sourceKind sourceName)

def acceptedFingerprint (projectId : Text) (pointer : Option Pointer) : Bytes :=
  encode projectId ++ pointer.elim [] fun pointer => encode pointer.revisionId ++ encode pointer.canonicalManifestSha256

def acceptedRecoveryId (K : Crates) (projectId : Text) (pointer : Option Pointer) : Text :=
  "acc_".toList ++ shortDigest K (acceptedFingerprint projectId pointer)

/-! ## Reading -/

def readRegularFileBounded (file : Option Bytes) (maximum : ℕ) : Except StorageError Bytes :=
  match file with
  | some bytes => if bytes.length ≤ maximum then .ok bytes else .error .corrupt
  | none => .error .corrupt

/-- `read_canonical_json_bounded` after the read. -/
def canonicalRecord {α : Type} (parse : Bytes → Option α) (toJson : α → Json) (bytes : Bytes) : Except StorageError α :=
  match parse bytes with
  | some value => if Backup.canonicalBytes (toJson value) = bytes then .ok value else .error .corrupt
  | none => .error .corrupt

def pointerJson (pointer : Pointer) : Json := .obj [
  ("schemaVersion".toList, .str pointer.schemaVersion), ("revisionId".toList, .str pointer.revisionId),
  ("canonicalManifestSha256".toList, .str pointer.canonicalManifestSha256),
  ("artifactManifestSha256".toList, .str pointer.artifactManifestSha256)]

def storedFileJson (file : StoredFile) : Json := .obj [
  ("path".toList, .str file.path), ("mediaType".toList, .str file.mediaType),
  ("byteLength".toList, .num file.byteLength), ("sha256".toList, .str file.sha256)]

def revisionJson (record : RevisionRecord) : Json := .obj [
  ("schemaVersion".toList, .str record.schemaVersion), ("revisionId".toList, .str record.revisionId),
  ("artifactManifestSha256".toList, .str record.artifactManifestSha256),
  ("files".toList, .arr (record.files.map storedFileJson))]

/-- `current.json`, read and validated. -/
def readPointer (R : Readers) (file : Option Bytes) : Except StorageError Pointer := do
  let bytes ← readRegularFileBounded file maxPointerBytes
  let pointer ← canonicalRecord R.pointer pointerJson bytes
  Backup.validatePointer pointer
  return pointer

def revisionFileName (pointer : Pointer) : Text := pointer.revisionId ++ ".json".toList

/-- `read_manifest_from_root`; `read_last_accepted_from_project_tree` makes the same checks. -/
def readManifestFromRoot (R : Readers) (K : Crates) (file : Option Bytes) (pointer : Pointer) :
    Except StorageError RevisionRecord := do
  let bytes ← readRegularFileBounded file maxRevisionManifestBytes
  ensure (K.sha256 bytes = pointer.canonicalManifestSha256) .corrupt
  let manifest ← canonicalRecord R.revision revisionJson bytes
  ensure (manifest.schemaVersion = Backup.storageSchema ∧ manifest.revisionId = pointer.revisionId ∧
    manifest.artifactManifestSha256 = pointer.artifactManifestSha256 ∧
    validateSha256 manifest.artifactManifestSha256 = .ok () ∧ validateStoredFiles K manifest.files = .ok ()) .corrupt
  return manifest

/-- The turn of the loop of `load_manifest_files`. -/
def loadManifestFile (K : Crates) (objects : Objects) (files : Files) (entry : StoredFile) :
    Except StorageError Files := do
  ensure (entry.byteLength ≤ maxFileBytes) .corrupt
  let object : Text × Bytes ← Root.readObject K objects entry
  return files.insert entry.path object.2

def loadManifestFiles (K : Crates) (objects : Objects) (manifest : RevisionRecord) : Except StorageError Files :=
  manifest.files.foldlM (loadManifestFile K objects) ∅

def fileAt (tree : Backup.ProjectTree) (path : List Text) : Option Bytes :=
  match tree.entries[path]? with
  | some (.file bytes) => some bytes
  | _ => none

def readLastAcceptedFromProjectTree (R : Readers) (K : Crates) (tree : Backup.ProjectTree) :
    Except StorageError Files := do
  let pointer ← readPointer R (fileAt tree ["current.json".toList])
  let manifest ← readManifestFromRoot R K (fileAt tree ["revisions".toList, revisionFileName pointer]) pointer
  let files ← Materialize.scanMaterializedFiles K tree ["site".toList]
  let stored ← (storedFiles K files.toList).elim (.error .corrupt) .ok
  ensure (stored = manifest.files) .corrupt
  return files

/-- `verify_backup_root` of a directory that has the name of a backup. -/
def verifyBackupRoot (R : Readers) (K : Crates) (name : Text) (backup : BackupDirectory) :
    Except StorageError (Backup.BackupManifest × Backup.ProjectTree) := do
  ensure (backup.names = ["manifest.json".toList, "project".toList]) .corrupt
  let project ← backup.project.elim (.error .corrupt) .ok
  let bytes ← readRegularFileBounded backup.manifest Backup.maxBackupManifestBytes
  let manifest ← canonicalRecord R.backupManifest Backup.BackupManifest.toJson bytes
  Backup.verifyBackupRoot K ⟨name, manifest, project⟩ none
  return (manifest, project)

/-! ## The points -/

def unverifiedRecoveryPoint (kind : RecoveryPointKind) (id projectId : Text) (code : String) : RecoveryPointSummary where
  id
  kind
  projectId
  revisionId := none
  artifactManifestSha256 := none
  diagnostic := ⟨false, code.toList, none, 0, 0⟩

def verifiedBackupSummary (R : Readers) (K : Crates) (name : Text) (backup : BackupDirectory) :
    Except StorageError RecoveryPointSummary := do
  let verified ← verifyBackupRoot R K name backup
  let files ← readLastAcceptedFromProjectTree R K verified.2
  let bytes ← readRegularFileBounded backup.manifest Backup.maxBackupManifestBytes
  return {
    id := verified.1.backupId
    kind := .versionedBackup
    projectId := verified.1.projectId
    revisionId := some verified.1.revisionId
    artifactManifestSha256 := some verified.1.artifactManifestSha256
    diagnostic := ⟨true, "backup_verified".toList, some (K.sha256 bytes), files.size,
      (files.toList.map (·.2.length)).sum⟩ }

/-- The pointer and the manifest of a project. -/
def readAccepted (R : Readers) (K : Crates) (project : ProjectDirectory) :
    Except StorageError (Pointer × RevisionRecord) := do
  let pointer ← readPointer R project.current
  let manifest ← readManifestFromRoot R K project.revisions[revisionFileName pointer]? pointer
  return (pointer, manifest)

def activeRecoverySummary (R : Readers) (K : Crates) (objects : Objects) (project : ProjectDirectory)
    (projectId : Text) : Except StorageError RecoveryPointSummary := do
  let accepted ← readAccepted R K project
  let _ ← loadManifestFiles K objects accepted.2
  return {
    id := acceptedRecoveryId K projectId (some accepted.1)
    kind := .lastAccepted
    projectId
    revisionId := some accepted.1.revisionId
    artifactManifestSha256 := some accepted.1.artifactManifestSha256
    diagnostic := ⟨true, "last_accepted_verified".toList, some accepted.1.canonicalManifestSha256,
      accepted.2.files.length, (accepted.2.files.map (·.byteLength)).sum⟩ }

/-- What the turn of the loop over the backups pushes for an entry. -/
def backupPoint (R : Readers) (K : Crates) (entry : Bytes × Entry BackupDirectory) : RecoveryPointSummary :=
  match identified "bkp_" entry.1 with
  | some name =>
    match entry.2 with
    | .directory backup =>
      match verifiedBackupSummary R K name backup with
      | .ok summary => summary
      | .error _ => unverifiedRecoveryPoint .versionedBackup name [] "backup_corrupt"
    | _ => unverifiedRecoveryPoint .versionedBackup name [] "backup_unsafe_entry"
  | none =>
    let interrupted := (decode entry.1).any fun name =>
      isOwnedBackupStaging name || (backupDeletingStagingParts name).isSome
    unverifiedRecoveryPoint .versionedBackup (recoveryUnverifiedId K "bkp_" "backup-entry" entry.1) []
      (if interrupted then "backup_interrupted" else
        match entry.2 with
        | .symlink => "backup_unsafe_entry"
        | _ => "backup_unknown_entry")

/-- What the turn of the loop over the projects pushes for an entry. -/
def projectPoint (R : Readers) (K : Crates) (objects : Objects) (entry : Bytes × Entry ProjectDirectory) :
    RecoveryPointSummary :=
  match identified "prj_" entry.1 with
  | some name =>
    match entry.2 with
    | .directory project =>
      match activeRecoverySummary R K objects project name with
      | .ok summary => summary
      | .error _ =>
        unverifiedRecoveryPoint .lastAccepted (acceptedRecoveryId K name none) name "last_accepted_unverified"
    | _ => unverifiedRecoveryPoint .lastAccepted (acceptedRecoveryId K name none) name "project_unsafe_entry"
  | none =>
    let interrupted := (decode entry.1).any fun name =>
      isOwnedCreationStaging name || isOwnedProjectMigrationStaging name || isOwnedProjectDeletingStaging name ||
        isOwnedMigrationOld name
    unverifiedRecoveryPoint .lastAccepted (recoveryUnverifiedId K "acc_" "project-entry" entry.1) []
      (if interrupted then "project_interrupted" else
        match entry.2 with
        | .symlink => "project_unsafe_entry"
        | _ => "project_unknown_entry")

def pushRecoveryPoint (points : List RecoveryPointSummary) (point : RecoveryPointSummary) :
    Except StorageError (List RecoveryPointSummary) := do
  ensure (points.length ≠ maxRecoveryPoints ∧ point.id ∉ points.map (·.id)) .corrupt
  return points ++ [point]

/-- The turn of a loop of `list_points`; the state counts the entries with an identifier for a name. -/
def pushEntry {α : Type} (retained : Bytes → Bool) (maximum : ℕ) (point : Bytes × α → RecoveryPointSummary)
    (state : List RecoveryPointSummary × ℕ) (entry : Bytes × α) :
    Except StorageError (List RecoveryPointSummary × ℕ) := do
  let count := if retained entry.1 then state.2 + 1 else state.2
  ensure (count ≤ maximum) .corrupt
  let points ← pushRecoveryPoint state.1 (point entry)
  return (points, count)

def pushEntries {α : Type} (retained : Bytes → Bool) (maximum : ℕ) (point : Bytes × α → RecoveryPointSummary)
    (entries : List (Bytes × α)) (points : List RecoveryPointSummary) :
    Except StorageError (List RecoveryPointSummary) := do
  let pushed ← entries.foldlM (pushEntry retained maximum point) (points, 0)
  return pushed.1

def isBackupName (rawName : Bytes) : Bool := (identified "bkp_" rawName).isSome

def isProjectName (rawName : Bytes) : Bool := (identified "prj_" rawName).isSome

def listPoints (R : Readers) (K : Crates) (root : RecoveryRoot) : Except StorageError (List RecoveryPointSummary) := do
  boundedDirectoryEntries root.backups.size maxRecoveryPoints
  let backups ← pushEntries isBackupName maxRecoveryBackups (backupPoint R K)
    root.backups.toList []
  boundedDirectoryEntries root.projects.size maxRecoveryPoints
  let points ← pushEntries isProjectName maxPersistedProjects
    (projectPoint R K root.objects) root.projects.toList backups
  return points.mergeSort fun a b => (compare a.id b.id).isLE

/-- The files of a point that the list calls verified. -/
def snapshotFiles (R : Readers) (K : Crates) (root : RecoveryRoot) (point : RecoveryPointSummary) :
    Except StorageError Files := do
  match point.kind with
  | .versionedBackup =>
    validateIdentifier point.id "bkp_".toList
    match root.backups[encode point.id]? with
    | some (.directory backup) =>
      let verified ← verifyBackupRoot R K point.id backup
      readLastAcceptedFromProjectTree R K verified.2
    | _ => throw .corrupt
  | .lastAccepted =>
    match root.projects[encode point.projectId]? with
    | some (.directory project) =>
      let accepted ← readAccepted R K project
      loadManifestFiles K root.objects accepted.2
    | _ => throw .corrupt

def openSnapshot (R : Readers) (K : Crates) (root : RecoveryRoot) (id : Text) : Except StorageError RecoverySnapshot := do
  let points ← listPoints R K root
  match points.find? (·.id = id) with
  | none => throw .corrupt
  | some point =>
    ensure (point.diagnostic.verified = true) .corrupt
    let files ← snapshotFiles R K root point
    return ⟨point, files⟩

end LpStudio.Storage.RecoveryReader
