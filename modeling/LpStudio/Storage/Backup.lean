import LpStudio.Lib.DirTree
import LpStudio.Lib.Json
import LpStudio.Site.Paths
import LpStudio.Storage.Names

/-! # Backups
The collection of a project tree, the backup of a project and its migration to the new layout, as `storage.rs` does
them when no input or output fails.
-/
namespace LpStudio.Storage.Backup
open Str Paths Outcome DirTree

def maxBackupTreeEntries : ℕ := 16384
def maxBackupTreeDepth : ℕ := 32
def maxBackupFileBytes : ℕ := 512 * 1024 * 1024
def maxBackupTotalBytes : ℕ := 32 * 1024 * 1024 * 1024
def maxBackupManifestBytes : ℕ := 8 * 1024 * 1024
def storageSchema : Text := "1".toList
def backupFormatVersion : Text := "1".toList
def projectLayoutVersion : Text := "2".toList
def projectLayoutMarker : Text := "layout.json".toList

/-- A directory of regular files and real directories. -/
abbrev ProjectTree := Tree Text Bytes

structure BackupFile where
  path : Text
  byteLength : ℕ
  sha256 : Text
  deriving DecidableEq, Repr

structure BackupManifest where
  schemaVersion : Text
  formatVersion : Text
  backupId : Text
  projectId : Text
  revisionId : Text
  artifactManifestSha256 : Text
  directories : List Text
  files : List BackupFile
  deriving DecidableEq, Repr

/-- What a backup takes from the journal of the migration. -/
structure MigrationJournal where
  backupId : Text
  projectId : Text
  deriving DecidableEq, Repr

/-- What a backup takes from `current.json`. -/
structure BackupPointer where
  schemaVersion : Text
  revisionId : Text
  canonicalManifestSha256 : Text
  artifactManifestSha256 : Text
  deriving DecidableEq, Repr

/-- A directory with a `manifest.json` and a `project`, under a name that holds the identifier of a backup. -/
structure BackupRoot where
  backupId : Text
  manifest : BackupManifest
  project : ProjectTree

def BackupFile.toJson (file : BackupFile) : Json := .obj [
  ("path".toList, .str file.path), ("byteLength".toList, .num file.byteLength), ("sha256".toList, .str file.sha256)]

def BackupManifest.toJson (manifest : BackupManifest) : Json := .obj [
  ("schemaVersion".toList, .str manifest.schemaVersion), ("formatVersion".toList, .str manifest.formatVersion),
  ("backupId".toList, .str manifest.backupId), ("projectId".toList, .str manifest.projectId),
  ("revisionId".toList, .str manifest.revisionId),
  ("artifactManifestSha256".toList, .str manifest.artifactManifestSha256),
  ("directories".toList, .arr (manifest.directories.map .str)),
  ("files".toList, .arr (manifest.files.map (·.toJson)))]

/-- `canonical_json` of `storage.rs`. -/
def canonicalBytes (value : Json) : Bytes := encode value.render

/-- `ProjectLayoutMarker` of the new layout. -/
def layoutMarker : Bytes := canonicalBytes (.obj [
  ("schemaVersion".toList, .str storageSchema), ("layoutVersion".toList, .str projectLayoutVersion)])

/-! ## The collection of a tree -/

def joinPath (path : List Text) : Text := PathOrder.join '/' path

/-- A component that `backup_relative_path` and `backup_path` accept. -/
def backupPart (K : Crates) (part : Text) : Bool :=
  !(part.isEmpty || part ∈ [".".toList, "..".toList] || part.any (· ∈ ['\x00', '/', '\\']) || K.nfc part != part ||
    part.any isControl)

def backupRelativePath (K : Crates) (path : List Text) : Except StorageError Text :=
  if path.all (backupPart K) ∧ path ≠ [] ∧ path.length ≤ maxBackupTreeDepth ∧
      byteLength (joinPath path) ≤ 4 * maxPathBytes then .ok (joinPath path)
  else .error .corrupt

def backupPath (K : Crates) (relative : Text) : Except StorageError (List Text) :=
  if relative.isEmpty ∨ 4 * maxPathBytes < byteLength relative ∨ maxBackupTreeDepth < (segments relative).length ∨
      ¬(segments relative).all (backupPart K) then .error .corrupt
  else .ok (segments relative)

/-- The lists and the budget of `collect_backup_tree_directory`. -/
structure Collected where
  directories : List Text
  files : List BackupFile
  entries : ℕ
  totalBytes : ℕ
  deriving DecidableEq, Repr

def backupFile (K : Crates) (path : List Text) (bytes : Bytes) : BackupFile where
  path := joinPath path
  byteLength := bytes.length
  sha256 := K.sha256 bytes

/-- The turn of the loop of `collect_backup_tree_directory` for one entry, before it enters a directory. -/
def collectEntry (K : Crates) (tree : ProjectTree) (collected : Collected) (path : List Text) :
    Except StorageError Collected := do
  if maxBackupTreeEntries < collected.entries + 1 then throw .corrupt
  let relative ← backupRelativePath K path
  match tree.entries[path]? with
  | some (.file bytes) =>
    if maxBackupFileBytes < bytes.length ∨ maxBackupTotalBytes < collected.totalBytes + bytes.length then
      throw .corrupt
    return { collected with
      files := collected.files ++ [backupFile K path bytes]
      entries := collected.entries + 1
      totalBytes := collected.totalBytes + bytes.length }
  | _ => return { collected with
      directories := collected.directories ++ [relative]
      entries := collected.entries + 1 }

def collectBackupTree (K : Crates) (tree : ProjectTree) : Except StorageError (List Text × List BackupFile) := do
  let collected ← tree.walk (collectEntry K tree) .corrupt (maxBackupTreeDepth + 1) [] ⟨[], [], 0, 0⟩
  return (collected.directories, collected.files)

/-! ## Manifests -/

/-- The paths increase, as the loops of `validate_backup_manifest` demand. -/
def Increasing (paths : List Text) : Prop := paths.IsChain fun a b => compare a b = .lt

instance (paths : List Text) : Decidable (Increasing paths) := inferInstanceAs (Decidable (List.IsChain _ _))

def validateBackupManifest (K : Crates) (manifest : BackupManifest) : Except StorageError Unit := do
  validateIdentifier manifest.backupId "bkp_".toList
  validateIdentifier manifest.projectId "prj_".toList
  validateIdentifier manifest.revisionId "rev_".toList
  validateSha256 manifest.artifactManifestSha256
  ensure (manifest.schemaVersion = storageSchema ∧ manifest.formatVersion = backupFormatVersion ∧
    manifest.directories.length + manifest.files.length ≤ maxBackupTreeEntries) .corrupt
  ensure (∀ directory ∈ manifest.directories, (backupPath K directory).toBool = true) .corrupt
  ensure (Increasing manifest.directories) .corrupt
  ensure (∀ file ∈ manifest.files, (backupPath K file.path).toBool = true ∧ validateSha256 file.sha256 = .ok () ∧
    file.byteLength ≤ maxBackupFileBytes) .corrupt
  ensure (Increasing (manifest.files.map (·.path))) .corrupt
  ensure ((manifest.files.map (·.byteLength)).sum ≤ maxBackupTotalBytes) .corrupt

def verifyBackupRoot (K : Crates) (root : BackupRoot) (journal : Option MigrationJournal) :
    Except StorageError Unit := do
  ensure ((canonicalBytes root.manifest.toJson).length ≤ maxBackupManifestBytes) .corrupt
  validateBackupManifest K root.manifest
  ensure (root.backupId = root.manifest.backupId) .corrupt
  ensure (∀ j ∈ journal, root.manifest.backupId = j.backupId ∧ root.manifest.projectId = j.projectId) .corrupt
  let collected ← collectBackupTree K root.project
  ensure (collected = (root.manifest.directories, root.manifest.files)) .corrupt

/-! ## The copy -/

def emptyTree : ProjectTree where
  entries := ∅
  root := Std.ExtTreeMap.not_mem_empty
  parent _ _ h := absurd h Std.ExtTreeMap.not_mem_empty

/-- A creation fails where the path is taken or its directory is missing. -/
def createEntry (tree : ProjectTree) (path : List Text) (node : Node Bytes) : Except StorageError ProjectTree :=
  match tree.create path node with
  | some tree => .ok tree
  | none => .error .io

def createDirectory (K : Crates) (tree : ProjectTree) (directory : Text) : Except StorageError ProjectTree := do
  let path ← backupPath K directory
  createEntry tree path .dir

def copyBackupFile (K : Crates) (source tree : ProjectTree) (expected : BackupFile) :
    Except StorageError ProjectTree := do
  let path ← backupPath K expected.path
  match source.entries[path]? with
  | some (.file bytes) =>
    if bytes.length ≠ expected.byteLength ∨ K.sha256 bytes ≠ expected.sha256 then throw .corrupt
    createEntry tree path (.file bytes)
  | _ => throw .io

def copyBackupTree (K : Crates) (source : ProjectTree) (manifest : BackupManifest) :
    Except StorageError ProjectTree := do
  validateBackupManifest K manifest
  let collected ← collectBackupTree K source
  ensure (collected = (manifest.directories, manifest.files)) .corrupt
  let created ← manifest.directories.foldlM (createDirectory K) emptyTree
  manifest.files.foldlM (copyBackupFile K source) created

def validatePointer (pointer : BackupPointer) : Except StorageError Unit := do
  ensure (pointer.schemaVersion = storageSchema) .corrupt
  validateIdentifier pointer.revisionId "rev_".toList
  validateSha256 pointer.canonicalManifestSha256
  validateSha256 pointer.artifactManifestSha256

def backupManifest (journal : MigrationJournal) (pointer : BackupPointer) (directories : List Text)
    (files : List BackupFile) : BackupManifest where
  schemaVersion := storageSchema
  formatVersion := backupFormatVersion
  backupId := journal.backupId
  projectId := journal.projectId
  revisionId := pointer.revisionId
  artifactManifestSha256 := pointer.artifactManifestSha256
  directories
  files

/-- `create_backup`; the backup is verified in its staging directory and again under its name. -/
def createBackup (K : Crates) (source : ProjectTree) (pointer : BackupPointer) (journal : MigrationJournal) :
    Except StorageError BackupRoot := do
  validatePointer pointer
  let (directories, files) ← collectBackupTree K source
  let manifest := backupManifest journal pointer directories files
  let project ← copyBackupTree K source manifest
  let root : BackupRoot := ⟨journal.backupId, manifest, project⟩
  verifyBackupRoot K root (some journal)
  verifyBackupRoot K root (some journal)
  return root

/-! ## The migrated tree -/

def layoutDirectories : List Text := ["targets".toList, "synapse".toList, "exports".toList, "publications".toList]

/-- `ensure_real_directory` of an entry of the project. -/
def ensureDirectory (tree : ProjectTree) (name : Text) : Except StorageError ProjectTree :=
  match tree.entries[[name]]? with
  | some .dir => .ok tree
  | some (.file _) => .error .corrupt
  | none => createEntry tree [name] .dir

/-- `write_immutable_json` of the layout marker. -/
def writeMarker (tree : ProjectTree) : Except StorageError ProjectTree :=
  match tree.entries[[projectLayoutMarker]]? with
  | some (.file bytes) => if bytes = layoutMarker then .ok tree else .error .corrupt
  | some .dir => .error .corrupt
  | none => createEntry tree [projectLayoutMarker] (.file layoutMarker)

/-- The names that a project directory may hold. -/
def projectFiles : List Text := ["project.json".toList, "current.json".toList, projectLayoutMarker]

def coreDirectories : List Text := ["site".toList, "revisions".toList, "proposals".toList]

/-- `validate_stable_project_inventory` -/
def validateStableProjectInventory (tree : ProjectTree) (requireNewLayout : Bool) : Except StorageError Unit :=
  ensure ((tree.children []).length ≤ 16 ∧
    (∀ name ∈ tree.children [], if tree.entries[[name]]? = some .dir then name ∈ coreDirectories ++ layoutDirectories
      else name ∈ projectFiles) ∧
    (∀ name ∈ projectFiles, (tree.entries[[name]]?.isSome && tree.entries[[name]]? != some .dir) =
      (requireNewLayout || name != projectLayoutMarker)) ∧
    (∀ name ∈ coreDirectories, tree.entries[[name]]? = some .dir) ∧
    (requireNewLayout = true → ∀ name ∈ layoutDirectories, tree.entries[[name]]? = some .dir)) .corrupt

/-- `validate_project_layout_marker` -/
def validateProjectLayoutMarker (tree : ProjectTree) : Except StorageError Unit :=
  ensure (tree.entries[[projectLayoutMarker]]? = some (.file layoutMarker)) .corrupt

/-- The order of `BackupFile`, which compares the paths first. -/
def BackupFile.cmp : BackupFile → BackupFile → Ordering :=
  compareLex (compareLex (compareOn BackupFile.path) (compareOn BackupFile.byteLength)) (compareOn BackupFile.sha256)

def validateMigratedStaging (K : Crates) (staging : ProjectTree) (backup : BackupRoot) (manifest : BackupManifest) :
    Except StorageError Unit := do
  verifyBackupRoot K backup none
  ensure (backup.manifest = manifest) .corrupt
  validateProjectLayoutMarker staging
  validateStableProjectInventory staging true
  let collected ← collectBackupTree K staging
  let expectedDirectories := (manifest.directories ++ layoutDirectories).dedup.insertionSort
    fun a b => (compare a b).isLE = true
  let expectedFiles := (manifest.files ++ [backupFile K [projectLayoutMarker] layoutMarker]).insertionSort
    fun a b => (BackupFile.cmp a b).isLE = true
  ensure (collected = (expectedDirectories, expectedFiles)) .corrupt

def createMigratedStaging (K : Crates) (backup : BackupRoot) (manifest : BackupManifest) :
    Except StorageError ProjectTree := do
  let copied ← copyBackupTree K backup.project manifest
  let extended ← layoutDirectories.foldlM ensureDirectory copied
  let staging ← writeMarker extended
  validateMigratedStaging K staging backup manifest
  return staging

end LpStudio.Storage.Backup
