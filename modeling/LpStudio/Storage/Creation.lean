import LpStudio.Lib.Publishing
import LpStudio.Storage.DisplayName
import LpStudio.Storage.ProjectResumption

/-! # Creation of projects, proposals and generated artifacts
Each of the three is built in a staging directory beside its final place, renamed to its final name and made durable by
a sync of the parent. The open that comes next removes what is left in staging and loads the rest.
-/
namespace LpStudio.Storage
open Str Fault

def maxPersistedExports : ℕ := 16
def maxPersistedPublications : ℕ := 16
def maxGeneratedStagingEntries : ℕ := 16
def maxGeneratedArchiveBytes : ℕ := 64 * 1024 * 1024
def maxGeneratedMetadataBytes : ℕ := 4 * 1024 * 1024
def maxGeneratedCollectionMetadataBytes : ℕ := 16 * 1024 * 1024

/-! ## Generated artifacts -/

inductive GeneratedArtifactKind where
  | staticExport | publicationDraft
  deriving DecidableEq, Repr

def GeneratedArtifactKind.idPrefix : GeneratedArtifactKind → Text
  | .staticExport => "exp_".toList
  | .publicationDraft => "pub_".toList

def GeneratedArtifactKind.maxRecords : GeneratedArtifactKind → ℕ
  | .staticExport => maxPersistedExports
  | .publicationDraft => maxPersistedPublications

structure GeneratedArtifactManifest where
  kind : GeneratedArtifactKind
  projectId : Text
  artifactId : Text
  revisionId : Text
  archiveSha256 : Text
  archiveByteLength : ℕ
  metadataSha256 : Text
  metadataByteLength : ℕ
  deriving DecidableEq

/-- The directory of an artifact, with the files that it has so far. -/
structure ArtifactTree where
  archiveZip : Option Bytes
  metadataJson : Option Bytes
  manifest : Option GeneratedArtifactManifest

structure LoadedGeneratedArtifact where
  manifest : GeneratedArtifactManifest
  archiveZip : Bytes
  metadataJson : Bytes
  deriving DecidableEq

/-- `.creating-export-<id>.<nonce>`, `.deleting-export-<id>.<nonce>`, and the same for publications. -/
structure GeneratedStagingName where
  deleting : Bool
  artifactId : Text
  nonce : Text
  deriving DecidableEq, Repr

/-- The directory `exports` or `publications` of a project. -/
structure GeneratedCollection where
  records : Std.ExtTreeMap Text ArtifactTree compare
  staging : List (GeneratedStagingName × ArtifactTree)

/-- The root, with the staging directories of `create_project` and the collections of the projects in `projects`. -/
structure Store where
  root : Root
  /-- `.creating-<project id>.<nonce>` -/
  creating : List ((Text × Text) × ProjectTree)
  generated : Text → GeneratedArtifactKind → GeneratedCollection

/-- The tree of one entry of a directory changed. -/
def changeEntry {ν τ : Type} [DecidableEq ν] (name : ν) (f : τ → τ) (entry : ν × τ) : ν × τ :=
  if entry.1 = name then (entry.1, f entry.2) else entry

theorem changeEntry_cons {ν τ : Type} [DecidableEq ν] (name : ν) (f : τ → τ) (tree : τ) (rest : List (ν × τ)) :
    ((name, tree) :: rest).map (changeEntry name f) = (name, f tree) :: rest.map (changeEntry name f) := by
  simp [changeEntry]

/-- `parse_strict(..)?.as_object().is_some()` -/
abbrev ObjectCheck := Bytes → Bool

def validateGeneratedPayload (isObject : ObjectCheck) (archiveZip metadataJson : Bytes) : Except StorageError Unit := do
  ensure (archiveZip ≠ [] ∧ archiveZip.length ≤ maxGeneratedArchiveBytes ∧ metadataJson ≠ [] ∧
    metadataJson.length ≤ maxGeneratedMetadataBytes) .corrupt
  ensure (isObject metadataJson = true) .corrupt

/-- Of the files in `revisions`, if that directory is there. -/
def readRetainedRevisionManifest (K : Crates) (revisions : Option (List RevisionManifest)) (revisionId : Text) :
    Except StorageError RevisionManifest := do
  validateIdentifier revisionId "rev_".toList
  let manifest ← Root.present ((← Root.present revisions).find? (·.revisionId = revisionId))
  Root.validateManifest K manifest
  return manifest

def readGeneratedArtifact (K : Crates) (isObject : ObjectCheck) (revisions : Option (List RevisionManifest))
    (projectId artifactId : Text) (kind : GeneratedArtifactKind) (tree : ArtifactTree)
    (remainingArchiveBytes remainingMetadataBytes : ℕ) : Except StorageError LoadedGeneratedArtifact := do
  let manifest ← Root.present tree.manifest
  ensure (manifest.kind = kind ∧ manifest.projectId = projectId ∧ manifest.artifactId = artifactId) .corrupt
  validateIdentifier manifest.projectId "prj_".toList
  validateIdentifier manifest.artifactId kind.idPrefix
  validateIdentifier manifest.revisionId "rev_".toList
  validateSha256 manifest.archiveSha256
  validateSha256 manifest.metadataSha256
  ensure (0 < manifest.archiveByteLength ∧ manifest.archiveByteLength ≤ min maxGeneratedArchiveBytes remainingArchiveBytes ∧
    0 < manifest.metadataByteLength ∧
    manifest.metadataByteLength ≤ min maxGeneratedMetadataBytes remainingMetadataBytes) .corrupt
  let _ ← readRetainedRevisionManifest K revisions manifest.revisionId
  let archiveZip ← Root.present tree.archiveZip
  let metadataJson ← Root.present tree.metadataJson
  ensure (archiveZip.length = manifest.archiveByteLength ∧ metadataJson.length = manifest.metadataByteLength) .corrupt
  validateGeneratedPayload isObject archiveZip metadataJson
  ensure (K.sha256 archiveZip = manifest.archiveSha256 ∧ K.sha256 metadataJson = manifest.metadataSha256) .corrupt
  return ⟨manifest, archiveZip, metadataJson⟩

/-- The records in the order of their names, with the bytes of those before. -/
def readRecords (K : Crates) (isObject : ObjectCheck) (revisions : Option (List RevisionManifest)) (projectId : Text)
    (kind : GeneratedArtifactKind) : ℕ → ℕ → List (Text × ArtifactTree) →
      Except StorageError (List LoadedGeneratedArtifact)
  | _, _, [] => return []
  | archiveTotal, metadataTotal, (artifactId, tree) :: rest => do
    validateIdentifier artifactId kind.idPrefix
    let record ← readGeneratedArtifact K isObject revisions projectId artifactId kind tree
      (maxGeneratedArchiveBytes - archiveTotal) (maxGeneratedCollectionMetadataBytes - metadataTotal)
    let records ← readRecords K isObject revisions projectId kind (archiveTotal + record.archiveZip.length)
      (metadataTotal + record.metadataJson.length) rest
    return record :: records

namespace Store

/-- What the collection holds, its staging apart. -/
def readGenerated (K : Crates) (isObject : ObjectCheck) (projectId : Text) (kind : GeneratedArtifactKind) (s : Store) :
    Except StorageError (List LoadedGeneratedArtifact) := do
  let tree ← Root.present s.root.projects[projectId]?
  boundedDirectoryEntries (s.generated projectId kind).records.size kind.maxRecords
  readRecords K isObject tree.revisions projectId kind 0 0 (s.generated projectId kind).records.toList

def setRoot (root : Root) (s : Store) : Store := { s with root }

def modifyGenerated (projectId : Text) (kind : GeneratedArtifactKind) (f : GeneratedCollection → GeneratedCollection)
    (s : Store) : Store :=
  { s with generated := fun id other => if id = projectId ∧ other = kind then f (s.generated id other) else s.generated id other }

def dropStaging (projectId : Text) (kind : GeneratedArtifactKind) (name : GeneratedStagingName) : Store → Store :=
  modifyGenerated projectId kind fun collection =>
    { collection with staging := collection.staging.filter (·.1 != name) }

inductive CollectionStep where
  | list
  | remove (name : GeneratedStagingName)
  | sync (name : GeneratedStagingName)
  | read
  deriving DecidableEq, Repr

/-- A removal that ends early leaves the directory; what it still holds is not read. -/
def loadGeneratedCollection (K : Crates) (isObject : ObjectCheck) (projectId : Text) (kind : GeneratedArtifactKind) :
    Program CollectionStep Store StorageError (List LoadedGeneratedArtifact) := do
  let names ← Program.look .io .list fun s => do
    let collection := s.generated projectId kind
    boundedDirectoryEntries (collection.records.size + collection.staging.length)
      (kind.maxRecords + maxGeneratedStagingEntries)
    return collection.staging.map (·.1)
  names.forM fun name => do
    .atomic .io (.remove name) (dropStaging projectId kind name)
    .atomic .io (.sync name) id
  Program.look .io .read (readGenerated K isObject projectId kind)

structure PersistGenerated where
  projectId : Text
  artifactId : Text
  revisionId : Text
  kind : GeneratedArtifactKind
  archiveZip : Bytes
  metadataJson : Bytes
  nonce : Text

def PersistGenerated.staging (r : PersistGenerated) : GeneratedStagingName := ⟨false, r.artifactId, r.nonce⟩

def PersistGenerated.manifest (K : Crates) (r : PersistGenerated) : GeneratedArtifactManifest where
  kind := r.kind
  projectId := r.projectId
  artifactId := r.artifactId
  revisionId := r.revisionId
  archiveSha256 := K.sha256 r.archiveZip
  archiveByteLength := r.archiveZip.length
  metadataSha256 := K.sha256 r.metadataJson
  metadataByteLength := r.metadataJson.length

inductive GeneratedStep where
  | validate
  | load (step : CollectionStep)
  | stat
  | createDirectory | syncCreated
  | archive | metadata | manifest | syncStaging | statAgain
  | rename | sync
  | clean | syncClean
  deriving DecidableEq, Repr

def changeArtifact (r : PersistGenerated) (f : ArtifactTree → ArtifactTree) : Store → Store :=
  modifyGenerated r.projectId r.kind fun collection =>
    { collection with staging := collection.staging.map (changeEntry r.staging f) }

/-- The rename of the staging directory to the artifact's own name. -/
def publishArtifact (r : PersistGenerated) : Store → Store :=
  modifyGenerated r.projectId r.kind fun collection =>
    { records := (collection.staging.lookup r.staging).elim collection.records (collection.records.insert r.artifactId)
      staging := collection.staging.filter (·.1 != r.staging) }

def artifactAbsent (r : PersistGenerated) (s : Store) : Except StorageError Unit :=
  ensure (r.artifactId ∉ (s.generated r.projectId r.kind).records) .corrupt

def buildArtifact (K : Crates) (r : PersistGenerated) : Program GeneratedStep Store StorageError Unit := do
  .atomic .io .archive (changeArtifact r fun tree => { tree with archiveZip := some r.archiveZip })
  .atomic .io .metadata (changeArtifact r fun tree => { tree with metadataJson := some r.metadataJson })
  .atomic .io .manifest (changeArtifact r fun tree => { tree with manifest := some (r.manifest K) })
  .atomic .io .syncStaging id
  Program.look .io .statAgain (artifactAbsent r)

/-- The clean-up removes the staging directory; its sync follows even if that fails. -/
def cleanArtifact (r : PersistGenerated) : Program GeneratedStep Store StorageError Unit := do
  (Program.atomic .io .clean (dropStaging r.projectId r.kind r.staging)).ignore
  .atomic .io .syncClean id

def PersistGenerated.validate (K : Crates) (isObject : ObjectCheck) (r : PersistGenerated) (s : Store) :
    Except StorageError Unit := do
  validateIdentifier r.projectId "prj_".toList
  validateIdentifier r.artifactId r.kind.idPrefix
  validateIdentifier r.revisionId "rev_".toList
  validateGeneratedPayload isObject r.archiveZip r.metadataJson
  let tree ← Root.present s.root.projects[r.projectId]?
  let _ ← readRetainedRevisionManifest K tree.revisions r.revisionId

/-- There is room for the record among those that exist. -/
def PersistGenerated.admit (r : PersistGenerated) (existing : List LoadedGeneratedArtifact) : Except StorageError Unit := do
  ensure (existing.length < r.kind.maxRecords) .corrupt
  ensure ((existing.map (·.archiveZip.length)).sum + r.archiveZip.length ≤ maxGeneratedArchiveBytes ∧
    (existing.map (·.metadataJson.length)).sum + r.metadataJson.length ≤ maxGeneratedCollectionMetadataBytes) .corrupt

def persistGeneratedArtifact (K : Crates) (isObject : ObjectCheck) (r : PersistGenerated) :
    Program GeneratedStep Store StorageError Unit := do
  Program.look .io .validate (r.validate K isObject)
  let existing ← (loadGeneratedCollection K isObject r.projectId r.kind).relabel .load
  match existing.find? (·.manifest.artifactId = r.artifactId) with
  | some record =>
    if record = ⟨r.manifest K, r.archiveZip, r.metadataJson⟩ then return () else Program.throw .corrupt
  | none => do
    Program.look .io .stat fun s => do
      r.admit existing
      artifactAbsent r s
    .atomic .io .createDirectory (modifyGenerated r.projectId r.kind fun collection =>
      { collection with staging := (r.staging, ⟨none, none, none⟩) :: collection.staging })
    .atomic .io .syncCreated id
    Program.publishing .io (buildArtifact K r) .rename .sync (publishArtifact r) (cleanArtifact r)

/-! ## Projects -/

structure CreateProject where
  id : Text
  displayName : Text
  revisionId : Text
  artifactManifestSha256 : Text
  site : SiteTree
  /-- The digest of the canonical JSON of the revision's manifest. -/
  canonicalManifestSha256 : Text
  nonce : Text

def CreateProject.manifest (K : Crates) (r : CreateProject) : RevisionManifest :=
  ⟨r.revisionId, r.artifactManifestSha256, r.site.files.map (store K), r.canonicalManifestSha256⟩

def CreateProject.pointer (r : CreateProject) : CurrentPointer :=
  ⟨r.revisionId, r.canonicalManifestSha256, r.artifactManifestSha256⟩

inductive CreateStep where
  | validate
  | createDirectory | syncCreated
  | marker
  | directory (name : Text)
  | layout | metadata
  | stored
  | object (step : Root.WriteObjectStep)
  | manifest | transaction | materialize | site | current | syncProject | finish
  | unmark | syncStaging | statAgain
  | rename | sync
  | clean
  deriving DecidableEq, Repr

def changeCreating (r : CreateProject) (f : ProjectTree → ProjectTree) (s : Store) : Store :=
  { s with creating := s.creating.map (changeEntry (r.id, r.nonce) f) }

def projectAbsent (r : CreateProject) (s : Store) : Except StorageError Unit :=
  ensure (r.id ∉ s.root.projects) .corrupt

/-- `fs::create_dir` of one of the six directories. -/
def addDirectory (name : Text) (tree : ProjectTree) : ProjectTree :=
  if name = "revisions".toList then { tree with revisions := some [] }
  else if name = "proposals".toList then { tree with proposals := some ⟨[], []⟩ }
  else { tree with directories := tree.directories ++ [name] }

/-- `commit_revision_at` in the staging directory, which has no site yet; `transaction.json` and `site.staging` are not
part of the tree. -/
def commitRevisionAt (K : Crates) (r : CreateProject) : Program CreateStep Store StorageError Unit := do
  Program.look .io .stored fun _ => do
    validateIdentifier r.revisionId "rev_".toList
    validateSha256 r.artifactManifestSha256
    (storedFiles K r.site.files).elim (.error .unsafeImport) fun _ => .ok ()
  ((r.site.files.forM (Root.writeObject K)).relabel .object).on root setRoot
  .atomic .io .manifest (changeCreating r fun tree => { tree with revisions := some [r.manifest K] })
  .atomic .io .transaction id
  .atomic .io .materialize id
  .atomic .io .site (changeCreating r fun tree => { tree with site := some r.site })
  .atomic .io .current (changeCreating r fun tree => { tree with current := some r.pointer })
  .atomic .io .syncProject id
  .atomic .io .finish id

def buildProject (K : Crates) (r : CreateProject) : Program CreateStep Store StorageError Unit := do
  .atomic .io .marker (changeCreating r fun tree => { tree with creating := true })
  ["revisions".toList, "proposals".toList, "targets".toList, "synapse".toList, "exports".toList,
    "publications".toList].forM fun name => .atomic .io (.directory name) (changeCreating r (addDirectory name))
  .atomic .io .layout (changeCreating r fun tree => { tree with layoutMarker := true })
  .atomic .io .metadata (changeCreating r fun tree => { tree with project := some r.id })
  commitRevisionAt K r
  .atomic .io .unmark (changeCreating r fun tree => { tree with creating := false })
  .atomic .io .syncStaging id
  Program.look .io .statAgain (projectAbsent r)

/-- The rename of the staging directory to the project's own name. -/
def publishProject (r : CreateProject) (s : Store) : Store :=
  { s with
    root := { s.root with
      projects := (s.creating.lookup (r.id, r.nonce)).elim s.root.projects (s.root.projects.insert r.id) }
    creating := s.creating.filter (·.1 != (r.id, r.nonce)) }

def createProject (K : Crates) (r : CreateProject) : Program CreateStep Store StorageError Unit := do
  Program.look .io .validate fun s => do
    validateIdentifier r.id "prj_".toList
    validateIdentifier r.revisionId "rev_".toList
    DisplayName.validateProjectDisplayName K r.displayName
    projectAbsent r s
  .atomic .io .createDirectory fun s =>
    { s with creating := ((r.id, r.nonce), ⟨false, none, false, none, none, none, none, []⟩) :: s.creating }
  .atomic .io .syncCreated id
  Program.publishing .io (buildProject K r) .rename .sync (publishProject r)
    (.atomic .io .clean fun s => { s with creating := s.creating.filter (·.1 != (r.id, r.nonce)) })

/-! ## The three creations -/

inductive Creation where
  | project (r : CreateProject)
  | proposal (r : Root.PrepareProposal)
  | artifact (r : PersistGenerated)

inductive CreationStep where
  | project (step : CreateStep)
  | proposal (step : Root.PrepareStep)
  | artifact (step : GeneratedStep)
  deriving DecidableEq, Repr

def Creation.run (K : Crates) (rm : Remover) (partly : ℕ → SiteTree → SiteTree) (isObject : ObjectCheck) :
    Creation → Program CreationStep Store StorageError Unit
  | .project r => (createProject K r).relabel .project
  | .proposal r => ((Root.prepareProposal K rm partly r).relabel .proposal).on root setRoot
  | .artifact r => (persistGeneratedArtifact K isObject r).relabel .artifact

/-- There is a directory with the final name of the record. -/
def Creation.Visible (s : Store) : Creation → Prop
  | .project r => r.id ∈ s.root.projects
  | .proposal r => ∃ dir, s.root.proposalsOf r.projectId = some dir ∧ (dir.retained.lookup r.proposalId).isSome = true
  | .artifact r => r.artifactId ∈ (s.generated r.projectId r.kind).records

/-! ## Opening -/

/-- A project that an open has loaded. -/
structure StoredProject where
  project : Root.PersistedProject
  exports : List LoadedGeneratedArtifact
  publications : List LoadedGeneratedArtifact

inductive OpenStoreStep where
  | preflight
  | root (step : Root.OpenStep)
  | list
  | remove (name : Text × Text)
  | sync (name : Text × Text)
  | generated (projectId : Text) (kind : GeneratedArtifactKind) (step : CollectionStep)
  deriving DecidableEq, Repr

/-- `preflight_generated_inventory` -/
def preflightGenerated (K : Crates) (isObject : ObjectCheck) (projectId : Text) (kind : GeneratedArtifactKind)
    (s : Store) : Except StorageError Unit := do
  boundedDirectoryEntries (s.generated projectId kind).staging.length maxGeneratedStagingEntries
  let _ ← readGenerated K isObject projectId kind s

def preflight (K : Crates) (isObject : ObjectCheck) (s : Store) : Except StorageError Unit := do
  Root.preflight K s.root
  boundedDirectoryEntries (s.root.projects.size + s.root.deleting.length + s.creating.length) (maxPersistedProjects + 32)
  s.root.projects.keys.forM fun id => do
    preflightGenerated K isObject id .staticExport s
    preflightGenerated K isObject id .publicationDraft s

/-- The collections of the projects, which `load_projects` loads after each of them. -/
def loadGenerated (K : Crates) (isObject : ObjectCheck) :
    List Root.PersistedProject → Program OpenStoreStep Store StorageError (List StoredProject)
  | [] => return []
  | project :: rest => do
    let exports ← (loadGeneratedCollection K isObject project.id .staticExport).relabel (.generated project.id .staticExport)
    let publications ← (loadGeneratedCollection K isObject project.id .publicationDraft).relabel
      (.generated project.id .publicationDraft)
    let projects ← loadGenerated K isObject rest
    return ⟨project, exports, publications⟩ :: projects

def openStore (K : Crates) (rm : Remover) (isObject : ObjectCheck) :
    Program OpenStoreStep Store StorageError (List StoredProject) := do
  Program.look .io .preflight (preflight K isObject)
  ((Root.recoverOwnedProjectDeletions K rm).relabel .root).on root setRoot
  let names ← Program.look .io .list fun s => do
    boundedDirectoryEntries (s.root.projects.size + s.creating.length) (maxPersistedProjects + 16)
    return s.creating.map (·.1)
  names.forM fun name => do
    .atomic .io (.remove name) fun s => { s with creating := s.creating.filter (·.1 != name) }
    .atomic .io (.sync name) id
  let projects ← ((Root.loadProjects K rm).relabel .root).on root setRoot
  loadGenerated K isObject projects

end Store
end LpStudio.Storage
