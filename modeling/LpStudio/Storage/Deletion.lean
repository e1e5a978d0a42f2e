import LpStudio.Storage.Root

/-! # Deletion, and the open that resumes it
Preparing and deleting a proposal, deleting a project, and the phases of `open` that finish what was interrupted.
-/
namespace LpStudio.Storage.Root
open Str Fault

/-! ## Loading -/

structure PersistedProposal where
  id : Text
  metadata : Option Bytes
  binding : Option Bytes
  decision : Option Bytes
  completion : Option Bytes
  files : List (Text × Bytes)
  deriving DecidableEq

structure PersistedProject where
  id : Text
  revisionId : Text
  artifactManifestSha256 : Text
  files : List (Text × Bytes)
  proposals : List PersistedProposal
  deriving DecidableEq

/-- `scan_materialized_files` of a `site` that need not be there. -/
def loadSite (K : Crates) (site : Option SiteTree) : Except StorageError (List (Text × Bytes)) := do
  match site with
  | none => return []
  | some site =>
    let _ ← scanMaterialized K site
    return site.files

def loadProposal (K : Crates) (id : Text) (tree : ProposalTree) : Except StorageError PersistedProposal := do
  readProposalFiles tree
  ensure (filesOrdered tree = true) .corrupt
  let files ← loadSite K tree.site
  return ⟨id, tree.proposal, tree.review, tree.decision, tree.completion, files⟩

/-- `load_proposals` after the recovery; a staging tree may not be left. -/
def loadRetained (K : Crates) (dir : ProposalsDirectory) : Except StorageError (List PersistedProposal) := do
  ensure (dir.staging = []) .corrupt
  validateProposalNames dir
  dir.retained.mapM fun (id, tree) => loadProposal K id tree

inductive LoadStep where
  | recover (step : RecoverStagingStep)
  | read
  deriving DecidableEq, Repr

def loadProposals (K : Crates) (rm : Remover) (projectId : Text) :
    Program LoadStep Root StorageError (List PersistedProposal) := do
  (recoverOwnedProposalStaging K rm projectId).relabel .recover
  Program.look .io .read fun s => do loadRetained K (← present (s.proposalsOf projectId))

/-- `validate_stable_project_inventory` -/
def validateStableProject (tree : ProjectTree) : Except StorageError Unit := do
  ensure (tree.creating = false ∧ tree.project.isSome ∧ tree.current.isSome ∧ tree.layoutMarker = true ∧
    tree.site.isSome ∧ tree.revisions.isSome ∧ tree.proposals.isSome) .corrupt
  validateDirectories tree

/-- `validate_new_project`, up to its proposals, with what the project's own load reads again. -/
def validateProject (K : Crates) (objects : Objects) (id : Text) (tree : ProjectTree) :
    Except StorageError (CurrentPointer × List (Text × Bytes)) := do
  validateStableProject tree
  ensure (tree.project = some id) .corrupt
  let pointer ← present tree.current
  validatePointer pointer
  let revisions ← present tree.revisions
  let manifest ← readManifest K revisions pointer
  let files ← loadManifestFiles K objects manifest
  validateSite K tree manifest
  validateAllRetainedRevisions K objects revisions
  return (pointer, files)

inductive ProjectStep where
  | validate
  | proposals (step : LoadStep)
  | read
  | load (step : LoadStep)
  deriving DecidableEq, Repr

def validateNewProject (K : Crates) (rm : Remover) (projectId : Text) :
    Program ProjectStep Root StorageError Unit := do
  let _ ← Program.look .io .validate fun s => do
    validateProject K s.objects projectId (← present s.projects[projectId]?)
  let _ ← (loadProposals K rm projectId).relabel .proposals
  return ()

def loadProject (K : Crates) (rm : Remover) (projectId : Text) :
    Program ProjectStep Root StorageError PersistedProject := do
  validateNewProject K rm projectId
  let (pointer, files) ← Program.look .io .read fun s => do
    validateProject K s.objects projectId (← present s.projects[projectId]?)
  let proposals ← (loadProposals K rm projectId).relabel .load
  return ⟨projectId, pointer.revisionId, pointer.artifactManifestSha256, files, proposals⟩

/-! ## Deleting a proposal -/

structure DeleteProposal where
  projectId : Text
  proposalId : Text
  expectedMetadata : Bytes
  expectedBinding : Option Bytes
  /-- The UUID of the staging name. -/
  nonce : Text

def DeleteProposal.staging (r : DeleteProposal) : StagingName := ⟨true, r.proposalId, r.nonce⟩

inductive DeleteProposalStep where
  | load (step : LoadStep)
  | stable
  | rename | syncRenamed
  | clean (step : StagingStep)
  deriving DecidableEq, Repr

/-- The rename of the proposal to its staging name. -/
def detach (r : DeleteProposal) (s : Root) : Root :=
  modifyProposals r.projectId (fun dir =>
    { retained := dir.retained.filter (·.1 != r.proposalId)
      staging := ((dir.retained.lookup r.proposalId).map fun tree => (r.staging, tree)).toList ++ dir.staging }) s

/-- The checks of the request against the loaded proposals. -/
def DeleteProposal.check (r : DeleteProposal) (proposals : List PersistedProposal) : Except StorageError Unit :=
  match proposals.find? (·.id = r.proposalId) with
  | none => .error .corrupt
  | some proposal =>
    if proposal.metadata ≠ some r.expectedMetadata ∨ proposal.binding ≠ r.expectedBinding then .error .corrupt
    else .ok ()

def deleteProposal (K : Crates) (rm : Remover) (r : DeleteProposal) :
    Program DeleteProposalStep Root StorageError Unit := do
  let proposals ← (loadProposals K rm r.projectId).relabel .load
  Program.look .io .stable fun s => do
    r.check proposals
    let dir ← present (s.proposalsOf r.projectId)
    validateStableProposal (← present (dir.retained.lookup r.proposalId))
  .atomic .io .rename (detach r)
  .atomic .io .syncRenamed id
  (completeProposalStagingCleanup K rm r.projectId r.staging true).relabel .clean

/-! ## Deleting a project -/

inductive DeletingStep where
  | read
  | object (step : ObjectStep)
  | backups
  | backup (id : Text) (removed : Bool)
  | renameBackup (id : Text)
  | syncBackup (id : Text) (removed : Bool)
  | removeTree | sync
  deriving DecidableEq, Repr

/-- `read_last_accepted_from_project_tree` -/
def readLastAccepted (K : Crates) (tree : ProjectTree) : Except StorageError Unit := do
  let pointer ← present tree.current
  validatePointer pointer
  let manifest ← readManifest K (← present tree.revisions) pointer
  validateSite K tree manifest

/-- The backup, in its removal: not intact any more, or gone. -/
def breakBackup (backupId : Text) (s : Root) : Root :=
  { s with deletingBackups := s.deletingBackups.map fun b => if b.id = backupId then { b with intact := false } else b }

def dropBackup (backupId : Text) (s : Root) : Root :=
  { s with deletingBackups := s.deletingBackups.filter (·.id != backupId) }

/-- The rename of a backup to its staging name. -/
def detachBackup (backup : Backup) (nonce : Text) (s : Root) : Root :=
  { s with
    backups := s.backups.filter (·.id != backup.id)
    deletingBackups := ⟨backup.id, nonce, backup.projectId, true⟩ :: s.deletingBackups }

def removeDeletingBackup (projectId nonce : Text) (backup : DeletingBackup) :
    Program DeletingStep Root StorageError Unit :=
  if backup.nonce ≠ nonce ∨ !backup.intact ∨ backup.projectId ≠ projectId then Program.throw .corrupt
  else do
    .gradual .io (.backup backup.id false) (fun n s => if n = 0 then s else breakBackup backup.id s)
      (dropBackup backup.id)
    .atomic .io (.syncBackup backup.id false) id

def removeBackup (projectId nonce : Text) (backup : Backup) : Program DeletingStep Root StorageError Unit :=
  if backup.projectId ≠ projectId then Pure.pure ()
  else do
    .atomic .io (.renameBackup backup.id) (detachBackup backup nonce)
    .atomic .io (.syncBackup backup.id true) id
    .gradual .io (.backup backup.id true) (fun n s => if n = 0 then s else breakBackup backup.id s)
      (dropBackup backup.id)
    .atomic .io (.syncBackup backup.id false) id

def leaveDeleting (name : Text × Text) (left : ProjectTree → Option ProjectTree) (s : Root) : Root :=
  { s with deleting := s.deleting.filterMap (leaveEntry name left) }

def completeProjectDelete (K : Crates) (rm : Remover) (projectId nonce : Text) :
    Program DeletingStep Root StorageError Unit := do
  let candidates ← Program.look .io .read fun s => do
    let tree ← present (s.deleting.lookup (projectId, nonce))
    validateStableProject tree
    readLastAccepted K tree
    collectProjectCandidateObjects K tree
  (cleanupCandidateObjects K candidates).relabel .object
  let (deleting, retained) ← Program.look .io .backups fun s => do
    boundedDirectoryEntries (s.backups.length + s.deletingBackups.length) (maxRecoveryBackups + maxPersistedProjects)
    return (s.deletingBackups, s.backups)
  deleting.forM (removeDeletingBackup projectId nonce)
  retained.forM (removeBackup projectId nonce)
  .gradual .io .removeTree (fun n => leaveDeleting (projectId, nonce) (rm.project n))
    (leaveDeleting (projectId, nonce) fun _ => none)
  .atomic .io .sync id

inductive DeleteProjectStep where
  | validate (step : ProjectStep)
  | backups
  | rename | syncRenamed
  | complete (step : DeletingStep)
  deriving DecidableEq, Repr

/-- The rename of the project to its staging name. -/
def detachProject (projectId nonce : Text) (s : Root) : Root :=
  { s with
    projects := s.projects.erase projectId
    deleting := (s.projects[projectId]?.map fun tree => ((projectId, nonce), tree)).toList ++ s.deleting }

def deleteProject (K : Crates) (rm : Remover) (projectId nonce : Text) :
    Program DeleteProjectStep Root StorageError Unit := do
  (validateNewProject K rm projectId).relabel .validate
  Program.look .io .backups fun s => ensure (s.deletingBackups = []) .corrupt
  .atomic .io .rename (detachProject projectId nonce)
  .atomic .io .syncRenamed id
  (completeProjectDelete K rm projectId nonce).relabel .complete

/-! ## Writing objects -/

inductive WriteObjectStep where
  | find (digest : Text)
  | write (digest : Text)
  deriving DecidableEq, Repr

def insertObject (digest : Text) (bytes : Bytes) (s : Root) : Root :=
  if digest ∈ s.objects then s else { s with objects := s.objects.insert digest bytes }

/-- `write_object` of a file; after an error the object may be there or not. -/
def writeObject (K : Crates) (file : Text × Bytes) : Program WriteObjectStep Root StorageError Unit := do
  Program.look .io (.find (K.sha256 file.2)) fun s =>
    if s.objects[K.sha256 file.2]?.any (· ≠ file.2) then .error .corrupt else .ok ()
  .atomic .io (.write (K.sha256 file.2)) (insertObject (K.sha256 file.2) file.2)

/-! ## Preparing a proposal -/

inductive PrepareStep where
  | validate
  | recover (step : RecoverStagingStep)
  | list
  | createDirectory
  | object (step : WriteObjectStep)
  | materialize
  | writeProposal
  | rename | sync
  | clean (step : StagingStep)
  deriving DecidableEq, Repr

structure PrepareProposal where
  projectId : Text
  proposalId : Text
  site : SiteTree
  canonicalMetadata : Bytes
  nonce : Text

def PrepareProposal.staging (r : PrepareProposal) : StagingName := ⟨false, r.proposalId, r.nonce⟩

def changeStaging (r : PrepareProposal) (f : ProposalTree → ProposalTree) (s : Root) : Root :=
  leaveStaging r.projectId r.staging (fun tree => some (f tree)) s

/-- The rename of the staging tree to the proposal's own name. -/
def publish (r : PrepareProposal) (s : Root) : Root :=
  modifyProposals r.projectId (fun dir =>
    { retained := ((dir.staging.lookup r.staging).map fun tree => (r.proposalId, tree)).toList ++ dir.retained
      staging := dir.staging.filter (·.1 != r.staging) }) s

def buildProposal (K : Crates) (partly : ℕ → SiteTree → SiteTree) (r : PrepareProposal) :
    Program PrepareStep Root StorageError Unit := do
  Program.look .io .list fun _ => (storedFiles K r.site.files).elim (.error .unsafeImport) fun _ => .ok ()
  (r.site.files.forM (writeObject K)).relabel .object
  .gradual .io .materialize
    (fun n s => if n = 0 then s else changeStaging r (fun tree => { tree with site := some (partly n r.site) }) s)
    (changeStaging r fun tree => { tree with site := some r.site })
  .atomic .io .writeProposal (changeStaging r fun tree => { tree with proposal := some r.canonicalMetadata })
  .atomic .io .rename (publish r)
  .atomic .io .sync id

def prepareProposal (K : Crates) (rm : Remover) (partly : ℕ → SiteTree → SiteTree) (r : PrepareProposal) :
    Program PrepareStep Root StorageError Unit := do
  Program.look .io .validate fun _ =>
    if r.canonicalMetadata.isEmpty ∨ maxProposalMetadataBytes < r.canonicalMetadata.length then .error .corrupt
    else validateIdentifier r.proposalId "pro_".toList
  (recoverOwnedProposalStaging K rm r.projectId).relabel .recover
  Program.look .io .list fun s => do
    let dir ← present (s.proposalsOf r.projectId)
    if maxPersistedProposals ≤ dir.retained.length ∨ (dir.retained.lookup r.proposalId).isSome then throw .corrupt
  .atomic .io .createDirectory (modifyProposals r.projectId fun dir =>
    { dir with staging := (r.staging, ⟨none, none, none, none, none⟩) :: dir.staging })
  (buildProposal K partly r).rescue fun e => do
    ((completeProposalStagingCleanup K rm r.projectId r.staging false).relabel .clean).ignore
    .throw e

/-! ## Creating, committing and deciding -/

inductive CommitStep where
  | validate
  | object (step : WriteObjectStep)
  | manifest | switch | publish | sync
  deriving DecidableEq, Repr

structure CommitRevision where
  projectId : Text
  site : SiteTree
  manifest : RevisionManifest
  pointer : CurrentPointer

/-- `create_project`: the project is built in a staging directory and published by one rename. -/
def createProject (K : Crates) (r : CommitRevision) : Program CommitStep Root StorageError Unit := do
  Program.look .io .validate fun s => if r.projectId ∈ s.projects then .error .corrupt else .ok ()
  (r.site.files.forM (writeObject K)).relabel .object
  .atomic .io .publish fun s => { s with
    projects := s.projects.insert r.projectId
      { creating := false
        project := some r.projectId
        layoutMarker := true
        current := some r.pointer
        site := some r.site
        revisions := some [r.manifest]
        proposals := some ⟨[], []⟩
        directories := ["targets".toList, "synapse".toList, "exports".toList, "publications".toList] } }
  .atomic .io .sync id

/-- `commit_revision`, with the exchange of the site and of `current.json` as one step. -/
def commitRevision (K : Crates) (r : CommitRevision) : Program CommitStep Root StorageError Unit := do
  (r.site.files.forM (writeObject K)).relabel .object
  .atomic .io .manifest fun s => { s with
    projects := s.projects.modify r.projectId fun tree =>
      { tree with revisions := tree.revisions.map (r.manifest :: ·) } }
  .atomic .io .switch fun s => { s with
    projects := s.projects.modify r.projectId fun tree =>
      { tree with current := some r.pointer, site := some r.site } }

inductive ProposalFile where
  | review | decision | completion
  deriving DecidableEq, Repr

/-- `persist_proposal_binding`, `persist_decision_metadata` and `persist_decision_completion`. -/
def persistProposalFile (projectId proposalId : Text) (file : ProposalFile) (bytes : Bytes) :
    Program CommitStep Root StorageError Unit :=
  .atomic .io .publish (modifyProposals projectId fun dir => { dir with
    retained := dir.retained.map fun (id, tree) =>
      if id = proposalId then
        (id, match file with
          | .review => { tree with review := some bytes }
          | .decision => { tree with decision := some bytes }
          | .completion => { tree with completion := some bytes })
      else (id, tree) })

/-! ## Opening -/

inductive OpenStep where
  | preflight
  | deletions
  | deleting (name : Text × Text) (step : DeletingStep)
  | backups
  | list
  | project (id : Text) (step : ProjectStep)
  | removeCreating (id : Text)
  | syncCreating (id : Text)
  deriving DecidableEq, Repr

def recoverOwnedProjectDeletions (K : Crates) (rm : Remover) : Program OpenStep Root StorageError Unit := do
  let names ← Program.look .io .deletions fun s => do
    boundedDirectoryEntries (s.projects.size + s.deleting.length) (maxPersistedProjects + 32)
    return s.deleting.map (·.1)
  names.forM fun name => (completeProjectDelete K rm name.1 name.2).relabel (.deleting name)
  Program.look .io .backups fun s =>
    ensure (∀ backup ∈ s.deletingBackups, backup.nonce ∈ names.map (·.2)) .corrupt

/-- The loop of `load_projects`. A project without `current.json` is one whose creation was interrupted. -/
def loadEach (K : Crates) (rm : Remover) : List Text → Program OpenStep Root StorageError (List PersistedProject)
  | [] => return []
  | projectId :: rest => do
    let tree ← Program.look .io .list fun s => present s.projects[projectId]?
    if tree.current.isNone && !tree.creating then Program.throw .corrupt
    else if tree.current.isNone then
      .atomic .io (.removeCreating projectId) fun s => { s with projects := s.projects.erase projectId }
      .atomic .io (.syncCreating projectId) id
      loadEach K rm rest
    else
      .atomic .io (.removeCreating projectId) fun s =>
        { s with projects := s.projects.modify projectId fun tree => { tree with creating := false } }
      let project ← (loadProject K rm projectId).relabel (.project projectId)
      let projects ← loadEach K rm rest
      return project :: projects

def loadProjects (K : Crates) (rm : Remover) : Program OpenStep Root StorageError (List PersistedProject) := do
  let ids ← Program.look .io .list fun s => do
    boundedDirectoryEntries s.projects.size maxPersistedProjects
    return s.projects.keys
  loadEach K rm ids

def openRoot (K : Crates) (rm : Remover) : Program OpenStep Root StorageError (List PersistedProject) := do
  Program.look .io .preflight (preflight K)
  recoverOwnedProjectDeletions K rm
  loadProjects K rm

end LpStudio.Storage.Root
