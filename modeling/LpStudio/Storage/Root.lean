import LpStudio.Storage.Sites

/-! # The managed root
Objects, projects and recovery backups, as far as the deletion of proposals and projects and the clean-up of objects
read and change them. A project between transactions, the targets of a project, its generated artifacts and the
temporaries of immutable files have no part in it.
-/
namespace LpStudio.Storage
open Str Fault

def maxPersistedProjects : ℕ := 8
def maxRecoveryBackups : ℕ := 64
def maxRetainedRevisions : ℕ := 256
def maxPersistedProposals : ℕ := 128
def maxStagingEntries : ℕ := 16

/-- `.deleting-proposal-<id>.<nonce>` or `.creating-proposal-<id>.<nonce>` -/
structure StagingName where
  deleting : Bool
  proposalId : Text
  nonce : Text
  deriving DecidableEq, Repr

structure ProposalsDirectory where
  retained : List (Text × ProposalTree)
  staging : List (StagingName × ProposalTree)

structure ProjectTree where
  /-- `creating.json` -/
  creating : Bool
  /-- `project.json`, with the id it holds. -/
  project : Option Text
  /-- `layout.json` -/
  layoutMarker : Bool
  current : Option CurrentPointer
  site : Option SiteTree
  revisions : Option (List RevisionManifest)
  proposals : Option ProposalsDirectory
  /-- Which of `targets`, `synapse`, `exports` and `publications` are there. -/
  directories : List Text

structure Backup where
  id : Text
  projectId : Text
  deriving DecidableEq, Repr

/-- `.deleting-backup-<id>.<nonce>`, with what `verify_backup_root` says of it. -/
structure DeletingBackup where
  id : Text
  nonce : Text
  projectId : Text
  intact : Bool
  deriving DecidableEq, Repr

structure Root where
  objects : Objects
  projects : Std.ExtTreeMap Text ProjectTree compare
  /-- `.deleting-project-<id>.<nonce>` -/
  deleting : List ((Text × Text) × ProjectTree)
  backups : List Backup
  deletingBackups : List DeletingBackup

/-! ## What is left of a tree -/

/-- A part of a proposal's tree: some of its files, and of its site some files and directories. -/
structure ProposalTree.Part (left tree : ProposalTree) : Prop where
  site : ∀ site, left.site = some site → ∃ whole, tree.site = some whole ∧
    site.directories.Sublist whole.directories ∧ site.files.Sublist whole.files
  proposal : ∀ bytes, left.proposal = some bytes → tree.proposal = some bytes
  review : ∀ bytes, left.review = some bytes → tree.review = some bytes
  decision : ∀ bytes, left.decision = some bytes → tree.decision = some bytes
  completion : ∀ bytes, left.completion = some bytes → tree.completion = some bytes

/-- A part of a project's tree, as far as it names objects. -/
structure ProjectTree.Part (left tree : ProjectTree) : Prop where
  revisions : ∀ revisions, left.revisions = some revisions → ∃ whole, tree.revisions = some whole ∧ revisions ⊆ whole
  proposals : ∀ dir, left.proposals = some dir → ∃ whole, tree.proposals = some whole ∧
    (∀ entry ∈ dir.retained, ∃ tree, (entry.1, tree) ∈ whole.retained ∧ entry.2.Part tree) ∧
    ∀ entry ∈ dir.staging, ∃ tree, (entry.1, tree) ∈ whole.staging ∧ entry.2.Part tree

/-- `fs::remove_dir_all` of a directory, where it ends early: what is left after `n` steps, if anything is. -/
structure Remover where
  proposal : ℕ → ProposalTree → Option ProposalTree
  project : ℕ → ProjectTree → Option ProjectTree
  proposal_part : ∀ n tree left, proposal n tree = some left → left.Part tree
  project_part : ∀ n tree left, project n tree = some left → left.Part tree

namespace Root

/-! ## Revisions -/

def validatePointer (pointer : CurrentPointer) : Except StorageError Unit := do
  validateIdentifier pointer.revisionId "rev_".toList
  validateSha256 pointer.canonicalManifestSha256
  validateSha256 pointer.artifactManifestSha256

/-- `read_retained_revision_manifest` of a file in `revisions`. -/
def validateManifest (K : Crates) (manifest : RevisionManifest) : Except StorageError Unit := do
  validateIdentifier manifest.revisionId "rev_".toList
  validateSha256 manifest.artifactManifestSha256
  validateStoredFiles K manifest.files

/-- `read_manifest_from_root` -/
def readManifest (K : Crates) (revisions : List RevisionManifest) (pointer : CurrentPointer) :
    Except StorageError RevisionManifest := do
  match revisions.find? (·.revisionId = pointer.revisionId) with
  | none => throw .corrupt
  | some manifest =>
    ensure (manifest.canonicalManifestSha256 = pointer.canonicalManifestSha256 ∧
      manifest.artifactManifestSha256 = pointer.artifactManifestSha256) .corrupt
    validateManifest K manifest
    return manifest

/-- The object of a stored file. -/
def readObject (K : Crates) (objects : Objects) (file : StoredFile) : Except StorageError (Text × Bytes) :=
  match objects[file.sha256]? with
  | none => .error .corrupt
  | some bytes =>
    if bytes.length = file.byteLength ∧ K.sha256 bytes = file.sha256 then .ok (file.path, bytes) else .error .corrupt

def loadManifestFiles (K : Crates) (objects : Objects) (manifest : RevisionManifest) :
    Except StorageError (List (Text × Bytes)) :=
  manifest.files.mapM (readObject K objects)

def validateAllRetainedRevisions (K : Crates) (objects : Objects) (revisions : List RevisionManifest) :
    Except StorageError Unit := do
  boundedDirectoryEntries revisions.length maxRetainedRevisions
  ensure (revisions ≠ []) .corrupt
  revisions.forM fun manifest => do
    validateManifest K manifest
    let _ ← loadManifestFiles K objects manifest

/-! ## The read-only phase of an open -/

def scanSite (K : Crates) (site : Option SiteTree) : Except StorageError Unit :=
  match site with
  | none => .ok ()
  | some site => (scanMaterialized K site).map fun _ => ()

/-- No review without a proposal, no decision without a review, no completion without a decision. -/
def filesOrdered (tree : ProposalTree) : Bool :=
  !(((tree.review.isSome || tree.decision.isSome || tree.completion.isSome) && tree.proposal.isNone) ||
    (tree.decision.isSome && tree.review.isNone) || (tree.completion.isSome && tree.decision.isNone))

def preflightProposalRoot (K : Crates) (tree : ProposalTree) (requireComplete : Bool) : Except StorageError Unit := do
  scanSite K tree.site
  readProposalFiles tree
  (if requireComplete then validateStableProposal tree else .ok ())
  ensure (filesOrdered tree = true) .corrupt

/-- The names in a directory `proposals`. -/
def validateProposalNames (dir : ProposalsDirectory) : Except StorageError Unit := do
  dir.retained.forM fun (id, _) => validateIdentifier id "pro_".toList
  boundedDirectoryEntries dir.retained.length maxPersistedProposals
  boundedDirectoryEntries dir.staging.length maxStagingEntries

def preflightProposalInventory (K : Crates) (dir : ProposalsDirectory) : Except StorageError Unit := do
  validateProposalNames dir
  dir.staging.forM fun (name, tree) => preflightProposalRoot K tree name.deleting
  dir.retained.forM fun (_, tree) => preflightProposalRoot K tree true

def validateDirectories (tree : ProjectTree) : Except StorageError Unit :=
  ensure (∀ directory ∈ ["targets".toList, "synapse".toList, "exports".toList, "publications".toList],
    directory ∈ tree.directories) .corrupt

/-- `?` of a file or directory that must be there. -/
def present {α : Type} : Option α → Except StorageError α
  | some a => .ok a
  | none => .error .corrupt

theorem present_ok {α : Type} {o : Option α} {a : α} : present o = .ok a ↔ o = some a := by
  cases o with
  | none => exact ⟨fun h => (by cases h), fun h => (by cases h)⟩
  | some b => exact ⟨fun h => congrArg some (Except.ok.inj h), fun h => congrArg Except.ok (Option.some.inj h)⟩

/-- The current manifest is the one of the materialized site. -/
def validateSite (K : Crates) (tree : ProjectTree) (manifest : RevisionManifest) : Except StorageError Unit := do
  let files ← scanMaterialized K (← present tree.site)
  ensure (files = manifest.files) .drift

def preflightProject (K : Crates) (objects : Objects) (id : Text) (tree : ProjectTree) (deleting : Bool) :
    Except StorageError Unit := do
  ensure (tree.project.all (· = id)) .corrupt
  match tree.current with
  | none => ensure (tree.creating ∧ ¬ deleting) .corrupt
  | some pointer =>
    let revisions ← present tree.revisions
    let proposals ← present tree.proposals
    validateAllRetainedRevisions K objects revisions
    validatePointer pointer
    let manifest ← readManifest K revisions pointer
    let _ ← loadManifestFiles K objects manifest
    validateSite K tree manifest
    preflightProposalInventory K proposals
    (if tree.layoutMarker then validateDirectories tree else .ok ())

def preflight (K : Crates) (s : Root) : Except StorageError Unit := do
  s.deletingBackups.forM fun backup => ensure backup.intact .corrupt
  s.backups.forM fun backup => validateIdentifier backup.id "bkp_".toList
  boundedDirectoryEntries s.backups.length maxRecoveryBackups
  boundedDirectoryEntries (s.projects.size + s.deleting.length) (maxPersistedProjects + 32)
  s.deleting.forM fun ((id, _), tree) => preflightProject K s.objects id tree true
  boundedDirectoryEntries s.projects.size maxPersistedProjects
  s.projects.toList.forM fun (id, tree) => do
    validateIdentifier id "prj_".toList
    preflightProject K s.objects id tree false

/-! ## What the retained projects name -/

def collectRevisionBindings (K : Crates) (revisions : List RevisionManifest) (bindings : ObjectBindings) :
    Except StorageError ObjectBindings := do
  boundedDirectoryEntries revisions.length maxRetainedRevisions
  ensure (revisions ≠ []) .corrupt
  revisions.foldlM (fun bindings manifest => do
    validateManifest K manifest
    extendObjectBindings K bindings manifest.files) bindings

/-- The bindings of a list of proposals, each with whether it has to be complete. -/
def collectProposalBindings (K : Crates) (trees : List (ProposalTree × Bool)) (bindings : ObjectBindings) :
    Except StorageError ObjectBindings :=
  trees.foldlM (fun bindings (tree, requireComplete) => do
    insertBindings bindings (← proposalSiteObjectBindings K tree requireComplete)) bindings

/-- `collect_active_proposal_object_bindings`: without what is being created or deleted. -/
def collectActiveProposalBindings (K : Crates) (dir : ProposalsDirectory) (bindings : ObjectBindings) :
    Except StorageError ObjectBindings := do
  validateProposalNames dir
  collectProposalBindings K (dir.retained.map fun (_, tree) => (tree, true)) bindings

def collectAllProposalBindings (K : Crates) (dir : ProposalsDirectory) (bindings : ObjectBindings) :
    Except StorageError ObjectBindings := do
  validateProposalNames dir
  collectProposalBindings K ((dir.staging.map fun (name, tree) => (tree, name.deleting)) ++
    dir.retained.map fun (_, tree) => (tree, true)) bindings

/-- The part of a project in `collect_active_object_bindings`. -/
def collectProjectBindings (K : Crates) (id : Text) (tree : ProjectTree) (bindings : ObjectBindings) :
    Except StorageError ObjectBindings := do
  validateIdentifier id "prj_".toList
  match tree.current with
  | none => if tree.creating then return bindings else throw .corrupt
  | some pointer =>
    ensure (tree.project = some id) .corrupt
    validatePointer pointer
    let revisions ← present tree.revisions
    let _ ← readManifest K revisions pointer
    let bindings ← collectRevisionBindings K revisions bindings
    collectActiveProposalBindings K (← present tree.proposals) bindings

def collectActiveObjectBindings (K : Crates) (s : Root) : Except StorageError ObjectBindings := do
  boundedDirectoryEntries (s.projects.size + s.deleting.length) (maxPersistedProjects + 32)
  boundedDirectoryEntries s.projects.size maxPersistedProjects
  s.projects.toList.foldlM (fun bindings (id, tree) => collectProjectBindings K id tree bindings) ∅

def collectProjectCandidateObjects (K : Crates) (tree : ProjectTree) : Except StorageError ObjectBindings := do
  let bindings ← collectRevisionBindings K (← present tree.revisions) ∅
  collectAllProposalBindings K (← present tree.proposals) bindings

/-! ## Clean-up of objects -/

inductive ObjectStep where
  | reach
  | read (digest : Text)
  | remove (digest : Text)
  | sync (digest : Text)
  deriving DecidableEq, Repr

def eraseObject (digest : Text) (s : Root) : Root := { s with objects := s.objects.erase digest }

def removeExactCandidateObject (K : Crates) (digest : Text) (expectedLength : ℕ) :
    Program ObjectStep Root StorageError Unit := do
  let found ← Program.look .io (.read digest) fun s => do
    validateSha256 digest
    if maxFileBytes < expectedLength then throw .corrupt
    match s.objects[digest]? with
    | none => return false
    | some bytes => if bytes.length ≠ expectedLength ∨ K.sha256 bytes ≠ digest then throw .corrupt else return true
  if found then
    .atomic .io (.remove digest) (eraseObject digest)
    .atomic .io (.sync digest) id

/-- A candidate stays if it is reachable, with its length; otherwise it goes. -/
def cleanupCandidateObject (K : Crates) (reachable : ObjectBindings) (candidate : Text × ℕ) :
    Program ObjectStep Root StorageError Unit :=
  match reachable[candidate.1]? with
  | some length => if length ≠ candidate.2 then Program.throw .corrupt else Pure.pure ()
  | none => removeExactCandidateObject K candidate.1 candidate.2

def cleanupCandidateObjects (K : Crates) (candidates : ObjectBindings) :
    Program ObjectStep Root StorageError Unit := do
  if candidates.isEmpty then return ()
  let reachable ← Program.look .io .reach (collectActiveObjectBindings K)
  candidates.toList.forM (cleanupCandidateObject K reachable)

/-! ## Staging trees of proposals -/

def modifyProposals (id : Text) (f : ProposalsDirectory → ProposalsDirectory) (s : Root) : Root :=
  { s with projects := s.projects.modify id fun tree => { tree with proposals := tree.proposals.map f } }

def proposalsOf (s : Root) (id : Text) : Option ProposalsDirectory := s.projects[id]?.bind (·.proposals)

/-- The entry of a list of trees replaced by what is left of it. -/
def leaveEntry {ν τ : Type} [DecidableEq ν] (name : ν) (left : τ → Option τ) (entry : ν × τ) : Option (ν × τ) :=
  if entry.1 = name then (left entry.2).map fun tree => (entry.1, tree) else some entry

/-- The staging tree replaced by what is left of it. -/
def leaveStaging (id : Text) (name : StagingName) (left : ProposalTree → Option ProposalTree) (s : Root) : Root :=
  modifyProposals id (fun dir => { dir with staging := dir.staging.filterMap (leaveEntry name left) }) s

inductive StagingStep where
  | stat | bind
  | object (step : ObjectStep)
  | removeTree | sync
  deriving DecidableEq, Repr

def completeProposalStagingCleanup (K : Crates) (rm : Remover) (projectId : Text) (name : StagingName)
    (requireComplete : Bool) : Program StagingStep Root StorageError Unit := do
  match ← Program.look .io .stat (fun s => .ok ((s.proposalsOf projectId).bind (·.staging.lookup name))) with
  | none => return ()
  | some tree =>
    let candidates ← Program.look .io .bind fun _ => proposalSiteObjectBindings K tree requireComplete
    (cleanupCandidateObjects K candidates).relabel .object
    .gradual .io .removeTree (fun n => leaveStaging projectId name (rm.proposal n))
      (leaveStaging projectId name fun _ => none)
    .atomic .io .sync id

inductive RecoverStagingStep where
  | list
  | staging (name : StagingName) (step : StagingStep)
  deriving DecidableEq, Repr

def recoverOwnedProposalStaging (K : Crates) (rm : Remover) (id : Text) :
    Program RecoverStagingStep Root StorageError Unit := do
  let names ← Program.look .io .list fun s => do
    let dir ← present (s.proposalsOf id)
    validateProposalNames dir
    return dir.staging.map (·.1)
  names.forM fun name => (completeProposalStagingCleanup K rm id name name.deleting).relabel (.staging name)

end Root
end LpStudio.Storage
