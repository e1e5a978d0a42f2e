import LpStudio.Lib.Replies
import LpStudio.Storage.GeneratedCollections
import LpStudio.Storage.ProjectResumption

/-! # The Accepted site on disk
Of a project in `projects`, `current.json` names the accepted revision and the digests of its manifest, and `site` holds
its files. Here is which operations of the storage change them, and with which errors they end when they have.
-/
namespace LpStudio.Storage.Accepted
open Str Fault Fault.Program
open Root hiding commitRevision CommitStep readLastAccepted cleanupCandidateObjects completeProjectDelete deleteProject

/-- What a read reports that a fault hits; the scan of a site reports every I/O error as drift. -/
inductive ReadFailure where
  | io | corrupt | drift
  deriving DecidableEq, Repr

def ReadFailure.error : ReadFailure → StorageError
  | .io => .io
  | .corrupt => .corrupt
  | .drift => .drift

/-- The error of a call whose reads a fault has hit. -/
def reported (failure : ReadFailure) : StorageError → StorageError
  | .io => failure.error
  | e => e

def acceptedOf (s : Root) (id : Text) : Option (Option CurrentPointer × Option SiteTree) :=
  s.projects[id]?.map fun tree => (tree.current, tree.site)

/-! ## Verification -/

/-- The scan of the `site` of a project; a missing directory is drift. -/
def scanAccepted (K : Crates) (tree : ProjectTree) : Except StorageError (List StoredFile) :=
  match tree.site with
  | some site => scanMaterialized K site
  | none => .error .drift

def verifyProject (K : Crates) (projectId revisionId artifactManifestSha256 : Text) (s : Root) :
    Except StorageError Unit := do
  let tree ← present s.projects[projectId]?
  let pointer ← present tree.current
  validatePointer pointer
  ensure (pointer.revisionId = revisionId ∧ pointer.artifactManifestSha256 = artifactManifestSha256) .corrupt
  let manifest ← readManifest K (← present tree.revisions) pointer
  let actual ← scanAccepted K tree
  ensure (actual = manifest.files) .drift

/-- `read_last_accepted_from_project_tree`; other than in `verify_project`, a difference is corruption. -/
def readLastAccepted (K : Crates) (tree : ProjectTree) : Except StorageError Unit := do
  let pointer ← present tree.current
  validatePointer pointer
  let manifest ← readManifest K (← present tree.revisions) pointer
  let actual ← scanAccepted K tree
  ensure (actual = manifest.files) .corrupt

/-! ## Commit of a revision -/

inductive CommitStep where
  | stored
  | object (step : WriteObjectStep)
  | manifest | writeManifest
  | transaction | materialize | stat
  | backup | publish | restore
  | pointer | sync | removeBackup | finish
  deriving DecidableEq, Repr

structure Commit where
  projectId : Text
  revisionId : Text
  artifactManifestSha256 : Text
  site : SiteTree
  /-- The digest of the canonical JSON of the revision's manifest. -/
  canonicalManifestSha256 : Text

def Commit.manifest (K : Crates) (r : Commit) : RevisionManifest :=
  ⟨r.revisionId, r.artifactManifestSha256, r.site.files.map (store K), r.canonicalManifestSha256⟩

def Commit.pointer (r : Commit) : CurrentPointer := ⟨r.revisionId, r.canonicalManifestSha256, r.artifactManifestSha256⟩

def modifyTree (id : Text) (f : ProjectTree → ProjectTree) (s : Root) : Root :=
  { s with projects := s.projects.modify id f }

def addManifest (K : Crates) (r : Commit) : Root → Root :=
  modifyTree r.projectId fun tree => { tree with revisions := tree.revisions.map (· ++ [r.manifest K]) }

/-- The checks of `commit_revision` and of `stored_files`. -/
def Commit.validate (K : Crates) (r : Commit) (s : Root) : Except StorageError Unit := do
  validateIdentifier r.projectId "prj_".toList
  validateIdentifier r.revisionId "rev_".toList
  validateSha256 r.artifactManifestSha256
  let tree ← present s.projects[r.projectId]?
  let _ ← present tree.revisions
  (storedFiles K r.site.files).elim (.error .unsafeImport) fun _ => .ok ()

/-- Whether the immutable manifest is already there. -/
def manifestWritten (K : Crates) (r : Commit) (s : Root) : Except StorageError Bool := do
  let revisions ← present (s.projects[r.projectId]?.bind (·.revisions))
  match revisions.find? (·.revisionId = r.revisionId) with
  | none => return false
  | some manifest => if manifest = r.manifest K then return true else throw .corrupt

def writeManifest (K : Crates) (r : Commit) : Program CommitStep Root StorageError Unit := do
  let written ← Program.look .io .manifest (manifestWritten K r)
  if written then return () else .atomic .io .writeManifest (addManifest K r)

/-- Everything before the exchange of the site; `transaction.json` and `site.staging` are not part of the tree. -/
def stageRevision (K : Crates) (r : Commit) : Program CommitStep Root StorageError Unit := do
  Program.look .io .stored (r.validate K)
  (r.site.files.forM (writeObject K)).relabel .object
  writeManifest K r
  .atomic .io .transaction id
  .atomic .io .materialize id

/-- The rename of the site to `site.backup`, if there is one. -/
def backUpSite (r : Commit) (previous : Option SiteTree) : Program CommitStep Root StorageError Unit :=
  if previous.isSome then .atomic .io .backup (modifyTree r.projectId fun tree => { tree with site := none })
  else return ()

/-- The rename of `site.staging` to `site`; after an error the backup goes back if nothing is there. -/
def publishSite (r : Commit) (previous : Option SiteTree) : Program CommitStep Root StorageError Unit :=
  (Program.atomic .io .publish (modifyTree r.projectId fun tree => { tree with site := some r.site })).rescue fun e => do
    (Program.atomic .io .restore (modifyTree r.projectId fun tree =>
      if tree.site.isNone then { tree with site := previous } else tree)).ignore
    .throw e

/-- The site goes to `site.backup`, the staged one takes its place, and `current.json` follows. -/
def exchangeSite (r : Commit) : Program CommitStep Root StorageError Unit := do
  let previous ← Program.look .io .stat fun s => .ok (s.projects[r.projectId]?.bind (·.site))
  backUpSite r previous
  publishSite r previous
  .atomic .io .pointer (modifyTree r.projectId fun tree => { tree with current := some r.pointer })
  .atomic .io .sync id
  .atomic .io .removeBackup id
  .atomic .io .finish id

def commitRevision (K : Crates) (r : Commit) : Program CommitStep Root StorageError Unit := do
  stageRevision K r
  exchangeSite r

/-! ## Deletion of a project -/

/-- `cleanup_candidate_objects`, with what the collection of the reachable objects reports. -/
def cleanupCandidateObjects (K : Crates) (reports : ObjectStep → ReadFailure) (candidates : ObjectBindings) :
    Program ObjectStep Root StorageError Unit := do
  if candidates.isEmpty then return ()
  let reachable ← Program.look (reports .reach).error .reach (collectActiveObjectBindings K)
  candidates.toList.forM (cleanupCandidateObject K reachable)

/-- The reads of `complete_project_delete` before its clean-up. -/
def readCandidates (K : Crates) (projectId nonce : Text) (s : Root) : Except StorageError ObjectBindings := do
  let tree ← present (s.deleting.lookup (projectId, nonce))
  validateStableProject tree
  readLastAccepted K tree
  collectProjectCandidateObjects K tree

/-- The backups of the project and then its tree. -/
def removeProject (rm : Remover) (projectId nonce : Text) : Program DeletingStep Root StorageError Unit := do
  let (deleting, retained) ← Program.look .io .backups fun s => do
    boundedDirectoryEntries (s.backups.length + s.deletingBackups.length) (maxRecoveryBackups + maxPersistedProjects)
    return (s.deletingBackups, s.backups)
  deleting.forM (removeDeletingBackup projectId nonce)
  retained.forM (removeBackup projectId nonce)
  .gradual .io .removeTree (fun n => leaveDeleting (projectId, nonce) (rm.project n))
    (leaveDeleting (projectId, nonce) fun _ => none)
  .atomic .io .sync id

def completeProjectDelete (K : Crates) (rm : Remover) (reports : DeletingStep → ReadFailure) (projectId nonce : Text) :
    Program DeletingStep Root StorageError Unit := do
  let candidates ← Program.look (reports .read).error .read (readCandidates K projectId nonce)
  (cleanupCandidateObjects K (fun step => reports (.object step)) candidates).relabel .object
  removeProject rm projectId nonce

inductive DeleteStep where
  | validate (step : ProjectStep)
  | verify | backups | rename | syncRenamed
  | complete (step : DeletingStep)
  deriving DecidableEq, Repr

structure DeleteProject where
  projectId : Text
  expectedCurrentRevision : Text
  expectedManifest : Text
  /-- The UUID of the staging name. -/
  nonce : Text

def DeleteProject.validate (r : DeleteProject) : Except StorageError Unit := do
  validateIdentifier r.projectId "prj_".toList
  validateIdentifier r.expectedCurrentRevision "rev_".toList
  validateSha256 r.expectedManifest

/-- `delete_project` up to the rename. -/
def prepareDelete (K : Crates) (rm : Remover) (reports : DeleteStep → ReadFailure) (r : DeleteProject) :
    Program DeleteStep Root StorageError Unit := do
  ofExcept r.validate
  ((validateNewProject K rm r.projectId).relabel .validate).mapError (reported (reports (.validate .validate)))
  Program.look (reports .verify).error .verify
    (verifyProject K r.projectId r.expectedCurrentRevision r.expectedManifest)
  Program.look .io .backups fun s => ensure (s.deletingBackups = []) .corrupt

def deleteProject (K : Crates) (rm : Remover) (reports : DeleteStep → ReadFailure) (r : DeleteProject) :
    Program DeleteStep Root StorageError Unit := do
  prepareDelete K rm reports r
  .atomic .io .rename (detachProject r.projectId r.nonce)
  .atomic .io .syncRenamed id
  (completeProjectDelete K rm (fun step => reports (.complete step)) r.projectId r.nonce).relabel .complete

/-! ## What keeps the Accepted sites -/

def KeepsAccepted (s s' : Root) : Prop := ∀ id, acceptedOf s' id = acceptedOf s id

/-- Of every project but one. -/
def KeepsOthers (id : Text) (s s' : Root) : Prop := ∀ other, other ≠ id → acceptedOf s' other = acceptedOf s other

instance : IsPreorder Root KeepsAccepted where
  refl _ _ := rfl
  trans _ _ _ h h' id := (h' id).trans (h id)

instance (id : Text) : IsPreorder Root (KeepsOthers id) where
  refl _ _ _ := rfl
  trans _ _ _ h h' other hne := (h' other hne).trans (h other hne)

section
variable {K : Crates} {rm : Remover} {s s' : Root}

theorem KeepsAccepted.others (h : KeepsAccepted s s') (id : Text) : KeepsOthers id s s' := fun other _ => h other

theorem keepsAccepted_of_projects (h : s'.projects = s.projects) : KeepsAccepted s s' := fun id => by
  unfold acceptedOf
  rw [h]

theorem keepsAccepted_modifyTree {id : Text} {f : ProjectTree → ProjectTree}
    (hf : ∀ tree, (f tree).current = tree.current ∧ (f tree).site = tree.site) : KeepsAccepted s (modifyTree id f s) := by
  intro other
  change ((s.projects.modify id f)[other]?).map _ = _
  rw [Std.ExtTreeMap.getElem?_modify]
  split
  · rename_i heq
    rw [Std.LawfulEqCmp.eq_of_compare heq, Option.map_map]
    exact Option.map_congr fun tree _ => Prod.ext (hf tree).1 (hf tree).2
  · rfl

theorem keepsAccepted_modifyProposals (id : Text) (f : ProposalsDirectory → ProposalsDirectory) :
    KeepsAccepted s (modifyProposals id f s) :=
  keepsAccepted_modifyTree fun _ => ⟨rfl, rfl⟩

theorem keepsAccepted_objects {objects : Objects} : KeepsAccepted s { s with objects } := keepsAccepted_of_projects rfl

theorem cleanupCandidateObject_keeps (bindings : ObjectBindings) (candidate : Text × ℕ) :
    Within KeepsAccepted (cleanupCandidateObject K bindings candidate) := by
  unfold cleanupCandidateObject
  split
  · split
    · exact Within.throw _
    · exact Within.pure _
  · unfold removeExactCandidateObject
    refine Within.bind (Within.look _ _ _) fun found => ?_
    split
    · refine Within.bind (Within.atomic fun s => keepsAccepted_objects) fun _ => ?_
      exact Within.atomic fun s => Std.Refl.refl s
    · exact Within.pure _

theorem candidates_keeps (reachable candidates : ObjectBindings) :
    Within KeepsAccepted (candidates.toList.forM (cleanupCandidateObject K reachable)) :=
  Within.forM fun candidate _ => cleanupCandidateObject_keeps reachable candidate

theorem completeProposalStagingCleanup_keeps (id : Text) (name : StagingName) (requireComplete : Bool) :
    Within KeepsAccepted (completeProposalStagingCleanup K rm id name requireComplete) := by
  unfold completeProposalStagingCleanup Root.cleanupCandidateObjects
  refine Within.bind (Within.look _ _ _) fun found => ?_
  split
  · exact Within.pure _
  refine Within.bind (Within.look _ _ _) fun candidates => ?_
  refine Within.bind (Within.relabel ?_) fun _ => ?_
  · split
    · exact Within.pure _
    · exact Within.bind (Within.look _ _ _) fun reachable => candidates_keeps reachable candidates
  · refine Within.bind (Within.gradual (fun _ _ => keepsAccepted_modifyProposals _ _)
      fun _ => keepsAccepted_modifyProposals _ _) fun _ => ?_
    exact Within.atomic fun s => Std.Refl.refl s

theorem recoverOwnedProposalStaging_keeps (id : Text) :
    Within KeepsAccepted (recoverOwnedProposalStaging K rm id) := by
  unfold recoverOwnedProposalStaging
  refine Within.bind (Within.look _ _ _) fun names => ?_
  exact Within.forM fun name _ => Within.relabel (completeProposalStagingCleanup_keeps id name name.deleting)

theorem loadProposals_keeps (id : Text) : Within KeepsAccepted (loadProposals K rm id) := by
  unfold loadProposals
  exact Within.bind (Within.relabel (recoverOwnedProposalStaging_keeps id)) fun _ => Within.look _ _ _

theorem validateNewProject_keeps (id : Text) : Within KeepsAccepted (validateNewProject K rm id) := by
  unfold validateNewProject
  refine Within.bind (Within.look _ _ _) fun _ => ?_
  exact Within.bind (Within.relabel (loadProposals_keeps id)) fun _ => Within.pure _

theorem deleteProposal_keeps (r : DeleteProposal) : Within KeepsAccepted (deleteProposal K rm r) := by
  unfold deleteProposal
  refine Within.bind (Within.relabel (loadProposals_keeps r.projectId)) fun proposals => ?_
  refine Within.bind (Within.look _ _ _) fun _ => ?_
  refine Within.bind (Within.atomic fun s => keepsAccepted_modifyProposals _ _) fun _ => ?_
  refine Within.bind (Within.atomic fun s => Std.Refl.refl s) fun _ => ?_
  exact Within.relabel (completeProposalStagingCleanup_keeps r.projectId r.staging true)

theorem writeObjects_keeps (files : List (Text × Bytes)) : Within KeepsAccepted (files.forM (writeObject K)) := by
  refine Within.forM fun file _ => ?_
  unfold writeObject
  refine Within.bind (Within.look _ _ _) fun _ => Within.atomic fun s => ?_
  exact keepsAccepted_of_projects (insertObject_projects _ _ s)

theorem buildProposal_keeps (partly : ℕ → SiteTree → SiteTree) (r : PrepareProposal) :
    Within KeepsAccepted (buildProposal K partly r) := by
  unfold buildProposal
  refine Within.bind (Within.look _ _ _) fun _ => ?_
  refine Within.bind (Within.relabel (writeObjects_keeps r.site.files)) fun _ => ?_
  refine Within.bind (Within.gradual (fun n s => ?_) fun s => keepsAccepted_modifyProposals _ _) fun _ => ?_
  · split
    · exact Std.Refl.refl s
    · exact keepsAccepted_modifyProposals _ _
  refine Within.bind (Within.atomic fun s => keepsAccepted_modifyProposals _ _) fun _ => ?_
  refine Within.bind (Within.atomic fun s => keepsAccepted_modifyProposals _ _) fun _ => ?_
  exact Within.atomic fun s => Std.Refl.refl s

theorem prepareProposal_keeps (partly : ℕ → SiteTree → SiteTree) (r : PrepareProposal) :
    Within KeepsAccepted (prepareProposal K rm partly r) := by
  unfold prepareProposal
  refine Within.bind (Within.look _ _ _) fun _ => ?_
  refine Within.bind (Within.relabel (recoverOwnedProposalStaging_keeps r.projectId)) fun _ => ?_
  refine Within.bind (Within.look _ _ _) fun _ => ?_
  refine Within.bind (Within.atomic fun s => keepsAccepted_modifyProposals _ _) fun _ => ?_
  refine Within.rescue (buildProposal_keeps partly r) fun e => ?_
  refine Within.bind (Within.ignore (Within.relabel ?_)) fun _ => Within.throw _
  exact completeProposalStagingCleanup_keeps r.projectId r.staging false

theorem persistProposalFile_keeps (projectId proposalId : Text) (file : ProposalFile) (bytes : Bytes) :
    Within KeepsAccepted (persistProposalFile projectId proposalId file bytes) :=
  Within.atomic fun _ => keepsAccepted_modifyProposals _ _

/-! ## Errors after a change -/

/-- The errors that are reported as internal. -/
def Loud (e : StorageError) : Prop := e = .io ∨ e = .corrupt

theorem writeManifest_keeps (r : Commit) : Within KeepsAccepted (writeManifest K r) := by
  unfold writeManifest
  refine Within.bind (Within.look _ _ _) fun written => ?_
  split
  · exact Within.pure _
  · exact Within.atomic fun s => keepsAccepted_modifyTree fun _ => ⟨rfl, rfl⟩

theorem stageRevision_keeps (r : Commit) : Within KeepsAccepted (stageRevision K r) := by
  unfold stageRevision
  refine Within.bind (Within.look _ _ _) fun _ => ?_
  refine Within.bind (Within.relabel (writeObjects_keeps r.site.files)) fun _ => ?_
  refine Within.bind (writeManifest_keeps r) fun _ => ?_
  refine Within.bind (Within.atomic fun s => Std.Refl.refl s) fun _ => ?_
  exact Within.atomic fun s => Std.Refl.refl s

theorem backUpSite_admits (r : Commit) (previous : Option SiteTree) : Admits Loud (backUpSite r previous) := by
  unfold backUpSite
  split
  · exact Admits.atomic (.inl rfl)
  · exact Admits.pure _

theorem publishSite_admits (r : Commit) (previous : Option SiteTree) : Admits Loud (publishSite r previous) := by
  refine Admits.rescue (fun e he => ?_) (Admits.atomic (.inl rfl))
  exact Admits.bind (Admits.rescue (fun _ _ => Admits.pure _) (Admits.atomic (.inl rfl))) fun _ => Admits.throw he

theorem exchangeSite_admits (r : Commit) : Admits Loud (exchangeSite r) := by
  have hio : Loud .io := .inl rfl
  unfold exchangeSite
  refine Admits.bind (Admits.look hio fun s e h => ?_) fun previous => ?_
  · cases h
  refine Admits.bind (backUpSite_admits r previous) fun _ => ?_
  refine Admits.bind (publishSite_admits r previous) fun _ => ?_
  refine Admits.bind (Admits.atomic hio) fun _ => ?_
  refine Admits.bind (Admits.atomic hio) fun _ => ?_
  exact Admits.bind (Admits.atomic hio) fun _ => Admits.atomic hio

/-- A commit that ends in another error than an internal one has left the site and `current.json` alone. -/
theorem commitRevision_candid (r : Commit) : Candid KeepsAccepted Loud (commitRevision K r) :=
  Candid.bind (stageRevision_keeps r) fun _ => (exchangeSite_admits r).candid

/-! ## The scans of a deletion -/

/-- After the rename, the reads of the project's tree report the error, or the reads of the projects that remain. -/
def ScanFails (K : Crates) (reports : DeletingStep → ReadFailure) (projectId nonce : Text)
    (faults : DeletingStep → Outcome) (s : Root) (e : StorageError) : Prop :=
  Fails (reports .read).error .read (readCandidates K projectId nonce) faults s e ∨
    ∃ candidates, faults .read = .done ∧ readCandidates K projectId nonce s = .ok candidates ∧
      candidates.isEmpty = false ∧
      Fails (reports (.object .reach)).error (.object .reach) (collectActiveObjectBindings K) faults s e

theorem ensure_error {condition : Prop} [Decidable condition] {error e : StorageError}
    (h : ensure condition error = .error e) : e = error := by
  unfold ensure at h
  split at h
  · cases h
  · exact (Except.error.inj h).symm

theorem removeExactCandidateObject_admits (digest : Text) (length : ℕ) :
    Admits Loud (removeExactCandidateObject K digest length) := by
  have hio : Loud .io := .inl rfl
  unfold removeExactCandidateObject
  refine Admits.bind (Admits.look hio fun s e h => .inr ?_) fun found => ?_
  · rcases bind_error h with h | ⟨⟨⟩, -, h⟩
    · exact ensure_error h
    · dsimp only at h
      split at h
      · exact (Except.error.inj (show Except.error StorageError.corrupt = Except.error e from h)).symm
      split at h
      · cases h
      split at h
      · exact (Except.error.inj h).symm
      · cases h
  · split
    · exact Admits.bind (Admits.atomic hio) fun _ => Admits.atomic hio
    · exact Admits.pure _

theorem candidates_admits (reachable candidates : ObjectBindings) :
    Admits Loud (candidates.toList.forM (cleanupCandidateObject K reachable)) := by
  refine Admits.forM fun candidate _ => ?_
  unfold cleanupCandidateObject
  split
  · split
    · exact Admits.throw (.inr rfl)
    · exact Admits.pure _
  · exact removeExactCandidateObject_admits _ _

theorem removeDeletingBackup_admits (projectId nonce : Text) (backup : DeletingBackup) :
    Admits Loud (removeDeletingBackup projectId nonce backup) := by
  have hio : Loud .io := .inl rfl
  unfold removeDeletingBackup
  split
  · exact Admits.throw (.inr rfl)
  · exact Admits.bind (Admits.gradual hio) fun _ => Admits.atomic hio

theorem removeBackup_admits (projectId nonce : Text) (backup : Backup) :
    Admits Loud (removeBackup projectId nonce backup) := by
  have hio : Loud .io := .inl rfl
  unfold removeBackup
  split
  · exact Admits.pure _
  · refine Admits.bind (Admits.atomic hio) fun _ => ?_
    refine Admits.bind (Admits.atomic hio) fun _ => ?_
    exact Admits.bind (Admits.gradual hio) fun _ => Admits.atomic hio

theorem removeProject_admits (projectId nonce : Text) : Admits Loud (removeProject rm projectId nonce) := by
  have hio : Loud .io := .inl rfl
  unfold removeProject
  refine Admits.bind (Admits.look hio fun s e h => .inr ?_) fun backups => ?_
  · rcases bind_error h with h | ⟨⟨⟩, -, h⟩
    · unfold boundedDirectoryEntries at h
      split at h
      · exact (Except.error.inj h).symm
      · cases h
    · cases h
  · refine Admits.bind (Admits.forM fun backup _ => removeDeletingBackup_admits projectId nonce backup) fun _ => ?_
    refine Admits.bind (Admits.forM fun backup _ => removeBackup_admits projectId nonce backup) fun _ => ?_
    exact Admits.bind (Admits.gradual hio) fun _ => Admits.atomic hio

variable {reports : DeletingStep → ReadFailure} {faults : DeletingStep → Outcome} {projectId nonce : Text}

theorem cleanupCandidateObjects_ends {faults : ObjectStep → Outcome} {reports : ObjectStep → ReadFailure}
    (candidates : ObjectBindings) (s : Root) : Ends (cleanupCandidateObjects K reports candidates) faults s
    (fun _ _ => True)
    (fun e _ => Loud e ∨ candidates.isEmpty = false ∧
      Fails (reports .reach).error .reach (collectActiveObjectBindings K) faults s e) fun _ => True := by
  unfold cleanupCandidateObjects
  split
  · exact trivial
  · rename_i hcandidates
    have hnonempty : candidates.isEmpty = false := by simpa using hcandidates
    refine Ends.bind (Ends.look_fails (fun reachable _ _ => ?_) (fun e he => .inr ⟨hnonempty, he⟩) trivial)
    exact (candidates_admits reachable candidates faults s).mono (fun _ _ h => h) (fun _ _ h => .inl h) fun _ h => h

/-- Other than by its scans, the deletion ends with no error but an internal one. -/
theorem completeProjectDelete_ends (s : Root) : Ends (completeProjectDelete K rm reports projectId nonce) faults s
    (fun _ _ => True) (fun e _ => Loud e ∨ ScanFails K reports projectId nonce faults s e) fun _ => True := by
  unfold completeProjectDelete
  refine Ends.bind (Ends.look_fails (fun candidates hdone hread => ?_) (fun e he => .inr (.inl he)) trivial)
  refine Ends.bind ((Ends.relabel (cleanupCandidateObjects_ends candidates s)).mono (fun _ s' _ => ?_)
    (fun e _ h => h.imp_right fun h => .inr ⟨candidates, hdone, hread, h.1, ?_⟩) fun _ h => h)
  · exact (removeProject_admits projectId nonce faults s').mono (fun _ _ h => h) (fun _ _ h => .inl h) fun _ h => h
  · exact h.2

/-- A scan that fails ends the deletion, with its error. -/
theorem ScanFails.run {s : Root} {e : StorageError} (h : ScanFails K reports projectId nonce faults s e) :
    completeProjectDelete K rm reports projectId nonce faults s = (.error e, s) := by
  unfold completeProjectDelete
  rcases h with h | ⟨candidates, hdone, hread, hnonempty, h⟩
  · change Program.bind _ _ faults s = _
    unfold Program.bind
    rw [h.run]
  · have hlook : Program.look (reports .read).error .read (readCandidates K projectId nonce) faults s =
        (.value candidates, s) := by
      unfold Program.look
      rw [hdone, hread]
    have hreach : cleanupCandidateObjects K (fun step => reports (.object step)) candidates
        (fun step => faults (.object step)) s = (.error e, s) := by
      unfold cleanupCandidateObjects
      rw [if_neg (by rw [hnonempty]; exact Bool.false_ne_true)]
      have hreached : Program.look (reports (.object .reach)).error ObjectStep.reach (collectActiveObjectBindings K)
          (fun step => faults (.object step)) s = (.error e, s) := Fails.run h
      change Program.bind _ _ _ s = _
      unfold Program.bind
      rw [hreached]
    change Program.bind _ _ faults s = _
    unfold Program.bind
    rw [hlook]
    change Program.bind _ _ faults s = _
    unfold Program.bind relabel
    rw [show (faults ∘ DeletingStep.object) = fun step => faults (.object step) from rfl, hreach]

/-! ## The whole deletion -/

theorem prepareDelete_keeps {reports : DeleteStep → ReadFailure} (r : DeleteProject) :
    Within KeepsAccepted (prepareDelete K rm reports r) := by
  unfold prepareDelete
  refine Within.bind (Within.ofExcept _) fun _ => ?_
  refine Within.bind (Within.mapError (Within.relabel (validateNewProject_keeps r.projectId)) _) fun _ => ?_
  exact Within.bind (Within.look _ _ _) fun _ => Within.look _ _ _

theorem detachProject_others (projectId nonce : Text) : KeepsOthers projectId s (detachProject projectId nonce s) := by
  intro other hne
  change ((s.projects.erase projectId)[other]?).map _ = _
  rw [Std.ExtTreeMap.getElem?_erase]
  split
  · rename_i heq
    exact absurd (Std.LawfulEqCmp.eq_of_compare heq).symm hne
  · rfl

theorem removeDeletingBackup_keeps (projectId nonce : Text) (backup : DeletingBackup) :
    Within KeepsAccepted (removeDeletingBackup projectId nonce backup) := by
  unfold removeDeletingBackup
  split
  · exact Within.throw _
  · refine Within.bind (Within.gradual (fun n s => ?_) fun s => keepsAccepted_of_projects rfl) fun _ => ?_
    · split
      · exact Std.Refl.refl s
      · exact keepsAccepted_of_projects rfl
    · exact Within.atomic fun s => Std.Refl.refl s

theorem removeBackup_keeps (projectId nonce : Text) (backup : Backup) :
    Within KeepsAccepted (removeBackup projectId nonce backup) := by
  unfold removeBackup
  split
  · exact Within.pure _
  · refine Within.bind (Within.atomic fun s => keepsAccepted_of_projects rfl) fun _ => ?_
    refine Within.bind (Within.atomic fun s => Std.Refl.refl s) fun _ => ?_
    refine Within.bind (Within.gradual (fun n s => ?_) fun s => keepsAccepted_of_projects rfl) fun _ => ?_
    · split
      · exact Std.Refl.refl s
      · exact keepsAccepted_of_projects rfl
    · exact Within.atomic fun s => Std.Refl.refl s

theorem completeProjectDelete_keeps (projectId nonce : Text) :
    Within KeepsAccepted (completeProjectDelete K rm reports projectId nonce) := by
  unfold completeProjectDelete cleanupCandidateObjects removeProject
  refine Within.bind (Within.look _ _ _) fun candidates => ?_
  refine Within.bind (Within.relabel ?_) fun _ => ?_
  · split
    · exact Within.pure _
    · exact Within.bind (Within.look _ _ _) fun reachable => candidates_keeps reachable candidates
  refine Within.bind (Within.look _ _ _) fun backups => ?_
  refine Within.bind (Within.forM fun backup _ => removeDeletingBackup_keeps projectId nonce backup) fun _ => ?_
  refine Within.bind (Within.forM fun backup _ => removeBackup_keeps projectId nonce backup) fun _ => ?_
  refine Within.bind (Within.gradual (fun _ _ => keepsAccepted_of_projects rfl) fun _ => keepsAccepted_of_projects rfl)
    fun _ => ?_
  exact Within.atomic fun s => Std.Refl.refl s

/-- The deletion of a project leaves the others as they are. -/
theorem deleteProject_others {reports : DeleteStep → ReadFailure} (r : DeleteProject) :
    Within (KeepsOthers r.projectId) (deleteProject K rm reports r) := by
  unfold deleteProject
  refine Within.bind ((prepareDelete_keeps r).mono fun _ _ h => h.others _) fun _ => ?_
  refine Within.bind (Within.atomic fun s => detachProject_others r.projectId r.nonce) fun _ => ?_
  refine Within.bind (Within.atomic fun s => Std.Refl.refl s) fun _ => ?_
  exact (Within.relabel (completeProjectDelete_keeps r.projectId r.nonce)).mono fun _ _ h => h.others _

/-- The deletion has renamed the project's tree, and a scan after that reports the error. -/
def FailsRenamed (K : Crates) (rm : Remover) (reports : DeleteStep → ReadFailure) (r : DeleteProject)
    (faults : DeleteStep → Outcome) (s : Root) (e : StorageError) : Prop :=
  ∃ s', prepareDelete K rm reports r faults s = (.value (), s') ∧ faults .rename = .done ∧ faults .syncRenamed = .done ∧
    ScanFails K (fun step => reports (.complete step)) r.projectId r.nonce (fun step => faults (.complete step))
      (detachProject r.projectId r.nonce s') e

/-- Another error than an internal one is from before the rename, or from a scan after it. -/
theorem deleteProject_ends {reports : DeleteStep → ReadFailure} {faults : DeleteStep → Outcome} (r : DeleteProject)
    (s : Root) : Ends (deleteProject K rm reports r) faults s (fun _ _ => True)
      (fun e s' => KeepsAccepted s s' ∨ Loud e ∨ FailsRenamed K rm reports r faults s e) fun _ => True := by
  have hkeeps : Within KeepsAccepted (prepareDelete K rm reports r) := prepareDelete_keeps r
  have hprepare := hkeeps faults s
  unfold deleteProject
  refine Ends.bind ?_
  unfold Ends at hprepare ⊢
  split
  · rename_i s' heq
    refine Ends.bind (Ends.atomic (fun hrename => ?_) (fun _ => .inr (.inl (.inl rfl))) (fun _ _ => .inr (.inl (.inl rfl)))
      (fun _ => trivial) fun _ _ => trivial)
    refine Ends.bind (Ends.atomic (fun hsync => ?_) (fun _ => .inr (.inl (.inl rfl))) (fun _ _ => .inr (.inl (.inl rfl)))
      (fun _ => trivial) fun _ _ => trivial)
    refine (Ends.relabel (completeProjectDelete_ends _)).mono (fun _ _ h => h) (fun e _ h => .inr ?_) fun _ h => h
    exact h.imp_right fun h => ⟨s', heq, hrename, hsync, h⟩
  · rename_i e s' heq
    rw [heq] at hprepare
    exact .inl hprepare
  · exact trivial

theorem detached_gone (projectId nonce : Text) (s : Root) : acceptedOf (detachProject projectId nonce s) projectId = none := by
  change ((s.projects.erase projectId)[projectId]?).map _ = none
  rw [Std.ExtTreeMap.getElem?_erase_self]
  rfl

/-- What is deleted is there. -/
theorem prepareDelete_found {reports : DeleteStep → ReadFailure} {faults : DeleteStep → Outcome} {r : DeleteProject}
    (h : prepareDelete K rm reports r faults s = (.value (), s')) : acceptedOf s' r.projectId ≠ none := by
  have hends : Ends (prepareDelete K rm reports r) faults s (fun _ s' => acceptedOf s' r.projectId ≠ none)
      (fun _ _ => True) fun _ => True := by
    unfold prepareDelete
    refine Ends.bind (ends_trivial.mono (fun _ s _ => ?_) (fun _ _ _ => trivial) fun _ _ => trivial)
    refine Ends.bind (ends_trivial.mono (fun _ s _ => ?_) (fun _ _ _ => trivial) fun _ _ => trivial)
    refine Ends.bind (Ends.look_fails (fun _ _ hverify => ?_) (fun _ _ => trivial) trivial)
    refine Ends.look_fails (fun _ _ _ => ?_) (fun _ _ => trivial) trivial
    obtain ⟨tree, htree, -⟩ := Outcome.bind_ok.mp hverify
    unfold acceptedOf
    rw [present_ok.mp htree]
    exact Option.some_ne_none _
  have hfound := ends_value hends h
  exact hfound

/-- The project's tree is gone from its place, and was there before. -/
theorem FailsRenamed.run {reports : DeleteStep → ReadFailure} {faults : DeleteStep → Outcome} {r : DeleteProject}
    {e : StorageError} (h : FailsRenamed K rm reports r faults s e) :
    ∃ s', deleteProject K rm reports r faults s = (.error e, s') ∧ acceptedOf s' r.projectId = none ∧
      acceptedOf s r.projectId ≠ none := by
  obtain ⟨s', hprepare, hrename, hsync, hscan⟩ := h
  refine ⟨detachProject r.projectId r.nonce s', ?_, detached_gone _ _ _, ?_⟩
  · have hrest : (do
        Program.atomic .io DeleteStep.rename (detachProject r.projectId r.nonce)
        Program.atomic .io .syncRenamed id
        (completeProjectDelete K rm (fun step => reports (.complete step)) r.projectId r.nonce).relabel .complete :
        Program DeleteStep Root StorageError Unit) faults s' = (.error e, detachProject r.projectId r.nonce s') := by
      change Program.bind _ _ faults s' = _
      unfold Program.bind Program.atomic Program.gradual
      rw [hrename]
      change Program.bind _ _ faults _ = _
      unfold Program.bind
      dsimp only
      rw [hsync]
      exact hscan.run
    unfold deleteProject
    change Program.bind _ _ faults s = _
    unfold Program.bind
    rw [hprepare]
    exact hrest
  · have hkeeps : Within KeepsAccepted (prepareDelete K rm reports r) := prepareDelete_keeps r
    have hfinal := hkeeps.final faults s
    rw [hprepare] at hfinal
    rw [← hfinal r.projectId]
    exact prepareDelete_found hprepare

/-! ## A deletion that gets to the rename -/

section
variable {t : Root} {reports : DeleteStep → ReadFailure}

/-- A project that loads is verified, after staging directories have gone too. -/
theorem verifyProject_trims {objects : Objects} {id : Text} {tree : ProjectTree} {pointer : CurrentPointer}
    {files : List (Text × Bytes)} (htree : s.projects[id]? = some tree)
    (hvalid : validateProject K objects id tree = .ok (pointer, files)) (ht : Trims K s t) :
    verifyProject K id pointer.revisionId pointer.artifactManifestSha256 t = .ok () := by
  obtain ⟨tree', htree', f, rfl, -⟩ := ht.found htree
  obtain ⟨revisions, manifest, hfound⟩ := validateProject_ok.mp hvalid
  obtain ⟨site, hsite, hscan⟩ := Outcome.bind_ok.mp hfound.site
  obtain ⟨actual, hactual, hsame⟩ := Outcome.bind_ok.mp hscan
  have hscanned : scanAccepted K { tree with proposals := tree.proposals.map f } = .ok actual := by
    unfold scanAccepted
    dsimp only
    rw [present_ok.mp hsite]
    exact hactual
  refine Outcome.bind_ok.mpr ⟨_, present_ok.mpr htree', Outcome.bind_ok.mpr ⟨pointer, present_ok.mpr hfound.current, ?_⟩⟩
  refine Outcome.bind_ok.mpr ⟨(), hfound.pointerValid, Outcome.bind_ok.mpr ⟨(), ensure_ok.mpr ⟨rfl, rfl⟩, ?_⟩⟩
  refine Outcome.bind_ok.mpr ⟨revisions, present_ok.mpr hfound.retained, Outcome.bind_ok.mpr ⟨manifest, hfound.read, ?_⟩⟩
  exact Outcome.bind_ok.mpr ⟨actual, hscanned, hsame⟩

/-- The deletion of a project that loads gets to the rename, where no fault hits a step before it. -/
theorem prepareDelete_done {faults : DeleteStep → Outcome} (hs : Sound K s) (hbackups : s.deletingBackups = [])
    {r : DeleteProject} {project : PersistedProject} (hread : readProjectOf K s r.projectId = .ok project)
    (hvalid : r.validate = .ok ()) (hrevision : r.expectedCurrentRevision = project.revisionId)
    (hmanifest : r.expectedManifest = project.artifactManifestSha256)
    (hfaults : faults ∘ DeleteStep.validate = Program.smooth ∧ faults .verify = .done ∧ faults .backups = .done) :
    ∃ t, prepareDelete K rm reports r faults s = (.value (), t) := by
  obtain ⟨tree, htree, hread'⟩ := Outcome.bind_ok.mp hread
  obtain ⟨pointer, files, dir, proposals, hproject, -, -, rfl⟩ := readProject_ok.mp hread'
  have hverify : ∀ t, Trims K s t → verifyProject K r.projectId r.expectedCurrentRevision r.expectedManifest t = .ok () := by
    intro t ht
    rw [hrevision, hmanifest]
    exact verifyProject_trims (present_ok.mp htree) hproject ht
  have hends : Ends (prepareDelete K rm reports r) faults s (fun _ _ => True) (fun _ _ => False) fun _ => False := by
    unfold prepareDelete
    rw [hvalid]
    refine Ends.bind (Ends.ofExcept (fun _ _ => ?_) fun _ h => by cases h)
    refine Ends.bind (Ends.mapError (Ends.relabel ?_))
    rw [hfaults.1]
    refine ((validateNewProject_yields hs hread).mono fun _ t ht => ?_).ends_smooth
    refine Ends.bind (Ends.look_done hfaults.2.1 (hverify t ht) ?_)
    exact Ends.look_done hfaults.2.2 (ensure_ok.mpr (ht.deletingBackupsEq.trans hbackups)) trivial
  unfold Ends at hends
  split at hends
  · rename_i t heq
    exact ⟨t, heq⟩
  · exact hends.elim
  · exact hends.elim

/-- The deletion of the project of `sampleRoot`. -/
def sampleDeletion : DeleteProject :=
  ⟨sampleRevision.projectId, sampleRevision.pointer.revisionId, sampleRevision.pointer.artifactManifestSha256,
    List.replicate 32 '0'⟩

/-- An I/O error in the first scan after the rename. -/
def scanFaults : DeleteStep → Outcome
  | .complete .read => .failed 0
  | _ => .done

theorem sample_readProject : readProjectOf sampleCrates sampleRoot sampleDeletion.projectId = .ok samplePersisted :=
  Outcome.bind_ok.mpr ⟨_, present_ok.mpr sample_project, readProject_ok.mpr ⟨_, _, _, _, sample_valid, rfl,
    sample_retained, rfl⟩⟩

theorem sample_failsRenamed :
    FailsRenamed sampleCrates sampleRemover (fun _ => .drift) sampleDeletion scanFaults sampleRoot .drift := by
  obtain ⟨t, ht⟩ : ∃ t, prepareDelete sampleCrates sampleRemover (fun _ => .drift) sampleDeletion scanFaults sampleRoot =
      (.value (), t) := prepareDelete_done sample_sound rfl sample_readProject (by decide) rfl rfl ⟨rfl, rfl, rfl⟩
  exact ⟨t, ht, rfl, rfl, .inl (.inl ⟨0, rfl, rfl⟩)⟩

end

end
end LpStudio.Storage.Accepted
