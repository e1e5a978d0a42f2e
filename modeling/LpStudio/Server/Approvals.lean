import LpStudio.Lib.Run
import LpStudio.Server.Envelopes
import LpStudio.Synapse.Intents

/-! # Approvals
`create_approval`, and what the requests of the server may do without one: a decision is on record, and a project's
Accepted state moves, only after a request that has used up an approval of exactly this decision.
-/
namespace LpStudio.Server.Requests
open Str Fault Fault.Program Storage Outcome
open Accepted (ReadFailure reported)
open Synapse (ArtifactDisposition SidecarDecisionReceipt SidecarError Registers Reports Receipted Intended)

/-! ## Issuing an approval -/

def approvalTtlSeconds : ℤ := 5 * 60
def maxPendingApprovals : ℕ := 32

/-- `i64::saturating_add` of a positive number. -/
def saturatingAdd (a b : ℤ) : ℤ := min (a + b) (2 ^ 63 - 1)

deriving instance DecidableEq for ApprovalGrant

structure ApprovalServices extends Services where
  /-- Whether a check of the Proposal's validation is blocking. -/
  blocked : ProposalRecord → Bool
  formatTimestamp : ℤ → Option Text

structure CreateApproval where
  /-- `authorize_mutation`, `valid_json`, `require_schema`, `validate_intent` and `random_token`. -/
  checked : Except ApiError Unit
  sessionId : Text
  reviewId : Text
  proposalId : Text
  expectedRevisionId : Text
  disposition : ArtifactDisposition
  intentId : Text
  token : Text
  /-- The clock when the expiry is computed, and when expired approvals are swept. -/
  issuedAt : ℤ
  sweptAt : ℤ

def CreateApproval.expiresAt (r : CreateApproval) : ℤ := saturatingAdd r.issuedAt approvalTtlSeconds

def sweepExpiredApprovals (now : ℤ) (w : World) : World :=
  { w with approvals := w.approvals.filter fun _ grant => now ≤ grant.expiresAt }

/-- The project of the review, if another approval may be pending. -/
def approvedProject (r : CreateApproval) (w : World) : Except ApiError (Text × Project) := do
  ensureCapacity w.approvals.size maxPendingApprovals
  let projectId ← found w.reviews[r.reviewId]?
  let project ← found w.projects[projectId]?
  return (projectId, project)

section
variable (S : ApprovalServices) (reports : Step → ReadFailure)

def approvedBinding (r : CreateApproval) (projectId : Text) (project : Project) : Except ApiError ApprovalBinding := do
  match project.proposal with
  | none => .error (if project.history.any (·.reviewId == r.reviewId) then conflict "review_terminal" else .notFound)
  | some proposal =>
    refuse (proposal.status ≠ .pendingReview ∨ proposal.reviewOutcome ≠ .pendingReview ∨ proposal.id ≠ r.proposalId ∨
      proposal.baseRevisionId ≠ r.expectedRevisionId ∨ project.revisionId ≠ r.expectedRevisionId)
      (conflict "approval_binding_mismatch")
    refuse (r.disposition = .adoptedUnchanged ∧ S.blocked proposal = true) (conflict "proposal_blocked_by_validation")
    return ⟨r.sessionId, projectId, r.reviewId, r.proposalId, proposal.artifactManifestSha256, r.expectedRevisionId,
      r.disposition, r.intentId⟩

def CreateApproval.tokenHash (r : CreateApproval) : Text := S.crates.sha256 (encode r.token)

def insertApproval (r : CreateApproval) (binding : ApprovalBinding) (w : World) : World :=
  { w with approvals := w.approvals.insert (r.tokenHash S) ⟨binding, r.expiresAt⟩ }

def createApproval (r : CreateApproval) : Program Step World ApiError Unit := do
  ofExcept r.checked
  change (sweepExpiredApprovals r.sweptAt)
  let (projectId, project) ← read (approvedProject r)
  verifyAccepted S.toServices reports projectId project
  let binding ← ofExcept (approvedBinding S r projectId project)
  change (insertApproval S r binding)
  let _ ← ofExcept (orInternal (S.formatTimestamp r.expiresAt))

/-! ## Requests one after another -/

inductive Request where
  | createApproval (r : CreateApproval)
  | serve (section' : Section)

def Request.run : Request → Program Step World ApiError Unit
  | .createApproval r => Requests.createApproval S reports r
  | .serve request => request.run S.toServices reports

/-- The process of the server, until it stops. -/
structure Process where
  world : World
  running : Bool

/-- A request, with the faults that hit it. -/
structure Turn where
  request : Request
  faults : Step → Outcome

def Process.handle (s : Process) (turn : Turn) : Option (Exit ApiError Unit) × Process :=
  if s.running then
    match turn.request.run S reports turn.faults s.world with
    | (.stop, w) => (some .stop, ⟨w, false⟩)
    | (exit, w) => (some exit, ⟨w, true⟩)
  else (none, s)

end

/-! ## What requests do without an approval -/

/-- No approval appears, and a sidecar registers an intent only for the decision that is named for its project. -/
structure Guarded (G : Synapse.SynapseGit) (who : Text → Option (Text × ArtifactDisposition)) (w w' : World) : Prop where
  approvals : ∀ (hash : Text) (grant : ApprovalGrant), w'.approvals[hash]? = some grant → w.approvals[hash]? = some grant
  sidecars : ∀ id, Registers G (who id) (w.synapse id) (w'.synapse id)

instance (G : Synapse.SynapseGit) (who : Text → Option (Text × ArtifactDisposition)) : IsPreorder World (Guarded G who) where
  refl w := ⟨fun _ _ h => h, fun id => Std.Refl.refl (r := Registers G (who id)) (w.synapse id)⟩
  trans _ _ _ h h' := ⟨fun hash grant hgrant => h.approvals hash grant (h'.approvals hash grant hgrant),
    fun id => IsTrans.trans _ _ _ (h.sidecars id) (h'.sidecars id)⟩

section
variable {S : Services} {reports : Step → ReadFailure} {G : Synapse.SynapseGit}
  {who : Text → Option (Text × ArtifactDisposition)} {w w' : World} {M α : Type}

theorem guarded_of (happrovals : ∀ (hash : Text) (grant : ApprovalGrant), w'.approvals[hash]? = some grant →
    w.approvals[hash]? = some grant) (hsynapse : w'.synapse = w.synapse) : Guarded G who w w' :=
  ⟨happrovals, fun id => by rw [hsynapse]; exact Std.Refl.refl (r := Registers G (who id)) (w.synapse id)⟩

theorem guarded_same (happrovals : w'.approvals = w.approvals) (hsynapse : w'.synapse = w.synapse) : Guarded G who w w' :=
  guarded_of (fun _ _ h => happrovals ▸ h) hsynapse

theorem change_guarded {effect : World → World} (happrovals : ∀ w, (effect w).approvals = w.approvals)
    (hsynapse : ∀ w, (effect w).synapse = w.synapse) :
    Within (Guarded G who) (change effect : Program Step World ApiError PUnit) :=
  Within.change fun w => guarded_same (happrovals w) (hsynapse w)

theorem onStore_guarded (p : Program M Store StorageError α) : Within (Guarded G who) (onStore p) := by
  unfold onStore
  refine Within.on_other (fun w disk => ?_) p
  exact guarded_same rfl rfl

theorem onTargets_guarded (projectId : Text) (p : Program M TargetSection StorageError α) :
    Within (Guarded G who) (onTargets projectId p) := by
  unfold onTargets
  refine Within.on_other (fun w targets => ?_) p
  exact guarded_same rfl rfl

theorem storageCall_guarded {label : M → Step} {failure : ReadFailure} {p : Program M World StorageError α}
    (h : Within (Guarded G who) p) : Within (Guarded G who) (storageCall label failure p) :=
  Within.mapError (Within.relabel h) _

theorem registers_update {projectId : Text} {state : Synapse.State}
    (h : Registers G (who projectId) (w.synapse projectId) state) :
    Guarded G who w { w with synapse := Function.update w.synapse projectId state } := by
  refine ⟨fun _ _ h => h, fun id => ?_⟩
  by_cases heq : id = projectId
  · subst heq
    simpa using h
  · simpa [Function.update_of_ne heq] using Std.Refl.refl (r := Registers G (who id)) (w.synapse id)

theorem sidecarCall_guarded {projectId : Text} {label : M → Step} {p : Program M Synapse.State SidecarError α}
    (h : Within (Registers G (who projectId)) p) : Within (Guarded G who) (sidecarCall projectId label p) := by
  refine Within.mapError (Within.relabel ?_) _
  exact Within.on h fun w state hstate => registers_update hstate

/-! ### Sections -/

theorem verifyAccepted_guarded (projectId : Text) (project : Project) :
    Within (Guarded G who) (verifyAccepted S reports projectId project) :=
  Within.mapError (Within.look _ _ _) _

theorem synapsePaths_guarded (projectId : Text) : Within (Guarded G who) (synapsePaths projectId) := by
  unfold synapsePaths
  exact Within.mapError (onStore_guarded _) _

theorem persistFile_guarded (label : Root.CommitStep → Step) (projectId proposalId : Text) (file : Root.ProposalFile)
    (bytes : Bytes) : Within (Guarded G who) (persistFile label projectId proposalId file bytes) :=
  storageCall_guarded (onStore_guarded _)

theorem createTarget_guarded (r : CreateTarget) : Within (Guarded G who) (createTarget S reports r) := by
  have hinsert : Within (Guarded G who) (change (insertTarget r) : Program Step World ApiError PUnit) :=
    change_guarded (fun _ => rfl) fun _ => rfl
  unfold createTarget
  refine Within.bind (Within.read _) fun project => ?_
  refine Within.bind (verifyAccepted_guarded r.projectId project) fun _ => ?_
  refine Within.bind (Within.ofExcept _) fun canonicalTarget => ?_
  split
  · refine Within.bind (Within.ofExcept _) fun recyclable => ?_
    refine Within.bind (storageCall_guarded (onTargets_guarded r.projectId _)) fun _ => ?_
    refine Within.bind (change_guarded (fun _ => rfl) fun _ => rfl) fun _ => ?_
    exact Within.bind (Within.read _) fun _ => hinsert
  · refine Within.bind (Within.read _) fun _ => ?_
    exact Within.bind (storageCall_guarded (onTargets_guarded r.projectId _)) fun _ => hinsert

theorem createExport_guarded (r : CreateExport) : Within (Guarded G who) (createExport S reports r) := by
  unfold createExport
  refine Within.bind (Within.read _) fun project => ?_
  refine Within.bind (verifyAccepted_guarded r.projectId project) fun _ => ?_
  refine Within.bind (Within.read _) fun artifact => ?_
  refine Within.bind (storageCall_guarded (onStore_guarded _)) fun _ => ?_
  exact change_guarded (fun _ => rfl) fun _ => rfl

theorem startProposal_guarded (r : StartProposal) : Within (Guarded G who) (startProposal S reports r) := by
  unfold startProposal
  refine Within.bind (Within.ofExcept _) fun _ => ?_
  refine Within.bind (Within.read _) fun project => ?_
  refine Within.bind (verifyAccepted_guarded r.projectId project) fun _ => ?_
  exact Within.bind (Within.ofExcept _) fun context => Within.act fun _ => guarded_same rfl rfl

theorem publishDraft_guarded (hG : S.git.Lawful S.crates) (projectId nonce : Text) (draft : Draft) (metadata : Bytes) :
    Within (Guarded S.git who) (publishDraft S reports projectId nonce draft metadata) := by
  unfold publishDraft
  refine Within.bind (storageCall_guarded (onStore_guarded _)) fun _ => ?_
  refine Within.bind (synapsePaths_guarded projectId) fun _ => ?_
  refine Within.bind (Within.failpoint _ _) fun _ => ?_
  refine Within.bind (sidecarCall_guarded (Synapse.beginProposal_registers hG _)) fun receipt => ?_
  refine Within.bind (Within.ofExcept _) fun _ => ?_
  refine Within.bind (Within.ofExcept _) fun binding => ?_
  refine Within.bind (persistFile_guarded _ _ _ _ _) fun _ => ?_
  exact Within.bind (Within.ofExcept _) fun _ => Within.pure _

theorem finishProposal_guarded (hG : S.git.Lawful S.crates) (r : FinishProposal) :
    Within (Guarded S.git who) (finishProposal S reports r) := by
  have hdrop : ∀ status, Within (Guarded S.git who) (change (dropGuard r status) : Program Step World ApiError PUnit) :=
    fun status => change_guarded (fun _ => rfl) fun _ => rfl
  unfold finishProposal draftProposal
  split
  · exact Within.bind (hdrop _) fun _ => Within.throw _
  · refine Within.bind (Within.rescue ?_ fun e => Within.bind (hdrop _) fun _ => Within.throw _) fun proposal => ?_
    · refine Within.bind (Within.read _) fun project => ?_
      refine Within.bind (verifyAccepted_guarded r.projectId project) fun _ => ?_
      exact Within.bind (Within.ofExcept _) fun draft => publishDraft_guarded hG r.projectId r.nonce draft.1 draft.2
    · refine Within.bind (Within.act fun _ => guarded_same rfl rfl) fun _ => ?_
      exact change_guarded (fun _ => rfl) fun _ => rfl

theorem cleanupContexts_guarded (r : CleanupContexts) : Within (Guarded G who) (cleanupContexts S r) := by
  unfold cleanupContexts
  refine Within.bind (Within.ofExcept _) fun _ => Within.bind (Within.act fun w => ?_) fun _ => Within.read _
  unfold clearContexts
  split
  · exact Std.Refl.refl (r := Guarded G who) w
  split
  · exact Std.Refl.refl (r := Guarded G who) w
  dsimp only
  split
  · exact guarded_same rfl rfl
  · exact guarded_same rfl rfl

theorem filter_getElem? {β : Type} {m : Std.ExtTreeMap Text β compare} {keep : Text → β → Bool} {key : Text} {value : β}
    (h : (m.filter keep)[key]? = some value) : m[key]? = some value := by
  rw [Std.ExtTreeMap.getElem?_filter'] at h
  exact (Option.filter_eq_some_iff.mp h).1

theorem cleanupProposal_guarded (r : CleanupProposal) : Within (Guarded G who) (cleanupProposal S reports r) := by
  unfold cleanupProposal
  refine Within.bind (Within.read _) fun documents => ?_
  refine Within.bind (storageCall_guarded (onStore_guarded _)) fun _ => ?_
  refine Within.bind (Within.change fun w => ?_) fun _ => Within.read _
  exact guarded_of (fun _ _ h => filter_getElem? h) rfl

theorem cleanupArtifact_guarded (r : CleanupArtifact) : Within (Guarded G who) (cleanupArtifact S r) := by
  unfold cleanupArtifact
  refine Within.bind (Within.read _) fun artifact => ?_
  refine Within.bind (storageCall_guarded (onStore_guarded _)) fun _ => ?_
  refine Within.bind (Within.change fun w => ?_) fun _ => Within.read _
  unfold dropArtifact
  split
  · exact guarded_same rfl rfl
  · exact guarded_same rfl rfl

theorem cleanupProject_guarded (r : CleanupProject) : Within (Guarded G who) (cleanupProject S reports r) := by
  unfold cleanupProject deleteOnDisk
  refine Within.bind (Within.read _) fun _ => ?_
  refine Within.bind (storageCall_guarded (onStore_guarded _)) fun _ => ?_
  refine Within.bind (Within.change fun w => ?_) fun _ => Within.read _
  exact guarded_of (fun _ _ h => filter_getElem? h) rfl

/-! ## What a settled review may change -/

/-- The Accepted state that a Proposal plans. -/
def planned (proposal : ProposalRecord) : Text × Text × Files :=
  (proposal.plannedRevisionId, proposal.artifactManifestSha256, proposal.proposedFiles)

def plannedCommit (S : Services) (projectId : Text) (proposal : ProposalRecord) : Accepted.Commit where
  projectId := projectId
  revisionId := proposal.plannedRevisionId
  artifactManifestSha256 := proposal.artifactManifestSha256
  site := siteOf proposal.proposedFiles
  canonicalManifestSha256 :=
    S.canonicalManifestSha256 proposal.plannedRevisionId proposal.artifactManifestSha256 proposal.proposedFiles

/-- The revision that the pointer of a project names on disk. -/
def pointer (w : World) (id : Text) : Option (Option CurrentPointer) := (accepted w id).2.map Prod.fst

/-- The Accepted state of one project moves to what its Proposal plans, and only if that is adopted. In memory it may be
set to what it was at first. -/
structure Lands (S : Services) (id : Text) (base : Text × Text × Files) (proposal : ProposalRecord) (adopts : Prop)
    (w w' : World) : Prop where
  others : ∀ other, other ≠ id → accepted w' other = accepted w other
  memory : (accepted w' id).1 = (accepted w id).1 ∨ (accepted w' id).1 = some base ∨
    (adopts ∧ (accepted w' id).1 = some (planned proposal))
  disk : (accepted w' id).2 = (accepted w id).2 ∨ adopts
  pointer : pointer w' id = pointer w id ∨ pointer w' id = some (some (plannedCommit S id proposal).pointer)

instance (S : Services) (id : Text) (base : Text × Text × Files) (proposal : ProposalRecord) (adopts : Prop) :
    IsPreorder World (Lands S id base proposal adopts) where
  refl _ := ⟨fun _ _ => rfl, .inl rfl, .inl rfl, .inl rfl⟩
  trans _ _ _ h h' := {
    others := fun other hne => (h'.others other hne).trans (h.others other hne)
    memory := by
      rcases h'.memory with heq | hset
      · rw [heq]
        exact h.memory
      · exact .inr hset
    disk := by
      rcases h'.disk with heq | hadopts
      · rw [heq]
        exact h.disk
      · exact .inr hadopts
    pointer := by
      rcases h'.pointer with heq | hset
      · rw [heq]
        exact h.pointer
      · exact .inr hset }

section
variable {id : Text} {base : Text × Text × Files} {proposal : ProposalRecord} {adopts : Prop}

theorem KeepsAccepted.lands (h : KeepsAccepted w w') : Lands S id base proposal adopts w w' where
  others := fun other _ => h other
  memory := .inl (congrArg Prod.fst (h id))
  disk := .inl (congrArg Prod.snd (h id))
  pointer := .inl (congrArg (fun found => found.2.map Prod.fst) (h id))

theorem keeps_lands {p : Program Step World ApiError α} (h : Within KeepsAccepted p) :
    Within (Lands S id base proposal adopts) p := h.mono fun _ _ h => h.lands

/-- A change of one project in memory. -/
theorem lands_of_memory (hprojects : ∀ other, other ≠ id → w'.projects[other]? = w.projects[other]?)
    (hdisk : w'.disk.root = w.disk.root)
    (hmemory : (accepted w' id).1 = (accepted w id).1 ∨ (accepted w' id).1 = some base ∨
      (adopts ∧ (accepted w' id).1 = some (planned proposal))) : Lands S id base proposal adopts w w' where
  others := fun other hne => by
    unfold accepted
    rw [hprojects other hne, hdisk]
  memory := hmemory
  disk := .inl (by unfold accepted; rw [hdisk])
  pointer := .inl (by unfold pointer accepted; rw [hdisk])

theorem adopt_lands (hadopts : adopts) (w : World) :
    Lands S id base proposal adopts w (modifyProject id (adopt proposal) w) := by
  refine lands_of_memory (fun other hne => Synapse.getElem?_modify_ne (Ne.symm hne)) rfl ?_
  unfold accepted
  change ((w.projects.modify id (adopt proposal))[id]?).map _ = _ ∨ ((w.projects.modify id (adopt proposal))[id]?).map _ = _ ∨
    adopts ∧ ((w.projects.modify id (adopt proposal))[id]?).map _ = _
  rw [Std.ExtTreeMap.getElem?_modify_self]
  cases hfound : w.projects[id]? with
  | none => exact .inl rfl
  | some project => exact .inr (.inr ⟨hadopts, rfl⟩)

end

/-- A commit of one project: its pointer stays or names the revision. -/
def CommitsTo (r : Accepted.Commit) (s s' : Root) : Prop :=
  Accepted.KeepsOthers r.projectId s s' ∧
    ((Accepted.acceptedOf s' r.projectId).map Prod.fst = (Accepted.acceptedOf s r.projectId).map Prod.fst ∨
      (Accepted.acceptedOf s' r.projectId).map Prod.fst = some (some r.pointer))

instance (r : Accepted.Commit) : IsPreorder Root (CommitsTo r) where
  refl _ := ⟨fun _ _ => rfl, .inl rfl⟩
  trans _ _ _ h h' := by
    refine ⟨fun other hne => (h'.1 other hne).trans (h.1 other hne), ?_⟩
    rcases h'.2 with heq | hset
    · rw [heq]
      exact h.2
    · exact .inr hset

theorem commitsTo_modifyTree {r : Accepted.Commit} {f : ProjectTree → ProjectTree}
    (hf : ∀ tree, (f tree).current = tree.current ∨ (f tree).current = some r.pointer) (s : Root) :
    CommitsTo r s (Accepted.modifyTree r.projectId f s) := by
  refine ⟨fun other hne => ?_, ?_⟩
  · unfold Accepted.acceptedOf Accepted.modifyTree
    rw [Synapse.getElem?_modify_ne (Ne.symm hne)]
  · unfold Accepted.acceptedOf Accepted.modifyTree
    rw [Std.ExtTreeMap.getElem?_modify_self]
    cases hfound : s.projects[r.projectId]? with
    | none => exact .inl rfl
    | some tree => exact (hf tree).imp (congrArg some) (congrArg some)

theorem commitRevision_commits {K : Crates} (r : Accepted.Commit) :
    Within (CommitsTo r) (Accepted.commitRevision K r) := by
  have hsame : ∀ s, CommitsTo r s s := Std.Refl.refl
  have hkeep : ∀ (f : ProjectTree → ProjectTree), (∀ tree, (f tree).current = tree.current) → ∀ s,
      CommitsTo r s (Accepted.modifyTree r.projectId f s) := fun f hf => commitsTo_modifyTree fun tree => .inl (hf tree)
  have hstage : Within (CommitsTo r) (Accepted.stageRevision K r) := (Accepted.stageRevision_keeps r).mono
    fun _ _ h => ⟨h.others _, .inl (congrArg (Option.map Prod.fst) (h r.projectId))⟩
  unfold Accepted.commitRevision
  refine Within.bind hstage fun _ => ?_
  unfold Accepted.exchangeSite Accepted.backUpSite Accepted.publishSite
  refine Within.bind (Within.look _ _ _) fun previous => Within.bind ?_ fun _ => Within.bind ?_ fun _ => ?_
  · split
    · exact Within.atomic (hkeep _ fun _ => rfl)
    · exact Within.pure _
  · refine Within.rescue (Within.atomic (hkeep _ fun _ => rfl)) fun e => Within.bind (Within.ignore ?_) fun _ => Within.throw _
    refine Within.atomic (hkeep _ fun tree => ?_)
    split
    · rfl
    · rfl
  · refine Within.bind (Within.atomic (commitsTo_modifyTree fun _ => .inr rfl)) fun _ => ?_
    exact Within.bind (Within.atomic hsame) fun _ => Within.bind (Within.atomic hsame) fun _ => Within.atomic hsame

section
variable {id : Text} {base : Text × Text × Files} {proposal : ProposalRecord} {adopts : Prop} {projectId : Text}

theorem commitProposal_lands (hadopts : adopts) :
    Within (Lands S id base proposal adopts) (commitProposal S id proposal) := by
  unfold commitProposal storageCall onRoot onStore
  refine Within.mapError (Within.relabel ?_) _
  have hroot : Within (fun s s' : Store => CommitsTo (plannedCommit S id proposal) s.root s'.root)
      ((Accepted.commitRevision S.crates (plannedCommit S id proposal)).on Store.root Store.setRoot) :=
    Within.on (commitRevision_commits _) fun _ _ hs => hs
  refine Within.on hroot fun w disk hcommits => ?_
  exact {
    others := fun other hne => Prod.ext rfl (hcommits.1 other hne)
    memory := .inl rfl
    disk := .inr hadopts
    pointer := hcommits.2 }

theorem commitProposal_guarded : Within (Guarded G who) (commitProposal S id proposal) :=
  storageCall_guarded (onStore_guarded _)

/-- Both relations. -/
def Moves (S : Services) (id : Text) (base : Text × Text × Files) (proposal : ProposalRecord) (adopts : Prop)
    (w w' : World) : Prop :=
  Lands S id base proposal adopts w w' ∧ Guarded S.git (fun _ => none) w w'

theorem keeps_moves {p : Program Step World ApiError α} (h : Within KeepsAccepted p)
    (h' : Within (Guarded S.git fun _ => none) p) : Within (Moves S id base proposal adopts) p :=
  Within.and (keeps_lands h) h'

instance : IsPreorder World (Moves S id base proposal adopts) where
  refl w := ⟨Std.Refl.refl (r := Lands S id base proposal adopts) w, Std.Refl.refl (r := Guarded S.git fun _ => none) w⟩
  trans _ _ _ h h' := ⟨IsTrans.trans _ _ _ h.1 h'.1, IsTrans.trans _ _ _ h.2 h'.2⟩

theorem persistFile_moves (label : Root.CommitStep → Step) (proposalId : Text) (file : Root.ProposalFile) (bytes : Bytes) :
    Within (Moves S id base proposal adopts) (persistFile label projectId proposalId file bytes) :=
  keeps_moves (persistFile_keeps _ _ _ _ _) (persistFile_guarded _ _ _ _ _)

theorem orReconcile_moves {p : Program Step World ApiError α} (h : Within (Moves S id base proposal adopts) p) :
    Within (Moves S id base proposal adopts) (orReconcile projectId p) := by
  refine Within.rescue h fun _ => Within.bind (keeps_moves ?_ ?_) fun _ => Within.throw _
  · exact Within.change fun _ => setOutcome_keeps projectId _
  · exact change_guarded (fun _ => rfl) fun _ => rfl

theorem adopt_moves (hadopts : adopts) : Within (Moves S id base proposal adopts)
    (change (modifyProject id (adopt proposal)) : Program Step World ApiError PUnit) :=
  Within.and (Within.change (adopt_lands hadopts)) (change_guarded (fun _ => rfl) fun _ => rfl)

/-! ### Decisions -/

theorem orReconcile_refused {e : ApiError} {k : α → Program Step World ApiError Unit} :
    Within (Moves S id base proposal adopts) (orReconcile projectId (ofExcept (.error e)) >>= k) := by
  intro faults w
  refine Ends.bind (Ends.rescue (Ends.ofExcept nofun fun _ _ => Ends.bind (Ends.change (Ends.throw ?_))))
  exact ⟨(setOutcome_keeps projectId .outcomeUnknown).lands, guarded_same rfl rfl⟩

/-- What follows a receipt of a decision: if the Accepted state moves, the request and the receipt adopt the Proposal. -/
theorem settleDecision_moves (r : CreateDecision) (project : Project) (receipt : SidecarDecisionReceipt)
    (hadopts : r.disposition = .adoptedUnchanged → receipt.disposition = .adoptedUnchanged →
      receipt.reviewedArtifactManifestSha256 = proposal.artifactManifestSha256 → adopts) :
    Within (Moves S id base proposal adopts) (settleDecision S r id project proposal receipt) := by
  unfold settleDecision
  by_cases hcheck : receipt.disposition ≠ r.disposition ∨ receipt.reviewedArtifactManifestSha256 ≠
      expectedManifest r.disposition proposal.artifactManifestSha256 project.acceptedManifestSha256
  · simp only [refuse, if_pos hcheck]
    exact orReconcile_refused
  · rw [not_or, not_not, not_not] at hcheck
    refine Within.bind (orReconcile_moves (Within.ofExcept _)) fun _ => ?_
    refine Within.bind (orReconcile_moves (Within.ofExcept _)) fun receiptSha256 => ?_
    refine Within.bind (orReconcile_moves (Within.ofExcept _)) fun metadataBytes => ?_
    refine Within.bind (orReconcile_moves (persistFile_moves _ _ _ _)) fun _ => Within.bind ?_ fun _ => ?_
    · unfold adoptDecided
      split
      · next hdisposition =>
        have hyes : adopts := by
          refine hadopts hdisposition (hcheck.1.trans hdisposition) ?_
          rw [hcheck.2, hdisposition]
          rfl
        have hcommit : Within (Moves S id base proposal adopts) (commitProposal S id proposal) :=
          Within.and (commitProposal_lands hyes) commitProposal_guarded
        exact Within.bind (orReconcile_moves hcommit) fun _ => adopt_moves hyes
      · exact Within.pure _
    · refine Within.bind (orReconcile_moves (Within.ofExcept _)) fun completionBytes => ?_
      refine Within.bind (orReconcile_moves (persistFile_moves _ _ _ _)) fun _ => Within.bind (keeps_moves ?_ ?_) fun _ => ?_
      · exact Within.change fun _ => keepsAccepted_modifyProject id fun _ => ⟨rfl, rfl, rfl⟩
      · exact change_guarded (fun _ => rfl) fun _ => rfl
      · exact Within.bind (Within.failpoint _ _) fun _ => Within.failpoint _ _

theorem setOutcome_moves (outcome : ProposalReviewOutcome) : Within (Moves S id base proposal adopts)
    (change (setOutcome projectId outcome) : Program Step World ApiError PUnit) :=
  keeps_moves (Within.change fun _ => setOutcome_keeps projectId outcome) (change_guarded (fun _ => rfl) fun _ => rfl)

theorem setSettled_moves (status : ProposalStatus) (outcome : ProposalReviewOutcome) :
    Within (Moves S id base proposal adopts)
      (change (setSettled projectId status outcome) : Program Step World ApiError PUnit) :=
  keeps_moves (Within.change fun _ => setSettled_keeps projectId status outcome)
    (change_guarded (fun _ => rfl) fun _ => rfl)

theorem settleOutcome_moves (r : CreateDecision) (project : Project) (outcome : Synapse.ReviewOutcome)
    (hadopts : ∀ receipt, outcome = .decisionCommitted receipt → r.disposition = .adoptedUnchanged →
      receipt.disposition = .adoptedUnchanged →
      receipt.reviewedArtifactManifestSha256 = proposal.artifactManifestSha256 → adopts) :
    Within (Moves S id base proposal adopts) (settleOutcome S r id project proposal outcome) := by
  unfold settleOutcome
  split
  · exact settleDecision_moves r project _ (hadopts _ rfl)
  · exact Within.bind (setOutcome_moves _) fun _ => Within.throw _
  · exact Within.bind (setOutcome_moves _) fun _ => Within.throw _
  · exact Within.bind (setOutcome_moves _) fun _ => Within.throw _
  · exact Within.bind (setSettled_moves _ _) fun _ => Within.throw _

/-! ### Reconciliations -/

/-- The Accepted state of a project in memory. -/
def Project.accepted (project : Project) : Text × Text × Files :=
  (project.revisionId, project.acceptedManifestSha256, project.acceptedFiles)

theorem completeReconciled_moves {project : Project} {metadata : DecisionMetadata}
    (hproject : project.accepted = base ∨ (adopts ∧ project.accepted = planned proposal)) :
    Within (Moves S id base proposal adopts) (completeReconciled S id project proposal metadata) := by
  unfold completeReconciled
  refine Within.bind (Within.ofExcept _) fun completionBytes => Within.bind (persistFile_moves _ _ _ _) fun _ => ?_
  refine Within.bind (Within.change fun w => ⟨?_, guarded_same rfl rfl⟩) fun _ => Within.ofExcept _
  let closed := closeReconciled (historyRecord proposal metadata) project
  have hmemory : (accepted { w with projects := w.projects.insert id closed } id).1 = some project.accepted := by
    unfold accepted
    rw [Std.ExtTreeMap.getElem?_insert_self]
    rfl
  refine lands_of_memory (fun other hne => Synapse.getElem?_insert_ne (Ne.symm hne)) rfl ?_
  rw [hmemory]
  exact .inr (hproject.imp (congrArg some) fun h => ⟨h.1, congrArg some h.2⟩)

theorem checkReconciled_reviewed {project : Project} {receipt : SidecarDecisionReceipt} {found : DecisionMetadata × Bytes}
    (h : checkReconciled S project proposal receipt = .ok found) : receipt.reviewedArtifactManifestSha256 =
      expectedManifest receipt.disposition proposal.artifactManifestSha256 proposal.baseArtifactManifestSha256 := by
  unfold checkReconciled at h
  obtain ⟨⟨⟩, -, h⟩ := bind_ok.mp h
  obtain ⟨⟨⟩, hreviewed, -⟩ := bind_ok.mp h
  unfold refuse at hreviewed
  split at hreviewed
  · cases hreviewed
  · next hsame => exact not_not.mp hsame

theorem reconcileOutcome_moves {project : Project} {outcome : Synapse.ReviewOutcome} (hbase : project.accepted = base)
    (hadopts : ∀ receipt, outcome = .decisionCommitted receipt → receipt.disposition = .adoptedUnchanged →
      receipt.reviewedArtifactManifestSha256 = proposal.artifactManifestSha256 → adopts) :
    Within (Moves S id base proposal adopts) (reconcileOutcome S id project proposal outcome) := by
  have hrecord : ∀ status outcome, Within (Moves S id base proposal adopts)
      (recordOutcome S id project proposal status outcome) := fun status outcome =>
    Within.bind (setSettled_moves _ _) fun _ => Within.ofExcept _
  unfold reconcileOutcome
  split
  · next receipt =>
    refine Within.ofExcept_bind fun found hcheck => Within.bind (persistFile_moves _ _ _ _) fun _ => ?_
    split
    · next hdisposition =>
      have hyes : adopts := by
        refine hadopts receipt rfl hdisposition.1 ?_
        rw [checkReconciled_reviewed hcheck, hdisposition.1]
        rfl
      refine Within.bind (Within.and (commitProposal_lands hyes) commitProposal_guarded) fun _ => ?_
      refine Within.bind (adopt_moves hyes) fun _ => completeReconciled_moves (.inr ⟨hyes, rfl⟩)
    · exact completeReconciled_moves (.inl hbase)
  · exact hrecord _ _
  · exact hrecord _ _
  · exact hrecord _ _
  · exact hrecord _ _

end

end

end LpStudio.Server.Requests
