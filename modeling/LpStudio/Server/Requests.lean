import LpStudio.Server.AiAttempts
import LpStudio.Server.Resolution
import LpStudio.StaticExport.Persisted
import LpStudio.Storage.AcceptedSites
import LpStudio.Storage.Targets
import LpStudio.Synapse.Proposals

/-! # Requests that change a project
The handlers of `lib.rs` for targets, exports, proposals, decisions, reconciliations and clean-ups, over what the server
has in memory, the managed root and the sidecars. A request runs in sections under the lock of the store; only
`create_proposal` has two, since it waits for the provider between them.
-/
namespace LpStudio.Server.Requests
open Str Fault Fault.Program Storage
open Accepted (ReadFailure reported)
open Synapse (ArtifactDisposition SidecarDecisionReceipt SidecarProposalReceipt SidecarError)
open Targets (TargetRecord TargetResolution)

/-! ## Error envelopes -/

inductive AcceptedState where
  | unchanged | reconciliationRequired
  deriving DecidableEq, Repr

inductive RecoveryAction where
  | reconcile | refresh | manualRecovery | retry | correctRequest
  deriving DecidableEq, Repr

structure ErrorDetail where
  acceptedState : AcceptedState
  recoveryAction : RecoveryAction
  deriving DecidableEq, Repr

def detail (e : ApiError) : ErrorDetail :=
  if e.code = "decision_outcome_unknown".toList ∨ e.code = "decision_reconciliation_required".toList then
    ⟨.reconciliationRequired, .reconcile⟩
  else if e.code = "internal_error".toList then ⟨.reconciliationRequired, .refresh⟩
  else
    ⟨.unchanged,
      if e.code = "read_only_recovery".toList then .manualRecovery
      else if e.retryable then .retry
      else if e.status = 409 ∨ e.status = 404 then .refresh
      else .correctRequest⟩

def conflict (code : String) : ApiError := ApiError.conflict code.toList

/-- `sidecar_api_error` -/
def ofSidecar : SidecarError → ApiError
  | .staleBase => conflict "stale_proposal"
  | .activeReview => conflict "active_review"
  | .idempotencyConflict => conflict "idempotency_conflict"
  | .decisionIntentExists => conflict "decision_intent_exists"
  | .reviewNotFound => .notFound
  | .terminalState => conflict "review_terminal"
  | .storage => ⟨503, "synapsegit_storage_unavailable".toList,
      "The durable SynapseGit operation store is temporarily unavailable.".toList, true⟩
  | .invalidArgument | .integrity => ⟨500, "synapsegit_integrity_error".toList,
      "The durable SynapseGit binding could not be validated.".toList, false⟩

def decisionReconciliationRequired : ApiError :=
  ⟨503, "decision_reconciliation_required".toList,
    "The Decision was not confirmed. Reconcile its durable operation before trying again.".toList, true⟩

def decisionOutcomeUnknown : ApiError :=
  ⟨409, "decision_outcome_unknown".toList,
    "The Decision outcome is unknown. Reconciliation is required before another Decision.".toList, true⟩

def receiptMismatch : ApiError :=
  ⟨500, "synapsegit_receipt_mismatch".toList,
    "The durable SynapseGit Decision receipt did not match the immutable Proposal.".toList, false⟩

/-- `static_export_api_error` -/
def ofStaticExport : StaticExport.StaticExportError → ApiError
  | .archiveGeneration | .serialization => .internal
  | _ => ⟨422, "static_export_validation_failed".toList,
      "The Accepted site does not satisfy the bounded static export profile.".toList, false⟩

/-- `.ok_or_else(ApiError::not_found)` -/
def found {α : Type} : Option α → Except ApiError α
  | some a => .ok a
  | none => .error .notFound

/-- `.map_err(|_| ApiError::internal())` -/
def orInternal {α : Type} : Option α → Except ApiError α
  | some a => .ok a
  | none => .error .internal

/-- `if condition { return Err(error) }` -/
def refuse (condition : Prop) [Decidable condition] (error : ApiError) : Except ApiError Unit :=
  if condition then .error error else .ok ()

def ensureCapacity (current maximum : ℕ) : Except ApiError Unit := refuse (maximum ≤ current) .capacity

/-- `checked_add` over a list, in 64 bits. -/
def checkedByteTotal (lengths : List ℕ) : Except ApiError ℕ :=
  if lengths.sum < 2 ^ 64 then .ok lengths.sum else .error .capacity

/-! ## State -/

def maxTargetsPerProject : ℕ := 32
def maxExports : ℕ := 16
def maxRetainedExportBytes : ℕ := 64 * 1024 * 1024

inductive ProposalStatus where
  | pendingReview | adopted | rejected | deferred | stale | failed | incomplete
  deriving DecidableEq, Repr

inductive ProposalReviewOutcome where
  | pendingReview | retryableFailure | outcomeUnknown | terminalDenial
  deriving DecidableEq, Repr

structure ProposalRecord where
  id : Text
  reviewId : Text
  baseRevisionId : Text
  baseArtifactManifestSha256 : Text
  artifactManifestSha256 : Text
  reviewContextSha256 : Text
  reviewContextJson : Bytes
  proposedFiles : Files
  status : ProposalStatus
  reviewOutcome : ProposalReviewOutcome
  external : Bool
  providerId : Text
  reportedModel : Text
  target : TargetRecord
  recordedAt : Text
  grantExpiresAt : Text
  plannedRevisionId : Text

structure HistoryRecord where
  proposalId : Text
  reviewId : Text
  baseRevisionId : Text
  baseArtifactManifestSha256 : Text
  resultingRevisionId : Text
  artifactManifestSha256 : Text
  resultingAcceptedManifestSha256 : Text
  providerId : Text
  reportedModel : Text
  disposition : ArtifactDisposition
  decisionReceiptSha256 : Text
  recordedAt : Text

structure ContextRecord where
  attemptId : Text
  revisionId : Text
  targetId : Text
  canonicalJson : Bytes
  sha256 : Text

structure Project where
  revisionId : Text
  acceptedManifestSha256 : Text
  acceptedFiles : Files
  targets : Std.ExtTreeMap Text TargetRecord compare
  contexts : Std.ExtTreeMap Text ContextRecord compare
  proposal : Option ProposalRecord
  history : List HistoryRecord

structure ApprovalBinding where
  sessionId : Text
  projectId : Text
  reviewId : Text
  proposalId : Text
  proposalDigest : Text
  expectedRevisionId : Text
  disposition : ArtifactDisposition
  intentId : Text
  deriving DecidableEq

structure ApprovalGrant where
  binding : ApprovalBinding
  expiresAt : ℤ

/-- The store of the server, with the directories that it manages. -/
structure World where
  projects : Std.ExtTreeMap Text Project compare
  /-- The project of a review. -/
  reviews : Std.ExtTreeMap Text Text compare
  /-- By the digests of their tokens. -/
  approvals : Std.ExtTreeMap Text ApprovalGrant compare
  exports : Std.ExtTreeMap Text StaticExport.ExportArtifact compare
  publications : Std.ExtTreeMap Text StaticExport.ExportArtifact compare
  aiAttempts : AiAttempts
  disk : Store
  targets : Text → TargetSection
  synapse : Text → Synapse.State

def modifyProject (id : Text) (f : Project → Project) (w : World) : World :=
  { w with projects := w.projects.modify id f }

def modifyProposal (f : ProposalRecord → ProposalRecord) (project : Project) : Project :=
  { project with proposal := project.proposal.map f }

/-- The files of a site, with the directories that they are in. -/
def siteOf (files : Files) : SiteTree where
  directories := (files.keys.flatMap fun path =>
    (Paths.segments path).dropLast.inits.tail.map (List.intercalate ['/'])).dedup
  files := files.toList
  sorted := Std.ExtTreeMap.ordered_keys_toList

/-! ## Documents -/

structure DecisionMetadata where
  proposalId : Text
  reviewId : Text
  baseRevisionId : Text
  baseArtifactManifestSha256 : Text
  resultingRevisionId : Text
  disposition : ArtifactDisposition
  reviewedArtifactManifestSha256 : Text
  decisionReceiptSha256 : Text
  recordedAt : Text

structure DecisionCompletion where
  proposalId : Text
  reviewId : Text
  disposition : ArtifactDisposition
  resultingRevisionId : Text
  resultingAcceptedManifestSha256 : Text
  decisionReceiptSha256 : Text

inductive Document where
  | target (target : TargetRecord)
  /-- `persisted_proposal_metadata` -/
  | proposal (proposal : ProposalRecord)
  | binding (proposal : ProposalRecord)
  | decision (metadata : DecisionMetadata)
  | completion (completion : DecisionCompletion)

/-- What the handlers are given: the crates, how bytes are made of records, and how a removal or a write ends early. -/
structure Services where
  crates : Crates
  git : Synapse.SynapseGit
  remover : Remover
  isObject : ObjectCheck
  partly : ℕ → SiteTree → SiteTree
  exportVersion : Text
  artifactLimits : Synapse.ArtifactLimits
  /-- `serde_json::to_vec` -/
  toVec : Document → Option Bytes
  /-- The digest of the canonical JSON of a revision's manifest. -/
  canonicalManifestSha256 : Text → Text → Files → Text
  /-- `durable_decision_receipt_sha256` -/
  receiptSha256 : SidecarDecisionReceipt → ArtifactDisposition → Option Text
  /-- `target_resolution_id` -/
  targetResolutionId : TargetResolution → Option Text

/-! ## Steps -/

inductive PersistTargetStep where
  | validate
  | recover (step : TargetSection.RecoverStep)
  | list
  | write (step : WriteStep)

inductive Step where
  | verify
  | target (step : TargetSection.ReplaceStep)
  | persistTarget (step : PersistTargetStep)
  | persistExport (step : Store.GeneratedStep)
  | deleteArtifact (step : Store.DeleteGeneratedStep)
  | prepareProposal (step : Root.PrepareStep)
  | synapsePaths | openSidecar
  | beginProposal (step : Synapse.BeginStep)
  | decide (step : Synapse.DecideStep)
  | resume (step : Synapse.ResumeStep)
  | binding (step : Root.CommitStep)
  | decision (step : Root.CommitStep)
  | completion (step : Root.CommitStep)
  | commit (step : Accepted.CommitStep)
  | responseBefore | responseAfter
  | deleteProposal (step : Root.DeleteProposalStep)
  | deleteProject (step : Accepted.DeleteStep)

section
variable {M α : Type}

def onStore (p : Program M Store StorageError α) : Program M World StorageError α :=
  p.on World.disk fun disk w => { w with disk }

def onRoot (p : Program M Root StorageError α) : Program M World StorageError α :=
  onStore (p.on Store.root Store.setRoot)

def onTargets (projectId : Text) (p : Program M TargetSection StorageError α) : Program M World StorageError α :=
  p.on (fun w => w.targets projectId) fun targets w => { w with targets := Function.update w.targets projectId targets }

def onSidecar (projectId : Text) (p : Program M Synapse.State SidecarError α) : Program M World SidecarError α :=
  p.on (fun w => w.synapse projectId) fun state w => { w with synapse := Function.update w.synapse projectId state }

/-- A call of the storage, with what its reads report where a fault hits them. -/
def storageCall (label : M → Step) (failure : ReadFailure) (p : Program M World StorageError α) :
    Program Step World ApiError α :=
  (p.relabel label).mapError fun e => ApiError.ofStorage (reported failure e)

def sidecarCall (projectId : Text) (label : M → Step) (p : Program M Synapse.State SidecarError α) :
    Program Step World ApiError α :=
  ((onSidecar projectId p).relabel label).mapError ofSidecar

end

/-- `persist_target`; the file is written through a temporary with the nonce. -/
def targetPlace (targetId nonce : Text) : Place TargetSection Bytes where
  held s := s.targets[targetId]?
  draft n _ s := if n = some 0 then s else { s with targetTemporaries := (targetId, nonce) :: s.targetTemporaries }
  discard s := { s with targetTemporaries := s.targetTemporaries.filter (· != (targetId, nonce)) }
  publish bytes s := { s with
    targets := s.targets.insert targetId bytes
    targetTemporaries := s.targetTemporaries.filter (· != (targetId, nonce)) }

def persistTarget (K : Crates) (projectId targetId nonce : Text) (canonicalBytes : Bytes) :
    Program PersistTargetStep TargetSection StorageError Unit := do
  Program.look .io .validate fun _ => do
    validateIdentifier projectId "prj_".toList
    validateIdentifier targetId "tgt_".toList
    ensure (canonicalBytes ≠ [] ∧ canonicalBytes.length ≤ maxTargetMetadataBytes) .corrupt
  (TargetSection.recoverTargetTransaction K projectId).relabel .recover
  Program.look .io .list fun s => do
    let existing ← s.enumerateTargetFiles
    ensure (targetId ∈ existing ∨ existing.length < maxPersistedTargets) .corrupt
  (writeImmutable (targetPlace targetId nonce) canonicalBytes).relabel .write

section
variable (S : Services) (reports : Step → ReadFailure)

def requireRevision (project : Project) (revisionId : Text) : Except ApiError Unit :=
  refuse (project.revisionId ≠ revisionId) (conflict "revision_mismatch")

/-- `verify_project` of a project, as every request that relies on its files calls it. -/
def verifyAccepted (projectId : Text) (project : Project) : Program Step World ApiError Unit :=
  (Program.look (reports .verify).error .verify fun w =>
    Accepted.verifyProject S.crates projectId project.revisionId project.acceptedManifestSha256 w.disk.root).mapError
    ApiError.ofStorage

/-! ## Targets -/

structure CreateTarget where
  /-- `authorize_mutation`, `valid_json` and `require_schema`. -/
  checked : Except ApiError Unit
  projectId : Text
  target : TargetRecord
  nonce : Text
  journalNonce : Text
  nonce_valid : validateNonce nonce = .ok ()
  journalNonce_valid : validateNonce journalNonce = .ok ()

def checkTarget (r : CreateTarget) (w : World) : Except ApiError Project := do
  r.checked
  Targets.validateTargetShape S.crates r.target
  let project ← found w.projects[r.projectId]?
  requireRevision project r.target.captureRevisionId
  return project

/-- The canonical bytes of the target, which has to be new and to have a resolution. -/
def describeTarget (r : CreateTarget) (project : Project) : Except ApiError Bytes := do
  refuse (r.target.targetId ∈ project.targets) (conflict "target_id_exists")
  let resolution ← Targets.resolveTargetAgainstFiles S.crates r.target project.acceptedFiles project.revisionId
  let _ ← orInternal (S.targetResolutionId resolution)
  let canonicalTarget ← orInternal (S.toVec (.target r.target))
  refuse (maxTargetMetadataBytes < canonicalTarget.length) .invalid
  return canonicalTarget

/-- The first target that no context refers to. -/
def recyclableTargetId (project : Project) : Option Text :=
  project.targets.keys.find? fun targetId => !project.contexts.values.any (·.targetId == targetId)

/-- The target that gives way, with its bytes. -/
def recyclableTarget (project : Project) : Except ApiError (Text × Bytes) := do
  let recyclableId ← (recyclableTargetId project).elim (.error .capacity) .ok
  let recyclable ← orInternal project.targets[recyclableId]?
  let expectedBytes ← orInternal (S.toVec (.target recyclable))
  return (recyclableId, expectedBytes)

def ensureTargetCapacity (projectId : Text) (w : World) : Except ApiError Unit := do
  let project ← found w.projects[projectId]?
  ensureCapacity project.targets.size maxTargetsPerProject

def insertTarget (r : CreateTarget) : World → World :=
  modifyProject r.projectId fun project =>
    { project with targets := project.targets.insert r.target.targetId r.target }

def createTarget (r : CreateTarget) : Program Step World ApiError Unit := do
  let project ← read (checkTarget S r)
  verifyAccepted S reports r.projectId project
  let canonicalTarget ← ofExcept (describeTarget S r project)
  if maxTargetsPerProject ≤ project.targets.size then
    let (recyclableId, expectedBytes) ← ofExcept (recyclableTarget S project)
    storageCall .target .io (onTargets r.projectId (TargetSection.replaceTarget S.crates
      ⟨r.projectId, recyclableId, expectedBytes, r.target.targetId, canonicalTarget, r.nonce, r.journalNonce,
        r.nonce_valid, r.journalNonce_valid⟩))
    change (modifyProject r.projectId fun project => { project with targets := project.targets.erase recyclableId })
    read (ensureTargetCapacity r.projectId)
    change (insertTarget r)
  else
    read (ensureTargetCapacity r.projectId)
    storageCall .persistTarget .io
      (onTargets r.projectId (persistTarget S.crates r.projectId r.target.targetId r.nonce canonicalTarget))
    change (insertTarget r)

/-! ## Exports -/

structure CreateExport where
  checked : Except ApiError Unit
  projectId : Text
  revisionId : Text
  exportId : Text
  generatedAtUtc : Text
  nonce : Text

def checkExport (r : CreateExport) (w : World) : Except ApiError Project := do
  r.checked
  ensureCapacity w.exports.size maxExports
  let project ← found w.projects[r.projectId]?
  requireRevision project r.revisionId
  return project

def CreateExport.request (r : CreateExport) (project : Project) : StaticExport.ExportRequest where
  projectId := r.projectId
  revisionId := project.revisionId
  acceptedManifestSha256 := project.acceptedManifestSha256
  acceptedFiles := project.acceptedFiles
  exportId := r.exportId
  generatedAtUtc := r.generatedAtUtc

def CreateExport.artifact (r : CreateExport) (generated : StaticExport.PersistedExport) : StaticExport.ExportArtifact :=
  ⟨r.projectId, r.revisionId, generated.archiveSha256, generated.archiveZip⟩

/-- The generated archive, if there is room for it among the others. -/
def generateExport (r : CreateExport) (project : Project) (w : World) : Except ApiError StaticExport.PersistedExport := do
  let artifact ← (StaticExport.createExport S.exportVersion S.crates (r.request project)).mapError ofStaticExport
  let retainedBytes ← checkedByteTotal (w.exports.values.map (·.bytes.length))
  refuse (maxRetainedExportBytes < retainedBytes + artifact.archiveZip.length) .capacity
  return artifact

def createExport (r : CreateExport) : Program Step World ApiError Unit := do
  let project ← read (checkExport r)
  verifyAccepted S reports r.projectId project
  let artifact ← read (generateExport S r project)
  storageCall .persistExport .io (onStore (Store.persistGeneratedArtifact S.crates S.isObject
    ⟨r.projectId, r.exportId, project.revisionId, .staticExport, artifact.archiveZip, artifact.receiptJson, r.nonce⟩))
  change fun w => { w with exports := w.exports.insert r.exportId (r.artifact artifact) }

/-! ## Proposals -/

structure StartProposal where
  checked : Except ApiError Unit
  projectId : Text
  contextId : Text
  contextSha256 : Text
  /-- What the context's entries and the credential of its provider admit. -/
  admitted : ContextRecord → Except ApiError Unit

def currentContext (project : Project) (contextId : Text) : Except ApiError ContextRecord :=
  found project.contexts[contextId]?

def checkContext (r : StartProposal) (project : Project) : Except ApiError ContextRecord := do
  refuse project.proposal.isSome (conflict "artifact_single_proposal_limit")
  let context ← currentContext project r.contextId
  refuse (context.sha256 ≠ r.contextSha256 ∨ S.crates.sha256 context.canonicalJson ≠ context.sha256)
    (conflict "context_digest_mismatch")
  refuse (context.revisionId ≠ project.revisionId) (conflict "stale_base")
  r.admitted context
  return context

def claimError : ClaimError → ApiError
  | .projectBusy => conflict "ai_attempt_in_progress"
  | .attemptAlreadyFinished => conflict "ai_attempt_already_finished"
  | .generationExhausted => .internal

/-- `claim_ai_attempt` -/
def claimAttempt (projectId attemptId : Text) (w : World) : Except ApiError ℕ × World :=
  ((w.aiAttempts.claim projectId attemptId).1.mapError claimError,
    { w with aiAttempts := (w.aiAttempts.claim projectId attemptId).2 })

/-- `create_proposal` until it waits for the provider. -/
def startProposal (r : StartProposal) : Program Step World ApiError ℕ := do
  ofExcept r.checked
  let project ← read fun w => found w.projects[r.projectId]?
  verifyAccepted S reports r.projectId project
  let context ← ofExcept (checkContext S r project)
  act (claimAttempt r.projectId context.attemptId)

/-- The Proposal that the change set of the provider amounts to, with the manifests of both sites. -/
structure Draft where
  proposal : ProposalRecord
  accepted : Synapse.RegularFileManifest
  proposed : Synapse.RegularFileManifest

structure FinishProposal where
  projectId : Text
  contextId : Text
  contextSha256 : Text
  attemptId : Text
  generation : ℕ
  /-- The error of the provider or of a cancellation, with what the guard of the attempt records for it. -/
  answer : Except (ApiError × Option AttemptStatus) Unit
  /-- The validation of the answer, its change set applied to the Accepted files, and the documents of the Proposal. -/
  draft : Project → ContextRecord → Except ApiError Draft
  nonce : Text

/-- `ActiveAttemptGuard::drop` -/
def dropGuard (r : FinishProposal) (status : Option AttemptStatus) (w : World) : World :=
  { w with aiAttempts := match status with
    | some status => (w.aiAttempts.complete r.projectId r.attemptId r.generation status).2
    | none => (w.aiAttempts.release r.projectId r.attemptId r.generation).2 }

def completeAttempt (r : FinishProposal) (w : World) : Except ApiError Unit × World :=
  (match (w.aiAttempts.complete r.projectId r.attemptId r.generation .proposalReady).1 with
    | .recorded => .ok ()
    | .cancelled => .error ⟨409, "ai_attempt_cancelled".toList, "The AI attempt was explicitly cancelled.".toList, false⟩
    | .notActive => .error (conflict "ai_attempt_not_active"),
    { w with aiAttempts := (w.aiAttempts.complete r.projectId r.attemptId r.generation .proposalReady).2 })

def activeProject (r : FinishProposal) (w : World) : Except ApiError Project := do
  refuse (w.aiAttempts.isActiveGeneration r.projectId r.attemptId r.generation = false) (conflict "ai_attempt_not_active")
  found w.projects[r.projectId]?

def checkDraft (r : FinishProposal) (project : Project) : Except ApiError (Draft × Bytes) := do
  refuse project.proposal.isSome (conflict "artifact_single_proposal_limit")
  let context ← currentContext project r.contextId
  refuse (context.sha256 ≠ r.contextSha256 ∨ context.revisionId ≠ project.revisionId) (conflict "stale_base")
  let draft ← r.draft project context
  let metadata ← orInternal (S.toVec (.proposal draft.proposal))
  return (draft, metadata)

/-- The directory of the project's sidecar. -/
def addSynapse (projectId : Text) : Root → Root :=
  Accepted.modifyTree projectId fun tree =>
    { tree with directories := ("synapse".toList :: tree.directories).dedup }

def synapsePaths (projectId : Text) : Program Step World ApiError Unit := do
  let step : Program Step Root StorageError Unit := do
    Program.look .io .synapsePaths fun s => do
      validateIdentifier projectId "prj_".toList
      let _ ← Root.present s.projects[projectId]?
    .atomic .io .synapsePaths (addSynapse projectId)
  (onRoot step).mapError ApiError.ofStorage

def openSidecar : Program Step World ApiError Unit := failpoint (ofSidecar .storage) .openSidecar

def sidecarConfig (projectId : Text) (proposal : ProposalRecord) : Synapse.SidecarConfig where
  projectKey := projectId
  creatorDisplayName := "Local creator".toList
  agentDisplayName := if proposal.external then "External AI provider".toList else "Deterministic fake AI".toList
  recordedAt := proposal.recordedAt
  grantExpiresAt := proposal.grantExpiresAt
  artifactLimits := S.artifactLimits

def checkReceipt (draft : Draft) (receipt : SidecarProposalReceipt) : Except ApiError Unit :=
  refuse (receipt.baseArtifactManifestSha256 ≠ S.git.artifactManifestSha256 draft.accepted ∨
    receipt.reviewContextSha256 ≠ draft.proposal.reviewContextSha256 ∨
    receipt.artifactManifestSha256 ≠ S.git.artifactManifestSha256 draft.proposed) .internal

/-- `proposal_dto`, as far as it can fail. -/
def proposalDto (proposal : ProposalRecord) : Except ApiError Unit := do
  let _ ← Targets.resolveTargetAgainstFiles S.crates proposal.target proposal.proposedFiles proposal.plannedRevisionId

def persistFile (label : Root.CommitStep → Step) (projectId proposalId : Text) (file : Root.ProposalFile) (bytes : Bytes) :
    Program Step World ApiError Unit :=
  storageCall label .io (onRoot (Root.persistProposalFile projectId proposalId file bytes))

/-- The Proposal on disk and in the sidecar. -/
def publishDraft (projectId nonce : Text) (draft : Draft) (metadata : Bytes) : Program Step World ApiError ProposalRecord := do
  storageCall .prepareProposal (reports (.prepareProposal .validate)) (onRoot (Root.prepareProposal S.crates S.remover S.partly
    ⟨projectId, draft.proposal.id, siteOf draft.proposal.proposedFiles, metadata, nonce⟩))
  synapsePaths projectId
  openSidecar
  let receipt ← sidecarCall projectId .beginProposal (Synapse.beginProposal S.crates S.git
    (sidecarConfig S projectId draft.proposal)
    ⟨draft.proposal.id, draft.accepted, draft.proposed, draft.proposal.reviewContextJson⟩)
  ofExcept (checkReceipt S draft receipt)
  let proposal := { draft.proposal with reviewId := receipt.reviewId, status := .pendingReview }
  let binding ← ofExcept (orInternal (S.toVec (.binding proposal)))
  persistFile .binding projectId proposal.id .review binding
  ofExcept (proposalDto S proposal)
  return proposal

def draftProposal (r : FinishProposal) : Program Step World ApiError ProposalRecord := do
  let project ← read (activeProject r)
  verifyAccepted S reports r.projectId project
  let (draft, metadata) ← ofExcept (checkDraft S r project)
  publishDraft S reports r.projectId r.nonce draft metadata

def enterProposal (projectId : Text) (proposal : ProposalRecord) (w : World) : World :=
  { modifyProject projectId (fun project => { project with proposal := some proposal }) w with
    reviews := w.reviews.insert proposal.reviewId projectId }

/-- `create_proposal` after the answer of the provider. -/
def finishProposal (r : FinishProposal) : Program Step World ApiError Unit := do
  match r.answer with
  | .error (e, status) =>
    change (dropGuard r status)
    .throw e
  | .ok () =>
    let proposal ← (draftProposal S reports r).rescue fun e => do
      change (dropGuard r (some .validationFailed))
      .throw e
    act (completeAttempt r)
    change (enterProposal r.projectId proposal)

/-! ## Decisions -/

structure CreateDecision where
  checked : Except ApiError Unit
  sessionId : Text
  reviewId : Text
  approvalToken : Text
  proposalId : Text
  expectedRevisionId : Text
  disposition : ArtifactDisposition
  rationale : Option Text
  intentId : Text
  now : ℤ

def CreateDecision.tokenHash (r : CreateDecision) : Text := S.crates.sha256 (encode r.approvalToken)

/-- The project of the review and the approval that the request needs. -/
def expectedBinding (r : CreateDecision) (w : World) : Except ApiError ApprovalBinding := do
  r.checked
  let projectId ← found w.reviews[r.reviewId]?
  refuse (r.approvalToken = [] ∨ 128 < (encode r.approvalToken).length ∨ r.tokenHash S ∉ w.approvals)
    (conflict "approval_invalid_or_consumed")
  let project ← found w.projects[projectId]?
  match project.proposal with
  | some proposal =>
    return ⟨r.sessionId, projectId, r.reviewId, r.proposalId, proposal.artifactManifestSha256, r.expectedRevisionId,
      r.disposition, r.intentId⟩
  | none => .error (if project.history.any (·.reviewId == r.reviewId) then conflict "review_terminal" else .notFound)

/-- `validate_approval`; an approval that has expired goes. -/
def validateApproval (r : CreateDecision) (expected : ApprovalBinding) (w : World) : Except ApiError Unit × World :=
  match w.approvals[r.tokenHash S]? with
  | none => (.error (conflict "approval_invalid_or_consumed"), w)
  | some grant =>
    if grant.expiresAt < r.now then
      (.error (conflict "approval_expired"), { w with approvals := w.approvals.erase (r.tokenHash S) })
    else if grant.binding ≠ expected then (.error (conflict "approval_binding_mismatch"), w)
    else (.ok (), w)

def consumeApproval (r : CreateDecision) (expected : ApprovalBinding) (w : World) : Except ApiError Unit × World :=
  match validateApproval S r expected w with
  | (.ok (), w) => (.ok (), { w with approvals := w.approvals.erase (r.tokenHash S) })
  | (.error e, w) => (.error e, w)

def decidedProposal (r : CreateDecision) (projectId : Text) (w : World) : Except ApiError (Project × ProposalRecord) := do
  let project ← found w.projects[projectId]?
  requireRevision project r.expectedRevisionId
  let proposal ← found project.proposal
  refuse (proposal.status ≠ .pendingReview ∨ proposal.reviewOutcome ≠ .pendingReview ∨ proposal.id ≠ r.proposalId ∨
    proposal.reviewId ≠ r.reviewId) (conflict "decision_binding_mismatch")
  return (project, proposal)

def setOutcome (projectId : Text) (outcome : ProposalReviewOutcome) : World → World :=
  modifyProject projectId (modifyProposal fun proposal => { proposal with reviewOutcome := outcome })

def setSettled (projectId : Text) (status : ProposalStatus) (outcome : ProposalReviewOutcome) : World → World :=
  modifyProject projectId (modifyProposal fun proposal => { proposal with status, reviewOutcome := outcome })

/-- `decision_completion_result` -/
def orReconcile {α : Type} (projectId : Text) (p : Program Step World ApiError α) : Program Step World ApiError α :=
  p.rescue fun _ => do
    change (setOutcome projectId .outcomeUnknown)
    .throw decisionReconciliationRequired

/-- The manifest that a decision has to name. -/
def expectedManifest (disposition : ArtifactDisposition) (proposed accepted : Text) : Text :=
  match disposition with
  | .adoptedUnchanged => proposed
  | .rejected | .deferred => accepted

def resultingRevision (disposition : ArtifactDisposition) (project : Project) (proposal : ProposalRecord) : Text :=
  match disposition with
  | .adoptedUnchanged => proposal.plannedRevisionId
  | .rejected | .deferred => project.revisionId

def decisionMetadata (disposition : ArtifactDisposition) (project : Project) (proposal : ProposalRecord)
    (receipt : SidecarDecisionReceipt) (receiptSha256 : Text) : DecisionMetadata where
  proposalId := proposal.id
  reviewId := proposal.reviewId
  baseRevisionId := proposal.baseRevisionId
  baseArtifactManifestSha256 := proposal.baseArtifactManifestSha256
  resultingRevisionId := resultingRevision disposition project proposal
  disposition := disposition
  reviewedArtifactManifestSha256 := receipt.reviewedArtifactManifestSha256
  decisionReceiptSha256 := receiptSha256
  recordedAt := proposal.recordedAt

def decisionCompletion (metadata : DecisionMetadata) : DecisionCompletion where
  proposalId := metadata.proposalId
  reviewId := metadata.reviewId
  disposition := metadata.disposition
  resultingRevisionId := metadata.resultingRevisionId
  resultingAcceptedManifestSha256 := metadata.reviewedArtifactManifestSha256
  decisionReceiptSha256 := metadata.decisionReceiptSha256

def historyRecord (proposal : ProposalRecord) (metadata : DecisionMetadata) : HistoryRecord where
  proposalId := metadata.proposalId
  reviewId := metadata.reviewId
  baseRevisionId := metadata.baseRevisionId
  baseArtifactManifestSha256 := metadata.baseArtifactManifestSha256
  resultingRevisionId := metadata.resultingRevisionId
  artifactManifestSha256 := proposal.artifactManifestSha256
  resultingAcceptedManifestSha256 := metadata.reviewedArtifactManifestSha256
  providerId := proposal.providerId
  reportedModel := proposal.reportedModel
  disposition := metadata.disposition
  decisionReceiptSha256 := metadata.decisionReceiptSha256
  recordedAt := metadata.recordedAt

/-- `commit_revision` of the proposed files. -/
def commitProposal (projectId : Text) (proposal : ProposalRecord) : Program Step World ApiError Unit :=
  storageCall .commit .io (onRoot (Accepted.commitRevision S.crates
    { projectId
      revisionId := proposal.plannedRevisionId
      artifactManifestSha256 := proposal.artifactManifestSha256
      site := siteOf proposal.proposedFiles
      canonicalManifestSha256 :=
        S.canonicalManifestSha256 proposal.plannedRevisionId proposal.artifactManifestSha256 proposal.proposedFiles }))

def adopt (proposal : ProposalRecord) (project : Project) : Project :=
  { project with
    revisionId := proposal.plannedRevisionId
    acceptedManifestSha256 := proposal.artifactManifestSha256
    acceptedFiles := proposal.proposedFiles }

/-- The commit of an adopted Proposal, on disk and then in memory. -/
def adoptDecided (r : CreateDecision) (projectId : Text) (proposal : ProposalRecord) : Program Step World ApiError Unit :=
  if r.disposition = .adoptedUnchanged then do
    orReconcile projectId (commitProposal S projectId proposal)
    change (modifyProject projectId (adopt proposal))
  else return ()

def closeProposal (record : HistoryRecord) (project : Project) : Project :=
  { project with history := project.history ++ [record], proposal := none }

/-- What follows a receipt of the sidecar. -/
def settleDecision (r : CreateDecision) (projectId : Text) (project : Project) (proposal : ProposalRecord)
    (receipt : SidecarDecisionReceipt) : Program Step World ApiError Unit := do
  orReconcile projectId (ofExcept (refuse (receipt.disposition ≠ r.disposition ∨ receipt.reviewedArtifactManifestSha256 ≠
    expectedManifest r.disposition proposal.artifactManifestSha256 project.acceptedManifestSha256) .internal))
  let receiptSha256 ← orReconcile projectId (ofExcept (orInternal (S.receiptSha256 receipt r.disposition)))
  let metadata := decisionMetadata r.disposition project proposal receipt receiptSha256
  let metadataBytes ← orReconcile projectId (ofExcept (orInternal (S.toVec (.decision metadata))))
  orReconcile projectId (persistFile .decision projectId proposal.id .decision metadataBytes)
  adoptDecided S r projectId proposal
  let completionBytes ← orReconcile projectId (ofExcept (orInternal (S.toVec (.completion (decisionCompletion metadata)))))
  orReconcile projectId (persistFile .completion projectId proposal.id .completion completionBytes)
  change (modifyProject projectId (closeProposal (historyRecord proposal metadata)))
  failpoint decisionReconciliationRequired .responseBefore
  failpoint decisionReconciliationRequired .responseAfter

/-- What the handler makes of the outcome of the sidecar. -/
def settleOutcome (r : CreateDecision) (projectId : Text) (project : Project) (proposal : ProposalRecord) :
    Synapse.ReviewOutcome → Program Step World ApiError Unit
  | .decisionCommitted receipt => settleDecision S r projectId project proposal receipt
  | .pendingReview => do
    change (setOutcome projectId .pendingReview)
    .throw (conflict "decision_not_committed")
  | .retryableFailure => do
    change (setOutcome projectId .retryableFailure)
    .throw decisionReconciliationRequired
  | .outcomeUnknown => do
    change (setOutcome projectId .outcomeUnknown)
    .throw decisionOutcomeUnknown
  | .terminalDenial => do
    change (setSettled projectId .failed .terminalDenial)
    .throw (conflict "decision_terminal_denial")

def createDecision (r : CreateDecision) : Program Step World ApiError Unit := do
  let binding ← read (expectedBinding S r)
  act (validateApproval S r binding)
  let (project, proposal) ← read (decidedProposal r binding.projectId)
  verifyAccepted S reports binding.projectId project
  synapsePaths binding.projectId
  openSidecar
  act (consumeApproval S r binding)
  let outcome ← orReconcile binding.projectId (sidecarCall binding.projectId .decide
    (Synapse.decide S.crates S.git (sidecarConfig S binding.projectId proposal) r.reviewId r.disposition r.rationale
      (encode r.intentId)))
  settleOutcome S r binding.projectId project proposal outcome

/-! ## Reconciliation -/

structure ReconcileReview where
  checked : Except ApiError Unit
  reviewId : Text

/-- `review_dto`, as far as it can fail. -/
def reviewDto (project : Project) (reviewId : Text) : Except ApiError Unit :=
  match project.proposal.filter (·.reviewId == reviewId) with
  | some proposal => proposalDto S proposal
  | none => refuse (project.history.any (·.reviewId == reviewId) = false) .notFound

def reviewProject (r : ReconcileReview) (w : World) : Except ApiError (Text × Project) := do
  r.checked
  let projectId ← found w.reviews[r.reviewId]?
  let project ← found w.projects[projectId]?
  return (projectId, project)

def baseIsCurrent (project : Project) (proposal : ProposalRecord) : Bool :=
  project.revisionId == proposal.baseRevisionId && project.acceptedManifestSha256 == proposal.baseArtifactManifestSha256

def adoptedIsCurrent (project : Project) (proposal : ProposalRecord) (receipt : SidecarDecisionReceipt) : Bool :=
  receipt.disposition == .adoptedUnchanged && project.revisionId == proposal.plannedRevisionId &&
    project.acceptedManifestSha256 == proposal.artifactManifestSha256

/-- The checks of `finalize_reconciled_decision`, with the metadata of the decision and their bytes. -/
def checkReconciled (project : Project) (proposal : ProposalRecord) (receipt : SidecarDecisionReceipt) :
    Except ApiError (DecisionMetadata × Bytes) := do
  refuse (baseIsCurrent project proposal = false ∧ adoptedIsCurrent project proposal receipt = false)
    (conflict "stale_proposal")
  refuse (receipt.reviewedArtifactManifestSha256 ≠
    expectedManifest receipt.disposition proposal.artifactManifestSha256 proposal.baseArtifactManifestSha256) receiptMismatch
  let receiptSha256 ← orInternal (S.receiptSha256 receipt receipt.disposition)
  let metadata := decisionMetadata receipt.disposition project proposal receipt receiptSha256
  let bytes ← orInternal (S.toVec (.decision metadata))
  return (metadata, bytes)

/-- The project after the completion is on disk. -/
def closeReconciled (record : HistoryRecord) (project : Project) : Project :=
  { project with
    history := if project.history.any (·.reviewId == record.reviewId) then project.history else project.history ++ [record]
    proposal := none }

/-- The completion of a reconciled decision, and its review. -/
def completeReconciled (projectId : Text) (project : Project) (proposal : ProposalRecord) (metadata : DecisionMetadata) :
    Program Step World ApiError Unit := do
  let completionBytes ← ofExcept (orInternal (S.toVec (.completion (decisionCompletion metadata))))
  persistFile .completion projectId proposal.id .completion completionBytes
  let closed := closeReconciled (historyRecord proposal metadata) project
  change fun w => { w with projects := w.projects.insert projectId closed }
  ofExcept (reviewDto S closed proposal.reviewId)

/-- `finalize_reconciled_decision` -/
def finalizeReconciledDecision (projectId : Text) (project : Project) (proposal : ProposalRecord)
    (receipt : SidecarDecisionReceipt) : Program Step World ApiError Unit := do
  let (metadata, bytes) ← ofExcept (checkReconciled S project proposal receipt)
  persistFile .decision projectId proposal.id .decision bytes
  if receipt.disposition = .adoptedUnchanged ∧ adoptedIsCurrent project proposal receipt = false then
    commitProposal S projectId proposal
    change (modifyProject projectId (adopt proposal))
    completeReconciled S projectId (adopt proposal project) proposal metadata
  else completeReconciled S projectId project proposal metadata

/-- An outcome without a decision is recorded. -/
def recordOutcome (projectId : Text) (project : Project) (proposal : ProposalRecord) (status : ProposalStatus)
    (outcome : ProposalReviewOutcome) : Program Step World ApiError Unit := do
  change (setSettled projectId status outcome)
  ofExcept (reviewDto S { project with proposal := some { proposal with status, reviewOutcome := outcome } } proposal.reviewId)

def reconcileOutcome (projectId : Text) (project : Project) (proposal : ProposalRecord) :
    Synapse.ReviewOutcome → Program Step World ApiError Unit
  | .decisionCommitted receipt => finalizeReconciledDecision S projectId project proposal receipt
  | .pendingReview => recordOutcome S projectId project proposal .pendingReview .pendingReview
  | .retryableFailure => recordOutcome S projectId project proposal .pendingReview .retryableFailure
  | .outcomeUnknown => recordOutcome S projectId project proposal .pendingReview .outcomeUnknown
  | .terminalDenial => recordOutcome S projectId project proposal .failed .terminalDenial

def reconcileReview (r : ReconcileReview) : Program Step World ApiError Unit := do
  let (projectId, project) ← read (reviewProject r)
  match project.proposal with
  | none => ofExcept (reviewDto S project r.reviewId)
  | some proposal =>
    ofExcept (refuse (proposal.reviewId ≠ r.reviewId) .notFound)
    verifyAccepted S reports projectId project
    synapsePaths projectId
    openSidecar
    let outcome ← sidecarCall projectId .resume
      (Synapse.resume S.crates S.git (sidecarConfig S projectId proposal) r.reviewId)
    reconcileOutcome S projectId project proposal outcome

/-! ## Clean-up -/

/-- `proposal_payload_byte_length` -/
def proposalPayloadByteLength (proposal : ProposalRecord) : Except ApiError ℕ := do
  let metadata ← orInternal (S.toVec (.proposal proposal))
  checkedByteTotal (metadata.length :: proposal.proposedFiles.values.map (·.length))

/-- `retention_inventory`, as far as it can fail. -/
def retentionInventory (w : World) : Except ApiError Unit :=
  w.projects.values.forM fun project => do
    let _ ← checkedByteTotal (project.acceptedFiles.values.map (·.length))
    match project.proposal.filter (·.reviewOutcome == .terminalDenial) with
    | some proposal =>
      let _ ← proposalPayloadByteLength S proposal
    | none => return ()

structure CleanupContexts where
  checked : Except ApiError Unit
  projectId : Text
  confirmation : Text

def clearContexts (r : CleanupContexts) (w : World) : Except ApiError Unit × World :=
  if r.confirmation ≠ r.projectId then (.error (conflict "cleanup_confirmation_mismatch"), w)
  else if w.aiAttempts.containsProject r.projectId then (.error (conflict "ai_attempt_in_progress"), w)
  else
    let w := { w with aiAttempts := w.aiAttempts.removeQueuedProject r.projectId }
    match (do
      let project ← found w.projects[r.projectId]?
      checkedByteTotal (project.contexts.values.map (·.canonicalJson.length)) : Except ApiError ℕ) with
    | .error e => (.error e, w)
    | .ok _ => (.ok (), modifyProject r.projectId (fun project => { project with contexts := ∅ }) w)

def cleanupContexts (r : CleanupContexts) : Program Step World ApiError Unit := do
  ofExcept r.checked
  act (clearContexts r)
  read (retentionInventory S)

structure CleanupProposal where
  checked : Except ApiError Unit
  projectId : Text
  proposalId : Text
  reviewId : Text
  confirmation : Text
  nonce : Text

/-- The failed Proposal, with the bytes that its directory has to hold. -/
def failedProposal (r : CleanupProposal) (w : World) : Except ApiError (Bytes × Bytes) := do
  r.checked
  refuse (r.confirmation ≠ r.proposalId) (conflict "cleanup_confirmation_mismatch")
  let project ← found w.projects[r.projectId]?
  match project.proposal.filter fun proposal => proposal.id == r.proposalId && proposal.reviewId == r.reviewId &&
      proposal.reviewOutcome == .terminalDenial with
  | none => .error (conflict "failed_proposal_binding_mismatch")
  | some proposal =>
    let _ ← proposalPayloadByteLength S proposal
    let metadata ← orInternal (S.toVec (.proposal proposal))
    let binding ← orInternal (S.toVec (.binding proposal))
    return (metadata, binding)

def dropProposal (r : CleanupProposal) (w : World) : World :=
  { modifyProject r.projectId (fun project => { project with proposal := none }) w with
    reviews := w.reviews.erase r.reviewId
    approvals := w.approvals.filter fun _ grant =>
      grant.binding.projectId != r.projectId || grant.binding.proposalId != r.proposalId }

def cleanupProposal (r : CleanupProposal) : Program Step World ApiError Unit := do
  let (metadata, binding) ← read (failedProposal S r)
  storageCall .deleteProposal (reports (.deleteProposal .stable)) (onRoot (Root.deleteProposal S.crates S.remover
    ⟨r.projectId, r.proposalId, metadata, some binding, r.nonce⟩))
  change (dropProposal r)
  read (retentionInventory S)

/-- The clean-up of an export or of a publication draft. -/
structure CleanupArtifact where
  checked : Except ApiError Unit
  kind : GeneratedArtifactKind
  projectId : Text
  artifactId : Text
  expectedSha256 : Text
  confirmation : Text
  nonce : Text

def retainedArtifacts : GeneratedArtifactKind → World → Std.ExtTreeMap Text StaticExport.ExportArtifact compare
  | .staticExport, w => w.exports
  | .publicationDraft, w => w.publications

def retainedArtifact (r : CleanupArtifact) (w : World) : Except ApiError StaticExport.ExportArtifact := do
  r.checked
  refuse (r.confirmation ≠ r.artifactId) (conflict "cleanup_confirmation_mismatch")
  let artifact ← found (retainedArtifacts r.kind w)[r.artifactId]?
  refuse (artifact.projectId ≠ r.projectId ∨ artifact.sha256 ≠ r.expectedSha256) (conflict "cleanup_binding_mismatch")
  return artifact

def dropArtifact (r : CleanupArtifact) (w : World) : World :=
  match r.kind with
  | .staticExport => { w with exports := w.exports.erase r.artifactId }
  | .publicationDraft => { w with publications := w.publications.erase r.artifactId }

def cleanupArtifact (r : CleanupArtifact) : Program Step World ApiError Unit := do
  let artifact ← read (retainedArtifact r)
  storageCall .deleteArtifact .io (onStore (Store.deleteGeneratedArtifact S.crates S.isObject
    ⟨r.projectId, r.artifactId, r.expectedSha256, artifact.bytes, r.kind, r.nonce⟩))
  change (dropArtifact r)
  read (retentionInventory S)

structure CleanupProject where
  checked : Except ApiError Unit
  projectId : Text
  expectedRevisionId : Text
  expectedManifestSha256 : Text
  confirmation : Text
  nonce : Text

def checkCleanup (r : CleanupProject) (w : World) : Except ApiError Unit := do
  r.checked
  refuse (r.confirmation ≠ r.projectId) (conflict "cleanup_confirmation_mismatch")
  refuse (w.aiAttempts.containsProject r.projectId = true) (conflict "ai_attempt_in_progress")
  let project ← found w.projects[r.projectId]?
  refuse (project.revisionId ≠ r.expectedRevisionId ∨ project.acceptedManifestSha256 ≠ r.expectedManifestSha256)
    (conflict "cleanup_binding_mismatch")
  let proposalBytes ← match project.proposal with
    | some proposal => proposalPayloadByteLength S proposal
    | none => pure 0
  let artifacts := (w.exports.values ++ w.publications.values).filter (·.projectId == r.projectId)
  let _ ← checkedByteTotal (proposalBytes :: project.acceptedFiles.values.map (·.length) ++
    project.contexts.values.map (·.canonicalJson.length) ++ artifacts.map (·.bytes.length))

def CleanupProject.deletion (r : CleanupProject) : Accepted.DeleteProject :=
  ⟨r.projectId, r.expectedRevisionId, r.expectedManifestSha256, r.nonce⟩

def dropProject (r : CleanupProject) (w : World) : World :=
  { w with
    projects := w.projects.erase r.projectId
    reviews := w.reviews.filter fun _ owner => owner != r.projectId
    approvals := w.approvals.filter fun _ grant => grant.binding.projectId != r.projectId
    exports := w.exports.filter fun _ artifact => artifact.projectId != r.projectId
    publications := w.publications.filter fun _ artifact => artifact.projectId != r.projectId
    aiAttempts := w.aiAttempts.removeProject r.projectId }

def deleteOnDisk (r : CleanupProject) : Program Step World ApiError Unit :=
  storageCall .deleteProject .io (onRoot
    (Accepted.deleteProject S.crates S.remover (fun step => reports (.deleteProject step)) r.deletion))

def cleanupProject (r : CleanupProject) : Program Step World ApiError Unit := do
  read (checkCleanup S r)
  deleteOnDisk S reports r
  change (dropProject r)
  read (retentionInventory S)

/-! ## Sections -/

/-- A section of a request; the five of `cleanup_retention` are its five kinds. -/
inductive Section where
  | createTarget (r : CreateTarget)
  | createExport (r : CreateExport)
  | startProposal (r : StartProposal)
  | finishProposal (r : FinishProposal)
  | createDecision (r : CreateDecision)
  | reconcileReview (r : ReconcileReview)
  | cleanupContexts (r : CleanupContexts)
  | cleanupProposal (r : CleanupProposal)
  | cleanupArtifact (r : CleanupArtifact)
  | cleanupProject (r : CleanupProject)

def Section.run : Section → Program Step World ApiError Unit
  | .createTarget r => Requests.createTarget S reports r
  | .createExport r => Requests.createExport S reports r
  | .startProposal r => do
    let _ ← Requests.startProposal S reports r
    return ()
  | .finishProposal r => Requests.finishProposal S reports r
  | .createDecision r => Requests.createDecision S reports r
  | .reconcileReview r => Requests.reconcileReview S reports r
  | .cleanupContexts r => Requests.cleanupContexts S r
  | .cleanupProposal r => Requests.cleanupProposal S reports r
  | .cleanupArtifact r => Requests.cleanupArtifact S r
  | .cleanupProject r => Requests.cleanupProject S reports r

end
end LpStudio.Server.Requests
