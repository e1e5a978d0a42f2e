import LpStudio.Synapse.Objects

/-! # The sidecar
The reconciliation of a review, the decision on it and its resumption, as `synapse_sidecar.rs` performs them: each
call of the repository or of the journal is a step, at which a fault can happen before the call or after it.
-/
namespace LpStudio.Synapse
open Str Fault Fault.Program

structure SidecarConfig where
  projectKey : Text
  creatorDisplayName : Text
  agentDisplayName : Text
  recordedAt : Text
  grantExpiresAt : Text
  artifactLimits : ArtifactLimits

structure SidecarDecisionReceipt where
  disposition : ArtifactDisposition
  reviewedArtifactManifestSha256 : Text
  selectedSnapshot : Text
  deriving DecidableEq, Repr

inductive ReviewOutcome where
  | pendingReview | retryableFailure | outcomeUnknown | terminalDenial
  | decisionCommitted (receipt : SidecarDecisionReceipt)
  deriving DecidableEq, Repr

def mapJournalError : JournalError → SidecarError
  | .invalidArgument => .invalidArgument
  | .reviewNotFound => .reviewNotFound
  | .decisionIntentExists => .decisionIntentExists
  | .idempotencyConflict => .idempotencyConflict
  | .stateConflict _ | .invalidStateTransition => .terminalState
  | .reviewBindingExists | .reviewBindingConflict | .proposalIntentNotFound | .proposalIntentExists
  | .proposalIntentConflict | .legacyDecisionIntent | .decisionIntentMismatch | .decisionOutcomeConflict
  | .corruptData => .integrity
  | .random | .storage => .storage

def mapApplicationError : ApplicationError → SidecarError
  | .staleBase => .staleBase
  | .refConflict => .activeReview
  | .authenticationRequired | .projectAccessDenied | .executionPermitInvalid | .executionFailed | .configInvalid =>
    .integrity
  | .serviceUnavailable => .storage
  | .core code =>
    if code = "stale_base".toList then .staleBase
    else if code = "ref_conflict".toList then .activeReview
    else .integrity

/-! ## Keys -/

def keyStart (c : Char) : Bool := isAsciiDigit c || ('a' ≤ c && c ≤ 'z')

def validateKey (value : Text) (maximum : ℕ) : Except SidecarError Unit :=
  if value ≠ [] ∧ (encode value).length ≤ maximum ∧ value.head?.any keyStart ∧
      value.tail.all (fun c => keyStart c || c ∈ ['-', '_', '.']) then
    .ok ()
  else .error .invalidArgument

def validateOperationKey (value : Text) : Except SidecarError Unit := validateKey value 128

def validateIdempotencyKey (value : Bytes) : Except SidecarError Unit :=
  if value = [] ∨ 4096 < value.length then .error .invalidArgument else .ok ()

def validatePrivateRationale (rationale : Option Text) : Except SidecarError Unit :=
  if rationale.any fun rationale => rationale = [] ∨ 2000 < (encode rationale).length ∨ rationale.any isControl then
    .error .invalidArgument
  else .ok ()

namespace SidecarConfig
variable (config : SidecarConfig)

def decisionRef : Text := "decision/artifact/".toList ++ config.projectKey

def proposalPrefix : Text := "proposal/artifact/".toList ++ config.projectKey

def proposalRef (operationKey : Text) : Text := config.proposalPrefix ++ '/' :: operationKey

end SidecarConfig

/-! ## Steps -/

section
variable {L α : Type}

/-- What is read off the repository. -/
def readRepository (io : SidecarError) (label : L) (f : Repository → Except SidecarError α) :
    Program L State SidecarError α := look io label fun s => f s.repository

def callRepository (io : SidecarError) (label : L) (f : Repository → Except SidecarError α × Repository) :
    Program L State SidecarError α :=
  call io label fun s => ((f s.repository).1, { s with repository := (f s.repository).2 })

def callJournal (label : L) (f : Journal → Except JournalError α × Journal) :
    Program L State SidecarError (Except JournalError α) :=
  call .storage label fun s => (.ok (f s.journal).1, { s with journal := (f s.journal).2 })

end

section
variable (K : Crates) (G : SynapseGit) (config : SidecarConfig)

def validateReviewBinding (binding : ReviewBinding) : Except SidecarError Unit :=
  if binding.projectScope ≠ (WorkflowIds.fromKey K config.projectKey).project ∨
      binding.decisionRefName ≠ config.decisionRef ∨
      G.parseOid binding.proposalHead ≠ some .commit ∨ G.parseOid binding.expectedDecisionHead ≠ some .commit then
    .error .integrity
  else
    match stripPrefix (config.proposalPrefix ++ ['/']) binding.proposalRefName with
    | none => .error .integrity
    | some operation => (validateOperationKey operation).mapError fun _ => .integrity

def getReview (journal : Journal) (id : Text) : Except SidecarError Review :=
  match journal.reviews[id]? with
  | some review => .ok review
  | none => .error (mapJournalError .reviewNotFound)

/-! ## The state of a review -/

inductive TransitionStep where
  | openJournal (round : ℕ) | transition (round : ℕ)

/-- The states from which `transition_state` does not go on to its target. -/
def settled (observed target : ReviewState) : Bool :=
  observed = target || observed ∈ [.decisionCommitted, .terminalDenial] ||
    (observed = .outcomeUnknown && target ∉ [.decisionCommitted, .terminalDenial])

/-- `transition_state`, with the rounds that are left. -/
def transitionState (id : Text) (target : ReviewState) :
    ℕ → ReviewState → Program TransitionStep State SidecarError ReviewState
  | 0, _ => throw .storage
  | rounds + 1, observed =>
    if settled observed target then pure observed else do
      failpoint .storage (.openJournal rounds)
      match ← callJournal (.transition rounds) (G.transitionReviewState id observed target) with
      | .ok state => pure state
      | .error (.stateConflict actual) => transitionState id target rounds actual
      | .error e => throw (mapJournalError e)

def transitionTo (id : Text) (state target : ReviewState) : Program TransitionStep State SidecarError Unit := do
  let reached ← transitionState G id target 3 state
  if reached = target then pure () else throw .integrity

def transitionCommitted (id : Text) (state : ReviewState) : Program TransitionStep State SidecarError Unit :=
  transitionTo G id state .decisionCommitted

def transitionTerminal (id : Text) (state : ReviewState) : Program TransitionStep State SidecarError Unit :=
  transitionTo G id state .terminalDenial

def markOutcomeUnknown (id : Text) (state : ReviewState) (hasIntent : Bool) :
    Program TransitionStep State SidecarError ReviewOutcome :=
  if hasIntent then do
    match ← transitionState G id .outcomeUnknown 3 state with
    | .outcomeUnknown => pure .outcomeUnknown
    | .decisionCommitted => throw .storage
    | .terminalDenial => pure .terminalDenial
    | .pendingReview | .retryableFailure => throw .integrity
  else throw .storage

/-! ## Reconciliation -/

inductive ReconcileStep where
  | queryBefore | openJournal | review | intent | openRepository | proposalRef | decisionRef
  | settle (step : TransitionStep)
  | chain | controlsHead | controls | publish | currentRef | currentChain
  | disposition | manifest | queryAfter

def authority (controls : Controls) (binding : ReviewBinding) (intent : DecisionIntent) : HumanDecision where
  project := controls.ids.project
  human := controls.ids.human
  decisionRef := binding.decisionRefName
  expectedDecisionHead := binding.expectedDecisionHead
  proposalRef := binding.proposalRefName
  proposalHead := binding.proposalHead
  humanActorOid := controls.humanActorOid
  policyOid := controls.policyOid
  candidateHead := intent.candidateHead
  feedbackOid := intent.feedbackOid

def validateCommittedCandidate (binding : ReviewBinding) (intent : DecisionIntent) :
    Program ReconcileStep State SidecarError Unit := do
  readRepository .integrity .controlsHead fun r =>
    if G.validateHead binding.expectedDecisionHead r then .ok () else .error .integrity
  let controls ← readRepository .storage .controls fun r =>
    controlsAtCommit K G config.projectKey r binding.expectedDecisionHead
  callRepository .integrity .publish fun r =>
    match G.publishDecision (authority controls binding intent) r with
    | (.ok receipt, r) =>
      (if receipt.newHead = intent.candidateHead ∧ receipt.proposalCommitOid = binding.proposalHead ∧
          receipt.decisionFeedbackOid = intent.feedbackOid then .ok () else .error .integrity, r)
    | (.error code, r) => (if code = "ref_conflict".toList then .ok () else .error .integrity, r)
  let current ← readRepository .storage .currentRef fun r => required r.refs[binding.decisionRefName]?
  let contained ← readRepository .storage .currentChain fun r =>
    decisionChainContainsCommit G r current intent.candidateHead
  if contained then pure () else throw .integrity

def selectedCommit (binding : ReviewBinding) : ArtifactDisposition → Oid
  | .adoptedUnchanged => binding.proposalHead
  | .rejected | .deferred => binding.expectedDecisionHead

def selectedSnapshot : ArtifactDisposition → Text
  | .adoptedUnchanged => "proposal".toList
  | .rejected | .deferred => "base".toList

def decisionReceipt (binding : ReviewBinding) (intent : DecisionIntent) :
    Program ReconcileStep State SidecarError SidecarDecisionReceipt := do
  let disposition ← readRepository .storage .disposition fun r =>
    dispositionFromFeedback G r intent.feedbackOid binding.proposalHead
  let digest ← readRepository .storage .manifest fun r =>
    manifestDigestAtCommit G r config.artifactLimits (selectedCommit binding disposition)
  return ⟨disposition, digest, selectedSnapshot disposition⟩

/-- What reconciliation answers while the decision is still at its base. -/
def undecided : ReviewState → Except SidecarError ReviewOutcome
  | .pendingReview => .ok .pendingReview
  | .retryableFailure => .ok .retryableFailure
  | .outcomeUnknown => .ok .outcomeUnknown
  | .terminalDenial => .ok .terminalDenial
  | .decisionCommitted => .error .integrity

/-- Reconciliation once the repository has been read. -/
def reconcileRefs (id : Text) (review : Review) (intent : Option DecisionIntent) (proposal decision : Option Oid) :
    Program ReconcileStep State SidecarError ReviewOutcome := do
  let deny : Program ReconcileStep State SidecarError ReviewOutcome := do
    (transitionTerminal G id review.state).relabel .settle
    pure .terminalDenial
  if proposal ≠ some review.binding.proposalHead then deny else
    let current ← ofExcept (required decision)
    if current = review.binding.expectedDecisionHead then ofExcept (undecided review.state) else
      match intent with
      | none => deny
      | some intent =>
        if intent.expectedDecisionHead ≠ review.binding.expectedDecisionHead then throw .integrity else
          let contained ← readRepository .storage .chain fun r =>
            decisionChainContainsCommit G r current intent.candidateHead
          if contained then
            validateCommittedCandidate K G config review.binding intent
            (transitionCommitted G id review.state).relabel .settle
            return .decisionCommitted (← decisionReceipt G config review.binding intent)
          else deny

def reconcileParsedInner (id : Text) : Program ReconcileStep State SidecarError ReviewOutcome := do
  failpoint .storage .openJournal
  let review ← look .storage .review fun s => getReview s.journal id
  ofExcept (validateReviewBinding K G config review.binding)
  let intent ← look .storage .intent fun s => .ok s.journal.intents[id]?
  -- `none` is a repository that cannot be read
  let refs ← attempt (do
    failpoint .storage .openRepository
    let proposal ← readRepository .storage .proposalRef fun r => .ok r.refs[review.binding.proposalRefName]?
    let decision ← readRepository .storage .decisionRef fun r => .ok r.refs[review.binding.decisionRefName]?
    pure (proposal, decision))
  match refs with
  | .error _ => (markOutcomeUnknown G id review.state intent.isSome).relabel .settle
  | .ok (proposal, decision) => reconcileRefs K G config id review intent proposal decision

def reconcileParsed (id : Text) : Program ReconcileStep State SidecarError ReviewOutcome := do
  failpoint .storage .queryBefore
  let outcome ← reconcileParsedInner K G config id
  failpoint .storage .queryAfter
  pure outcome

def parseReviewId (id : Text) : Except SidecarError Unit := (G.parseReviewId id).mapError mapJournalError

def reconcile (id : Text) : Program ReconcileStep State SidecarError ReviewOutcome := do
  ofExcept (parseReviewId G id)
  reconcileParsed K G config id

inductive RetryStep where
  | openJournal | review
  | settle (step : TransitionStep)
  | reconcile (step : ReconcileStep)

def transitionRetryable (id : Text) : Program RetryStep State SidecarError ReviewOutcome := do
  failpoint .storage .openJournal
  let review ← look .storage .review fun s => getReview s.journal id
  match ← (transitionState G id .retryableFailure 3 review.state).relabel .settle with
  | .retryableFailure => pure .retryableFailure
  | .outcomeUnknown => pure .outcomeUnknown
  | .terminalDenial => pure .terminalDenial
  | .decisionCommitted => (reconcileParsed K G config id).relabel .reconcile
  | .pendingReview => throw .integrity

/-! ## Publication -/

inductive CallStep where
  | callBefore | openRepository | proposalRef | decisionRef | proposalHead | proposal | controlsHead | controls
  | feedback | activity | prepare | publishBefore | publish | publishAfter | callAfter

/-- `validate_live_binding`, with the steps of its caller. -/
def validateLiveBinding {L : Type} (proposalRef decisionRef proposalHead proposal : L) (binding : ReviewBinding) :
    Program L State SidecarError Unit := do
  ofExcept (validateReviewBinding K G config binding)
  let proposalOid ← readRepository .storage proposalRef fun r => .ok r.refs[binding.proposalRefName]?
  let decisionOid ← readRepository .storage decisionRef fun r => .ok r.refs[binding.decisionRefName]?
  if proposalOid ≠ some binding.proposalHead then throw .integrity
  else if decisionOid ≠ some binding.expectedDecisionHead then throw .staleBase
  else
    readRepository .integrity proposalHead fun r =>
      if G.validateHead binding.proposalHead r then .ok () else .error .integrity
    readRepository .storage proposal fun r => do
      requireSingleParentValue (← loadValue G r binding.proposalHead .commit) binding.expectedDecisionHead

def publishRecoveredDecision (binding : ReviewBinding) (intent : DecisionIntent) (disposition : ArtifactDisposition) :
    Program CallStep State SidecarError Unit :=
  if intent.expectedDecisionHead ≠ binding.expectedDecisionHead then throw .integrity else do
    failpoint .storage .openRepository
    validateLiveBinding K G config .proposalRef .decisionRef .proposalHead .proposal binding
    readRepository .integrity .controlsHead fun r =>
      if G.validateHead binding.expectedDecisionHead r then .ok () else .error .integrity
    let controls ← readRepository .storage .controls fun r =>
      controlsAtCommit K G config.projectKey r binding.expectedDecisionHead
    let found ← readRepository .storage .feedback fun r =>
      dispositionFromFeedback G r intent.feedbackOid binding.proposalHead
    if found ≠ disposition then throw .integrity else
      readRepository .storage .activity fun r => do
        let proposal ← loadValue G r binding.proposalHead .commit
        let transitions ← requiredArray proposal "transition_refs"
        let _ ← required (transitions.head?.bind asStr)
        return ()
      readRepository .storage .prepare fun r =>
        (G.prepareHumanDecision (authority controls binding intent) r).mapError mapApplicationError
      failpoint .storage .publishBefore
      let receipt ← callRepository .storage .publish fun r =>
        ((G.publishHumanDecision (authority controls binding intent) r).1.mapError mapApplicationError,
          (G.publishHumanDecision (authority controls binding intent) r).2)
      failpoint .storage .publishAfter
      if receipt.refName ≠ binding.decisionRefName ∨ receipt.oldHead ≠ some binding.expectedDecisionHead ∨
          receipt.newHead ≠ intent.candidateHead ∨ receipt.proposalCommitOid ≠ binding.proposalHead ∨
          receipt.decisionFeedbackOid ≠ intent.feedbackOid ∨ receipt.disposition ≠ disposition then
        throw .integrity
      else pure ()

def callSynapse (binding : ReviewBinding) (intent : DecisionIntent) (disposition : ArtifactDisposition) :
    Program CallStep State SidecarError Unit := do
  failpoint .storage .callBefore
  publishRecoveredDecision K G config binding intent disposition
  failpoint .storage .callAfter

/-! ## Decision -/

inductive IntentStep where
  | openRepository | proposalRef | decisionRef | proposalHead | proposal | controlsHead | controls | snapshots
  | feedbackBefore | feedback | feedbackAfter | candidateBefore | candidate | candidateAfter
  | intentBefore | register | intentAfter

def canonicalDecisionRequest (id : Text) (disposition : ArtifactDisposition)
    (candidateHead feedbackOid expectedDecisionHead : Oid) : Except SidecarError Bytes :=
  required (G.canonicalize (encode (object [("contract", str "synapsegit.generic-artifact"), ("contract_version", .num 1),
    ("review_id", .str id), ("disposition", str (dispositionProtocol disposition)),
    ("private_memo_policy", str "private_memo_validated_and_omitted"), ("candidate_head", .str candidateHead),
    ("feedback_oid", .str feedbackOid), ("expected_decision_head", .str expectedDecisionHead)]).render))

def putJson {L : Type} (label : L) (value : Json) : Program L State SidecarError Oid :=
  callRepository .integrity label fun r =>
    ((G.putObject value r).1.mapError fun _ => .integrity, (G.putObject value r).2)

def registerDecisionIntent {L : Type} (before register after : L) (id : Text) (request : DecisionIntentRequest) :
    Program L State SidecarError DecisionIntent := do
  failpoint .storage before
  let registered ← callJournal register (G.registerDecisionIntent id request)
  let intent ← ofExcept (registered.mapError mapJournalError)
  failpoint .storage after
  pure intent

def createDecisionIntent (id : Text) (binding : ReviewBinding) (disposition : ArtifactDisposition)
    (idempotencyKey : Bytes) : Program IntentStep State SidecarError DecisionIntent := do
  failpoint .storage .openRepository
  validateLiveBinding K G config .proposalRef .decisionRef .proposalHead .proposal binding
  readRepository .integrity .controlsHead fun r =>
    if G.validateHead binding.expectedDecisionHead r then .ok () else .error .integrity
  let controls ← readRepository .storage .controls fun r =>
    controlsAtCommit K G config.projectKey r binding.expectedDecisionHead
  let snapshot ← readRepository .storage .snapshots fun r => do
    let base ← loadValue G r binding.expectedDecisionHead .commit
    let proposal ← loadValue G r binding.proposalHead .commit
    requireSingleParentValue proposal binding.expectedDecisionHead
    let baseSnapshot ← requiredString base "snapshot"
    let proposalSnapshot ← requiredString proposal "snapshot"
    return if disposition = .adoptedUnchanged then proposalSnapshot else baseSnapshot
  failpoint .storage .feedbackBefore
  let feedbackOid ← putJson G .feedback (feedbackRecord G (entityId K id "feedback".toList) controls.ids.human
    controls.ids.subject binding.proposalHead disposition config.recordedAt)
  failpoint .storage .feedbackAfter
  failpoint .storage .candidateBefore
  let candidateHead ← putJson G .candidate (commit G "decision" [binding.expectedDecisionHead] snapshot [feedbackOid]
    controls.ids.human config.recordedAt "Human reviewed LP Studio generic artifact Proposal")
  failpoint .storage .candidateAfter
  let request ← ofExcept
    (canonicalDecisionRequest G id disposition candidateHead feedbackOid binding.expectedDecisionHead)
  registerDecisionIntent G .intentBefore .register .intentAfter id
    ⟨idempotencyKey, request, candidateHead, feedbackOid, binding.expectedDecisionHead⟩

inductive DecideStep where
  | openJournal | review | intent | openRepository | feedback | intentBefore | register | intentAfter
  | create (step : IntentStep)
  | before (step : ReconcileStep)
  | call (step : CallStep)
  | after (step : ReconcileStep)
  | retry (step : RetryStep)
  | deny (step : TransitionStep)

/-- The intent of a decision: the one there is, if it is for the same disposition, or a new one. -/
def decisionIntent (id : Text) (binding : ReviewBinding) (disposition : ArtifactDisposition) (idempotencyKey : Bytes) :
    Program DecideStep State SidecarError DecisionIntent := do
  match ← look .storage .intent fun s => .ok s.journal.intents[id]? with
  | some existing =>
    failpoint .storage .openRepository
    let found ← readRepository .storage .feedback fun r =>
      dispositionFromFeedback G r existing.feedbackOid binding.proposalHead
    if found ≠ disposition then throw .idempotencyConflict else
      let request ← ofExcept (canonicalDecisionRequest G id disposition existing.candidateHead existing.feedbackOid
        existing.expectedDecisionHead)
      registerDecisionIntent G .intentBefore .register .intentAfter id
        ⟨idempotencyKey, request, existing.candidateHead, existing.feedbackOid, existing.expectedDecisionHead⟩
  | none => (createDecisionIntent K G config id binding disposition idempotencyKey).relabel .create

def decide (id : Text) (disposition : ArtifactDisposition) (privateRationale : Option Text) (idempotencyKey : Bytes) :
    Program DecideStep State SidecarError ReviewOutcome := do
  ofExcept (validateIdempotencyKey idempotencyKey)
  ofExcept (validatePrivateRationale privateRationale)
  ofExcept (parseReviewId G id)
  failpoint .storage .openJournal
  let review ← look .storage .review fun s => getReview s.journal id
  ofExcept (validateReviewBinding K G config review.binding)
  let intent ← decisionIntent K G config id review.binding disposition idempotencyKey
  let observed ← (reconcileParsed K G config id).relabel .before
  match observed with
  | .decisionCommitted _ | .terminalDenial | .outcomeUnknown => pure observed
  | .pendingReview | .retryableFailure =>
    match ← attempt ((callSynapse K G config review.binding intent disposition).relabel .call) with
    | .ok _ => (reconcileParsed K G config id).relabel .after
    | .error publicationError =>
      let outcome ← (reconcileParsed K G config id).relabel .after
      if outcome = .pendingReview then
        if publicationError = .storage then (transitionRetryable K G config id).relabel .retry else
          (transitionTerminal G id .pendingReview).relabel .deny
          pure .terminalDenial
      else pure outcome

/-! ## Resumption -/

inductive ResumeStep where
  | first (step : ReconcileStep)
  | openJournal | review
  | recheck (step : ReconcileStep)
  | intent | openRepository | feedback
  | call (step : CallStep)
  | again (step : ReconcileStep)
  | retry (step : RetryStep)
  | deny (step : TransitionStep)

/-- What a resumption publishes of a recovered intent. -/
def recoveredPublication (binding : ReviewBinding) (intent : DecisionIntent) :
    Program ResumeStep State SidecarError Unit := do
  failpoint .storage .openRepository
  let disposition ← readRepository .storage .feedback fun r =>
    dispositionFromFeedback G r intent.feedbackOid binding.proposalHead
  (callSynapse K G config binding intent disposition).relabel .call

/-- What a resumption makes of a publication that failed and of the reconciliation after it. -/
def settlePublication (id : Text) (publicationError : SidecarError) (outcome : ReviewOutcome) :
    Program ResumeStep State SidecarError ReviewOutcome :=
  let deny (state : ReviewState) : Program ResumeStep State SidecarError ReviewOutcome := do
    (transitionTerminal G id state).relabel .deny
    pure .terminalDenial
  match outcome with
  | .decisionCommitted _ | .terminalDenial => pure outcome
  | .pendingReview =>
    if publicationError = .storage then (transitionRetryable K G config id).relabel .retry else deny .pendingReview
  | .retryableFailure => if publicationError = .storage then pure outcome else deny .retryableFailure
  | .outcomeUnknown => if publicationError = .storage then pure outcome else deny .outcomeUnknown

def resume (id : Text) : Program ResumeStep State SidecarError ReviewOutcome := do
  let observed ← (reconcile K G config id).relabel .first
  ofExcept (parseReviewId G id)
  match observed with
  | .decisionCommitted _ | .terminalDenial => pure observed
  | .pendingReview | .retryableFailure | .outcomeUnknown =>
    failpoint .storage .openJournal
    let review ← look .storage .review fun s => getReview s.journal id
    ofExcept (validateReviewBinding K G config review.binding)
    if review.state ∈ [.decisionCommitted, .terminalDenial] then (reconcileParsed K G config id).relabel .recheck else
      match ← look .storage .intent fun s => .ok s.journal.intents[id]? with
      | none => pure observed
      | some intent =>
        if intent.expectedDecisionHead ≠ review.binding.expectedDecisionHead then throw .integrity else
          match ← attempt (recoveredPublication K G config review.binding intent) with
          | .ok _ => (reconcileParsed K G config id).relabel .again
          | .error publicationError =>
            let outcome ← (reconcileParsed K G config id).relabel .again
            settlePublication K G config id publicationError outcome

end

end LpStudio.Synapse
