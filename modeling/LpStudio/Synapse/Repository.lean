import LpStudio.Lib.Ancestry
import LpStudio.Lib.Calls
import LpStudio.Lib.Json
import LpStudio.Site.Crates

/-! # Repository and review journal
What the sidecar sees of SynapseGit: objects under their addresses, refs, and a journal of reviews and decision
intents. The functions of SynapseGit are parameters, and `Lawful` says what the sidecar relies on: objects stay under
their addresses, refs move by compare-and-swap, a call of the journal happens as a whole or not at all.
-/
namespace LpStudio.Synapse
open Str Fault Ancestry

abbrev Oid := Text

inductive ObjectKind where
  | blob | record | tree | commit
  deriving DecidableEq, Repr

inductive Object where
  | blob (bytes : Bytes)
  | value (json : Json)

structure Repository where
  objects : Std.ExtTreeMap Oid Object compare
  refs : Std.ExtTreeMap Text Oid compare

inductive ReviewState where
  | pendingReview | retryableFailure | outcomeUnknown | terminalDenial | decisionCommitted
  deriving DecidableEq, Repr

structure ReviewBinding where
  projectScope : Text
  proposalRefName : Text
  proposalHead : Oid
  decisionRefName : Text
  expectedDecisionHead : Oid
  deriving DecidableEq, Repr

structure Review where
  binding : ReviewBinding
  state : ReviewState
  deriving DecidableEq, Repr

structure DecisionIntent where
  candidateHead : Oid
  feedbackOid : Oid
  expectedDecisionHead : Oid
  deriving DecidableEq, Repr

structure Journal where
  reviews : Std.ExtTreeMap Text Review compare
  intents : Std.ExtTreeMap Text DecisionIntent compare

structure State where
  repository : Repository
  journal : Journal

/-! ## SynapseGit -/

inductive JournalError where
  | invalidArgument | reviewNotFound | decisionIntentExists | idempotencyConflict
  | stateConflict (actual : ReviewState) | invalidStateTransition
  | reviewBindingExists | reviewBindingConflict | proposalIntentNotFound | proposalIntentExists
  | proposalIntentConflict | legacyDecisionIntent | decisionIntentMismatch | decisionOutcomeConflict
  | corruptData | random | storage
  deriving DecidableEq, Repr

inductive ApplicationError where
  | staleBase | refConflict | authenticationRequired | projectAccessDenied | executionPermitInvalid
  | executionFailed | configInvalid | serviceUnavailable
  | core (code : Text)
  deriving DecidableEq, Repr

inductive ArtifactDisposition where
  | adoptedUnchanged | rejected | deferred
  deriving DecidableEq, Repr

structure ArtifactLimits where
  maxFiles : ℕ
  maxFileBytes : ℕ
  maxTotalBytes : ℕ
  maxDepth : ℕ

abbrev RegularFileManifest := List (Text × Bytes)

structure MappedFiles where
  siteTreeOid : Oid
  blobOids : List Oid

/-- What `execute_and_publish_ai` publishes, and the authority profile it was registered with. -/
structure AiProposal where
  project : Text
  agent : Text
  human : Text
  decisionRef : Text
  aiActorOid : Oid
  humanActorOid : Oid
  contextOid : Oid
  proposalRef : Text
  proposalHead : Oid
  activityOid : Oid

structure AiPublication where
  refName : Text
  oldHead : Option Oid
  newHead : Oid
  activityOid : Oid

/-- What `publish_human_decision` publishes, with its authority and its durable proposal. -/
structure HumanDecision where
  project : Text
  human : Text
  decisionRef : Text
  expectedDecisionHead : Oid
  proposalRef : Text
  proposalHead : Oid
  humanActorOid : Oid
  policyOid : Oid
  candidateHead : Oid
  feedbackOid : Oid

structure HumanDecisionReceipt where
  refName : Text
  oldHead : Option Oid
  newHead : Oid
  proposalCommitOid : Oid
  decisionFeedbackOid : Oid
  disposition : ArtifactDisposition

structure DecisionIntentRequest where
  idempotencyKey : Bytes
  canonicalRequest : Bytes
  candidateHead : Oid
  feedbackOid : Oid
  expectedDecisionHead : Oid

structure SynapseGit where
  parseOid : Text → Option ObjectKind
  canonicalBytes : Json → Bytes
  /-- `canonical_bytes` of what `parse_strict` reads. -/
  canonicalize : Bytes → Option Bytes
  artifactManifestSha256 : RegularFileManifest → Text
  /-- `RegularFileManifest::from_entries` -/
  fromEntries : List (Text × Bytes) → ArtifactLimits → Option RegularFileManifest
  errorCode : ApplicationError → Text
  putObject : Json → Repository → Except Unit Oid × Repository
  putBlob : Bytes → Repository → Except Unit Oid × Repository
  mapRegularFiles : RegularFileManifest → Repository → Except Unit MappedFiles × Repository
  validateHead : Oid → Repository → Bool
  /-- `update_ref` of a ref that is expected to be missing; an error is its code. -/
  updateRef : Text → Oid → Repository → Except Text Unit × Repository
  prepareAi : AiProposal → Repository → Except ApplicationError Unit
  executeAndPublishAi : AiProposal → Repository → Except ApplicationError AiPublication × Repository
  prepareHumanDecision : HumanDecision → Repository → Except ApplicationError Unit
  publishHumanDecision : HumanDecision → Repository → Except ApplicationError HumanDecisionReceipt × Repository
  /-- `publish_decision` of `HumanDecisionRuntime`; an error is its code. -/
  publishDecision : HumanDecision → Repository → Except Text HumanDecisionReceipt × Repository
  /-- `ReviewId::parse` -/
  parseReviewId : Text → Except JournalError Unit
  /-- `ReviewBinding::new` -/
  newBinding : ReviewBinding → Except JournalError Unit
  createOrGetReview : ReviewBinding → Journal → Except JournalError (Text × Review) × Journal
  registerDecisionIntent : Text → DecisionIntentRequest → Journal → Except JournalError DecisionIntent × Journal
  transitionReviewState : Text → ReviewState → ReviewState → Journal → Except JournalError ReviewState × Journal

/-! ## Values -/

/-- `value.get(key)` -/
def valueAt (value : Json) (key : String) : Option Json :=
  match value with
  | .obj fields => (fields.find? (·.1 = key.toList)).map (·.2)
  | _ => none

def asStr : Json → Option Text
  | .str text => some text
  | _ => none

def asArray : Json → Option (List Json)
  | .arr items => some items
  | _ => none

def asObject : Json → Option (List (Text × Json))
  | .obj fields => some fields
  | _ => none

def stringAt (value : Json) (key : String) : Option Text := (valueAt value key).bind asStr

def entityId (K : Crates) (projectKey role : Text) : Text :=
  let bytes := ((K.sha256Digest (encode ("synapsegit-generic-artifact-entity-v1\x00".toList ++ projectKey ++
    '\x00' :: role))).toList.modify 6 fun byte => (byte &&& 0x0f) ||| 0x40).modify 8 fun byte => (byte &&& 0x3f) ||| 0x80
  let group (first count : ℕ) : Text := ((bytes.drop first).take count).flatMap Crates.hexByte
  "urn:uuid:".toList ++ group 0 4 ++ '-' :: group 4 2 ++ '-' :: group 6 2 ++ '-' :: group 8 2 ++ '-' :: group 10 6

/-! ## Growth -/

/-- Objects are added and refs stay. -/
structure Repository.Grows (r r' : Repository) : Prop where
  objects : ∀ (oid : Oid) (object : Object), r.objects[oid]? = some object → r'.objects[oid]? = some object
  refs : r'.refs = r.refs

/-- A ref is swapped from the head that is expected to a new one, and objects are added. -/
structure Repository.Swapped (name : Text) (expected : Option Oid) (new : Oid) (r r' : Repository) : Prop where
  objects : ∀ (oid : Oid) (object : Object), r.objects[oid]? = some object → r'.objects[oid]? = some object
  expected : r.refs[name]? = expected
  refs : r'.refs = r.refs.insert name new

/-- The kind of a structured object. -/
def objectKind (json : Json) : Option ObjectKind :=
  match stringAt json "object_type" with
  | some name =>
    if name = "record".toList then some .record
    else if name = "tree".toList then some .tree
    else if name = "commit".toList then some .commit
    else none
  | none => none

def dispositionProtocol : ArtifactDisposition → String
  | .adoptedUnchanged => "adopted_unchanged"
  | .rejected => "rejected"
  | .deferred => "deferred"

/-- The disposition that a feedback record states. -/
def feedbackDisposition (r : Repository) (feedbackOid : Oid) : Option ArtifactDisposition :=
  match r.objects[feedbackOid]? with
  | some (.value feedback) =>
    [.adoptedUnchanged, .rejected, .deferred].find? fun disposition =>
      (valueAt feedback "payload").bind (stringAt · "disposition") = some (dispositionProtocol disposition).toList
  | _ => none

/-- What the sidecar relies on. The identifier of a new review is fresh, and so is the entity derived from it. -/
structure SynapseGit.Lawful (K : Crates) (G : SynapseGit) : Prop where
  putObject {json r answer r'} : G.putObject json r = (answer, r') → r.Grows r' ∧
    ∀ oid, answer = .ok oid → r'.objects[oid]? = some (.value json) ∧ G.parseOid oid = objectKind json
  putBlob {bytes r answer r'} : G.putBlob bytes r = (answer, r') → r.Grows r'
  mapRegularFiles {files r answer r'} : G.mapRegularFiles files r = (answer, r') → r.Grows r'
  updateRef {name new r answer r'} : G.updateRef name new r = (answer, r') →
    (answer = .ok () ∧ r.Swapped name none new r') ∨ ((∃ code, answer = .error code) ∧ r.Grows r')
  executeAndPublishAi {proposal r answer r'} : G.executeAndPublishAi proposal r = (answer, r') →
    ((∃ publication, answer = .ok publication) ∧ r.Swapped proposal.proposalRef none proposal.proposalHead r') ∨
      ((∃ e, answer = .error e) ∧ r.Grows r')
  publishHumanDecision {decision r answer r'} : G.publishHumanDecision decision r = (answer, r') →
    ((∃ disposition, answer = .ok ⟨decision.decisionRef, some decision.expectedDecisionHead, decision.candidateHead,
        decision.proposalHead, decision.feedbackOid, disposition⟩ ∧
        feedbackDisposition r decision.feedbackOid = some disposition) ∧
      r.Swapped decision.decisionRef (some decision.expectedDecisionHead) decision.candidateHead r') ∨
      ((∃ e, answer = .error e) ∧ r.Grows r')
  publishDecision {decision r answer r'} : G.publishDecision decision r = (answer, r') →
    ((∃ receipt, answer = .ok receipt) ∧
      r.Swapped decision.decisionRef (some decision.expectedDecisionHead) decision.candidateHead r') ∨
      ((∃ code, answer = .error code) ∧ r.Grows r')
  createOrGetReview {binding j answer j'} : G.createOrGetReview binding j = (answer, j') →
    (j' = j ∧ ∀ id review, answer = .ok (id, review) → j.reviews[id]? = some review) ∨
      ∃ id, answer = .ok (id, ⟨binding, .pendingReview⟩) ∧ id ∉ j.reviews ∧
        (∀ other ∈ j.reviews, entityId K other "feedback".toList ≠ entityId K id "feedback".toList) ∧
        j' = { j with reviews := j.reviews.insert id ⟨binding, .pendingReview⟩ }
  registerDecisionIntent {id request j answer j'} : G.registerDecisionIntent id request j = (answer, j') →
    (j' = j ∧ ∀ intent, answer = .ok intent → j.intents[id]? = some intent) ∨
      ∃ intent, answer = .ok intent ∧ id ∈ j.reviews ∧ id ∉ j.intents ∧
        intent = ⟨request.candidateHead, request.feedbackOid, request.expectedDecisionHead⟩ ∧
        j' = { j with intents := j.intents.insert id intent }
  transitionReviewState {id initial target j answer j'} : G.transitionReviewState id initial target j = (answer, j') →
    (j' = j ∧ ∃ e, answer = .error e ∧ ∀ actual, e = .stateConflict actual →
        (j.reviews[id]?).map (·.state) = some actual) ∨
      (answer = .ok target ∧ (j.reviews[id]?).map (·.state) = some initial ∧
        j' = { j with reviews := j.reviews.modify id fun review => { review with state := target } })

end LpStudio.Synapse
