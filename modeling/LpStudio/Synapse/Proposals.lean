import LpStudio.Synapse.Sidecar

/-! # Proposals
`begin_proposal`: the bootstrap of a project's decision ref, the records and the commit of a proposal, its ref and its
review.
-/
namespace LpStudio.Synapse
open Str Fault Fault.Program

/-! ## Records -/

section
variable (G : SynapseGit)

def actorRecord (entityId assertedBy recordedAt : Text) (actorKind : String) (displayName : Text)
    (aiProfile : Option Json) : Json :=
  envelope "actor" entityId recordedAt assertedBy (if actorKind = "human" then "self_declared" else "tool_recorded")
    (object ([("actor_kind", str actorKind), ("display_name", .str displayName)] ++
      aiProfile.toList.map fun profile => ("ai_profile", profile)))

def capabilities : Json := .arr (canonicalSet G [str "propose_branch", str "read_context"])

def humanGates : Json := .arr (canonicalSet G [str "before_decision_ref", str "before_release_ref"])

def aiProfile : Json := object [("provider", str "application-owned"), ("model_id", str "caller-supplied-output"),
  ("model_version", str "lp-studio-generic-artifact-v1"), ("capabilities", capabilities G)]

def policyRule (ruleId effect action : String) (resourceSelector : Text) : List (String × Json) :=
  [("rule_id", str ruleId), ("effect", str effect), ("action", str action), ("resource_selector", .str resourceSelector)]

def policyRecord (entityId human project decisionRef proposalPrefix recordedAt : Text) : Json :=
  envelope "policy" entityId recordedAt human "self_declared" (object [
    ("scope_refs", .arr (canonicalSet G [.str project])),
    ("rules", .arr [object (policyRule "allow-context-read" "allow" "read" "project/**".toList),
      object (policyRule "allow-artifact-proposal" "allow" "propose" (proposalPrefix ++ "/**".toList)),
      object (policyRule "gate-artifact-decision" "require_human_gate" "publish" decisionRef ++
        [("human_gate", str "before_decision_ref")])]),
    ("default_effect", str "deny")])

def grantRecord (entityId human agent project proposalPrefix recordedAt expiresAt : Text) : Json :=
  envelope "delegation_grant" entityId recordedAt human "self_declared" (object [
    ("principal_ref", .str human), ("delegate_ref", .str agent), ("project_ref", .str project),
    ("purpose", str "Record bounded sequential generic artifact Proposals."), ("capabilities", capabilities G),
    ("resource_selectors", .arr (canonicalSet G [str "project/**"])),
    ("writable_ref_prefixes", .arr (canonicalSet G [.str proposalPrefix])),
    ("data_classes", .arr (canonicalSet G [str "internal"])), ("allowed_egress", .arr []),
    ("may_delegate", .bool false), ("max_child_depth", .num 0), ("max_output_bytes", .num 1073741824),
    ("required_human_gates", humanGates G), ("expires_at", .str expiresAt)])

def subjectRecord (entityId human recordedAt label : Text) : Json :=
  envelope "subject" entityId recordedAt human "self_declared" (object [("subject_kind", str "digital"),
    ("label", .str label), ("relation_refs", .arr []), ("spatial_frame_refs", .arr [])])

def contextRecord (entityId human subject : Text) (baseHead : Oid) (decisionRef : Text)
    (policyOid grantOid applicationContextBlob : Oid) (recordedAt : Text) : Json :=
  envelope "context_pack" entityId recordedAt human "tool_recorded" (object [
    ("base_commit", .str baseHead), ("base_ref_name", .str decisionRef), ("expected_ref_head", .str baseHead),
    ("subject_refs", .arr (canonicalSet G [.str subject])),
    ("selected_context_refs", .arr (canonicalSet G [.str baseHead, .str applicationContextBlob])),
    ("must_preserve_constraints", .arr [str "Preserve the accepted artifact base and protected controls."]),
    ("allowed_transformations", .arr (canonicalSet G [str "file_tree_proposal"])),
    ("unresolved_questions", .arr []), ("policy_snapshot_ref", .str policyOid),
    ("delegation_grant_ref", .str grantOid), ("data_classification", str "internal"),
    ("retrieval_method", str "application-owned redacted context")])

def roleEntry (role name : String) (value : Text) : Json := object [("role", str role), (name, .str value)]

def activityRecord (entityId agent human subject : Text) (contextOid grantOid contextBlob outputTree : Oid)
    (outputBlobOids : List Oid) (recordedAt : Text) : Json :=
  match envelope "activity" entityId recordedAt agent "tool_recorded" (object [
    ("activity_kind", str "ai_run"),
    ("actor_refs", .arr (canonicalSet G [roleEntry "agent" "actor_ref" agent,
      roleEntry "responsible_principal" "actor_ref" human])),
    ("subject_refs", .arr (canonicalSet G [.str subject])),
    ("input_refs", .arr (canonicalSet G [roleEntry "context" "oid" contextOid,
      roleEntry "application_context" "oid" contextBlob])),
    ("output_refs", .arr (canonicalSet G
      (roleEntry "proposal" "oid" outputTree :: outputBlobOids.dedup.map (roleEntry "proposal_file" "oid")))),
    ("before_observation_refs", .arr []), ("after_observation_refs", .arr []), ("reversibility", str "reversible"),
    ("summary", str "Recorded caller-supplied bytes as an AI-attributed generic artifact Proposal."),
    ("side_effect_class", str "none"),
    ("ai_run", object [("agent_ref", .str agent), ("responsible_principal_ref", .str human),
      ("context_pack_ref", .str contextOid), ("delegation_grant_ref", .str grantOid),
      ("requested_capabilities", capabilities G), ("required_human_gates", humanGates G),
      ("status", str "proposal_ready"), ("reproducibility_class", str "not_reproducible")])]) with
  | .obj fields => .obj (fields ++ [("valid_time".toList, object [("kind", str "instant"), ("at", .str recordedAt)])])
  | other => other

end

/-- `artifact_snapshot`, with the control tree of a first snapshot or the base, context and activity of a proposal. -/
def baseSnapshot (siteTree controlTree : Oid) : Json :=
  manifestTree [entry "site" "tree" siteTree, entry "control" "tree" controlTree]

def proposalSnapshot (siteTree base context activity : Oid) : Json :=
  manifestTree [entry "site" "tree" siteTree, entry "base" "tree" base, entry "context.json" "record" context,
    entry "activity.json" "record" activity]

/-! ## Bootstrap -/

section
variable (K : Crates) (G : SynapseGit) (config : SidecarConfig)

inductive ControlsStep where
  | head | read

/-- `controls_at_commit` -/
def readControls {L : Type} (label : ControlsStep → L) (commitOid : Oid) : Program L State SidecarError Controls := do
  readRepository .integrity (label .head) fun r => if G.validateHead commitOid r then .ok () else .error .integrity
  readRepository .storage (label .read) fun r => controlsAtCommit K G config.projectKey r commitOid

inductive BootstrapStep where
  | current | list | humanActor | aiActor | policy | grant | subject | files | controlTree | snapshot | base
  | clock | update | conflict
  | controls (step : ControlsStep)

def expectedControls : Program BootstrapStep State SidecarError Controls := do
  let ids := WorkflowIds.fromKey K config.projectKey
  let humanActorOid ← putJson G .humanActor
    (actorRecord ids.human ids.human config.recordedAt "human" config.creatorDisplayName none)
  let aiActorOid ← putJson G .aiActor
    (actorRecord ids.agent ids.human config.recordedAt "ai_agent" config.agentDisplayName (some (aiProfile G)))
  let policyOid ← putJson G .policy
    (policyRecord G ids.policy ids.human ids.project config.decisionRef config.proposalPrefix config.recordedAt)
  let grantOid ← putJson G .grant (grantRecord G ids.grant ids.human ids.agent ids.project config.proposalPrefix
    config.recordedAt config.grantExpiresAt)
  let subjectOid ← putJson G .subject (subjectRecord ids.subject ids.human config.recordedAt config.projectKey)
  return ⟨ids, humanActorOid, aiActorOid, policyOid, grantOid, subjectOid⟩

def mapFiles {L : Type} (label : L) (files : RegularFileManifest) : Program L State SidecarError MappedFiles :=
  callRepository .integrity label fun r =>
    ((G.mapRegularFiles files r).1.mapError fun _ => .integrity, (G.mapRegularFiles files r).2)

def ensureBootstrap (accepted : RegularFileManifest) : Program BootstrapStep State SidecarError (Oid × Controls) := do
  match ← readRepository .storage .current fun r => .ok r.refs[config.decisionRef]? with
  | some current => do
    let controls ← readControls K G config .controls current
    return (current, controls)
  | none => do
    readRepository .storage .list fun r => if r.refs.isEmpty then .ok () else .error .integrity
    let controls ← expectedControls K G config
    let mapped ← mapFiles G .files accepted
    let controlTree ← putJson G .controlTree (manifestTree [entry "creator.actor.json" "record" controls.humanActorOid,
      entry "agent.actor.json" "record" controls.aiActorOid, entry "policy.json" "record" controls.policyOid,
      entry "grant.json" "record" controls.grantOid, entry "subject.json" "record" controls.subjectOid])
    let snapshot ← putJson G .snapshot (baseSnapshot mapped.siteTreeOid controlTree)
    let baseHead ← putJson G .base (commit G "checkpoint" [] snapshot [] controls.ids.human config.recordedAt
      "LP Studio generic artifact project initialized")
    failpoint .storage .clock
    let updated ← callRepository .storage .update fun r =>
      (.ok (G.updateRef config.decisionRef baseHead r).1, (G.updateRef config.decisionRef baseHead r).2)
    match updated with
    | .ok _ => return (baseHead, controls)
    | .error code =>
      if code = "ref_conflict".toList then
        let current ← readRepository .storage .conflict fun r => required r.refs[config.decisionRef]?
        let controls ← readControls K G config .controls current
        return (current, controls)
      else throw .storage

/-! ## Reviews -/

structure SidecarProposalReceipt where
  reviewId : Text
  baseArtifactManifestSha256 : Text
  artifactManifestSha256 : Text
  reviewContextSha256 : Text
  deriving DecidableEq, Repr

/-- The manifests and the review context of a proposal, by their digests. -/
structure ProposalDigests where
  accepted : Text
  proposed : Text
  context : Text

inductive ReviewStep where
  | openJournal | create

def registerReview (operationKey : Text) (proposalHead baseHead : Oid) (digests : ProposalDigests) :
    Program ReviewStep State SidecarError SidecarProposalReceipt := do
  let binding : ReviewBinding := ⟨(WorkflowIds.fromKey K config.projectKey).project, config.proposalRef operationKey,
    proposalHead, config.decisionRef, baseHead⟩
  ofExcept ((G.newBinding binding).mapError mapJournalError)
  failpoint .storage .openJournal
  let registered ← ofExcept ((← callJournal .create (G.createOrGetReview binding)).mapError mapJournalError)
  return ⟨registered.1, digests.accepted, digests.proposed, digests.context⟩

/-- The single parent of a proposal. -/
def singleParent (r : Repository) (proposalHead : Oid) : Except SidecarError Oid := do
  let proposal ← loadValue G r proposalHead .commit
  let parents ← requiredArray proposal "parents"
  if parents.length ≠ 1 then throw .integrity
  required (parents.head?.bind asStr)

inductive ReplayStep where
  | proposalHead | proposal | current | digests
  | controls (step : ControlsStep)
  | review (step : ReviewStep)

def replayExistingProposal (operationKey : Text) (proposalHead : Oid) (digests : ProposalDigests) :
    Program ReplayStep State SidecarError SidecarProposalReceipt := do
  readRepository .integrity .proposalHead fun r => if G.validateHead proposalHead r then .ok () else .error .integrity
  let baseHead ← readRepository .storage .proposal fun r => singleParent G r proposalHead
  let current ← readRepository .storage .current fun r => required r.refs[config.decisionRef]?
  if current ≠ baseHead then throw .staleBase else
    readRepository .storage .digests fun r => do
      if (← manifestDigestAtCommit G r config.artifactLimits baseHead) ≠ digests.accepted then
        throw .idempotencyConflict
      if (← manifestDigestAtCommit G r config.artifactLimits proposalHead) ≠ digests.proposed then
        throw .idempotencyConflict
      if (← reviewContextDigestFromProposal G r K proposalHead) ≠ digests.context then throw .idempotencyConflict
    let _ ← readControls K G config .controls baseHead
    (registerReview K G config operationKey proposalHead baseHead digests).relabel .review

inductive DenialStep where
  | proposalHead | proposal | baseHead | digests | current | currentHead | chain | openJournal | review
  | controls (step : ControlsStep)

def proposalHasTerminalDenial (proposalRef : Text) (proposalHead : Oid) :
    Program DenialStep State SidecarError Bool := do
  readRepository .integrity .proposalHead fun r => if G.validateHead proposalHead r then .ok () else .error .integrity
  let baseHead ← readRepository .storage .proposal fun r => singleParent G r proposalHead
  readRepository .integrity .baseHead fun r => if G.validateHead baseHead r then .ok () else .error .integrity
  let _ ← readControls K G config .controls baseHead
  readRepository .storage .digests fun r => do
    let _ ← manifestDigestAtCommit G r config.artifactLimits proposalHead
    let _ ← reviewContextDigestFromProposal G r K proposalHead
    return ()
  let current ← readRepository .storage .current fun r => required r.refs[config.decisionRef]?
  readRepository .integrity .currentHead fun r => if G.validateHead current r then .ok () else .error .integrity
  let contained ← readRepository .storage .chain fun r => decisionChainContainsCommit G r current baseHead
  if contained then
    let binding : ReviewBinding := ⟨(WorkflowIds.fromKey K config.projectKey).project, proposalRef, proposalHead,
      config.decisionRef, baseHead⟩
    ofExcept ((G.newBinding binding).mapError mapJournalError)
    ofExcept (validateReviewBinding K G config binding)
    failpoint .storage .openJournal
    look .storage .review fun s => .ok (s.journal.reviews.toList.any fun review =>
      review.2.binding = binding ∧ review.2.state = .terminalDenial)
  else throw .integrity

/-! ## Beginning -/

structure ProposalInput where
  operationKey : Text
  accepted : RegularFileManifest
  proposed : RegularFileManifest
  reviewContextJson : Bytes

inductive BeginStep where
  | openRepository
  | bootstrap (step : BootstrapStep)
  | baseManifest | refs
  | replay (step : ReplayStep)
  | ancestry (proposal : Text)
  | denial (proposal : Text) (step : DenialStep)
  | files | contextBlob | context | activity | baseCommit | snapshot | proposal | prepare | publish
  | reopenRepository | existing
  | conflict (step : ReplayStep)
  | review (step : ReviewStep)

/-- The loop of `begin_proposal` over the proposals of the project. -/
def refuseActiveReviews (baseHead : Oid) : List (Text × Oid) → Program BeginStep State SidecarError Unit
  | [] => pure ()
  | proposal :: proposals => do
    let decided ← readRepository .storage (.ancestry proposal.1) fun r =>
      decisionAncestryContainsProposal G r baseHead proposal.2
    if decided then refuseActiveReviews baseHead proposals else
      let denied ← (proposalHasTerminalDenial K G config proposal.1 proposal.2).relabel (.denial proposal.1)
      if denied then refuseActiveReviews baseHead proposals else throw .activeReview

/-- The objects of a proposal, and what is published of it. -/
def writeProposal (input : ProposalInput) (canonicalContext : Bytes) (baseHead : Oid) (controls : Controls) :
    Program BeginStep State SidecarError AiProposal := do
  let mapped ← mapFiles G .files input.proposed
  let contextBlob ← callRepository .storage .contextBlob fun r =>
    ((G.putBlob canonicalContext r).1.mapError fun _ => .storage, (G.putBlob canonicalContext r).2)
  let scope := config.projectKey ++ ':' :: input.operationKey
  let ids := controls.ids
  let contextOid ← putJson G .context (contextRecord G (entityId K scope "context".toList) ids.human ids.subject baseHead
    config.decisionRef controls.policyOid controls.grantOid contextBlob config.recordedAt)
  let activityOid ← putJson G .activity (activityRecord G (entityId K scope "activity".toList) ids.agent ids.human
    ids.subject contextOid controls.grantOid contextBlob mapped.siteTreeOid mapped.blobOids config.recordedAt)
  let base ← readRepository .storage .baseCommit fun r => do
    requiredString (← loadValue G r baseHead .commit) "snapshot"
  let snapshot ← putJson G .snapshot (proposalSnapshot mapped.siteTreeOid base contextOid activityOid)
  let proposalHead ← putJson G .proposal (commit G "checkpoint" [baseHead] snapshot [activityOid] ids.agent
    config.recordedAt "Generic artifact Proposal; canonical Decision unchanged")
  return {
    project := ids.project
    agent := ids.agent
    human := ids.human
    decisionRef := config.decisionRef
    aiActorOid := controls.aiActorOid
    humanActorOid := controls.humanActorOid
    contextOid := contextOid
    proposalRef := config.proposalRef input.operationKey
    proposalHead := proposalHead
    activityOid := activityOid }

def publishProposal (input : ProposalInput) (baseHead : Oid) (digests : ProposalDigests) (proposal : AiProposal) :
    Program BeginStep State SidecarError SidecarProposalReceipt := do
  readRepository .storage .prepare fun r => (G.prepareAi proposal r).mapError mapApplicationError
  let published ← callRepository .storage .publish fun r =>
    (.ok (G.executeAndPublishAi proposal r).1, (G.executeAndPublishAi proposal r).2)
  match published with
  | .ok publication =>
    if publication.refName ≠ proposal.proposalRef ∨ publication.oldHead.isSome ∨
        publication.newHead ≠ proposal.proposalHead ∨ publication.activityOid ≠ proposal.activityOid then
      throw .integrity
    else
      (registerReview K G config input.operationKey proposal.proposalHead baseHead digests).relabel .review
  | .error e =>
    if G.errorCode e = "ref_conflict".toList then
      failpoint .storage .reopenRepository
      let existing ← readRepository .storage .existing fun r => .ok r.refs[proposal.proposalRef]?
      match existing with
      | none => throw .activeReview
      | some existing => (replayExistingProposal K G config input.operationKey existing digests).relabel .conflict
    else throw (mapApplicationError e)

def beginProposal (input : ProposalInput) : Program BeginStep State SidecarError SidecarProposalReceipt := do
  ofExcept (validateOperationKey input.operationKey)
  let canonicalContext ← ofExcept (canonicalReviewContext G input.reviewContextJson)
  let digests : ProposalDigests := ⟨G.artifactManifestSha256 input.accepted, G.artifactManifestSha256 input.proposed,
    K.sha256 canonicalContext⟩
  failpoint .storage .openRepository
  let (baseHead, controls) ← (ensureBootstrap K G config input.accepted).relabel .bootstrap
  let current ← readRepository .storage .baseManifest fun r => manifestDigestAtCommit G r config.artifactLimits baseHead
  if current ≠ digests.accepted then throw .staleBase else
    let refs ← readRepository .storage .refs fun r => .ok r.refs.toList
    match refs.find? (·.1 = config.proposalRef input.operationKey) with
    | some existing => (replayExistingProposal K G config input.operationKey existing.2 digests).relabel .replay
    | none =>
      refuseActiveReviews K G config baseHead
        (refs.filter fun record => (stripPrefix (config.proposalPrefix ++ ['/']) record.1).isSome)
      let proposal ← writeProposal K G config input canonicalContext baseHead controls
      publishProposal K G config input baseHead digests proposal

end

end LpStudio.Synapse
