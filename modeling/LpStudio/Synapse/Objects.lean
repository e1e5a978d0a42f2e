import LpStudio.Lib.Outcome
import LpStudio.Synapse.Repository

/-! # Objects of a review
The records and commits that the sidecar writes, and what it reads back from a repository.
-/
namespace LpStudio.Synapse
open Str Ancestry

inductive SidecarError where
  | invalidArgument | staleBase | activeReview | idempotencyConflict | decisionIntentExists
  | reviewNotFound | terminalState | integrity | storage
  deriving DecidableEq, Repr

def maxControlGraphObjects : ℕ := 20000
def maxDecisionAncestry : ℕ := 4096

/-- `.ok_or(SidecarError::Integrity)` -/
def required {α : Type} : Option α → Except SidecarError α
  | some a => .ok a
  | none => .error .integrity

/-! ## Writing -/

def str (value : String) : Json := .str value.toList

def object (fields : List (String × Json)) : Json := .obj (fields.map fun field => (field.1.toList, field.2))

def privacySafeRationale : ArtifactDisposition → String
  | .adoptedUnchanged => "The creator adopted the artifact unchanged."
  | .rejected => "The creator rejected the artifact."
  | .deferred => "The creator deferred the artifact."

section
variable (G : SynapseGit)

def canonicalSet (values : List Json) : List Json :=
  values.mergeSort fun a b => (compare (G.canonicalBytes a) (G.canonicalBytes b)).isLE

def envelope (recordType : String) (entityId recordedAt assertedBy : Text) (origin : String) (payload : Json) : Json :=
  object [("object_type", str "record"), ("schema_version", str "0.1.0"), ("record_type", str recordType),
    ("entity_id", .str entityId), ("recorded_at", .str recordedAt), ("asserted_by", .str assertedBy),
    ("origin", str origin), ("source_refs", .arr []), ("payload", payload), ("extensions", object [])]

def feedbackRecord (entityId human subject : Text) (proposalHead : Oid) (disposition : ArtifactDisposition)
    (recordedAt : Text) : Json :=
  envelope "decision_feedback" entityId recordedAt human "self_declared" (object [
    ("proposal_ref", .str proposalHead), ("disposition", str (dispositionProtocol disposition)),
    ("reason_codes", .arr [str "unspecified"]), ("human_rationale", str (privacySafeRationale disposition)),
    ("applies_to_subjects", .arr (canonicalSet G [.str subject])), ("visibility", str "private"),
    ("training_use_policy", str "prohibited")])

def commit (kind : String) (parents : List Oid) (snapshot : Oid) (transitions : List Oid) (author authoredAt : Text)
    (message : String) : Json :=
  object [("object_type", str "commit"), ("schema_version", str "0.1.0"), ("commit_kind", str kind),
    ("parents", .arr (parents.map .str)), ("snapshot", .str snapshot),
    ("transition_refs", .arr (canonicalSet G (transitions.map .str))), ("bound_declaration_refs", .arr []),
    ("author_ref", .str author), ("authored_at", .str authoredAt), ("message", str message), ("extensions", object [])]

end

def manifestTree (entries : List (Text × Json)) : Json :=
  object [("object_type", str "tree"), ("schema_version", str "0.1.0"), ("entries", .obj entries), ("extensions", object [])]

def entry (name kind : String) (oid : Oid) : Text × Json :=
  (name.toList, object [("entry_kind", str kind), ("oid", .str oid)])

/-! ## Reading -/

def requiredString (value : Json) (key : String) : Except SidecarError Text := required (stringAt value key)

def requiredArray (value : Json) (key : String) : Except SidecarError (List Json) :=
  required ((valueAt value key).bind asArray)

def requiredObject (value : Json) (key : String) : Except SidecarError (List (Text × Json)) :=
  required ((valueAt value key).bind asObject)

def requireSingleParentValue (commit : Json) (expected : Oid) : Except SidecarError Unit := do
  let parents ← requiredArray commit "parents"
  if parents.length = 1 ∧ (parents.head?.bind asStr) = some expected then return () else throw .integrity

section
variable (G : SynapseGit) (r : Repository)

def loadValue (oid : Oid) (expected : ObjectKind) : Except SidecarError Json :=
  if G.parseOid oid ≠ some expected ∨ expected = .blob then .error .integrity else
    match r.objects[oid]? with
    | some (.value json) => .ok json
    | _ => .error .integrity

def commitParents (oid : Oid) : Except SidecarError (List Oid) := do
  let commit ← loadValue G r oid .commit
  let parents ← requiredArray commit "parents"
  parents.mapM fun parent => required (asStr parent)

def decisionChainContainsCommit (head candidate : Oid) : Except SidecarError Bool :=
  search (fun commit => commit = candidate) (fun commit => (commitParents G r commit).map some) .integrity maxDecisionAncestry [head] []

/-- The feedback on a proposal among the transitions of a commit. -/
def anyFeedback (proposalHead : Oid) : List Json → Except SidecarError Bool
  | [] => .ok false
  | transition :: transitions => do
    let oid ← required (asStr transition)
    let record ← loadValue G r oid .record
    if stringAt record "record_type" = some "decision_feedback".toList ∧
        (valueAt record "payload").bind (stringAt · "proposal_ref") = some proposalHead then
      return true
    anyFeedback proposalHead transitions

def decisionAncestryContainsProposal (decisionHead proposalHead : Oid) : Except SidecarError Bool :=
  search (fun _ => false) (fun oid => do
    let commit ← loadValue G r oid .commit
    if ← anyFeedback G r proposalHead (← requiredArray commit "transition_refs") then return none
    let parents ← (← requiredArray commit "parents").mapM fun parent => required (asStr parent)
    return some parents) .integrity maxDecisionAncestry [decisionHead] []

def entryKind (name : Text) : Except SidecarError ObjectKind :=
  if name = "blob".toList then .ok .blob
  else if name = "record".toList then .ok .record
  else if name = "tree".toList then .ok .tree
  else .error .integrity

/-- One entry of a tree in the walk of `snapshot_object_set`, with the trees that are pending and the objects so far. -/
def snapshotEntry (walk : List Oid × List Oid) (field : Text × Json) : Except SidecarError (List Oid × List Oid) := do
  let expected ← entryKind (← requiredString field.2 "entry_kind")
  let oid ← requiredString field.2 "oid"
  if G.parseOid oid ≠ some expected then throw .integrity
  let walk := if expected = .tree then (oid :: walk.1, walk.2) else (walk.1, walk.2.insert oid)
  if maxControlGraphObjects < walk.2.length + walk.1.length then throw .integrity
  return walk

/-- A visited tree is one object more, so that the bound of the objects bounds the walk. -/
def snapshotWalk : ℕ → List Oid → List Oid → Except SidecarError (List Oid)
  | 0, pending, objects => if (pending.dropWhile (· ∈ objects)).isEmpty then .ok objects else .error .integrity
  | budget + 1, pending, objects =>
    match pending.dropWhile (· ∈ objects) with
    | [] => .ok objects
    | oid :: rest => do
      let objects := objects.insert oid
      if maxControlGraphObjects < objects.length then throw .integrity
      let tree ← loadValue G r oid .tree
      let (pending, objects) ← (← requiredObject tree "entries").foldlM (snapshotEntry G) (rest, objects)
      snapshotWalk budget pending objects

def snapshotObjectSet (commitOid : Oid) : Except SidecarError (List Oid) := do
  let commit ← loadValue G r commitOid .commit
  snapshotWalk G r maxControlGraphObjects [← requiredString commit "snapshot"] []

def siteTreeAtCommit (commitOid : Oid) : Except SidecarError Oid := do
  let commit ← loadValue G r commitOid .commit
  let snapshot ← loadValue G r (← requiredString commit "snapshot") .tree
  let entries ← requiredObject snapshot "entries"
  let site ← required (valueAt (.obj entries) "site")
  if (← requiredString site "entry_kind") ≠ "tree".toList then throw .integrity
  let oid ← requiredString site "oid"
  if G.parseOid oid ≠ some .tree then throw .integrity
  return oid

/-- The files that the walk of `manifest_digest_at_commit` has met, their bytes and the trees that are pending. -/
structure ManifestWalk where
  pending : List (Oid × Text × ℕ)
  entries : List (Text × Bytes)
  totalBytes : ℕ

def readVerifiedBlobLimited (oid : Oid) (limit : ℕ) : Except SidecarError Bytes :=
  match r.objects[oid]? with
  | some (.blob bytes) => if bytes.length ≤ limit then .ok bytes else .error .integrity
  | _ => .error .integrity

def joinName (namePrefix name : Text) : Text := if namePrefix = [] then name else namePrefix ++ '/' :: name

def manifestEntry (limits : ArtifactLimits) (namePrefix : Text) (depth : ℕ) (walk : ManifestWalk) (field : Text × Json) :
    Except SidecarError ManifestWalk := do
  let oid ← requiredString field.2 "oid"
  let kind ← requiredString field.2 "entry_kind"
  if kind = "tree".toList ∧ G.parseOid oid = some .tree then
    return { walk with pending := (oid, joinName namePrefix field.1, depth + 1) :: walk.pending }
  else if kind = "blob".toList ∧ G.parseOid oid = some .blob then
    if limits.maxFiles ≤ walk.entries.length then throw .integrity else
      let bytes ← readVerifiedBlobLimited r oid limits.maxFileBytes
      if limits.maxTotalBytes < walk.totalBytes + bytes.length then throw .integrity else
        return { walk with
          entries := walk.entries ++ [(joinName namePrefix field.1, bytes)]
          totalBytes := walk.totalBytes + bytes.length }
  else throw .integrity

/-- An expanded tree counts, and the trees that are pending count with it. -/
def manifestWalk (limits : ArtifactLimits) : ℕ → ManifestWalk → Except SidecarError (List (Text × Bytes))
  | 0, walk => if walk.pending.isEmpty then .ok walk.entries else .error .integrity
  | budget + 1, walk =>
    match walk.pending with
    | [] => .ok walk.entries
    | (oid, namePrefix, depth) :: rest =>
      if limits.maxDepth < depth then .error .integrity else do
        let tree ← loadValue G r oid .tree
        let entries ← requiredObject tree "entries"
        let walk ← entries.foldlM (manifestEntry G r limits namePrefix depth) { walk with pending := rest }
        if budget < walk.pending.length then throw .integrity else manifestWalk limits budget walk

def manifestDigestAtCommit (limits : ArtifactLimits) (commitOid : Oid) : Except SidecarError Text := do
  let root ← siteTreeAtCommit G r commitOid
  let entries ← manifestWalk G r limits maxControlGraphObjects ⟨[(root, [], 0)], [], 0⟩
  let manifest ← required (G.fromEntries entries limits)
  return G.artifactManifestSha256 manifest

def canonicalReviewContext (bytes : Bytes) : Except SidecarError Bytes :=
  match G.canonicalize bytes with
  | some canonical => .ok canonical
  | none => .error .invalidArgument

def reviewContextDigestFromProposal (K : Crates) (proposalHead : Oid) : Except SidecarError Text := do
  let proposal ← loadValue G r proposalHead .commit
  let transitions ← requiredArray proposal "transition_refs"
  if transitions.length ≠ 1 then throw .integrity
  let activity ← loadValue G r (← required (transitions.head?.bind asStr)) .record
  if (← requiredString activity "record_type") ≠ "activity".toList then throw .integrity
  let payload ← requiredObject activity "payload"
  let refs ← required ((valueAt (.obj payload) "input_refs").bind asArray)
  let contexts := refs.filter fun entry => stringAt entry "role" = some "application_context".toList
  if contexts.length ≠ 1 then throw .integrity
  let blobOid ← required (contexts.head?.bind (stringAt · "oid"))
  if G.parseOid blobOid ≠ some .blob then throw .integrity
  match r.objects[blobOid]? with
  | some (.blob bytes) =>
    if G.canonicalize bytes = some bytes then return K.sha256 bytes else throw .integrity
  | _ => throw .integrity

def dispositionFromFeedback (feedbackOid proposalHead : Oid) : Except SidecarError ArtifactDisposition := do
  let feedback ← loadValue G r feedbackOid .record
  if (← requiredString feedback "record_type") ≠ "decision_feedback".toList then throw .integrity
  let payload := Json.obj (← requiredObject feedback "payload")
  if stringAt payload "proposal_ref" ≠ some proposalHead ∨ stringAt payload "visibility" ≠ some "private".toList ∨
      stringAt payload "training_use_policy" ≠ some "prohibited".toList then
    throw .integrity
  let name ← required (stringAt payload "disposition")
  let disposition ← required ([.adoptedUnchanged, .rejected, .deferred].find? fun disposition =>
    (dispositionProtocol disposition).toList = name)
  let rationale ← required (stringAt payload "human_rationale")
  let reasons := (valueAt payload "reason_codes").bind asArray
  if rationale ≠ (privacySafeRationale disposition).toList ∨
      (reasons.map fun codes => codes.map asStr) ≠ some [some "unspecified".toList] then
    throw .integrity
  return disposition

end

/-! ## Controls -/

structure WorkflowIds where
  human : Text
  agent : Text
  project : Text
  subject : Text
  policy : Text
  grant : Text

def WorkflowIds.fromKey (K : Crates) (projectKey : Text) : WorkflowIds where
  human := entityId K projectKey "human".toList
  agent := entityId K projectKey "agent".toList
  project := entityId K projectKey "project".toList
  subject := entityId K projectKey "subject".toList
  policy := entityId K projectKey "policy".toList
  grant := entityId K projectKey "grant".toList

structure Controls where
  ids : WorkflowIds
  humanActorOid : Oid
  aiActorOid : Oid
  policyOid : Oid
  grantOid : Oid
  subjectOid : Oid

def expectedType (ids : WorkflowIds) (entity : Text) : Option String :=
  if entity = ids.human ∨ entity = ids.agent then some "actor"
  else if entity = ids.policy then some "policy"
  else if entity = ids.grant then some "delegation_grant"
  else if entity = ids.subject then some "subject"
  else none

/-- One object of the snapshot in `controls_at_commit`. -/
def findControl (G : SynapseGit) (r : Repository) (ids : WorkflowIds) (found : List (Text × Oid)) (oid : Oid) :
    Except SidecarError (List (Text × Oid)) :=
  if G.parseOid oid ≠ some .record then .ok found else do
    let record ← loadValue G r oid .record
    let entity ← requiredString record "entity_id"
    match expectedType ids entity with
    | none => return found
    | some expected =>
      if (← requiredString record "record_type") ≠ expected.toList ∨ (found.lookup entity).isSome then throw .integrity
      return (entity, oid) :: found

/-- `controls_at_commit` once the head is valid. -/
def controlsAtCommit (K : Crates) (G : SynapseGit) (projectKey : Text) (r : Repository) (commitOid : Oid) :
    Except SidecarError Controls := do
  let ids := WorkflowIds.fromKey K projectKey
  let found ← (← snapshotObjectSet G r commitOid).foldlM (findControl G r ids) []
  return {
    ids := ids
    humanActorOid := ← required (found.lookup ids.human)
    aiActorOid := ← required (found.lookup ids.agent)
    policyOid := ← required (found.lookup ids.policy)
    grantOid := ← required (found.lookup ids.grant)
    subjectOid := ← required (found.lookup ids.subject) }

end LpStudio.Synapse
