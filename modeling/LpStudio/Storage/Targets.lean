import LpStudio.Site.Crates
import LpStudio.Storage.Names

/-! # Targets
The targets of a project and the transaction that replaces one of them in a full set. The section of the project
directory that the transaction touches: its journal, the journal's temporaries and the directory `targets`, whose
entries are the target files, the staging files of replacements and the temporaries of target files. The other
entries of the project directory are those of a project at rest.
-/
namespace LpStudio.Storage
open Str Fault

def maxPersistedTargets : ℕ := 32
def maxTargetMetadataBytes : ℕ := 64 * 1024
def maxProposalStagingEntries : ℕ := 16

/-- Three files and seven directories. -/
def stableProjectEntries : ℕ := 10

structure TargetReplaceJournal where
  projectId : Text
  oldTargetId : Text
  oldSha256 : Text
  oldByteLength : ℕ
  newTargetId : Text
  newSha256 : Text
  newByteLength : ℕ
  nonce : Text
  deriving DecidableEq, Repr

structure TargetSection where
  /-- `target-transaction.json` -/
  journal : Option TargetReplaceJournal
  /-- The nonces of `.target-transaction.json.<nonce>.immutable.tmp` -/
  journalTemporaries : List Text
  /-- `<target id>.json` -/
  targets : Std.ExtTreeMap Text Bytes compare
  /-- `.replacing-target-<target id>.<nonce>.tmp` -/
  replacing : List ((Text × Text) × Bytes)
  /-- `.<target id>.json.<nonce>.immutable.tmp` -/
  targetTemporaries : List (Text × Text)

namespace TargetSection

def targetEntries (s : TargetSection) : ℕ := s.targets.size + s.replacing.length + s.targetTemporaries.length

def projectEntries (s : TargetSection) : ℕ :=
  stableProjectEntries + s.journalTemporaries.length + (if s.journal.isSome then 1 else 0)

/-- The staging file of the transaction. -/
def staging (s : TargetSection) (journal : TargetReplaceJournal) : Option Bytes :=
  s.replacing.lookup (journal.newTargetId, journal.nonce)

def validateTargetIds (s : TargetSection) (maximum : ℕ) : Except StorageError Unit := do
  s.targets.keys.forM fun id => validateIdentifier id "tgt_".toList
  boundedDirectoryEntries s.targets.size maximum

def enumerateTargetFiles (s : TargetSection) : Except StorageError (List Text) := do
  boundedDirectoryEntries s.targetEntries (maxPersistedTargets + 1)
  if s.replacing.isEmpty && s.targetTemporaries.isEmpty then
    s.validateTargetIds maxPersistedTargets
    return s.targets.keys
  else throw .corrupt

/-! ## Recovery -/

inductive CleanupStep where
  | list
  | removeReplacing (name : Text × Text)
  | removeTemporary (name : Text × Text)
  | validate
  | syncTargets
  | listProject
  | removeJournalTemporary (nonce : Text)
  | syncProject
  deriving DecidableEq, Repr

def cleanupOrphanTargetTemporaries : Program CleanupStep TargetSection StorageError Unit := do
  let (replacing, temporaries) ← Program.look .io .list fun s => do
    boundedDirectoryEntries s.targetEntries (maxPersistedTargets + maxProposalStagingEntries)
    return (s.replacing.map (·.1), s.targetTemporaries)
  replacing.forM fun name => .atomic .io (.removeReplacing name) fun s =>
    { s with replacing := s.replacing.filter (·.1 != name) }
  temporaries.forM fun name => .atomic .io (.removeTemporary name) fun s =>
    { s with targetTemporaries := s.targetTemporaries.filter (· != name) }
  Program.look .io .validate fun s => s.validateTargetIds maxPersistedTargets
  if replacing.isEmpty && temporaries.isEmpty then return ()
  .atomic .io .syncTargets id

/-- `cleanup_exact_atomic_temporary` of the journal. -/
def cleanupJournalTemporaries : Program CleanupStep TargetSection StorageError Unit := do
  let nonces ← Program.look .io .listProject fun s => do
    boundedDirectoryEntries s.projectEntries 32
    s.journalTemporaries.forM validateNonce
    return s.journalTemporaries
  nonces.forM fun nonce => .atomic .io (.removeJournalTemporary nonce) fun s =>
    { s with journalTemporaries := s.journalTemporaries.filter (· != nonce) }
  if nonces.isEmpty then return ()
  .atomic .io .syncProject id

def validateJournal (journal : TargetReplaceJournal) : Except StorageError Unit := do
  validateIdentifier journal.projectId "prj_".toList
  validateIdentifier journal.oldTargetId "tgt_".toList
  validateIdentifier journal.newTargetId "tgt_".toList
  validateNonce journal.nonce
  validateSha256 journal.oldSha256
  validateSha256 journal.newSha256
  if journal.oldTargetId = journal.newTargetId ∨ journal.oldByteLength = 0 ∨
      maxTargetMetadataBytes < journal.oldByteLength ∨ journal.newByteLength = 0 ∨
      maxTargetMetadataBytes < journal.newByteLength then throw .corrupt

/-- `validate_target_transaction_inventory`: of the staging files only the transaction's own may be there. -/
def validateTransactionInventory (s : TargetSection) (journal : TargetReplaceJournal) :
    Except StorageError Unit := do
  boundedDirectoryEntries s.targetEntries (maxPersistedTargets + 2)
  if (s.replacing.any fun file => file.1 != (journal.newTargetId, journal.nonce)) ||
      !s.targetTemporaries.isEmpty then throw .corrupt
  s.validateTargetIds (maxPersistedTargets + 1)

def verifyFileDigestAndLength (K : Crates) (bytes : Bytes) (expectedLength : ℕ) (expectedSha256 : Text) :
    Except StorageError Unit :=
  if bytes.length = expectedLength ∧ K.sha256 bytes = expectedSha256 then .ok () else .error .corrupt

/-- The checks on the files of a transaction, with what of them exists: the old and the new target file and the
staging file. -/
def inspectTransaction (K : Crates) (s : TargetSection) (journal : TargetReplaceJournal) :
    Except StorageError (Bool × Bool × Bool) := do
  validateJournal journal
  s.validateTransactionInventory journal
  let old := s.targets[journal.oldTargetId]?
  let new := s.targets[journal.newTargetId]?
  let staging := s.staging journal
  if let some bytes := old then
    verifyFileDigestAndLength K bytes journal.oldByteLength journal.oldSha256
  if let some bytes := new then
    verifyFileDigestAndLength K bytes journal.newByteLength journal.newSha256
  if let some bytes := staging then
    verifyFileDigestAndLength K bytes journal.newByteLength journal.newSha256
  return (old.isSome, new.isSome, staging.isSome)

/-- The rename of the staging file onto the new target file. -/
def publishTarget (journal : TargetReplaceJournal) (s : TargetSection) : TargetSection :=
  match s.staging journal with
  | none => s
  | some bytes => { s with
      targets := s.targets.insert journal.newTargetId bytes
      replacing := s.replacing.filter (·.1 != (journal.newTargetId, journal.nonce)) }

/-- The number of targets after a transaction. -/
def countTargets (s : TargetSection) : Except StorageError Unit := do
  if (← s.enumerateTargetFiles).length ≠ maxPersistedTargets then throw .corrupt

inductive CompleteStep where
  | inspect | publish | syncPublished | removeOld | syncRemoved | removeJournal | syncProject | count
  deriving DecidableEq, Repr

def completeTargetReplace (K : Crates) (journal : TargetReplaceJournal) :
    Program CompleteStep TargetSection StorageError Unit := do
  let (oldExists, newExists, stagingExists) ← Program.look .io .inspect fun s => s.inspectTransaction K journal
  if !newExists then
    if !oldExists || !stagingExists then
      Program.throw .corrupt
    .atomic .io .publish (publishTarget journal)
    .atomic .io .syncPublished id
  else if stagingExists then
    Program.throw .corrupt
  if oldExists then
    .atomic .io .removeOld fun s => { s with targets := s.targets.erase journal.oldTargetId }
    .atomic .io .syncRemoved id
  .atomic .io .removeJournal fun s => { s with journal := none }
  .atomic .io .syncProject id
  Program.look .io .count countTargets

inductive RecoverStep where
  | stat
  | cleanup (step : CleanupStep)
  | complete (step : CompleteStep)
  deriving DecidableEq, Repr

def recoverTargetTransaction (K : Crates) (projectId : Text) :
    Program RecoverStep TargetSection StorageError Unit := do
  match ← Program.look .io .stat (fun s => .ok s.journal) with
  | some journal =>
    if journal.projectId ≠ projectId then
      Program.throw .corrupt
    (completeTargetReplace K journal).relabel .complete
  | none =>
    cleanupOrphanTargetTemporaries.relabel .cleanup
    cleanupJournalTemporaries.relabel .cleanup

/-! ## Replacing a target -/

/-- The path of the journal, written through the temporary with the nonce. -/
def journalPlace (nonce : Text) : Place TargetSection TargetReplaceJournal where
  held s := s.journal
  draft n _ s := if n = some 0 then s else { s with journalTemporaries := nonce :: s.journalTemporaries }
  discard s := { s with journalTemporaries := s.journalTemporaries.filter (· != nonce) }
  publish journal s := { s with
    journal := some journal
    journalTemporaries := s.journalTemporaries.filter (· != nonce) }

inductive ReplaceStep where
  | validate
  | recover (step : RecoverStep)
  | read
  | writeStaging | fsyncStaging | syncStaging
  | journal (step : WriteStep)
  | discardStaging | syncDiscarded
  | complete (step : CompleteStep)
  deriving DecidableEq, Repr

structure ReplaceTarget where
  projectId : Text
  oldTargetId : Text
  expectedOldBytes : Bytes
  newTargetId : Text
  newBytes : Bytes
  /-- The UUIDs of the staging file and of the journal's temporary. -/
  nonce : Text
  journalNonce : Text
  nonce_valid : validateNonce nonce = .ok ()
  journalNonce_valid : validateNonce journalNonce = .ok ()

def ReplaceTarget.validate (r : ReplaceTarget) : Except StorageError Unit := do
  validateIdentifier r.projectId "prj_".toList
  validateIdentifier r.oldTargetId "tgt_".toList
  validateIdentifier r.newTargetId "tgt_".toList
  if r.oldTargetId = r.newTargetId ∨ r.expectedOldBytes.isEmpty ∨
      maxTargetMetadataBytes < r.expectedOldBytes.length ∨ r.newBytes.isEmpty ∨
      maxTargetMetadataBytes < r.newBytes.length then throw .corrupt

def ReplaceTarget.journal (K : Crates) (r : ReplaceTarget) : TargetReplaceJournal where
  projectId := r.projectId
  oldTargetId := r.oldTargetId
  oldSha256 := K.sha256 r.expectedOldBytes
  oldByteLength := r.expectedOldBytes.length
  newTargetId := r.newTargetId
  newSha256 := K.sha256 r.newBytes
  newByteLength := r.newBytes.length
  nonce := r.nonce

/-- The staging file after `n` of its bytes, or all of them; after none the file may not be there yet. -/
def stage (name : Text × Text) (bytes : Bytes) (n : Option ℕ) (s : TargetSection) : TargetSection :=
  match n with
  | some 0 => s
  | some n => { s with replacing := (name, bytes.take (n - 1)) :: s.replacing }
  | none => { s with replacing := (name, bytes) :: s.replacing }

/-- The steps up to the staging file. -/
def prepareReplacement (K : Crates) (r : ReplaceTarget) :
    Program ReplaceStep TargetSection StorageError Unit := do
  Program.look .io .validate fun _ => r.validate
  (recoverTargetTransaction K r.projectId).relabel .recover
  Program.look .io .read fun s => do
    let retained ← s.enumerateTargetFiles
    if retained.length ≠ maxPersistedTargets ∨ r.oldTargetId ∉ retained ∨ r.newTargetId ∈ retained then
      throw .corrupt
    if s.targets[r.oldTargetId]? ≠ some r.expectedOldBytes then throw .corrupt
  .gradual .io .writeStaging (fun n => stage (r.newTargetId, r.nonce) r.newBytes (some n))
    (stage (r.newTargetId, r.nonce) r.newBytes none)
  .atomic .io .fsyncStaging id
  .atomic .io .syncStaging id

/-- The removal of the staging file, if its journal could not be written. -/
def discardStaging (r : ReplaceTarget) : Program ReplaceStep TargetSection StorageError Unit := do
  (Program.atomic .io .discardStaging fun s =>
    { s with replacing := s.replacing.filter (·.1 != (r.newTargetId, r.nonce)) }).ignore
  (Program.atomic .io .syncDiscarded id).ignore

def replaceTarget (K : Crates) (r : ReplaceTarget) : Program ReplaceStep TargetSection StorageError Unit := do
  prepareReplacement K r
  ((writeImmutable (journalPlace r.journalNonce) (r.journal K)).relabel .journal).rescue fun e => do
    discardStaging r
    .throw e
  (completeTargetReplace K (r.journal K)).relabel .complete

/-! ## Opening -/

/-- `preflight_target_transaction`. -/
def preflightTransaction (K : Crates) (s : TargetSection) (journal : TargetReplaceJournal) :
    Except StorageError Unit := do
  let (oldExists, newExists, stagingExists) ← s.inspectTransaction K journal
  if (!newExists && (!oldExists || !stagingExists)) || (newExists && stagingExists) then throw .corrupt
  let projected := s.targets.size + (if newExists then 0 else 1)
  if projected < (if oldExists then 1 else 0) ∨
      projected - (if oldExists then 1 else 0) ≠ maxPersistedTargets then throw .corrupt

/-- `preflight_target_inventory`, after the count of the project's own entries. -/
def preflight (K : Crates) (projectId : Text) (s : TargetSection) : Except StorageError Unit := do
  boundedDirectoryEntries s.projectEntries 32
  s.journalTemporaries.forM validateNonce
  if s.journal.any (·.projectId ≠ projectId) then throw .corrupt
  boundedDirectoryEntries s.targetEntries (maxPersistedTargets + maxProposalStagingEntries)
  s.validateTargetIds (if s.journal.isSome then maxPersistedTargets + 1 else maxPersistedTargets)
  if s.targets.toList.any fun target => maxTargetMetadataBytes < target.2.length then throw .corrupt
  if let some journal := s.journal then s.preflightTransaction K journal

/-- `validate_stable_project_inventory` of the project directory. -/
def validateStable (s : TargetSection) : Except StorageError Unit :=
  if s.journal.isSome || !s.journalTemporaries.isEmpty then .error .corrupt else .ok ()

/-- `load_target_bytes` -/
def loadTargetBytes (s : TargetSection) : Except StorageError (List (Text × Bytes)) := do
  let _ ← s.enumerateTargetFiles
  if s.targets.toList.any fun target => maxTargetMetadataBytes < target.2.length then throw .corrupt
  return s.targets.toList

inductive OpenStep where
  | preflight
  | recover (step : RecoverStep)
  | validate (step : RecoverStep)
  | load
  deriving DecidableEq, Repr

/-- What `open` does with the section: the preflight; then, of `load_projects`, the recovery, the validation of the
project (which recovers again) and the load. -/
def openTargets (K : Crates) (projectId : Text) :
    Program OpenStep TargetSection StorageError (List (Text × Bytes)) := do
  Program.look .io .preflight (preflight K projectId)
  (recoverTargetTransaction K projectId).relabel .recover
  (recoverTargetTransaction K projectId).relabel .validate
  Program.look .io .load validateStable
  Program.look .io .load loadTargetBytes

end TargetSection
end LpStudio.Storage
