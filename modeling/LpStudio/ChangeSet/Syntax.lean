import LpStudio.Site.StaticSyntax

/-! # ChangeSets
The protocol types of `change_set.rs` and the result of applying one.
-/
namespace LpStudio
open Str

/-- A site: `BTreeMap<String, Vec<u8>>`. -/
abbrev Files := Std.ExtTreeMap Text Bytes compare

namespace ChangeSet

inductive ChangeOperationV1 where
  | createText (path mediaType content : Text)
  | replaceText (path expectedSha256 mediaType content : Text)
  | rename (source target expectedSha256 : Text)
  | delete (path expectedSha256 : Text)
  deriving DecidableEq, Repr

structure ChangeSetV1 where
  schema : Text
  version : ℕ
  baseRevisionId : Text
  summary : Text
  operations : List ChangeOperationV1
  deriving DecidableEq, Repr

inductive AppliedChangeKind where
  | created | modified | renamed | deleted
  deriving DecidableEq, Repr

structure AppliedFileChange where
  path : Text
  kind : AppliedChangeKind
  fromPath : Option Text
  beforeSha256 : Option Text
  afterSha256 : Option Text
  deriving DecidableEq, Repr

inductive StaticCheckStatus where
  | passed | advisoryWarning | blockingWarning
  deriving DecidableEq, Repr

structure StaticCheck where
  id : Text
  status : StaticCheckStatus
  message : Text
  deriving DecidableEq, Repr

structure BlockingWarning where
  code : Text
  path : Text
  destination : Text
  message : Text
  deriving DecidableEq, Repr

structure AppliedChangeSet where
  changeSet : ChangeSetV1
  files : Files
  changes : List AppliedFileChange
  unifiedDiff : Text
  checks : List StaticCheck
  blockingWarnings : List BlockingWarning

inductive ChangeSetError where
  | invalidProtocol
  | staleBase
  | limitExceeded
  | unsafePath
  | reservedPath
  | unsupportedMediaType
  | invalidHash
  | operationConflict
  | renameCycle
  | preconditionFailed
  | missingEntryPoint
  | invalidSyntax
  | invalidLocalReference
  | reservedPlaceholder
  deriving DecidableEq, Repr

def ChangeSetError.code : ChangeSetError → String
  | invalidProtocol => "change_set_invalid_protocol"
  | staleBase => "change_set_stale_base"
  | limitExceeded => "change_set_limit_exceeded"
  | unsafePath => "change_set_unsafe_path"
  | reservedPath => "change_set_reserved_path"
  | unsupportedMediaType => "change_set_unsupported_media_type"
  | invalidHash => "change_set_invalid_hash"
  | operationConflict => "change_set_operation_conflict"
  | renameCycle => "change_set_rename_cycle"
  | preconditionFailed => "change_set_precondition_failed"
  | missingEntryPoint => "change_set_missing_entry_point"
  | invalidSyntax => "change_set_invalid_syntax"
  | invalidLocalReference => "change_set_invalid_local_reference"
  | reservedPlaceholder => "change_set_reserved_placeholder"

def changeSetSchema : Text := "org.synapsegit-lp-studio.change-set".toList
def changeSetVersion : ℕ := 1
def redactionPlaceholder : Text := "LP_STUDIO_REDACTED".toList
def maxOperations : ℕ := 32
def maxSummaryBytes : ℕ := 2000
def maxGeneratedFileBytes : ℕ := 2 * 1024 * 1024
def maxGeneratedTotalBytes : ℕ := 8 * 1024 * 1024
def maxUnifiedDiffBytes : ℕ := 256 * 1024

end ChangeSet
end LpStudio
