import LpStudio.Storage.Names

/-! # Errors of the handlers -/
namespace LpStudio.Server
open Str Storage

structure ApiError where
  status : ℕ
  code : Text
  message : Text
  retryable : Bool
  deriving DecidableEq

namespace ApiError

def invalid : ApiError := ⟨400, "invalid_request".toList, "The request is invalid.".toList, false⟩

def notFound : ApiError := ⟨404, "resource_not_found".toList, "The requested resource was not found.".toList, false⟩

def conflict (code : Text) : ApiError :=
  ⟨409, code, "The request conflicts with current project state.".toList, false⟩

def internal : ApiError :=
  ⟨500, "internal_error".toList, "The local server could not complete the request.".toList, true⟩

def capacity : ApiError :=
  ⟨429, "local_capacity_reached".toList, "The local server capacity has been reached.".toList, false⟩

def bindingMismatch : ApiError := conflict "import_preview_binding_mismatch".toList

def expired : ApiError := conflict "import_preview_expired".toList

def unavailable : ApiError := conflict "import_unavailable".toList

def sourceChanged : ApiError := conflict "import_source_changed".toList

def entryPointMissing : ApiError :=
  ⟨422, "import_entry_point_missing".toList, "The import source does not contain an HTML entry point.".toList, false⟩

/-- `storage_api_error` -/
def ofStorage : StorageError → ApiError
  | .drift => ⟨409, "external_changes_detected".toList,
      "The materialized site differs from its accepted revision.".toList, false⟩
  | .unsafeImport => ⟨422, "import_source_unsafe".toList,
      "The import source contains an unsafe file or path.".toList, false⟩
  | .importLimit => ⟨413, "import_limit_exceeded".toList,
      "The import source exceeds a local safety limit.".toList, false⟩
  | .io => internal
  | .corrupt => internal

end ApiError

end LpStudio.Server
