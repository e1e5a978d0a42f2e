import LpStudio.Lib.Json
import LpStudio.Site.Paths

/-! # Client guards
The guards of the contracts package on the value that `JSON.parse` made of an answer of the server. An absent
field reads as `null`, which no guard below accepts.
-/
namespace LpStudio.Contracts
open Str Paths

/-- What the guards read of a `URL` of the browser. -/
structure BrowserUrl where
  protocol : Text
  username : Text
  password : Text
  search : Text
  hash : Text
  origin : Text
  deriving DecidableEq, Repr

structure Browser where
  /-- `new URL(text)`, where it does not throw. -/
  newUrl : Text → Option BrowserUrl
  /-- `text.normalize("NFC")`. -/
  normalizeNfc : Text → Text

/-! ## Strings and arrays -/

def isBoolean : Json → Bool
  | .bool _ => true
  | _ => false

def isNonNegativeInteger : Json → Bool
  | .num _ => true
  | _ => false

/-- `value === text`. -/
def isText (text : String) : Json → Bool
  | .str value => value == text.toList
  | _ => false

/-- The length counts code points. -/
def isBoundedString (minimumLength maximumLength : ℕ) : Json → Bool
  | .str value => !value.contains '\x00' && minimumLength ≤ value.length && value.length ≤ maximumLength
  | _ => false

def isBoundedExactArray (minimumLength maximumLength : ℕ) (guard : Json → Bool) : Json → Bool
  | .arr items => minimumLength ≤ items.length && items.length ≤ maximumLength && items.all guard
  | _ => false

/-- `value.length` of an array. -/
def arrayLength : Json → ℕ
  | .arr items => items.length
  | _ => 0

/-- The strings of an array. -/
def strings : Json → List Text
  | .arr items => items.filterMap fun
    | .str value => some value
    | _ => none
  | _ => []

/-- `new Set(value).size === value.length`, for an array of strings. -/
def allDistinct (value : Json) : Bool := (strings value).dedup.length == arrayLength value

def hasExactKeys (fields : List (Text × Json)) (required : List String) : Bool :=
  (required.all fun key => fields.any fun field => field.1 == key.toList) &&
  fields.all fun field => required.any fun key => field.1 == key.toList

theorem hasExactKeys_self (fields : List (Text × Json)) (required : List String)
    (h : fields.map Prod.fst = required.map String.toList) : hasExactKeys fields required = true := by
  rw [hasExactKeys, Bool.and_eq_true]
  constructor
  · rw [List.all_eq_true]
    intro key hkey
    have hmem : key.toList ∈ fields.map Prod.fst := h ▸ List.mem_map_of_mem hkey
    obtain ⟨field, hfield, heq⟩ := List.mem_map.mp hmem
    exact List.any_eq_true.mpr ⟨field, hfield, beq_iff_eq.mpr heq⟩
  · rw [List.all_eq_true]
    intro field hfield
    have hmem : field.1 ∈ required.map String.toList := h ▸ List.mem_map_of_mem hfield
    obtain ⟨key, hkey, heq⟩ := List.mem_map.mp hmem
    exact List.any_eq_true.mpr ⟨key, hkey, beq_iff_eq.mpr heq.symm⟩

/-- `value.name`. -/
def field (fields : List (Text × Json)) (name : String) : Json :=
  (fields.lookup name.toList).getD .null

/-! ## Paths -/

/-- `/^[A-Za-z]:[\\/]/`. -/
def startsWithDrive : Text → Bool
  | letter :: ':' :: slash :: _ => isAsciiAlphabetic letter && (slash == '\\' || slash == '/')
  | _ => false

def isSafeRelativePath (value : Text) : Bool :=
  !value.isEmpty && !value.contains '\x00' && !value.contains '\\' && value.head? != some '/' &&
  !startsWithDrive value &&
  (segments value).all fun segment => !segment.isEmpty && segment != ".".toList && segment != "..".toList

def maximumPathBytes : ℕ := 512

def isContractRelativePath (B : Browser) : Json → Bool
  | .str value => isSafeRelativePath value && B.normalizeNfc value == value && byteLength value ≤ maximumPathBytes
  | _ => false

/-! ## The validation report -/

def isExportNoticeV1 : Json → Bool
  | .obj fields => hasExactKeys fields ["code", "message"] &&
      isBoundedString 1 128 (field fields "code") && isBoundedString 1 2048 (field fields "message")
  | _ => false

def sanitizedExternalIdentity (B : Browser) (sanitizedUrl origin : Text) : Bool :=
  let protocolRelative := "//".toList.isPrefixOf sanitizedUrl
  match B.newUrl (if protocolRelative then "https:".toList ++ sanitizedUrl else sanitizedUrl) with
  | none => false
  | some parsed =>
    let expectedOrigin :=
      if protocolRelative then (stripPrefix "https:".toList parsed.origin).getD parsed.origin
      else parsed.origin
    ["http:".toList, "https:".toList].contains parsed.protocol &&
    parsed.username.isEmpty && parsed.password.isEmpty && parsed.search.isEmpty && parsed.hash.isEmpty &&
    expectedOrigin == origin

/-- `sanitizedExternalIdentity` on fields that are strings. -/
def identifies (B : Browser) : Json → Json → Bool
  | .str sanitizedUrl, .str origin => sanitizedExternalIdentity B sanitizedUrl origin
  | _, _ => false

def isExportExternalReferenceV1 (B : Browser) : Json → Bool
  | .obj fields => hasExactKeys fields
        ["sourcePath", "sanitizedUrl", "origin", "userinfoRedacted", "queryRedacted", "fragmentRedacted"] &&
      isContractRelativePath B (field fields "sourcePath") &&
      isBoundedString 1 4096 (field fields "sanitizedUrl") && isBoundedString 1 512 (field fields "origin") &&
      identifies B (field fields "sanitizedUrl") (field fields "origin") &&
      isBoolean (field fields "userinfoRedacted") && isBoolean (field fields "queryRedacted") &&
      isBoolean (field fields "fragmentRedacted")
  | _ => false

def isExportValidationReportV1 (B : Browser) : Json → Bool
  | .obj fields => hasExactKeys fields
        ["profile", "localReferenceCount", "externalReferences", "externalOrigins", "dynamicReferenceSources",
          "warnings", "limitations"] &&
      (isText "offline_self_contained" (field fields "profile") ||
        isText "standalone_static" (field fields "profile")) &&
      isNonNegativeInteger (field fields "localReferenceCount") &&
      isBoundedExactArray 0 4096 (isExportExternalReferenceV1 B) (field fields "externalReferences") &&
      isBoundedExactArray 0 4096 (isBoundedString 1 512) (field fields "externalOrigins") &&
      allDistinct (field fields "externalOrigins") &&
      isBoundedExactArray 0 4096 (isContractRelativePath B) (field fields "dynamicReferenceSources") &&
      allDistinct (field fields "dynamicReferenceSources") &&
      isBoundedExactArray 0 256 isExportNoticeV1 (field fields "warnings") &&
      isBoundedExactArray 1 256 isExportNoticeV1 (field fields "limitations") &&
      (!isText "offline_self_contained" (field fields "profile") ||
        arrayLength (field fields "externalReferences") == 0) &&
      (!isText "standalone_static" (field fields "profile") ||
        0 < arrayLength (field fields "externalReferences"))
  | _ => false

end LpStudio.Contracts
