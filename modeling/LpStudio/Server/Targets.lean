import LpStudio.Lib.Json
import LpStudio.Server.ApiError
import LpStudio.Site.Paths

/-! # Targets of a change
The record of what a visitor has selected on a page, and the checks of `validate_target_shape`. A measurement is the
rational number that the `f64` stands for.
-/
namespace LpStudio.Server.Targets
open Str

def maxTargetLabelLength : ℕ := 256
def maxTargetQuoteLength : ℕ := 1024
def maxTargetContextLength : ℕ := 256
def maxTargetAnchorLength : ℕ := 2048
def maxTargetClassTokenLength : ℕ := 128
def f64MinPositive : ℚ := 1 / 2 ^ 1022

inductive TargetCaptureSource where
  | accepted | proposal
  deriving DecidableEq

inductive TargetKind where
  | page | block | element | text | point | region
  deriving DecidableEq

structure TargetViewport where
  cssWidth : ℚ
  cssHeight : ℚ
  scrollX : ℚ
  scrollY : ℚ
  devicePixelRatio : ℚ
  visualViewportScale : ℚ
  previewScale : ℚ

structure TargetDocument where
  cssWidth : ℚ
  cssHeight : ℚ
  layoutEpoch : ℕ

structure TargetRect where
  x : ℚ
  y : ℚ
  width : ℚ
  height : ℚ

structure TargetPoint where
  x : ℚ
  y : ℚ

structure TargetGeometry where
  documentCssPixelRect : TargetRect
  viewportCssPixelRect : TargetRect
  viewportNormalizedRect : TargetRect

structure TargetPointCapture where
  documentCssPixel : TargetPoint
  viewportNormalized : TargetPoint

structure ElementAnchor where
  tagName : Text
  uniqueElementId : Option Text
  role : Option Text
  accessibleName : Option Text
  domPath : Option Text
  classTokens : Option (List Text)
  ancestorFingerprint : Option Text
  siblingIndex : Option ℕ

structure TextAnchor where
  exact : Text
  before : Option Text
  after : Option Text
  startOffset : Option ℕ
  endOffset : Option ℕ

inductive TargetLayoutMode where
  | flow | flex | grid | positioned | unknown

structure RegionAnchor where
  containingBlock : Option ElementAnchor
  previousVisibleSibling : Option ElementAnchor
  nextVisibleSibling : Option ElementAnchor
  layoutMode : TargetLayoutMode

inductive TargetBlockSource where
  | semantic | landmark | heuristic | user

structure TargetBlock where
  source : TargetBlockSource
  level : ℕ

structure TargetRecord where
  schemaVersion : ℕ
  targetId : Text
  captureRevisionId : Text
  captureSource : TargetCaptureSource
  captureProposalId : Option Text
  pagePath : Text
  kind : TargetKind
  label : Text
  viewport : TargetViewport
  document : TargetDocument
  geometry : Option TargetGeometry
  point : Option TargetPointCapture
  elementAnchor : Option ElementAnchor
  textAnchor : Option TextAnchor
  regionAnchor : Option RegionAnchor
  block : Option TargetBlock

inductive TargetResolutionStatus where
  | resolved | ambiguous | detached

structure TargetResolutionCandidate where
  candidateId : Text
  score : ℚ
  reasons : List Text
  summary : Text

structure TargetResolution where
  schemaVersion : ℕ
  resolverVersion : ℕ
  targetId : Text
  captureRevisionId : Text
  resolvedRevisionId : Text
  status : TargetResolutionStatus
  selectedCandidateId : Option Text
  candidates : List TargetResolutionCandidate

/-! ## The checks -/

def isOpaqueIdentifier (value idPrefix : Text) : Bool :=
  (stripPrefix idPrefix value).any fun suffix => Paths.byteLength suffix == 32 && suffix.all Storage.isLowerHex

def isSafePagePath (K : Crates) (value : Text) : Bool :=
  Paths.validateCanonicalPath K value &&
  (rsplitOnce '.' ((Paths.segments value).getLast?.getD [])).any fun (stem, extension) =>
    !stem.isEmpty && (eqIgnoreCase extension "html".toList || eqIgnoreCase extension "htm".toList)

/-- What follows each of the matches of `match_indices`, which do not overlap; `skip` characters belong to a match. -/
def afterMatches (pat : Text) : ℕ → Text → List Text
  | _, [] => []
  | skip + 1, _ :: t => afterMatches pat skip t
  | 0, c :: t =>
    if pat.isPrefixOf (c :: t) then (c :: t).drop pat.length :: afterMatches pat (pat.length - 1) t
    else afterMatches pat 0 t

def containsCredentialShapedToken (value pat : Text) : Bool :=
  (afterMatches pat 0 value).any fun rest =>
    ((rest.takeWhile fun c => isAsciiAlphanumeric c || c == '_' || c == '-' || c == '.').take 12).length == 12

def validateTargetText (value : Text) (maxLength : ℕ) (allowEmpty : Bool) : Except ApiError Unit :=
  let secretLike := ["ghp_".toList, "github_pat_".toList, "akia".toList, "bearer ".toList, "sk-".toList].any
    (containsCredentialShapedToken (lower value))
  if (!allowEmpty && (trim value).isEmpty) || maxLength < value.length || secretLike ||
      value.any fun c => isControl c && c != '\n' && c != '\r' && c != '\t' then .error .invalid
  else .ok ()

def finiteBetween (value minimum maximum : ℚ) : Bool := minimum ≤ value && value ≤ maximum

def accept (condition : Bool) : Except ApiError Unit := if condition then .ok () else .error .invalid

def validateViewport (viewport : TargetViewport) : Except ApiError Unit :=
  accept (finiteBetween viewport.cssWidth f64MinPositive 1000000 &&
    finiteBetween viewport.cssHeight f64MinPositive 1000000 && finiteBetween viewport.scrollX 0 1000000 &&
    finiteBetween viewport.scrollY 0 1000000 && finiteBetween viewport.devicePixelRatio f64MinPositive 16 &&
    finiteBetween viewport.visualViewportScale f64MinPositive 16 && finiteBetween viewport.previewScale f64MinPositive 8)

def validateDocumentCapture (document : TargetDocument) : Except ApiError Unit :=
  accept (finiteBetween document.cssWidth 0 1000000 && finiteBetween document.cssHeight 0 1000000 &&
    document.layoutEpoch ≤ 9007199254740991)

/-- The sums of two normalized measurements are taken without rounding. -/
def validateRect (rect : TargetRect) (normalized : Bool) : Except ApiError Unit :=
  let minimum := if normalized then 0 else -1000000
  let maximum := if normalized then 1 else 1000000
  accept (finiteBetween rect.x minimum maximum && finiteBetween rect.y minimum maximum &&
    finiteBetween rect.width 0 maximum && finiteBetween rect.height 0 maximum &&
    (!normalized || rect.x + rect.width ≤ 1000001 / 1000000) && (!normalized || rect.y + rect.height ≤ 1000001 / 1000000))

def validateGeometry (geometry : TargetGeometry) : Except ApiError Unit := do
  validateRect geometry.documentCssPixelRect false
  validateRect geometry.viewportCssPixelRect false
  validateRect geometry.viewportNormalizedRect true

def nonZeroGeometry (geometry : TargetGeometry) : Bool :=
  0 < geometry.documentCssPixelRect.width && 0 < geometry.documentCssPixelRect.height &&
  0 < geometry.viewportCssPixelRect.width && 0 < geometry.viewportCssPixelRect.height

def validatePointCapture (point : TargetPointCapture) : Except ApiError Unit :=
  accept (finiteBetween point.documentCssPixel.x 0 1000000 && finiteBetween point.documentCssPixel.y 0 1000000 &&
    finiteBetween point.viewportNormalized.x 0 1 && finiteBetween point.viewportNormalized.y 0 1)

def validTagName (tagName : Text) : Bool :=
  !tagName.isEmpty && tagName.length ≤ maxTargetClassTokenLength && tagName.head?.all isAsciiAlphabetic &&
  tagName.all fun c => isAsciiAlphanumeric c || c == '-'

def validateElementAnchor (anchor : ElementAnchor) : Except ApiError Unit := do
  accept (validTagName anchor.tagName)
  [anchor.uniqueElementId, anchor.domPath, anchor.ancestorFingerprint].reduceOption.forM fun value =>
    validateTargetText value maxTargetAnchorLength false
  anchor.role.toList.forM fun role => validateTargetText role maxTargetClassTokenLength false
  anchor.accessibleName.toList.forM fun name => validateTargetText name 512 false
  anchor.classTokens.toList.forM fun tokens => do
    accept (!tokens.isEmpty && tokens.length ≤ 32)
    tokens.forM fun token => do
      validateTargetText token maxTargetClassTokenLength false
      accept (!token.any isWhitespace)
    accept tokens.Nodup
  accept (anchor.siblingIndex.all (· ≤ 1000000))

/-- `encode_utf16().count()` -/
def utf16Length (value : Text) : ℕ := (value.map fun c => if c.toNat < 0x10000 then 1 else 2).sum

def validateTextAnchor (anchor : TextAnchor) : Except ApiError Unit := do
  validateTargetText anchor.exact maxTargetQuoteLength false
  [anchor.before, anchor.after].reduceOption.forM fun value => validateTargetText value maxTargetContextLength false
  match anchor.startOffset, anchor.endOffset with
  | none, none => .ok ()
  | some start, some stop =>
    accept (start < stop && stop ≤ 1000000 && stop - start == utf16Length anchor.exact % 2 ^ 32)
  | _, _ => .error .invalid

def validateRegionAnchor (anchor : RegionAnchor) : Except ApiError Unit :=
  [anchor.containingBlock, anchor.previousVisibleSibling, anchor.nextVisibleSibling].reduceOption.forM
    validateElementAnchor

def specificShapeIsValid (target : TargetRecord) : Bool :=
  match target.kind with
  | .page => target.geometry.isNone && target.point.isNone && target.elementAnchor.isNone &&
      target.textAnchor.isNone && target.regionAnchor.isNone && target.block.isNone
  | .block => target.elementAnchor.isSome && target.block.isSome && target.point.isNone &&
      target.textAnchor.isNone && target.regionAnchor.isNone
  | .element => target.elementAnchor.isSome && target.point.isNone && target.textAnchor.isNone &&
      target.regionAnchor.isNone && target.block.isNone
  | .text => target.elementAnchor.isSome && target.textAnchor.isSome && target.point.isNone &&
      target.regionAnchor.isNone && target.block.isNone
  | .point => target.point.isSome && (target.regionAnchor.bind (·.containingBlock)).isSome && target.geometry.isNone &&
      target.elementAnchor.isNone && target.textAnchor.isNone && target.block.isNone
  | .region => (target.geometry.any fun geometry => nonZeroGeometry geometry &&
        8 ≤ geometry.viewportCssPixelRect.width && 8 ≤ geometry.viewportCssPixelRect.height &&
        0 < geometry.viewportNormalizedRect.width && 0 < geometry.viewportNormalizedRect.height) &&
      target.regionAnchor.isSome && target.point.isNone && target.elementAnchor.isNone &&
      target.textAnchor.isNone && target.block.isNone

def validateTargetShape (K : Crates) (target : TargetRecord) : Except ApiError Unit := do
  accept (target.schemaVersion == 1 && isOpaqueIdentifier target.targetId "tgt_".toList &&
    isOpaqueIdentifier target.captureRevisionId "rev_".toList && isSafePagePath K target.pagePath)
  accept (match target.captureSource with
    | .accepted => target.captureProposalId.isNone
    | .proposal => target.captureProposalId.any (isOpaqueIdentifier · "pro_".toList))
  validateTargetText target.label maxTargetLabelLength false
  validateViewport target.viewport
  validateDocumentCapture target.document
  target.geometry.toList.forM validateGeometry
  target.point.toList.forM validatePointCapture
  target.elementAnchor.toList.forM validateElementAnchor
  target.textAnchor.toList.forM validateTextAnchor
  target.regionAnchor.toList.forM validateRegionAnchor
  accept (target.block.all (·.level ≤ 64))
  accept (specificShapeIsValid target)

/-- `target_anchor` -/
def targetAnchor (target : TargetRecord) : Option ElementAnchor :=
  match target.kind with
  | .block | .element | .text => target.elementAnchor
  | .point | .region => target.regionAnchor.bind (·.containingBlock)
  | .page => none

/-! ## JSON
The values that `serde_json::to_value` and `canonical_safe_number_projection` make of the records: the fields in the
order of their names, absent options left out, and every `f64` as its decimal string.
-/

/-- `number.to_string()` of an `f64`. -/
abbrev Decimal := ℚ → Text

def measure (decimal : Decimal) (value : ℚ) : Json := .str (if value = 0 then "0".toList else decimal value)

def optional {α : Type} (name : String) (value : Option α) (toJson : α → Json) : List (Text × Json) :=
  value.toList.map fun value => (name.toList, toJson value)

def TargetCaptureSource.name : TargetCaptureSource → Text
  | .accepted => "accepted".toList
  | .proposal => "proposal".toList

def TargetKind.name : TargetKind → Text
  | .page => "page".toList
  | .block => "block".toList
  | .element => "element".toList
  | .text => "text".toList
  | .point => "point".toList
  | .region => "region".toList

def TargetLayoutMode.name : TargetLayoutMode → Text
  | .flow => "flow".toList
  | .flex => "flex".toList
  | .grid => "grid".toList
  | .positioned => "positioned".toList
  | .unknown => "unknown".toList

def TargetBlockSource.name : TargetBlockSource → Text
  | .semantic => "semantic".toList
  | .landmark => "landmark".toList
  | .heuristic => "heuristic".toList
  | .user => "user".toList

def TargetResolutionStatus.name : TargetResolutionStatus → Text
  | .resolved => "resolved".toList
  | .ambiguous => "ambiguous".toList
  | .detached => "detached".toList

section
variable (decimal : Decimal)

def TargetViewport.toJson (viewport : TargetViewport) : Json := .obj [
  ("cssHeight".toList, measure decimal viewport.cssHeight), ("cssWidth".toList, measure decimal viewport.cssWidth),
  ("devicePixelRatio".toList, measure decimal viewport.devicePixelRatio),
  ("previewScale".toList, measure decimal viewport.previewScale),
  ("scrollX".toList, measure decimal viewport.scrollX), ("scrollY".toList, measure decimal viewport.scrollY),
  ("visualViewportScale".toList, measure decimal viewport.visualViewportScale)]

def TargetDocument.toJson (document : TargetDocument) : Json := .obj [
  ("cssHeight".toList, measure decimal document.cssHeight), ("cssWidth".toList, measure decimal document.cssWidth),
  ("layoutEpoch".toList, .num document.layoutEpoch)]

def TargetRect.toJson (rect : TargetRect) : Json := .obj [
  ("height".toList, measure decimal rect.height), ("width".toList, measure decimal rect.width),
  ("x".toList, measure decimal rect.x), ("y".toList, measure decimal rect.y)]

def TargetPoint.toJson (point : TargetPoint) : Json := .obj [
  ("x".toList, measure decimal point.x), ("y".toList, measure decimal point.y)]

def TargetGeometry.toJson (geometry : TargetGeometry) : Json := .obj [
  ("documentCssPixelRect".toList, geometry.documentCssPixelRect.toJson decimal),
  ("viewportCssPixelRect".toList, geometry.viewportCssPixelRect.toJson decimal),
  ("viewportNormalizedRect".toList, geometry.viewportNormalizedRect.toJson decimal)]

def TargetPointCapture.toJson (point : TargetPointCapture) : Json := .obj [
  ("documentCssPixel".toList, point.documentCssPixel.toJson decimal),
  ("viewportNormalized".toList, point.viewportNormalized.toJson decimal)]

def ElementAnchor.toJson (anchor : ElementAnchor) : Json := .obj (
  optional "accessibleName" anchor.accessibleName .str ++
  optional "ancestorFingerprint" anchor.ancestorFingerprint .str ++
  optional "classTokens" anchor.classTokens (fun tokens => .arr (tokens.map .str)) ++
  optional "domPath" anchor.domPath .str ++ optional "role" anchor.role .str ++
  optional "siblingIndex" anchor.siblingIndex .num ++ [("tagName".toList, .str anchor.tagName)] ++
  optional "uniqueElementId" anchor.uniqueElementId .str)

def TextAnchor.toJson (anchor : TextAnchor) : Json := .obj (
  optional "endOffset" anchor.endOffset .num ++ [("exact".toList, .str anchor.exact)] ++
  optional "prefix" anchor.before .str ++ optional "startOffset" anchor.startOffset .num ++
  optional "suffix" anchor.after .str)

def RegionAnchor.toJson (anchor : RegionAnchor) : Json := .obj (
  optional "containingBlock" anchor.containingBlock (·.toJson) ++
  [("layoutMode".toList, .str anchor.layoutMode.name)] ++
  optional "nextVisibleSibling" anchor.nextVisibleSibling (·.toJson) ++
  optional "previousVisibleSibling" anchor.previousVisibleSibling (·.toJson))

def TargetBlock.toJson (block : TargetBlock) : Json := .obj [
  ("level".toList, .num block.level), ("source".toList, .str block.source.name)]

def TargetRecord.toJson (target : TargetRecord) : Json := .obj (
  optional "block" target.block (·.toJson) ++ optional "captureProposalId" target.captureProposalId .str ++
  [("captureRevisionId".toList, .str target.captureRevisionId),
    ("captureSource".toList, .str target.captureSource.name), ("document".toList, target.document.toJson decimal)] ++
  optional "elementAnchor" target.elementAnchor (·.toJson) ++
  optional "geometry" target.geometry (·.toJson decimal) ++
  [("kind".toList, .str target.kind.name), ("label".toList, .str target.label),
    ("pagePath".toList, .str target.pagePath)] ++
  optional "point" target.point (·.toJson decimal) ++ optional "regionAnchor" target.regionAnchor (·.toJson) ++
  [("schemaVersion".toList, .num target.schemaVersion), ("targetId".toList, .str target.targetId)] ++
  optional "textAnchor" target.textAnchor (·.toJson) ++ [("viewport".toList, target.viewport.toJson decimal)])

def TargetResolutionCandidate.toJson (candidate : TargetResolutionCandidate) : Json := .obj [
  ("candidateId".toList, .str candidate.candidateId), ("reasons".toList, .arr (candidate.reasons.map .str)),
  ("score".toList, measure decimal candidate.score), ("summary".toList, .str candidate.summary)]

def TargetResolution.toJson (resolution : TargetResolution) : Json := .obj (
  [("candidates".toList, .arr (resolution.candidates.map (·.toJson decimal))),
    ("captureRevisionId".toList, .str resolution.captureRevisionId),
    ("resolvedRevisionId".toList, .str resolution.resolvedRevisionId),
    ("resolverVersion".toList, .num resolution.resolverVersion),
    ("schemaVersion".toList, .num resolution.schemaVersion)] ++
  optional "selectedCandidateId" resolution.selectedCandidateId .str ++
  [("status".toList, .str resolution.status.name), ("targetId".toList, .str resolution.targetId)])

end

end LpStudio.Server.Targets
