import LpStudio.ChangeSet.Syntax
import LpStudio.Lib.Json
import LpStudio.Lib.Outcome
import LpStudio.StaticExport.Resolve

/-! # Static export
`generate_static_export` of `static_export.rs`: the checks on the request and on the paths, the analysis of
all references, and the receipt of the archive.
-/
namespace LpStudio.StaticExport
open Str Paths Outcome

structure SchemaIdentity where
  name : Text
  version : ℕ
  deriving DecidableEq, Repr

structure ExportOptionsV1 where
  entryPoint : Text
  basePathProfile : Text
  externalAssetPolicy : Text
  artifactFormat : Text
  deriving DecidableEq, Repr

structure ExportFileManifestEntryV1 where
  path : Text
  mediaType : Text
  byteLength : ℕ
  sha256 : Text
  deriving DecidableEq, Repr

structure ExportFileManifestV1 where
  schema : SchemaIdentity
  sha256 : Text
  totalByteLength : ℕ
  files : List ExportFileManifestEntryV1
  deriving DecidableEq, Repr

inductive StaticHostingProfile where
  | offlineSelfContained | standaloneStatic
  deriving DecidableEq, Repr

/-- `ExportWarningV1` and `ExportLimitationV1`. -/
structure ExportNotice where
  code : Text
  message : Text
  deriving DecidableEq, Repr

structure ExportValidationReportV1 where
  profile : StaticHostingProfile
  localReferenceCount : ℕ
  externalReferences : List ExternalReferenceV1
  externalOrigins : List Text
  dynamicReferenceSources : List Text
  warnings : List ExportNotice
  limitations : List ExportNotice
  deriving DecidableEq, Repr

structure ExportArchiveIdentityV1 where
  sha256 : Text
  byteLength : ℕ
  deriving DecidableEq, Repr

structure ExportReceiptV1 where
  schema : SchemaIdentity
  sourceRevisionId : Text
  sourceManifestSha256 : Text
  options : ExportOptionsV1
  fileManifest : ExportFileManifestV1
  validation : ExportValidationReportV1
  archive : ExportArchiveIdentityV1
  generatedAtUtc : Text
  applicationVersion : Text
  deriving DecidableEq, Repr

structure StaticExportInput where
  sourceRevisionId : Text
  sourceManifestSha256 : Text
  generatedAtUtc : Text
  entryPoint : Text
  files : Files

structure StaticExportArtifact where
  zipBytes : Bytes
  receipt : ExportReceiptV1
  receiptJson : Bytes
  receiptSha256 : Text

def exportReceiptSchema : SchemaIdentity := ⟨"org.synapsegit-lp-studio.export-receipt".toList, 1⟩
def exportManifestSchema : SchemaIdentity := ⟨"org.synapsegit-lp-studio.export-file-manifest".toList, 1⟩
def maxSourceRevisionIdBytes : ℕ := 128
def maxTimestampBytes : ℕ := 40
/-- `CARGO_PKG_VERSION`. -/
def applicationVersion : Text := "0.0.0".toList

/-! ## The request -/

def validSourceRevisionId (value : Text) : Bool :=
  !value.isEmpty && byteLength value ≤ maxSourceRevisionIdBytes &&
    value.all fun c => isAsciiAlphanumeric c || c == '_' || c == '-'

def validSha256 (value : Text) : Bool :=
  byteLength value = 64 &&
    value.all fun c => isAsciiDigit c || (0x61 ≤ c.toNat && c.toNat ≤ 0x66)

/-- `valid_utc_timestamp`; the bytes are characters, as all of them are ASCII. -/
def validUtcTimestamp (value : Text) : Bool :=
  20 ≤ byteLength value && byteLength value ≤ maxTimestampBytes && value.getLast? = some 'Z' &&
    (value.all fun c => isAsciiDigit c || c ∈ ['-', ':', '.', 'T', 'Z']) &&
    value[4]? = some '-' && value[7]? = some '-' && value[10]? = some 'T' && value[13]? = some ':' &&
    value[16]? = some ':'

def isHtmlPath (path : Text) : Bool :=
  ".html".toList.isSuffixOf (lower path) || ".htm".toList.isSuffixOf (lower path)

def validateExportInput (K : Crates) (input : StaticExportInput) : Except StaticExportError Unit :=
  if input.files.isEmpty then .error .emptyAcceptedSite
  else if !validSourceRevisionId input.sourceRevisionId then .error .invalidSourceRevisionId
  else if !validSha256 input.sourceManifestSha256 then .error .invalidSourceManifest
  else if !validUtcTimestamp input.generatedAtUtc then .error .invalidGeneratedAt
  else if !validateCanonicalPath K input.entryPoint then .error .invalidEntryPoint
  else match input.files[input.entryPoint]? with
  | none => .error .invalidEntryPoint
  | some bytes =>
    if !isHtmlPath input.entryPoint then .error .invalidEntryPoint
    else if (decode bytes).isNone then .error (.invalidTextEncoding input.entryPoint)
    else .ok ()

/-- The loop of `canonical_file_entries`, after the folded paths `folded`. -/
def canonicalFileEntriesFrom (K : Crates) (folded : List Text) :
    List (Text × Bytes) → Except StaticExportError (List ExportFileManifestEntryV1)
  | [] => .ok []
  | (path, bytes) :: files => do
    if !validateCanonicalPath K path then throw (.invalidFilePath path)
    if reservedPath K path then throw (.invalidFilePath path)
    if K.toFoldedCase path ∈ folded then throw .filePathCollision
    let entries ← canonicalFileEntriesFrom K (K.toFoldedCase path :: folded) files
    return ⟨path, K.mimeGuess path, bytes.length, K.sha256 bytes⟩ :: entries

def canonicalFileEntries (K : Crates) (files : Files) :
    Except StaticExportError (List ExportFileManifestEntryV1) :=
  canonicalFileEntriesFrom K [] files.toList

theorem canonicalFileEntriesFrom_valid {K : Crates} {folded : List Text} {files : List (Text × Bytes)}
    {entries : List ExportFileManifestEntryV1} (h : canonicalFileEntriesFrom K folded files = .ok entries) :
    ∀ file ∈ files, validateCanonicalPath K file.1 = true := by
  induction files generalizing folded entries with
  | nil => exact fun file hfile => absurd hfile List.not_mem_nil
  | cons file files ih =>
    obtain ⟨path, bytes⟩ := file
    unfold canonicalFileEntriesFrom at h
    simp only at h
    split at h
    · cases h
    rename_i hvalid
    split at h
    · cases h
    split at h
    · cases h
    rw [bind_ok] at h
    obtain ⟨rest, hrest, -⟩ := h
    rw [Bool.not_eq_true, Bool.not_eq_false'] at hvalid
    exact List.forall_mem_cons.mpr ⟨hvalid, ih hrest⟩

/-! ## The analysis -/

/-- What the loops of `analyze_references` accumulate; the sets are sorted when the report is made. -/
structure Analysis where
  localReferenceCount : ℕ
  externalReferences : List ExternalReferenceV1
  externalOrigins : List Text
  dynamicReferenceSources : List Text
  incompleteReferenceSources : List Text

def Analysis.start : Analysis := ⟨0, [], [], [], []⟩

/-- The number of values of `usize`. -/
def usizeRange : ℕ := 2 ^ 64

/-- The turn of the inner loop for one reference. -/
def analyzeReference (K : Crates) (files : Files) (sourcePath : Text) (analysis : Analysis)
    (rawReference : Text) : Except StaticExportError Analysis := do
  match ← resolveReference K sourcePath rawReference with
  | .ignored => return analysis
  | .runtimeOnly =>
    return { analysis with
      dynamicReferenceSources := analysis.dynamicReferenceSources ++ [sourcePath] }
  | .local resolvedPath =>
    if usizeRange ≤ analysis.localReferenceCount + 1 then throw .serialization
    if !files.contains resolvedPath && !files.contains (resolvedPath ++ "/index.html".toList) then
      throw (.missingLocalReference sourcePath resolvedPath)
    return { analysis with localReferenceCount := analysis.localReferenceCount + 1 }
  | .external reference =>
    return { analysis with
      externalOrigins := analysis.externalOrigins ++ [reference.origin]
      externalReferences := analysis.externalReferences ++ [reference] }

def Analysis.noteScan (analysis : Analysis) (sourcePath : Text) (scan : ReferenceScan) : Analysis :=
  { analysis with
    dynamicReferenceSources := analysis.dynamicReferenceSources ++
      if scan.dynamicCapable || scan.analysisIncomplete then [sourcePath] else []
    incompleteReferenceSources := analysis.incompleteReferenceSources ++
      if scan.analysisIncomplete then [sourcePath] else [] }

/-- The turn of the outer loop for one file. -/
def analyzeFile (K : Crates) (files : Files) (analysis : Analysis) :
    Text × Bytes → Except StaticExportError Analysis
  | (sourcePath, bytes) => do
    let scan ← scanReferences sourcePath bytes
    scan.references.foldlM (analyzeReference K files sourcePath) (analysis.noteScan sourcePath scan)

/-- The order of `String`, and of `ExternalReferenceV1` by its fields. -/
def textLe (a b : Text) : Bool := compare a b != .gt

def ExternalReferenceV1.le (a b : ExternalReferenceV1) : Bool :=
  ((((((compare a.sourcePath b.sourcePath).then (compare a.sanitizedUrl b.sanitizedUrl)).then
    (compare a.origin b.origin)).then (compare a.userinfoRedacted b.userinfoRedacted)).then
    (compare a.queryRedacted b.queryRedacted)).then (compare a.fragmentRedacted b.fragmentRedacted)) != .gt

/-- The warnings, in the order of their codes. -/
def exportWarnings (dynamicSources incompleteSources : List Text)
    (externalReferences : List ExternalReferenceV1) : List ExportNotice :=
  (if dynamicSources.isEmpty then [] else [⟨"dynamic_references_unchecked".toList,
    Nat.toDigits 10 dynamicSources.length ++
      " file(s) can construct runtime references that static analysis cannot exhaustively verify.".toList⟩]) ++
  (if externalReferences.isEmpty then [] else [⟨"external_dependencies_present".toList,
    Nat.toDigits 10 externalReferences.length ++
      " redacted external HTTP(S) reference(s) remain; this export is not offline self-contained.".toList⟩]) ++
  (if externalReferences.any fun reference =>
      reference.userinfoRedacted || reference.queryRedacted || reference.fragmentRedacted then
    [⟨"external_url_components_redacted".toList,
      "External URL userinfo, query, and fragment values are omitted from the receipt.".toList⟩] else []) ++
  (if incompleteSources.isEmpty then [] else [⟨"static_reference_analysis_incomplete".toList,
    Nat.toDigits 10 incompleteSources.length ++
      " file(s) contain escaped, commented, or ambiguous CSS syntax; offline self-containment is not claimed.".toList⟩])

def exportLimitations : List ExportNotice := [
  ⟨"dynamic_reference_analysis_best_effort".toList,
    "JavaScript-built URLs, runtime fetches, navigation, and framework routing are not exhaustively inspected.".toList⟩,
  ⟨"ordinary_static_http_profile".toList,
    "The supported profile is ordinary unprivileged static HTTP hosting; direct file:// compatibility is not guaranteed.".toList⟩]

def Analysis.report (analysis : Analysis) : ExportValidationReportV1 :=
  let sorted (values : List Text) := values.dedup.insertionSort (textLe · ·)
  let externalReferences :=
    analysis.externalReferences.dedup.insertionSort (ExternalReferenceV1.le · ·)
  let dynamicReferenceSources := sorted analysis.dynamicReferenceSources
  let incompleteReferenceSources := sorted analysis.incompleteReferenceSources
  { profile :=
      if externalReferences.isEmpty && incompleteReferenceSources.isEmpty then .offlineSelfContained
      else .standaloneStatic
    localReferenceCount := analysis.localReferenceCount
    externalReferences
    externalOrigins := sorted analysis.externalOrigins
    dynamicReferenceSources
    warnings := exportWarnings dynamicReferenceSources incompleteReferenceSources externalReferences
    limitations := exportLimitations }

def analyzeReferences (K : Crates) (files : Files) : Except StaticExportError ExportValidationReportV1 := do
  let analysis ← files.toList.foldlM (analyzeFile K files) .start
  return analysis.report

/-! ## Serialization -/

def SchemaIdentity.toJson (schema : SchemaIdentity) : Json :=
  .obj [("name".toList, .str schema.name), ("version".toList, .num schema.version)]

def ExportFileManifestEntryV1.toJson (entry : ExportFileManifestEntryV1) : Json := .obj [
  ("path".toList, .str entry.path), ("mediaType".toList, .str entry.mediaType),
  ("byteLength".toList, .num entry.byteLength), ("sha256".toList, .str entry.sha256)]

def StaticHostingProfile.toJson : StaticHostingProfile → Json
  | offlineSelfContained => .str "offline_self_contained".toList
  | standaloneStatic => .str "standalone_static".toList

def ExternalReferenceV1.toJson (reference : ExternalReferenceV1) : Json := .obj [
  ("sourcePath".toList, .str reference.sourcePath), ("sanitizedUrl".toList, .str reference.sanitizedUrl),
  ("origin".toList, .str reference.origin), ("userinfoRedacted".toList, .bool reference.userinfoRedacted),
  ("queryRedacted".toList, .bool reference.queryRedacted),
  ("fragmentRedacted".toList, .bool reference.fragmentRedacted)]

def ExportNotice.toJson (notice : ExportNotice) : Json :=
  .obj [("code".toList, .str notice.code), ("message".toList, .str notice.message)]

def texts (values : List Text) : Json := .arr (values.map .str)

def ExportValidationReportV1.toJson (report : ExportValidationReportV1) : Json := .obj [
  ("profile".toList, report.profile.toJson), ("localReferenceCount".toList, .num report.localReferenceCount),
  ("externalReferences".toList, .arr (report.externalReferences.map (·.toJson))),
  ("externalOrigins".toList, texts report.externalOrigins),
  ("dynamicReferenceSources".toList, texts report.dynamicReferenceSources),
  ("warnings".toList, .arr (report.warnings.map (·.toJson))),
  ("limitations".toList, .arr (report.limitations.map (·.toJson)))]

def ExportReceiptV1.toJson (receipt : ExportReceiptV1) : Json := .obj [
  ("schema".toList, receipt.schema.toJson),
  ("sourceRevisionId".toList, .str receipt.sourceRevisionId),
  ("sourceManifestSha256".toList, .str receipt.sourceManifestSha256),
  ("options".toList, .obj [
    ("entryPoint".toList, .str receipt.options.entryPoint),
    ("basePathProfile".toList, .str receipt.options.basePathProfile),
    ("externalAssetPolicy".toList, .str receipt.options.externalAssetPolicy),
    ("artifactFormat".toList, .str receipt.options.artifactFormat)]),
  ("fileManifest".toList, .obj [
    ("schema".toList, receipt.fileManifest.schema.toJson),
    ("sha256".toList, .str receipt.fileManifest.sha256),
    ("totalByteLength".toList, .num receipt.fileManifest.totalByteLength),
    ("files".toList, .arr (receipt.fileManifest.files.map (·.toJson)))]),
  ("validation".toList, receipt.validation.toJson),
  ("archive".toList, .obj [
    ("sha256".toList, .str receipt.archive.sha256), ("byteLength".toList, .num receipt.archive.byteLength)]),
  ("generatedAtUtc".toList, .str receipt.generatedAtUtc),
  ("applicationVersion".toList, .str receipt.applicationVersion)]

/-- `canonical_json`; the derived serializers do not fail. -/
def canonicalJson (value : Json) : Bytes := encode value.render ++ [0x0a]

/-! ## The archive -/

def totalByteLength (entries : List ExportFileManifestEntryV1) : ℕ := (entries.map (·.byteLength)).sum

/-- `FileManifestIdentityInput`. -/
def manifestIdentity (entries : List ExportFileManifestEntryV1) : Json := .obj [
  ("schema".toList, exportManifestSchema.toJson), ("files".toList, .arr (entries.map (·.toJson)))]

/-- `generate_static_export`. -/
def generateStaticExport (K : Crates) (input : StaticExportInput) :
    Except StaticExportError StaticExportArtifact := do
  validateExportInput K input
  let fileEntries ← canonicalFileEntries K input.files
  if usizeRange ≤ totalByteLength fileEntries then throw .serialization
  let validation ← analyzeReferences K input.files
  let some zipBytes := K.zip input.files.toList | throw .archiveGeneration
  let receipt : ExportReceiptV1 := {
    schema := exportReceiptSchema
    sourceRevisionId := input.sourceRevisionId
    sourceManifestSha256 := input.sourceManifestSha256
    options := ⟨input.entryPoint, "relative_static_http".toList, "report".toList, "zip_stored_v1".toList⟩
    fileManifest := {
      schema := exportManifestSchema
      sha256 := K.sha256 (canonicalJson (manifestIdentity fileEntries))
      totalByteLength := totalByteLength fileEntries
      files := fileEntries }
    validation
    archive := ⟨K.sha256 zipBytes, zipBytes.length⟩
    generatedAtUtc := input.generatedAtUtc
    applicationVersion }
  return {
    zipBytes
    receipt
    receiptJson := canonicalJson receipt.toJson
    receiptSha256 := K.sha256 (canonicalJson receipt.toJson) }

end LpStudio.StaticExport
