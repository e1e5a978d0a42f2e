import LpStudio.ChangeSet.Apply

/-! # Review material and the whole gate
The checks and the diff a reviewer sees, and `parse_and_apply_change_set`.
-/
namespace LpStudio.ChangeSet
open Str Paths Scanning

/-! ## The unified diff -/

/-- The longest prefix of at most `n` bytes that ends at a character. -/
def takeBytes : ℕ → Text → Text
  | _, [] => []
  | n, c :: cs => if c.utf8Size ≤ n then c :: takeBytes (n - c.utf8Size) cs else []

def pushBounded (output value : Text) : Text :=
  output ++ takeBytes (maxUnifiedDiffBytes - byteLength output) value

/-- `str::lines`: a last line without `\n` keeps its `\r`. -/
def lines (text : Text) : List Text :=
  let pieces := text.splitOn '\n'
  let ended := pieces.dropLast.map fun line =>
    if line.getLast? = some '\r' then line.dropLast else line
  match pieces.getLast? with
  | none | some [] => ended
  | some last => ended ++ [last]

def pushLines (marker : Char) : Text → List Text → Text
  | output, [] => output
  | output, line :: rest =>
    let output := pushBounded output (marker :: line ++ ['\n'])
    if maxUnifiedDiffBytes ≤ byteLength output then output else pushLines marker output rest

def appendDiffContent (output : Text) (marker : Char) (bytes : Bytes) : Text :=
  match decode bytes with
  | none => pushBounded output (marker :: "[binary content omitted]\n".toList)
  | some text => pushLines marker output (lines text)

/-- What the diff shows of one change. -/
def appendChange (accepted proposed : Files) (output : Text) (change : AppliedFileChange) : Text :=
  let beforePath := match change.kind with
    | .created => none
    | .renamed => change.fromPath
    | .deleted | .modified => some change.path
  let afterPath := match change.kind with
    | .deleted => none
    | .created | .renamed | .modified => some change.path
  let named (side : String) (path : Option Text) :=
    (path.map (side.toList ++ ·)).getD "/dev/null".toList
  let output := pushBounded output ("--- ".toList ++ named "a/" beforePath ++ "\n+++ ".toList ++
    named "b/" afterPath ++ "\n@@ before=".toList ++ change.beforeSha256.getD "none".toList ++
    " after=".toList ++ change.afterSha256.getD "none".toList ++ " @@\n".toList)
  let content (output : Text) (marker : Char) (files : Files) (path : Option Text) :=
    match path.bind (files[·]?) with
    | some bytes => appendDiffContent output marker bytes
    | none => output
  let output := content output '-' accepted beforePath
  let output := content output '+' proposed afterPath
  pushBounded output ['\n']

def appendChanges (accepted proposed : Files) : Text → List AppliedFileChange → Text
  | output, [] => output
  | output, change :: changes =>
    let output := appendChange accepted proposed output change
    if maxUnifiedDiffBytes ≤ byteLength output then output
    else appendChanges accepted proposed output changes

def buildUnifiedDiff (accepted proposed : Files) (changes : List AppliedFileChange) : Text :=
  let output := appendChanges accepted proposed [] changes
  if maxUnifiedDiffBytes ≤ byteLength output then
    takeBytes (maxUnifiedDiffBytes - 24) output ++ "\n... diff truncated ...\n".toList
  else output

/-! ## Checks -/

structure AccessibilitySmokeSummary where
  htmlDocuments : ℕ
  documentsWithoutLanguage : ℕ
  duplicateIds : ℕ
  imagesWithoutAlt : ℕ
  formControlsWithoutName : ℕ
  deriving DecidableEq, Repr

def nonBlank (value : Option Text) : Bool := value.any fun value => !(trim value).isEmpty

/-- A control that neither hides nor has a name. -/
def unnamedControl (labelledIds : List Text) (tag : MarkupTag) : Bool :=
  let get := getAttribute tag.attributes
  let hidden := tag.name == "input".toList &&
    (get "type".toList).any (eqIgnoreCase · "hidden".toList)
  let namedDirectly := nonBlank (get "aria-label".toList) || nonBlank (get "aria-labelledby".toList) ||
    nonBlank (get "title".toList)
  let namedByLabel := (get "id".toList).any (· ∈ labelledIds)
  tag.name ∈ ["input".toList, "select".toList, "textarea".toList] &&
    !hidden && !namedDirectly && !namedByLabel

def addDocument (K : Crates) (summary : AccessibilitySmokeSummary) (text : Text) :
    AccessibilitySmokeSummary :=
  let tags := (scanMarkupTags K text true).filter (!·.closing)
  let ids := (tags.filterMap fun tag => getAttribute tag.attributes "id".toList).filter
    fun id => !(trim id).isEmpty
  let labelledIds := ((tags.filter (·.name == "label".toList)).filterMap fun tag =>
    getAttribute tag.attributes "for".toList).filter fun id => !(trim id).isEmpty
  let hasLanguage := tags.any fun tag => tag.name == "html".toList &&
    tag.attributes.any fun (name, value) => name == "lang".toList && !(trim value).isEmpty
  { htmlDocuments := summary.htmlDocuments + 1
    documentsWithoutLanguage := summary.documentsWithoutLanguage + if hasLanguage then 0 else 1
    duplicateIds := summary.duplicateIds + (ids.length - ids.dedup.length)
    imagesWithoutAlt := summary.imagesWithoutAlt + tags.countP fun tag =>
      tag.name == "img".toList && (getAttribute tag.attributes "alt".toList).isNone
    formControlsWithoutName := summary.formControlsWithoutName +
      tags.countP (unnamedControl labelledIds) }

def accessibilitySmokeCheck (K : Crates) (files : Files) : StaticCheck :=
  let documents := files.toList.filterMap fun (path, bytes) =>
    if textMediaTypeForPath path = some .html then decode bytes else none
  let summary := documents.foldl (addDocument K) ⟨0, 0, 0, 0, 0⟩
  let issueCount := summary.documentsWithoutLanguage + summary.duplicateIds +
    summary.imagesWithoutAlt + summary.formControlsWithoutName
  { id := "accessibility-smoke".toList
    status := if issueCount = 0 then .passed else .advisoryWarning
    message := if issueCount = 0 then
        "Bounded accessibility smoke found no missing language, duplicate id, image alt, or form-name issue across ".toList
          ++ decimal summary.htmlDocuments ++ " HTML document(s); this is not WCAG conformance.".toList
      else
        "Bounded accessibility smoke found ".toList ++ decimal issueCount ++ " issue(s): ".toList ++
          decimal summary.documentsWithoutLanguage ++ " document language, ".toList ++
          decimal summary.duplicateIds ++ " duplicate id, ".toList ++
          decimal summary.imagesWithoutAlt ++ " image alt, ".toList ++
          decimal summary.formControlsWithoutName ++ " form-name; this is not WCAG conformance.".toList }

def passedCheck (id message : String) : StaticCheck := ⟨id.toList, .passed, message.toList⟩

def orderedChecks (K : Crates) (files : Files) (htmlRecoveryWarningCount : ℕ)
    (warnings : List BlockingWarning) (introducedIncompleteReferenceSources : List Text) :
    List StaticCheck :=
  [ passedCheck "protocol-schema" "ChangeSet v1 schema is strict and supported.",
    passedCheck "base-revision" "The ChangeSet is bound to the current Accepted revision.",
    passedCheck "operation-graph" "Operation paths and dependencies do not conflict.",
    passedCheck "file-preconditions" "Every required file SHA-256 precondition matches.",
    passedCheck "isolated-apply" "All operations were applied to an isolated in-memory clone.",
    { id := "static-syntax".toList
      status := if htmlRecoveryWarningCount = 0 then .passed else .advisoryWarning
      message := if htmlRecoveryWarningCount = 0 then
          "The resulting site passed strict JSON, CSS, JavaScript, XML, and SVG parser checks; HTML5 parsing required no recovery.".toList
        else "HTML5 parsing reported a bounded ".toList ++ decimal htmlRecoveryWarningCount ++
          " recoverable parse error(s); strict JSON, CSS, JavaScript, XML, and SVG parser checks still passed.".toList },
    passedCheck "entry-point" "The resulting site retains index.html.",
    { id := "local-references".toList
      status := if introducedIncompleteReferenceSources.isEmpty then .passed else .blockingWarning
      message := if introducedIncompleteReferenceSources.isEmpty then
          "Bounded static local references introduced or changed by this proposal resolve inside the site.".toList
        else decimal introducedIncompleteReferenceSources.length ++
          " changed file(s) contain reference syntax that the bounded analyzer cannot exhaustively classify.".toList },
    passedCheck "export-deny-list" "The resulting manifest contains no reserved Studio path.",
    accessibilitySmokeCheck K files,
    { id := "active-behavior".toList
      status := if warnings.isEmpty then .passed else .blockingWarning
      message := if warnings.isEmpty then
          "No new active or externally connected behavior was detected.".toList
        else decimal warnings.length ++
          " blocking review item(s) require explicit Human review.".toList } ]

/-! ## The gate -/

/-- The order of `BlockingWarning`. -/
def BlockingWarning.le (a b : BlockingWarning) : Bool :=
  (((compare a.code b.code).then (compare a.path b.path)).then
    (compare a.destination b.destination)).then (compare a.message b.message) != .gt

/-- The sorted content of a `BTreeSet<BlockingWarning>`. -/
def warningSet (warnings : List BlockingWarning) : List BlockingWarning :=
  warnings.dedup.insertionSort (BlockingWarning.le · ·)

def incompleteReferenceWarning (path : Text) : BlockingWarning where
  code := "static_reference_analysis_incomplete".toList
  path := path
  destination := "bounded-static-reference-analysis".toList
  message := "The proposal introduces reference syntax that the bounded static analyzer cannot exhaustively classify.".toList

/-- The sources among `incomplete` that the proposal brings in or changes. -/
def introducedIncompleteSources (accepted files : Files) (incomplete : List Text) : List Text :=
  let removesExistingPath := accepted.keys.any (!files.contains ·)
  incomplete.filter fun path => removesExistingPath || accepted[path]? != files[path]?

/-- `serde_json::from_str::<ChangeSetV1>` and the language parsers. -/
structure Gate where
  crates : Crates
  parsers : StaticSyntax.Parsers
  fromJson : Text → Option ChangeSetV1

def parseAndApplyChangeSet (G : Gate) (raw expectedBaseRevisionId : Text) (accepted : Files) :
    Except ChangeSetError AppliedChangeSet := do
  let some changeSet := G.fromJson raw | throw .invalidProtocol
  validateEnvelope changeSet expectedBaseRevisionId
  validateAcceptedPaths G.crates accepted
  validateOperations G.crates changeSet.operations
  validateOperationGraph G.crates changeSet.operations
  validatePreconditions G.crates changeSet.operations accepted
  let (files, changes) ← applyToClone G.crates changeSet.operations accepted
  validateFinalCaseCollisions G.crates files
  let some htmlRecoveryWarningCount := StaticSyntax.validateResultingSite G.parsers files.toList
    | throw .invalidSyntax
  if !files.contains "index.html".toList then throw .missingEntryPoint
  let incomplete ← validateLocalReferences G.crates files
  validateExportDenyList G.crates files
  let introduced := introducedIncompleteSources accepted files incomplete
  let blockingWarnings := warningSet
    (activeBehaviorWarnings G.crates accepted files ++ introduced.map incompleteReferenceWarning)
  return {
    changeSet
    files
    changes
    unifiedDiff := buildUnifiedDiff accepted files changes
    checks := orderedChecks G.crates files htmlRecoveryWarningCount blockingWarnings introduced
    blockingWarnings }

/-! ## One page replaced -/

/-- The parsers accept every page, with one recoverable error. -/
def sampleParsers : StaticSyntax.Parsers where
  parseHtml _ := (.other [.element "html".toList [] []], 1)
  styleSheet _ _ := true
  styleAttribute _ := true
  javaScript _ _ := true
  json _ := true
  parseXml _ := some (.other [])

/-- A gate to which the model proposes `after` for the page `before`. -/
def replacementGate (before after : Text) : Gate where
  crates := sampleCrates
  parsers := sampleParsers
  fromJson _ := some {
    schema := changeSetSchema
    version := 1
    baseRevisionId := "rev_0".toList
    summary := "Wording".toList
    operations := [.replaceText "index.html".toList (sampleCrates.sha256 (encode before))
      "text/html".toList after] }

def onePage (page : Text) : Files := (∅ : Files).insert "index.html".toList (encode page)

end LpStudio.ChangeSet
