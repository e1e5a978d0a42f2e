import LpStudio.Lib.Interpolation
import LpStudio.Site.Paths

/-! # The publication
`publication.rs` up to its two views, the story and the page. A format string is its literal parts and its arguments in
turn, and so are the texts pushed onto one output. A view is the list of its pieces: `fixed` is written as it is, `given`
through `markdown_inline` in the story and through `html` in the page.
-/
namespace LpStudio.Server.Publication
open Str Interpolation
open Paths (byteLength)

def maxPublicLabelBytes : ℕ := 256
def maxPublicTitleBytes : ℕ := 256
def maxPublicSummaryBytes : ℕ := 4 * 1024
def maxPublicNoteBytes : ℕ := 2 * 1024
def maxProviderLabelBytes : ℕ := 128
def maxModelLabelBytes : ℕ := 256
def maxPublicIdBytes : ℕ := 128

structure Limitation where
  code : Text
  message : Text

def limitations : List Limitation := [
  ⟨"derived_read_only_snapshot".toList,
    "This bundle is a derived read-only snapshot; SynapseGit remains the provenance and Decision authority.".toList⟩,
  ⟨"checksum_not_signature".toList,
    "Checksums detect byte changes inside this bundle but do not prove publisher identity, authorship, or publication permission.".toList⟩,
  ⟨"identifier_correlation".toList,
    "Revision identifiers and checksums can correlate this record with another copy and require review before external publication.".toList⟩,
  ⟨"identity_scope".toList,
    "Byte and graph identity do not prove truth, rights, semantic correctness, visual correctness, or physical change.".toList⟩,
  ⟨"raw_assets_omitted".toList,
    "Raw LP assets and thumbnails are omitted; publishing them requires a separate opt-in derivative pipeline and rights review.".toList⟩,
  ⟨"private_fields_omitted".toList,
    "Prompts, provider responses, private rationale, credentials, internal authority values, repository paths, and full Target quotes are structurally omitted.".toList⟩,
  ⟨"no_remote_operation".toList,
    "Generation performs no Git, GitHub, network, upload, or remote publication operation.".toList⟩]

/-! ## The input -/

structure PublicProjectInput where
  label : Text
  title : Text
  summary : Text

structure PublicAcceptedBindingInput where
  revisionId : Text
  siteManifestSha256 : Text
  synapseArtifactManifestSha256 : Option Text

structure PublicProposalAttributionInput where
  providerLabel : Text
  modelLabel : Text

inductive PublicDisposition where
  | adoptedUnchanged
  | rejected
  | deferred

def PublicDisposition.asStr : PublicDisposition → Text
  | adoptedUnchanged => "adopted_unchanged".toList
  | rejected => "rejected".toList
  | deferred => "deferred".toList

inductive IncompleteReason where
  | proposalPending
  | decisionOutcomeUnknown

def IncompleteReason.asStr : IncompleteReason → Text
  | proposalPending => "proposal_pending".toList
  | decisionOutcomeUnknown => "decision_outcome_unknown".toList

def IncompleteReason.limitation : IncompleteReason → Limitation
  | proposalPending => ⟨"incomplete_proposal_pending".toList,
      "A Proposal is recorded, but no Human Decision is present.".toList⟩
  | decisionOutcomeUnknown => ⟨"incomplete_decision_outcome_unknown".toList,
      "A Decision may have run, but no authoritative outcome receipt has been reconciled; no disposition is claimed.".toList⟩

inductive PublicSessionInput where
  | complete (proposalManifestSha256 decisionReceiptSha256 : Text) (attribution : PublicProposalAttributionInput)
      (disposition : PublicDisposition) (publicDecisionNote : Option Text)
  | incomplete (proposalManifestSha256 : Text) (attribution : PublicProposalAttributionInput) (reason : IncompleteReason)

structure PublicationInput where
  project : PublicProjectInput
  accepted : PublicAcceptedBindingInput
  session : PublicSessionInput

/-! ## Validation -/

inductive PublicationError where
  | invalidInput (label : Text)
deriving DecidableEq

/-- Zero-width and directional formatting characters. -/
def invisible : List ℕ :=
  [0x200b, 0x200c, 0x200d, 0x2060, 0x202a, 0x202b, 0x202c, 0x202d, 0x202e, 0x2066, 0x2067, 0x2068, 0x2069]

def validatePublicText (value : Text) (maxBytes : ℕ) (label : Text) : Except PublicationError Unit :=
  if (trim value).isEmpty || maxBytes < byteLength value then .error (.invalidInput label)
  else if value.any fun c => c.toNat == 0 || (isControl c && !(c ∈ ['\n', '\r', '\t'])) || c.toNat ∈ invisible then
    .error (.invalidInput label)
  else .ok ()

def validatePublicId (value : Text) : Except PublicationError Unit :=
  if value.isEmpty || maxPublicIdBytes < byteLength value ||
      !value.all (fun c => isAsciiAlphanumeric c || c ∈ ['_', '-']) then
    .error (.invalidInput "Accepted revision ID".toList)
  else .ok ()

def validateSha256 (value : Text) : Except PublicationError Unit :=
  if byteLength value != 64 || !value.all (fun c => isAsciiDigit c || (0x61 ≤ c.toNat && c.toNat ≤ 0x66)) then
    .error (.invalidInput "SHA-256 digest".toList)
  else .ok ()

def validateAttribution (attribution : PublicProposalAttributionInput) : Except PublicationError Unit := do
  validatePublicText attribution.providerLabel maxProviderLabelBytes "provider label".toList
  validatePublicText attribution.modelLabel maxModelLabelBytes "model label".toList

def validateInput (input : PublicationInput) : Except PublicationError Unit := do
  validatePublicText input.project.label maxPublicLabelBytes "project public label".toList
  validatePublicText input.project.title maxPublicTitleBytes "public title".toList
  validatePublicText input.project.summary maxPublicSummaryBytes "public summary".toList
  validatePublicId input.accepted.revisionId
  validateSha256 input.accepted.siteManifestSha256
  if let some digest := input.accepted.synapseArtifactManifestSha256 then validateSha256 digest
  match input.session with
  | .complete proposalManifestSha256 decisionReceiptSha256 attribution _ publicDecisionNote =>
    if input.accepted.synapseArtifactManifestSha256.isNone then
      throw (.invalidInput "complete history requires a Synapse artifact binding".toList)
    validateSha256 proposalManifestSha256
    validateSha256 decisionReceiptSha256
    validateAttribution attribution
    if let some note := publicDecisionNote then validatePublicText note maxPublicNoteBytes "public Decision note".toList
  | .incomplete proposalManifestSha256 attribution _ =>
    validateSha256 proposalManifestSha256
    validateAttribution attribution

/-! ## The projection
What the views read of it.
-/

inductive ValueOrigin where
  | verifiedFromSynapse
  | observedFromSynapse
  | derivedSummary
  | authorSupplied

def ValueOrigin.asStr : ValueOrigin → Text
  | verifiedFromSynapse => "verified_from_synapse".toList
  | observedFromSynapse => "observed_from_synapse".toList
  | derivedSummary => "derived_summary".toList
  | authorSupplied => "author_supplied".toList

structure OriginValue where
  value : Text
  origin : ValueOrigin

structure ProjectProjection where
  label : OriginValue
  title : OriginValue
  summary : OriginValue

structure AcceptedProjection where
  revisionId : OriginValue
  siteManifestSha256 : OriginValue
  synapseArtifactManifestSha256 : Option OriginValue

structure CompletenessProjection where
  state : Text
  incompleteReason : Option Text

structure AttributionProjection where
  source : OriginValue
  providerLabel : OriginValue
  modelLabel : OriginValue

structure ProposalProjection where
  manifestSha256 : OriginValue
  attribution : AttributionProjection

structure HumanDecisionProjection where
  disposition : OriginValue
  receiptSha256 : OriginValue
  publicNote : Option OriginValue

structure SessionProjection where
  completeness : CompletenessProjection
  proposal : ProposalProjection
  humanDecision : Option HumanDecisionProjection

structure PublicProjection where
  project : ProjectProjection
  accepted : AcceptedProjection
  session : SessionProjection
  limitations : List Limitation

def proposalProjection (proposalManifestSha256 : Text) (attribution : PublicProposalAttributionInput) :
    ProposalProjection where
  manifestSha256 := ⟨proposalManifestSha256, .observedFromSynapse⟩
  attribution := {
    source := ⟨"caller_supplied_ai_attributed".toList, .observedFromSynapse⟩
    providerLabel := ⟨attribution.providerLabel, .derivedSummary⟩
    modelLabel := ⟨attribution.modelLabel, .derivedSummary⟩ }

def sessionProjection : PublicSessionInput → SessionProjection
  | .complete proposalManifestSha256 decisionReceiptSha256 attribution disposition publicDecisionNote => {
      completeness := ⟨"complete".toList, none⟩
      proposal := proposalProjection proposalManifestSha256 attribution
      humanDecision := some {
        disposition := ⟨disposition.asStr, .observedFromSynapse⟩
        receiptSha256 := ⟨decisionReceiptSha256, .observedFromSynapse⟩
        publicNote := publicDecisionNote.map (⟨·, .authorSupplied⟩) } }
  | .incomplete proposalManifestSha256 attribution reason => {
      completeness := ⟨"incomplete".toList, some reason.asStr⟩
      proposal := proposalProjection proposalManifestSha256 attribution
      humanDecision := none }

def incompleteLimitation : PublicSessionInput → List Limitation
  | .complete .. => []
  | .incomplete _ _ reason => [reason.limitation]

def buildProjection (input : PublicationInput) : PublicProjection where
  project := {
    label := ⟨input.project.label, .authorSupplied⟩
    title := ⟨input.project.title, .authorSupplied⟩
    summary := ⟨input.project.summary, .authorSupplied⟩ }
  accepted := {
    revisionId := ⟨input.accepted.revisionId, .derivedSummary⟩
    siteManifestSha256 := ⟨input.accepted.siteManifestSha256, .derivedSummary⟩
    synapseArtifactManifestSha256 := input.accepted.synapseArtifactManifestSha256.map (⟨·, .verifiedFromSynapse⟩) }
  session := sessionProjection input.session
  limitations := limitations ++ incompleteLimitation input.session

/-! ## The story -/

/-- The characters that the story puts a backslash before. -/
def backslashed : List Char :=
  ['\\', '\x60', '*', '_', '\x7b', '\x7d', '[', ']', '(', ')', '#', '+', '-', '.', '!', '|']

def markdownChar (c : Char) : Text :=
  if c = '&' then "&amp;".toList
  else if c = '<' then "&lt;".toList
  else if c = '>' then "&gt;".toList
  else if c ∈ ['\n', '\r', '\t'] then [' ']
  else if c ∈ backslashed then ['\\', c]
  else [c]

def markdownInline (value : Text) : Text := value.flatMap markdownChar

def markdownField (label : String) (value : OriginValue) : List (Piece Char Char) := [
  .fixed ("- **".toList ++ label.toList ++ ":** ".toList),
  .given value.value,
  .fixed (" (origin: \x60".toList ++ value.origin.asStr ++ "\x60)\n".toList)]

def storyBinding : Option OriginValue → List (Piece Char Char)
  | some binding => markdownField "Synapse artifact manifest SHA-256" binding
  | none => [.fixed "- **Synapse artifact manifest SHA-256:** unavailable\n".toList]

def storyCompleteness (completeness : CompletenessProjection) : List (Piece Char Char) :=
  .fixed ("- **Completeness:** \x60".toList ++ completeness.state ++ "\x60\n".toList) ::
    match completeness.incompleteReason with
    | some reason => [.fixed ("- **Incomplete reason:** \x60".toList ++ reason ++ "\x60\n".toList)]
    | none => []

def storyDecision : Option HumanDecisionProjection → List (Piece Char Char)
  | some decision =>
    markdownField "Human disposition" decision.disposition ++
    markdownField "Decision receipt SHA-256" decision.receiptSha256 ++
    decision.publicNote.toList.flatMap (markdownField "Public Decision note")
  | none => [.fixed "- **Human disposition:** unavailable; no disposition is claimed\n".toList]

def storyLimitation (limitation : Limitation) : List (Piece Char Char) := [
  .fixed "- **".toList, .given limitation.code, .fixed ":** ".toList,
  .given limitation.message, .fixed ['\n']]

def storyPieces (projection : PublicProjection) : List (Piece Char Char) :=
  [.fixed "# ".toList, .given projection.project.title.value,
    .fixed "\n\n> Derived read-only LP publication preview. ".toList,
    .fixed "No Git, GitHub, upload, or network operation was performed.\n\n".toList,
    .fixed "## Public project\n\n".toList] ++
  markdownField "Label" projection.project.label ++
  markdownField "Summary" projection.project.summary ++
  [.fixed "\n## Accepted revision binding\n\n".toList] ++
  markdownField "Revision" projection.accepted.revisionId ++
  markdownField "Site manifest SHA-256" projection.accepted.siteManifestSha256 ++
  storyBinding projection.accepted.synapseArtifactManifestSha256 ++
  [.fixed "\n## Proposal and Decision\n\n".toList] ++
  storyCompleteness projection.session.completeness ++
  markdownField "Proposal manifest SHA-256" projection.session.proposal.manifestSha256 ++
  markdownField "Attribution" projection.session.proposal.attribution.source ++
  [.fixed "- **Execution verified:** \x60false\x60 (origin: \x60observed_from_synapse\x60)\n".toList] ++
  markdownField "Provider label" projection.session.proposal.attribution.providerLabel ++
  markdownField "Model label" projection.session.proposal.attribution.modelLabel ++
  storyDecision projection.session.humanDecision ++
  [.fixed "\n## Publication policy\n\n".toList,
    .fixed "- Network operations: \x60none\x60\n".toList,
    .fixed "- Remote publication: \x60not_performed\x60\n".toList,
    .fixed "- Raw LP assets: omitted by structural policy\n".toList,
    .fixed "- Source-private rationale: omitted by structural policy\n".toList,
    .fixed "\n## Limitations\n\n".toList] ++
  projection.limitations.flatMap storyLimitation

def renderStory (projection : PublicProjection) : Text := text markdownInline (storyPieces projection)

/-! ## The page -/

def htmlChar (c : Char) : Text :=
  if c = '&' then "&amp;".toList
  else if c = '<' then "&lt;".toList
  else if c = '>' then "&gt;".toList
  else if c = '"' then "&quot;".toList
  else if c = '\x27' then "&#39;".toList
  else [c]

def html (value : Text) : Text := value.flatMap htmlChar

def htmlNote : Option OriginValue → List (Piece Char Char)
  | none => [.fixed "<p>Public Decision note: not supplied.</p>".toList]
  | some note => [
      .fixed "<p><strong>Public Decision note</strong> <span class=\"origin\">author_supplied</span><br>".toList,
      .given note.value, .fixed "</p>".toList]

def htmlDecision : Option HumanDecisionProjection → List (Piece Char Char)
  | some decision =>
    [.fixed "<dl><dt>Human disposition</dt><dd><code>".toList, .given decision.disposition.value,
      .fixed "</code> <span class=\"origin\">observed_from_synapse</span></dd><dt>".toList,
    .fixed "Decision receipt SHA-256</dt><dd><code>".toList,
      .given decision.receiptSha256.value,
      .fixed "</code> <span class=\"origin\">observed_from_synapse</span></dd></dl>".toList] ++
    htmlNote decision.publicNote
  | none => [.fixed "<p><strong>Human disposition:</strong> unavailable; no disposition is claimed.</p>".toList]

def htmlBinding : Option OriginValue → List (Piece Char Char)
  | some binding => [.given binding.value]
  | none => [.fixed "unavailable".toList]

def htmlIncomplete : Option Text → List (Piece Char Char)
  | some reason => [.fixed "<p><strong>Incomplete reason:</strong> <code>".toList, .given reason,
      .fixed "</code></p>".toList]
  | none => []

def htmlLimitation (limitation : Limitation) : List (Piece Char Char) := [
  .fixed "<li><strong>".toList, .given limitation.code, .fixed "</strong> — ".toList,
  .given limitation.message, .fixed "</li>".toList]

def style : List (Piece Char Char) := [
  .fixed "body\x7bmargin:0;background:#f4f1e8;color:#172019;font:16px/1.6 system-ui,sans-serif\x7d".toList,
  .fixed "main\x7bwidth:min(900px,calc(100% - 2rem));margin:auto;padding:3rem 0\x7d".toList,
  .fixed "section,header\x7bbackground:#fffdf7;border:1px solid #d9d3c5;".toList,
  .fixed "border-radius:16px;padding:1.5rem;margin:1rem 0\x7d".toList,
  .fixed "h1\x7bline-height:1.1\x7dcode\x7boverflow-wrap:anywhere\x7d".toList,
  .fixed ".origin\x7bcolor:#526058;font-size:.8rem\x7d".toList,
  .fixed ".notice\x7bborder-left:5px solid #276749\x7d".toList]

def htmlPieces (projection : PublicProjection) : List (Piece Char Char) :=
  [.fixed "<!doctype html><html lang=\"en\"><head><meta charset=\"utf-8\">".toList,
    .fixed "<meta name=\"viewport\" content=\"width=device-width,initial-scale=1\">".toList,
    .fixed "<meta name=\"robots\" content=\"noindex,nofollow\"><title>".toList,
    .given projection.project.title.value,
    .fixed "</title><style>".toList] ++
  style ++
  [.fixed "</style></head><body><main><header><p>LOCAL GITHUB-READY PREVIEW</p><h1>".toList,
    .given projection.project.title.value, .fixed "</h1><p>".toList,
    .given projection.project.summary.value,
    .fixed "</p><p class=\"notice\">".toList,
    .fixed "Derived read-only snapshot. No Git, GitHub, upload, or network operation was performed.".toList,
    .fixed "</p></header><section><h2>Public project</h2><dl><dt>Label</dt><dd>".toList,
    .given projection.project.label.value,
    .fixed " <span class=\"origin\">author_supplied</span></dd><dt>Accepted revision</dt><dd><code>".toList,
    .given projection.accepted.revisionId.value,
    .fixed "</code> <span class=\"origin\">derived_summary</span></dd><dt>".toList,
    .fixed "Site manifest SHA-256</dt><dd><code>".toList,
    .given projection.accepted.siteManifestSha256.value,
    .fixed "</code> <span class=\"origin\">derived_summary</span></dd><dt>".toList,
    .fixed "Synapse artifact manifest SHA-256</dt><dd><code>".toList] ++
  htmlBinding projection.accepted.synapseArtifactManifestSha256 ++
  [.fixed "</code></dd></dl></section><section><h2>Proposal and Decision</h2><p><strong>".toList,
    .fixed "Completeness:</strong> <code>".toList,
    .fixed projection.session.completeness.state, .fixed "</code></p>".toList] ++
  htmlIncomplete projection.session.completeness.incompleteReason ++
  [.fixed "<dl><dt>Proposal manifest SHA-256</dt><dd><code>".toList,
    .given projection.session.proposal.manifestSha256.value,
    .fixed "</code> <span class=\"origin\">observed_from_synapse</span></dd><dt>Attribution".toList,
    .fixed "</dt><dd><code>caller_supplied_ai_attributed</code> <span class=\"origin\">".toList,
    .fixed "observed_from_synapse</span></dd><dt>Execution verified</dt><dd><code>false".toList,
    .fixed "</code> <span class=\"origin\">observed_from_synapse</span></dd><dt>".toList,
    .fixed "Provider / model</dt><dd>".toList,
    .given projection.session.proposal.attribution.providerLabel.value, .fixed " / ".toList,
    .given projection.session.proposal.attribution.modelLabel.value,
    .fixed " <span class=\"origin\">derived_summary</span></dd></dl>".toList] ++
  htmlDecision projection.session.humanDecision ++
  [.fixed "</section><section><h2>Publication policy</h2><ul><li>Network operations: <code>".toList,
    .fixed "none</code></li><li>Remote publication: <code>not_performed</code></li><li>".toList,
    .fixed "Raw LP assets and source-private rationale: omitted by structural policy</li>".toList,
    .fixed "</ul></section><section><h2>Limitations</h2><ul>".toList] ++
  projection.limitations.flatMap htmlLimitation ++
  [.fixed "</ul></section></main></body></html>".toList]

def renderHtml (projection : PublicProjection) : Text := text html (htmlPieces projection)

end LpStudio.Server.Publication
