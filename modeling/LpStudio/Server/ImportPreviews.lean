import LpStudio.Lib.Run
import LpStudio.Server.ApiError
import LpStudio.Storage.ImportScan

/-! # Import previews
`create_import_preview` and `confirm_import_preview`. A confirmation reads the source without the lock on the store,
between three sections that hold it, so a request in flight is a state of its own and every section is a step.
-/
namespace LpStudio.Server.Imports
open Str Storage Run

def maxProjects : ℕ := 8
def importPreviewTtlSeconds : ℕ := 10 * 60
def i64Max : ℕ := 2 ^ 63 - 1

structure ImportPreviewRecord where
  manifestSha256 : Text
  sessionId : Text
  expiresAt : ℕ

structure ImportPreviewDto where
  id : Text
  displayName : Text
  manifestSha256 : Text
  totalBytes : ℕ
  entryPoint : Option Text
  included : List ImportIncluded
  excluded : List ImportExcluded
  warnings : List Text

/-- A project as a confirmation creates it: without targets, contexts, proposal and history. -/
structure Project where
  id : Text
  displayName : Text
  revisionId : Text
  acceptedFiles : List (Text × Bytes)
  acceptedManifestSha256 : Text

abbrev Previews := Std.ExtTreeMap Text ImportPreviewRecord compare
abbrev Projects := Std.ExtTreeMap Text Project compare

/-- Where a confirmation stands: behind its first check, its scan, or its second check. -/
inductive Stage where
  | checked
  | scanned (scan : ImportScan)
  | ready (project : Project)

/-- The variables of a confirmation in flight. -/
structure Confirmation where
  sessionId : Text
  previewId : Text
  expectedManifestSha256 : Text
  previewDigest : Text
  stage : Stage

/-- What the handlers use of `Store`, the confirmations in flight under their numbers, and how many got past their
first check. -/
structure Store where
  importPreviews : Previews
  projects : Projects
  confirmations : Std.ExtTreeMap ℕ Confirmation compare
  started : ℕ

inductive Call where
  /-- `swept` is the clock at each record that `retain` visits; no source where no import root is configured. -/
  | createPreview (sessionId id : Text) (source : Option ImportSource) (swept : Text → ℕ) (now : ℕ)
  | startConfirmation (sessionId previewId expectedManifestSha256 : Text) (now : ℕ)
  | scanSource (request : ℕ) (source : Option ImportSource)
  | recheck (request : ℕ) (now : ℕ) (projectId revisionId : Text)
  /-- `published` is the outcome of `create_project`. -/
  | finish (request : ℕ) (now : ℕ) (published : Except StorageError Unit)
  /-- Other handlers leave the previews alone. -/
  | others (projects : Projects)
  | restart (projects : Projects)

inductive Reply where
  | preview (dto : ImportPreviewDto)
  | started (request : ℕ)
  | going
  | created (project : Project)
  | failed (error : ApiError)
  | silent

/-! ## The handlers -/

/-- `preview.expires_at`, of a preview created at `now`. -/
def expiry (now : ℕ) : ℕ := min i64Max (now + importPreviewTtlSeconds)

def previewDto (id : Text) (scan : ImportScan) : ImportPreviewDto where
  id
  displayName := scan.displayName
  manifestSha256 := scan.manifestSha256
  totalBytes := scan.totalBytes
  entryPoint := scan.entryPoint
  included := scan.included
  excluded := scan.excluded
  warnings := scan.warnings

def createImportPreview (K : Crates) (s : Store) (sessionId id : Text) (source : Option ImportSource)
    (swept : Text → ℕ) (now : ℕ) : Reply × Store :=
  match source.map (scanImport K) with
  | none => (.failed .unavailable, s)
  | some (.error error) => (.failed (.ofStorage error), s)
  | some (.ok scan) =>
    let previews := s.importPreviews.filter fun id preview => swept id ≤ preview.expiresAt
    if previews.size < maxProjects then
      (.preview (previewDto id scan),
        { s with importPreviews := previews.insert id ⟨scan.manifestSha256, sessionId, expiry now⟩ })
    else (.failed .capacity, { s with importPreviews := previews })

/-- The check of a preview's record, made three times; the first time there is no digest to compare. -/
def checkPreview (previews : Previews) (previewId sessionId : Text) (previewDigest : Option Text) (now : ℕ) :
    Except ApiError ImportPreviewRecord × Previews :=
  match previews[previewId]? with
  | none => (.error .notFound, previews)
  | some preview =>
    if preview.sessionId ≠ sessionId ∨ previewDigest.any (· ≠ preview.manifestSha256) then
      (.error .bindingMismatch, previews)
    else if preview.expiresAt < now then (.error .expired, previews.erase previewId)
    else (.ok preview, previews)

def startConfirmation (s : Store) (sessionId previewId expectedManifestSha256 : Text) (now : ℕ) : Reply × Store :=
  if Paths.byteLength expectedManifestSha256 ≠ 64 ∨ expectedManifestSha256.any (!isLowerHex ·) then (.failed .invalid, s)
  else match checkPreview s.importPreviews previewId sessionId none now with
    | (.error error, previews) => (.failed error, { s with importPreviews := previews })
    | (.ok preview, previews) =>
      if preview.manifestSha256 ≠ expectedManifestSha256 then
        (.failed .bindingMismatch, { s with importPreviews := previews })
      else (.started s.started,
        { s with
          importPreviews := previews
          confirmations := s.confirmations.insert s.started
            ⟨sessionId, previewId, expectedManifestSha256, preview.manifestSha256, .checked⟩
          started := s.started + 1 })

/-- The confirmation returns an error. -/
def fail (s : Store) (request : ℕ) (error : ApiError) : Reply × Store :=
  (.failed error, { s with confirmations := s.confirmations.erase request })

def advance (s : Store) (request : ℕ) (confirmation : Confirmation) (stage : Stage) : Reply × Store :=
  (.going, { s with confirmations := s.confirmations.insert request { confirmation with stage } })

def scanSource (K : Crates) (s : Store) (request : ℕ) (confirmation : Confirmation) (source : Option ImportSource) :
    Reply × Store :=
  match source.map (scanImport K) with
  | none => fail s request .unavailable
  | some (.error error) => fail s request (.ofStorage error)
  | some (.ok scan) => advance s request confirmation (.scanned scan)

def recheck (manifestDigest : List (Text × Bytes) → Option Text) (s : Store) (request : ℕ)
    (confirmation : Confirmation) (scan : ImportScan) (now : ℕ) (projectId revisionId : Text) : Reply × Store :=
  match checkPreview s.importPreviews confirmation.previewId confirmation.sessionId
    (some confirmation.previewDigest) now with
  | (.error error, previews) => fail { s with importPreviews := previews } request error
  | (.ok _, previews) =>
    let s := { s with importPreviews := previews }
    if scan.manifestSha256 ≠ confirmation.previewDigest then fail s request .sourceChanged
    else if scan.files.isEmpty ∨ scan.entryPoint ≠ some "index.html".toList then fail s request .entryPointMissing
    else match manifestDigest scan.files with
      | none => fail s request .internal
      | some digest =>
        advance s request confirmation (.ready ⟨projectId, scan.displayName, revisionId, scan.files, digest⟩)

def finish (s : Store) (request : ℕ) (confirmation : Confirmation) (project : Project) (now : ℕ)
    (published : Except StorageError Unit) : Reply × Store :=
  if maxProjects ≤ s.projects.size then fail s request .capacity
  else match checkPreview s.importPreviews confirmation.previewId confirmation.sessionId
      (some confirmation.previewDigest) now, published with
    | (.error error, previews), _ => fail { s with importPreviews := previews } request error
    | (.ok _, previews), .error error => fail { s with importPreviews := previews } request (.ofStorage error)
    | (.ok _, previews), .ok () =>
      (.created project,
        { s with
          importPreviews := previews.erase confirmation.previewId
          projects := s.projects.insert project.id project
          confirmations := s.confirmations.erase request })

/-- `manifestDigest` is `manifest_digest`; calls about a confirmation that is not where they need it do nothing. -/
def perform (K : Crates) (manifestDigest : List (Text × Bytes) → Option Text) (s : Store) : Call → Reply × Store
  | .createPreview sessionId id source swept now => createImportPreview K s sessionId id source swept now
  | .startConfirmation sessionId previewId expectedManifestSha256 now =>
    startConfirmation s sessionId previewId expectedManifestSha256 now
  | .scanSource request source =>
    match s.confirmations[request]? with
    | none => (.silent, s)
    | some confirmation =>
      match confirmation.stage with
      | .checked => scanSource K s request confirmation source
      | _ => (.silent, s)
  | .recheck request now projectId revisionId =>
    match s.confirmations[request]? with
    | none => (.silent, s)
    | some confirmation =>
      match confirmation.stage with
      | .scanned scan => recheck manifestDigest s request confirmation scan now projectId revisionId
      | _ => (.silent, s)
  | .finish request now published =>
    match s.confirmations[request]? with
    | none => (.silent, s)
    | some confirmation =>
      match confirmation.stage with
      | .ready project => finish s request confirmation project now published
      | _ => (.silent, s)
  | .others projects => (.silent, { s with projects })
  | .restart projects => (.silent, ⟨∅, projects, ∅, s.started⟩)

/-! ## What a call can do -/

def Shrinks (previews previews' : Previews) : Prop :=
  ∀ (id : Text) (preview : ImportPreviewRecord), previews'[id]? = some preview → previews[id]? = some preview

theorem Shrinks.refl (previews : Previews) : Shrinks previews previews := fun _ _ h => h

theorem shrinks_erase (previews : Previews) (gone : Text) : Shrinks previews (previews.erase gone) := by
  intro id preview h
  rw [Std.ExtTreeMap.getElem?_erase] at h
  split at h
  · cases h
  · exact h

theorem shrinks_filter (previews : Previews) (keep : Text → ImportPreviewRecord → Bool) :
    Shrinks previews (previews.filter keep) := by
  intro id preview h
  rw [Std.ExtTreeMap.getElem?_filter'] at h
  exact (Option.filter_eq_some_iff.mp h).1

theorem checkPreview_shrinks (previews : Previews) (previewId sessionId : Text) (previewDigest : Option Text) (now : ℕ) :
    Shrinks previews (checkPreview previews previewId sessionId previewDigest now).2 := by
  unfold checkPreview
  split
  · exact Shrinks.refl previews
  · split
    · exact Shrinks.refl previews
    · split
      · exact shrinks_erase previews previewId
      · exact Shrinks.refl previews

/-- A record that passed the check. -/
structure Passes (previews : Previews) (previewId sessionId : Text) (previewDigest : Option Text) (now : ℕ)
    (preview : ImportPreviewRecord) : Prop where
  recorded : previews[previewId]? = some preview
  session : preview.sessionId = sessionId
  digest : ∀ digest ∈ previewDigest, digest = preview.manifestSha256
  unexpired : now ≤ preview.expiresAt

theorem checkPreview_ok {previews previews' : Previews} {previewId sessionId : Text} {previewDigest : Option Text}
    {now : ℕ} {preview : ImportPreviewRecord}
    (h : checkPreview previews previewId sessionId previewDigest now = (.ok preview, previews')) :
    previews' = previews ∧ Passes previews previewId sessionId previewDigest now preview := by
  unfold checkPreview at h
  split at h
  · cases h
  · rename_i record hrecord
    split at h
    · cases h
    · rename_i hbound
      split at h
      · cases h
      · rename_i hexpired
        cases h
        simp only [not_or, not_not, Option.any_eq_true, decide_eq_true_eq, not_exists, not_and] at hbound
        exact ⟨rfl, hrecord, hbound.1, fun digest hd => hbound.2 digest hd, Nat.le_of_not_lt hexpired⟩

/-- Replies that promise nothing. -/
def Reply.Quiet : Reply → Prop
  | .going | .failed _ | .silent => True
  | _ => False

/-- How a confirmation gets to its next stage. -/
inductive Advances (K : Crates) (confirmation : Confirmation) (request : ℕ) : Call → Stage → Prop where
  | scan {source : ImportSource} {scan : ImportScan} (hscan : scanImport K source = .ok scan) :
    Advances K confirmation request (.scanSource request (some source)) (.scanned scan)
  | recheck {now : ℕ} {projectId revisionId : Text} {scan : ImportScan} {project : Project}
    (hstage : confirmation.stage = .scanned scan) (hfiles : project.acceptedFiles = scan.files)
    (hdigest : scan.manifestSha256 = confirmation.previewDigest)
    (hentry : scan.entryPoint = some "index.html".toList) :
    Advances K confirmation request (.recheck request now projectId revisionId) (.ready project)

/-- Everything that a call can do to the previews and to the confirmations in flight. -/
inductive Moves (K : Crates) (s : Store) : Call → Reply → Store → Prop where
  | quiet {call : Call} {reply : Reply} {s' : Store} (hreply : reply.Quiet)
    (hpreviews : Shrinks s.importPreviews s'.importPreviews)
    (hconfirmations : ∀ (request : ℕ) (confirmation : Confirmation),
      s'.confirmations[request]? = some confirmation → s.confirmations[request]? = some confirmation)
    (hstarted : s'.started = s.started) : Moves K s call reply s'
  | preview {sessionId id : Text} {source : ImportSource} {swept : Text → ℕ} {now : ℕ} {scan : ImportScan} {s' : Store}
    (hscan : scanImport K source = .ok scan)
    (hpreviews : ∀ (other : Text) (preview : ImportPreviewRecord), s'.importPreviews[other]? = some preview →
      s.importPreviews[other]? = some preview ∨ other = id ∧ preview = ⟨scan.manifestSha256, sessionId, expiry now⟩)
    (hconfirmations : s'.confirmations = s.confirmations) (hstarted : s'.started = s.started) :
    Moves K s (.createPreview sessionId id (some source) swept now) (.preview (previewDto id scan)) s'
  | started {sessionId previewId expected : Text} {now : ℕ} {s' : Store}
    (hpreviews : Shrinks s.importPreviews s'.importPreviews)
    (hconfirmations : s'.confirmations =
      s.confirmations.insert s.started ⟨sessionId, previewId, expected, expected, .checked⟩)
    (hstarted : s'.started = s.started + 1) :
    Moves K s (.startConfirmation sessionId previewId expected now) (.started s.started) s'
  | going {call : Call} {request : ℕ} {confirmation : Confirmation} {stage : Stage} {s' : Store}
    (hheld : s.confirmations[request]? = some confirmation) (hstage : Advances K confirmation request call stage)
    (hpreviews : Shrinks s.importPreviews s'.importPreviews)
    (hconfirmations : s'.confirmations = s.confirmations.insert request { confirmation with stage })
    (hstarted : s'.started = s.started) : Moves K s call .going s'
  | created {request : ℕ} {now : ℕ} {confirmation : Confirmation} {project : Project} {preview : ImportPreviewRecord}
    {s' : Store} (hheld : s.confirmations[request]? = some confirmation) (hstage : confirmation.stage = .ready project)
    (hpasses : Passes s.importPreviews confirmation.previewId confirmation.sessionId (some confirmation.previewDigest)
      now preview)
    (hpreviews : s'.importPreviews = s.importPreviews.erase confirmation.previewId)
    (hprojects : s'.projects[project.id]? = some project)
    (hconfirmations : s'.confirmations = s.confirmations.erase request) (hstarted : s'.started = s.started) :
    Moves K s (.finish request now (.ok ())) (.created project) s'

section
variable {K : Crates} {manifestDigest : List (Text × Bytes) → Option Text} {s : Store}

theorem Moves.silent (call : Call) : Moves K s call .silent s :=
  .quiet trivial (Shrinks.refl _) (fun _ _ h => h) rfl

theorem Moves.fail {call : Call} {s' : Store} (request : ℕ) (error : ApiError)
    (hpreviews : Shrinks s.importPreviews s'.importPreviews) (hconfirmations : s'.confirmations = s.confirmations)
    (hstarted : s'.started = s.started) :
    Moves K s call (fail s' request error).1 (fail s' request error).2 := by
  refine .quiet trivial hpreviews (fun other confirmation h => ?_) hstarted
  simp only [Imports.fail, hconfirmations, Std.ExtTreeMap.getElem?_erase] at h
  split at h
  · cases h
  · exact h

theorem createImportPreview_moves (sessionId id : Text) (source : Option ImportSource) (swept : Text → ℕ) (now : ℕ) :
    Moves K s (.createPreview sessionId id source swept now)
      (createImportPreview K s sessionId id source swept now).1
      (createImportPreview K s sessionId id source swept now).2 := by
  unfold createImportPreview
  cases source with
  | none => exact .quiet trivial (Shrinks.refl _) (fun _ _ h => h) rfl
  | some source =>
    rw [Option.map_some]
    cases hscan : scanImport K source with
    | error error => exact .quiet trivial (Shrinks.refl _) (fun _ _ h => h) rfl
    | ok scan =>
      have hkept := shrinks_filter s.importPreviews fun id preview => swept id ≤ preview.expiresAt
      dsimp only
      split
      · refine .preview hscan (fun other preview h => ?_) rfl rfl
        rw [Std.ExtTreeMap.getElem?_insert] at h
        split at h
        · rename_i heq
          exact Or.inr ⟨(Std.LawfulEqCmp.eq_of_compare heq).symm, (Option.some.inj h).symm⟩
        · exact Or.inl (hkept other preview h)
      · exact .quiet trivial hkept (fun _ _ h => h) rfl

theorem startConfirmation_moves (sessionId previewId expected : Text) (now : ℕ) :
    Moves K s (.startConfirmation sessionId previewId expected now)
      (startConfirmation s sessionId previewId expected now).1
      (startConfirmation s sessionId previewId expected now).2 := by
  have hshrinks := checkPreview_shrinks s.importPreviews previewId sessionId none now
  unfold startConfirmation
  split
  · exact .quiet trivial (Shrinks.refl _) (fun _ _ h => h) rfl
  · split
    · rename_i error previews heq
      rw [heq] at hshrinks
      exact .quiet trivial hshrinks (fun _ _ h => h) rfl
    · rename_i preview previews heq
      rw [heq] at hshrinks
      split
      · exact .quiet trivial hshrinks (fun _ _ h => h) rfl
      · rename_i hdigest
        rw [not_not.mp hdigest]
        exact .started hshrinks rfl rfl

theorem scanSource_moves {request : ℕ} {confirmation : Confirmation} (source : Option ImportSource)
    (hheld : s.confirmations[request]? = some confirmation) :
    Moves K s (.scanSource request source) (scanSource K s request confirmation source).1
      (scanSource K s request confirmation source).2 := by
  unfold scanSource
  cases source with
  | none => exact .fail request _ (Shrinks.refl _) rfl rfl
  | some source =>
    rw [Option.map_some]
    cases hscan : scanImport K source with
    | error error => exact .fail request _ (Shrinks.refl _) rfl rfl
    | ok scan => exact .going hheld (.scan hscan) (Shrinks.refl _) rfl rfl

theorem recheck_moves {request : ℕ} {confirmation : Confirmation} {scan : ImportScan} (now : ℕ)
    (projectId revisionId : Text) (hheld : s.confirmations[request]? = some confirmation)
    (hstage : confirmation.stage = .scanned scan) :
    Moves K s (.recheck request now projectId revisionId)
      (recheck manifestDigest s request confirmation scan now projectId revisionId).1
      (recheck manifestDigest s request confirmation scan now projectId revisionId).2 := by
  have hshrinks := checkPreview_shrinks s.importPreviews confirmation.previewId confirmation.sessionId
    (some confirmation.previewDigest) now
  unfold recheck
  split
  · rename_i error previews heq
    rw [heq] at hshrinks
    exact .fail request _ hshrinks rfl rfl
  · rename_i preview previews heq
    rw [heq] at hshrinks
    dsimp only
    split
    · exact .fail request _ hshrinks rfl rfl
    · rename_i hdigest
      split
      · exact .fail request _ hshrinks rfl rfl
      · rename_i hentry
        split
        · exact .fail request _ hshrinks rfl rfl
        · simp only [not_or, not_not] at hdigest hentry
          exact .going hheld (.recheck hstage rfl hdigest hentry.2) hshrinks rfl rfl

theorem finish_moves {request : ℕ} {confirmation : Confirmation} {project : Project} (now : ℕ)
    (published : Except StorageError Unit) (hheld : s.confirmations[request]? = some confirmation)
    (hstage : confirmation.stage = .ready project) :
    Moves K s (.finish request now published) (finish s request confirmation project now published).1
      (finish s request confirmation project now published).2 := by
  have hshrinks := checkPreview_shrinks s.importPreviews confirmation.previewId confirmation.sessionId
    (some confirmation.previewDigest) now
  unfold finish
  split
  · exact .fail request _ (Shrinks.refl _) rfl rfl
  · split
    · rename_i error previews heq
      rw [heq] at hshrinks
      exact .fail request _ hshrinks rfl rfl
    · rename_i preview previews error heq
      rw [heq] at hshrinks
      exact .fail request _ hshrinks rfl rfl
    · rename_i preview previews heq
      obtain ⟨rfl, hpasses⟩ := checkPreview_ok heq
      exact .created hheld hstage hpasses rfl Std.ExtTreeMap.getElem?_insert_self rfl rfl

theorem perform_moves (call : Call) :
    Moves K s call (perform K manifestDigest s call).1 (perform K manifestDigest s call).2 := by
  cases call with
  | createPreview sessionId id source swept now => exact createImportPreview_moves sessionId id source swept now
  | startConfirmation sessionId previewId expected now => exact startConfirmation_moves sessionId previewId expected now
  | scanSource request source =>
    cases hheld : s.confirmations[request]? with
    | none => simpa only [perform, hheld] using Moves.silent _
    | some confirmation =>
      simp only [perform, hheld]
      split
      · exact scanSource_moves source hheld
      · exact Moves.silent _
  | recheck request now projectId revisionId =>
    cases hheld : s.confirmations[request]? with
    | none => simpa only [perform, hheld] using Moves.silent _
    | some confirmation =>
      simp only [perform, hheld]
      split
      · exact recheck_moves now projectId revisionId hheld ‹_›
      · exact Moves.silent _
  | finish request now published =>
    cases hheld : s.confirmations[request]? with
    | none => simpa only [perform, hheld] using Moves.silent _
    | some confirmation =>
      simp only [perform, hheld]
      split
      · exact finish_moves now published hheld ‹_›
      · exact Moves.silent _
  | others projects => exact .quiet trivial (Shrinks.refl _) (fun _ _ h => h) rfl
  | restart projects =>
    refine .quiet trivial (fun id preview h => ?_) (fun request confirmation h => ?_) rfl
    · exact absurd h (by simp [perform])
    · exact absurd h (by simp [perform])

end

end LpStudio.Server.Imports
