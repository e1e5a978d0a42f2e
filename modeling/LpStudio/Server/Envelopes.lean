import LpStudio.Server.Requests

/-! # What an error says of the Accepted state
An error whose detail says that Accepted is unchanged comes before any change, or after changes to other things, in every
handler but one: a deletion of a project has renamed the project's tree when it scans sites again.
-/
namespace LpStudio.Server.Requests
open Str Fault Fault.Program Storage
open Accepted (ReadFailure reported)

/-- The Accepted revision, manifest and files of a project, in memory and on disk. -/
def accepted (w : World) (id : Text) :
    Option (Text × Text × Files) × Option (Option CurrentPointer × Option SiteTree) :=
  (w.projects[id]?.map fun project => (project.revisionId, project.acceptedManifestSha256, project.acceptedFiles),
    Accepted.acceptedOf w.disk.root id)

/-- If the response is an error with the detail that Accepted is unchanged, then it is, of every project that the server
still has. -/
def Truthful (w : World) (result : Exit ApiError Unit × World) : Prop :=
  ∀ e, result.1 = .error e → (detail e).acceptedState = .unchanged →
    ∀ id ∈ result.2.projects, accepted result.2 id = accepted w id

def KeepsAccepted (w w' : World) : Prop := ∀ id, accepted w' id = accepted w id

instance : IsPreorder World KeepsAccepted where
  refl _ _ := rfl
  trans _ _ _ h h' id := (h' id).trans (h id)

/-- The errors whose detail asks for a reconciliation. -/
def Loud (e : ApiError) : Prop := (detail e).acceptedState = .reconciliationRequired

instance : DecidablePred Loud := fun e => inferInstanceAs (Decidable ((detail e).acceptedState = _))

/-! ## Details -/

theorem internal_loud : Loud .internal := by decide

theorem reconciliation_loud : Loud decisionReconciliationRequired := by decide

theorem not_loud {e : ApiError} : ¬ Loud e ↔ (detail e).acceptedState = .unchanged := by
  unfold Loud
  cases (detail e).acceptedState with
  | unchanged => exact ⟨fun _ => rfl, fun _ h => by cases h⟩
  | reconciliationRequired => exact ⟨fun h => absurd rfl h, fun h => by cases h⟩

/-- The errors of the storage that are internal are the ones that ask for a reconciliation. -/
theorem ofStorage_loud {e : StorageError} : Loud (ApiError.ofStorage e) ↔ Accepted.Loud e := by
  have hquiet : e ≠ .io → e ≠ .corrupt → ¬ Accepted.Loud e := fun h h' hloud => hloud.elim h h'
  cases e with
  | io => exact ⟨fun _ => .inl rfl, fun _ => internal_loud⟩
  | corrupt => exact ⟨fun _ => .inr rfl, fun _ => internal_loud⟩
  | drift => exact iff_of_false (by decide) (hquiet (by decide) (by decide))
  | unsafeImport => exact iff_of_false (by decide) (hquiet (by decide) (by decide))
  | importLimit => exact iff_of_false (by decide) (hquiet (by decide) (by decide))

theorem orInternal_loud {α : Type} {o : Option α} {e : ApiError} (h : orInternal o = .error e) : Loud e := by
  cases o with
  | some a => cases h
  | none => exact Except.error.inj h ▸ internal_loud

/-! ## Parts that keep Accepted -/

section
variable {w w' : World} {M α : Type}

theorem keepsAccepted_of (hprojects : w'.projects = w.projects) (hdisk : w'.disk.root = w.disk.root) :
    KeepsAccepted w w' := fun id => by
  unfold accepted
  rw [hprojects, hdisk]

theorem keepsAccepted_modifyProject (id : Text) {f : Project → Project}
    (hf : ∀ project, (f project).revisionId = project.revisionId ∧
      (f project).acceptedManifestSha256 = project.acceptedManifestSha256 ∧
      (f project).acceptedFiles = project.acceptedFiles) : KeepsAccepted w (modifyProject id f w) := by
  intro other
  refine Prod.ext ?_ rfl
  change ((w.projects.modify id f)[other]?).map _ = _
  rw [Std.ExtTreeMap.getElem?_modify]
  split
  · rename_i heq
    rw [Std.LawfulEqCmp.eq_of_compare heq, Option.map_map]
    refine Option.map_congr fun project _ => ?_
    obtain ⟨hrevision, hmanifest, hfiles⟩ := hf project
    exact Prod.ext hrevision (Prod.ext hmanifest hfiles)
  · rfl

theorem setOutcome_keeps (id : Text) (outcome : ProposalReviewOutcome) : KeepsAccepted w (setOutcome id outcome w) :=
  keepsAccepted_modifyProject id fun _ => ⟨rfl, rfl, rfl⟩

theorem setSettled_keeps (id : Text) (status : ProposalStatus) (outcome : ProposalReviewOutcome) :
    KeepsAccepted w (setSettled id status outcome w) :=
  keepsAccepted_modifyProject id fun _ => ⟨rfl, rfl, rfl⟩

theorem onRoot_keeps {p : Program M Root StorageError α} (h : Within Accepted.KeepsAccepted p) :
    Within KeepsAccepted (onRoot p) := by
  have hstore : Within (fun s s' : Store => Accepted.KeepsAccepted s.root s'.root) (p.on Store.root Store.setRoot) :=
    Within.on h fun _ _ hs => hs
  have hworld : ∀ (w : World) (disk : Store), Accepted.KeepsAccepted w.disk.root disk.root →
      KeepsAccepted w { w with disk } := fun w disk hs id => Prod.ext rfl (hs id)
  exact Within.on hstore hworld

theorem onTargets_keeps (projectId : Text) (p : Program M TargetSection StorageError α) :
    Within KeepsAccepted (onTargets projectId p) := by
  unfold onTargets
  refine Within.on_other (fun w targets => ?_) p
  exact keepsAccepted_of rfl rfl

theorem storageCall_keeps {label : M → Step} {failure : ReadFailure} {p : Program M World StorageError α}
    (h : Within KeepsAccepted p) : Within KeepsAccepted (storageCall label failure p) :=
  Within.mapError (Within.relabel h) _

theorem sidecarCall_keeps (projectId : Text) (label : M → Step) (p : Program M Synapse.State Synapse.SidecarError α) :
    Within KeepsAccepted (sidecarCall projectId label p) := by
  unfold sidecarCall onSidecar
  refine Within.mapError (Within.relabel ?_) _
  refine Within.on_other (fun w state => ?_) p
  exact keepsAccepted_of rfl rfl

/-! ### Generated artifacts -/

def SameRoot (s s' : Store) : Prop := s'.root = s.root

instance : IsPreorder Store SameRoot where
  refl _ := rfl
  trans _ _ _ h h' := h'.trans h

theorem onStore_keeps {p : Program M Store StorageError α} (h : Within SameRoot p) : Within KeepsAccepted (onStore p) :=
  Within.on h fun _ _ hs => keepsAccepted_of rfl hs

theorem loadGeneratedCollection_sameRoot (K : Crates) (isObject : ObjectCheck) (projectId : Text)
    (kind : GeneratedArtifactKind) : Within SameRoot (Store.loadGeneratedCollection K isObject projectId kind) := by
  unfold Store.loadGeneratedCollection
  refine Within.bind (Within.look _ _ _) fun names => ?_
  refine Within.bind (Within.forM fun name _ => ?_) fun _ => Within.look _ _ _
  exact Within.bind (Within.atomic fun s => rfl) fun _ => Within.atomic fun s => rfl

theorem buildArtifact_sameRoot (K : Crates) (r : Store.PersistGenerated) : Within SameRoot (Store.buildArtifact K r) := by
  unfold Store.buildArtifact
  refine Within.bind (Within.atomic fun s => rfl) fun _ => ?_
  refine Within.bind (Within.atomic fun s => rfl) fun _ => ?_
  refine Within.bind (Within.atomic fun s => rfl) fun _ => ?_
  exact Within.bind (Within.atomic fun s => rfl) fun _ => Within.look _ _ _

theorem cleanArtifact_sameRoot (r : Store.PersistGenerated) : Within SameRoot (Store.cleanArtifact r) := by
  unfold Store.cleanArtifact
  exact Within.bind (Within.ignore (Within.atomic fun s => rfl)) fun _ => Within.atomic fun s => rfl

theorem persistGeneratedArtifact_sameRoot (K : Crates) (isObject : ObjectCheck) (r : Store.PersistGenerated) :
    Within SameRoot (Store.persistGeneratedArtifact K isObject r) := by
  unfold Store.persistGeneratedArtifact
  refine Within.bind (Within.look _ _ _) fun _ => ?_
  refine Within.bind (Within.relabel (loadGeneratedCollection_sameRoot K isObject r.projectId r.kind)) fun existing => ?_
  split
  · split
    · exact Within.pure _
    · exact Within.throw _
  · refine Within.bind (Within.look _ _ _) fun _ => ?_
    refine Within.bind (Within.atomic fun s => rfl) fun _ => ?_
    refine Within.bind (Within.atomic fun s => rfl) fun _ => ?_
    exact Within.publishing (buildArtifact_sameRoot K r) (fun s => rfl) (cleanArtifact_sameRoot r)

theorem deleteGeneratedArtifact_sameRoot (K : Crates) (isObject : ObjectCheck) (d : Store.DeleteGenerated) :
    Within SameRoot (Store.deleteGeneratedArtifact K isObject d) := by
  unfold Store.deleteGeneratedArtifact
  refine Within.bind (Within.look _ _ _) fun _ => ?_
  refine Within.bind (Within.relabel (loadGeneratedCollection_sameRoot K isObject d.projectId d.kind)) fun records => ?_
  refine Within.bind (Within.look _ _ _) fun _ => ?_
  refine Within.bind (Within.atomic fun s => rfl) fun _ => ?_
  refine Within.bind (Within.atomic fun s => rfl) fun _ => ?_
  exact Within.bind (Within.atomic fun s => rfl) fun _ => Within.atomic fun s => rfl

end

/-! ## Requests that keep Accepted -/

section
variable {S : Services} {reports : Step → ReadFailure}

theorem verifyAccepted_keeps (projectId : Text) (project : Project) :
    Within KeepsAccepted (verifyAccepted S reports projectId project) :=
  Within.mapError (Within.look _ _ _) _

theorem insertTarget_keeps (r : CreateTarget) (w : World) : KeepsAccepted w (insertTarget r w) :=
  keepsAccepted_modifyProject r.projectId fun _ => ⟨rfl, rfl, rfl⟩

theorem createTarget_keeps (r : CreateTarget) : Within KeepsAccepted (createTarget S reports r) := by
  unfold createTarget
  refine Within.bind (Within.read _) fun project => ?_
  refine Within.bind (verifyAccepted_keeps r.projectId project) fun _ => ?_
  refine Within.bind (Within.ofExcept _) fun canonicalTarget => ?_
  split
  · refine Within.bind (Within.ofExcept _) fun recyclable => ?_
    refine Within.bind (storageCall_keeps (onTargets_keeps r.projectId _)) fun _ => ?_
    refine Within.bind (Within.change fun _ => keepsAccepted_modifyProject r.projectId fun _ => ⟨rfl, rfl, rfl⟩)
      fun _ => ?_
    exact Within.bind (Within.read _) fun _ => Within.change (insertTarget_keeps r)
  · refine Within.bind (Within.read _) fun _ => ?_
    refine Within.bind (storageCall_keeps (onTargets_keeps r.projectId _)) fun _ => ?_
    exact Within.change (insertTarget_keeps r)

theorem createExport_keeps (r : CreateExport) : Within KeepsAccepted (createExport S reports r) := by
  unfold createExport
  refine Within.bind (Within.read _) fun project => ?_
  refine Within.bind (verifyAccepted_keeps r.projectId project) fun _ => ?_
  refine Within.bind (Within.read _) fun artifact => ?_
  refine Within.bind (storageCall_keeps (onStore_keeps (persistGeneratedArtifact_sameRoot _ _ _))) fun _ => ?_
  exact Within.change fun _ => keepsAccepted_of rfl rfl

theorem startProposal_keeps (r : StartProposal) : Within KeepsAccepted (startProposal S reports r) := by
  unfold startProposal
  refine Within.bind (Within.ofExcept _) fun _ => ?_
  refine Within.bind (Within.read _) fun project => ?_
  refine Within.bind (verifyAccepted_keeps r.projectId project) fun _ => ?_
  exact Within.bind (Within.ofExcept _) fun context => Within.act fun _ => keepsAccepted_of rfl rfl

theorem synapsePaths_keeps (projectId : Text) : Within KeepsAccepted (synapsePaths projectId) := by
  unfold synapsePaths
  refine Within.mapError (onRoot_keeps ?_) _
  refine Within.bind (Within.look _ _ _) fun _ => ?_
  exact Within.atomic fun s => Accepted.keepsAccepted_modifyTree fun _ => ⟨rfl, rfl⟩

theorem persistFile_keeps (label : Root.CommitStep → Step) (projectId proposalId : Text) (file : Root.ProposalFile)
    (bytes : Bytes) : Within KeepsAccepted (persistFile label projectId proposalId file bytes) :=
  storageCall_keeps (onRoot_keeps (Accepted.persistProposalFile_keeps projectId proposalId file bytes))

theorem publishDraft_keeps (projectId nonce : Text) (draft : Draft) (metadata : Bytes) :
    Within KeepsAccepted (publishDraft S reports projectId nonce draft metadata) := by
  unfold publishDraft
  refine Within.bind (storageCall_keeps (onRoot_keeps (Accepted.prepareProposal_keeps _ _))) fun _ => ?_
  refine Within.bind (synapsePaths_keeps projectId) fun _ => ?_
  refine Within.bind (Within.failpoint _ _) fun _ => ?_
  refine Within.bind (sidecarCall_keeps projectId _ _) fun receipt => ?_
  refine Within.bind (Within.ofExcept _) fun _ => ?_
  refine Within.bind (Within.ofExcept _) fun binding => ?_
  refine Within.bind (persistFile_keeps _ _ _ _ _) fun _ => ?_
  exact Within.bind (Within.ofExcept _) fun _ => Within.pure _

theorem dropGuard_keeps (r : FinishProposal) (status : Option AttemptStatus) :
    Within KeepsAccepted (change (dropGuard r status) : Program Step World ApiError PUnit) :=
  Within.change fun _ => keepsAccepted_of rfl rfl

theorem enterProposal_keeps (projectId : Text) (proposal : ProposalRecord) (w : World) :
    KeepsAccepted w (enterProposal projectId proposal w) := by
  have hmodify : KeepsAccepted w (modifyProject projectId (fun project => { project with proposal := some proposal }) w) :=
    keepsAccepted_modifyProject projectId fun _ => ⟨rfl, rfl, rfl⟩
  exact IsTrans.trans _ _ _ hmodify (keepsAccepted_of rfl rfl)

theorem finishProposal_keeps (r : FinishProposal) : Within KeepsAccepted (finishProposal S reports r) := by
  unfold finishProposal draftProposal
  split
  · exact Within.bind (dropGuard_keeps r _) fun _ => Within.throw _
  · refine Within.bind (Within.rescue ?_ fun e => Within.bind (dropGuard_keeps r _) fun _ => Within.throw _)
      fun proposal => ?_
    · refine Within.bind (Within.read _) fun project => ?_
      refine Within.bind (verifyAccepted_keeps r.projectId project) fun _ => ?_
      exact Within.bind (Within.ofExcept _) fun draft => publishDraft_keeps r.projectId r.nonce draft.1 draft.2
    · refine Within.bind (Within.act fun _ => keepsAccepted_of rfl rfl) fun _ => ?_
      exact Within.change (enterProposal_keeps r.projectId proposal)

theorem clearContexts_keeps (r : CleanupContexts) (w : World) : KeepsAccepted w (clearContexts r w).2 := by
  have hqueued : KeepsAccepted w { w with aiAttempts := w.aiAttempts.removeQueuedProject r.projectId } :=
    keepsAccepted_of rfl rfl
  unfold clearContexts
  split
  · exact Std.Refl.refl w
  split
  · exact Std.Refl.refl w
  dsimp only
  split
  · exact hqueued
  · exact IsTrans.trans _ _ _ hqueued (keepsAccepted_modifyProject r.projectId fun _ => ⟨rfl, rfl, rfl⟩)

theorem cleanupContexts_keeps (r : CleanupContexts) : Within KeepsAccepted (cleanupContexts S r) := by
  unfold cleanupContexts
  refine Within.bind (Within.ofExcept _) fun _ => ?_
  exact Within.bind (Within.act (clearContexts_keeps r)) fun _ => Within.read _

theorem dropProposal_keeps (r : CleanupProposal) (w : World) : KeepsAccepted w (dropProposal r w) := by
  have hmodify : KeepsAccepted w (modifyProject r.projectId (fun project => { project with proposal := none }) w) :=
    keepsAccepted_modifyProject r.projectId fun _ => ⟨rfl, rfl, rfl⟩
  exact IsTrans.trans _ _ _ hmodify (keepsAccepted_of rfl rfl)

theorem cleanupProposal_keeps (r : CleanupProposal) : Within KeepsAccepted (cleanupProposal S reports r) := by
  unfold cleanupProposal
  refine Within.bind (Within.read _) fun documents => ?_
  refine Within.bind (storageCall_keeps (onRoot_keeps (Accepted.deleteProposal_keeps _))) fun _ => ?_
  exact Within.bind (Within.change (dropProposal_keeps r)) fun _ => Within.read _

theorem dropArtifact_keeps (r : CleanupArtifact) (w : World) : KeepsAccepted w (dropArtifact r w) := by
  unfold dropArtifact
  split
  · exact keepsAccepted_of rfl rfl
  · exact keepsAccepted_of rfl rfl

theorem cleanupArtifact_keeps (r : CleanupArtifact) : Within KeepsAccepted (cleanupArtifact S r) := by
  unfold cleanupArtifact
  refine Within.bind (Within.read _) fun artifact => ?_
  refine Within.bind (storageCall_keeps (onStore_keeps (deleteGeneratedArtifact_sameRoot _ _ _))) fun _ => ?_
  exact Within.bind (Within.change (dropArtifact_keeps r)) fun _ => Within.read _

/-! ## Decisions -/

theorem orReconcile_keeps {α : Type} {projectId : Text} {p : Program Step World ApiError α} (h : Within KeepsAccepted p) :
    Within KeepsAccepted (orReconcile projectId p) :=
  Within.rescue h fun _ => Within.bind (Within.change fun _ => setOutcome_keeps projectId _) fun _ => Within.throw _

/-- Whatever fails, the error asks for a reconciliation. -/
theorem orReconcile_loud {α : Type} (projectId : Text) (p : Program Step World ApiError α) :
    Admits Loud (orReconcile projectId p) :=
  Admits.rescue_all (fun _ => Admits.bind Admits.change fun _ => Admits.throw reconciliation_loud) p

theorem validateApproval_keeps (r : CreateDecision) (expected : ApprovalBinding) (w : World) :
    KeepsAccepted w (validateApproval S r expected w).2 := by
  unfold validateApproval
  split
  · exact Std.Refl.refl w
  split
  · exact keepsAccepted_of rfl rfl
  split
  · exact Std.Refl.refl w
  · exact Std.Refl.refl w

theorem consumeApproval_keeps (r : CreateDecision) (expected : ApprovalBinding) (w : World) :
    KeepsAccepted w (consumeApproval S r expected w).2 := by
  have hvalidate := validateApproval_keeps (S := S) r expected w
  unfold consumeApproval
  split
  · rename_i w' heq
    rw [heq] at hvalidate
    exact IsTrans.trans _ _ _ hvalidate (keepsAccepted_of rfl rfl)
  · rename_i e w' heq
    rw [heq] at hvalidate
    exact hvalidate

theorem adoptDecided_loud (r : CreateDecision) (projectId : Text) (proposal : ProposalRecord) :
    Admits Loud (adoptDecided S r projectId proposal) := by
  unfold adoptDecided
  split
  · exact Admits.bind (orReconcile_loud projectId _) fun _ => Admits.change
  · exact Admits.pure _

theorem settleDecision_candid (r : CreateDecision) (projectId : Text) (project : Project) (proposal : ProposalRecord)
    (receipt : Synapse.SidecarDecisionReceipt) :
    Candid KeepsAccepted Loud (settleDecision S r projectId project proposal receipt) := by
  unfold settleDecision
  refine Candid.bind (orReconcile_keeps (Within.ofExcept _)) fun _ => ?_
  refine Candid.bind (orReconcile_keeps (Within.ofExcept _)) fun receiptSha256 => ?_
  refine Candid.bind (orReconcile_keeps (Within.ofExcept _)) fun metadataBytes => ?_
  refine Candid.bind (orReconcile_keeps (persistFile_keeps _ _ _ _ _)) fun _ => Admits.candid ?_
  -- from here on the site may have changed, and every error asks for a reconciliation
  refine Admits.bind (adoptDecided_loud r projectId proposal) fun _ => ?_
  refine Admits.bind (orReconcile_loud projectId _) fun completionBytes => ?_
  refine Admits.bind (orReconcile_loud projectId _) fun _ => ?_
  refine Admits.bind Admits.change fun _ => ?_
  exact Admits.bind (Admits.failpoint reconciliation_loud) fun _ => Admits.failpoint reconciliation_loud

theorem settleOutcome_candid (r : CreateDecision) (projectId : Text) (project : Project) (proposal : ProposalRecord)
    (outcome : Synapse.ReviewOutcome) :
    Candid KeepsAccepted Loud (settleOutcome S r projectId project proposal outcome) := by
  unfold settleOutcome
  split
  · exact settleDecision_candid r projectId project proposal _
  · exact Within.candid (Within.bind (Within.change fun _ => setOutcome_keeps projectId _) fun _ => Within.throw _)
  · exact Within.candid (Within.bind (Within.change fun _ => setOutcome_keeps projectId _) fun _ => Within.throw _)
  · exact Within.candid (Within.bind (Within.change fun _ => setOutcome_keeps projectId _) fun _ => Within.throw _)
  · exact Within.candid (Within.bind (Within.change fun _ => setSettled_keeps projectId _ _) fun _ => Within.throw _)

theorem createDecision_candid (r : CreateDecision) : Candid KeepsAccepted Loud (createDecision S reports r) := by
  unfold createDecision
  refine Candid.bind (Within.read _) fun binding => ?_
  refine Candid.bind (Within.act (validateApproval_keeps r binding)) fun _ => ?_
  refine Candid.bind (Within.read _) fun decided => ?_
  refine Candid.bind (verifyAccepted_keeps _ _) fun _ => ?_
  refine Candid.bind (synapsePaths_keeps _) fun _ => ?_
  refine Candid.bind (Within.failpoint _ _) fun _ => ?_
  refine Candid.bind (Within.act (consumeApproval_keeps r binding)) fun _ => ?_
  refine Candid.bind (orReconcile_keeps (sidecarCall_keeps _ _ _)) fun outcome => ?_
  exact settleOutcome_candid r _ _ _ outcome

/-! ## Reconciliations -/

theorem onRoot_admits {M α : Type} {loud : StorageError → Prop} {p : Program M Root StorageError α} (h : Admits loud p) :
    Admits loud (onRoot p) := by
  unfold onRoot onStore
  exact Admits.on (Admits.on h)

theorem onRoot_candid {M α : Type} {loud : StorageError → Prop} {p : Program M Root StorageError α}
    (h : Candid Accepted.KeepsAccepted loud p) : Candid KeepsAccepted loud (onRoot p) := by
  have hstore : Candid (fun s s' : Store => Accepted.KeepsAccepted s.root s'.root) loud
      (p.on Store.root Store.setRoot) := Candid.on h fun _ _ hs => hs
  have hworld : ∀ (w : World) (disk : Store), Accepted.KeepsAccepted w.disk.root disk.root →
      KeepsAccepted w { w with disk } := fun w disk hs id => Prod.ext rfl (hs id)
  exact Candid.on hstore hworld

/-- The internal errors of a call whose reads report no drift. -/
theorem reported_loud {e : StorageError} (h : Accepted.Loud e) : Loud (ApiError.ofStorage (reported .io e)) := by
  rcases h with rfl | rfl
  · exact internal_loud
  · exact internal_loud

theorem persistFile_loud (label : Root.CommitStep → Step) (projectId proposalId : Text) (file : Root.ProposalFile)
    (bytes : Bytes) : Admits Loud (persistFile label projectId proposalId file bytes) := by
  refine Admits.mapError (Admits.relabel (onRoot_admits ?_))
  exact Admits.atomic (reported_loud (.inl rfl))

theorem commitProposal_candid (projectId : Text) (proposal : ProposalRecord) :
    Candid KeepsAccepted Loud (commitProposal S projectId proposal) := by
  refine Candid.mapError (Candid.relabel (onRoot_candid ?_))
  exact (Accepted.commitRevision_candid _).weaken fun _ => reported_loud

/-- The review of a closed Proposal is in the history. -/
theorem reviewDto_closed (record : HistoryRecord) (project : Project) :
    reviewDto S (closeReconciled record project) record.reviewId = .ok () := by
  have hhistory : (closeReconciled record project).history.any (·.reviewId == record.reviewId) = true := by
    unfold closeReconciled
    dsimp only
    split
    · assumption
    · simp
  change refuse _ _ = .ok ()
  unfold refuse
  rw [hhistory]
  exact if_neg Bool.noConfusion

theorem completeReconciled_loud (projectId : Text) (project : Project) (proposal : ProposalRecord)
    (metadata : DecisionMetadata) (hreview : metadata.reviewId = proposal.reviewId) :
    Admits Loud (completeReconciled S projectId project proposal metadata) := by
  unfold completeReconciled
  refine Admits.bind (Admits.ofExcept fun e => orInternal_loud) fun completionBytes => ?_
  refine Admits.bind (persistFile_loud _ _ _ _ _) fun _ => ?_
  refine Admits.bind Admits.change fun _ => Admits.ofExcept fun e he => ?_
  have hclosed := reviewDto_closed (S := S) (historyRecord proposal metadata) project
  rw [show (historyRecord proposal metadata).reviewId = proposal.reviewId from hreview, he] at hclosed
  cases hclosed

theorem checkReconciled_reviewId {project : Project} {proposal : ProposalRecord} {receipt : Synapse.SidecarDecisionReceipt}
    {found : DecisionMetadata × Bytes} (h : checkReconciled S project proposal receipt = .ok found) :
    found.1.reviewId = proposal.reviewId := by
  unfold checkReconciled at h
  obtain ⟨⟨⟩, -, h⟩ := Outcome.bind_ok.mp h
  obtain ⟨⟨⟩, -, h⟩ := Outcome.bind_ok.mp h
  obtain ⟨receiptSha256, -, h⟩ := Outcome.bind_ok.mp h
  obtain ⟨bytes, -, h⟩ := Outcome.bind_ok.mp h
  cases h
  rfl

theorem finalizeReconciledDecision_candid (projectId : Text) (project : Project) (proposal : ProposalRecord)
    (receipt : Synapse.SidecarDecisionReceipt) :
    Candid KeepsAccepted Loud (finalizeReconciledDecision S projectId project proposal receipt) := by
  unfold finalizeReconciledDecision
  refine Candid.ofExcept_bind fun found hcheck => ?_
  have hreview := checkReconciled_reviewId hcheck
  refine Candid.bind (persistFile_keeps _ _ _ _ _) fun _ => ?_
  split
  · refine Candid.bind_admits (commitProposal_candid projectId proposal) fun _ => ?_
    exact Admits.bind Admits.change fun _ => completeReconciled_loud projectId _ proposal found.1 hreview
  · exact (completeReconciled_loud projectId project proposal found.1 hreview).candid

theorem recordOutcome_keeps (projectId : Text) (project : Project) (proposal : ProposalRecord) (status : ProposalStatus)
    (outcome : ProposalReviewOutcome) : Within KeepsAccepted (recordOutcome S projectId project proposal status outcome) := by
  unfold recordOutcome
  exact Within.bind (Within.change fun _ => setSettled_keeps projectId _ _) fun _ => Within.ofExcept _

theorem reconcileOutcome_candid (projectId : Text) (project : Project) (proposal : ProposalRecord)
    (outcome : Synapse.ReviewOutcome) : Candid KeepsAccepted Loud (reconcileOutcome S projectId project proposal outcome) := by
  unfold reconcileOutcome
  split
  · exact finalizeReconciledDecision_candid projectId project proposal _
  · exact (recordOutcome_keeps _ _ _ _ _).candid
  · exact (recordOutcome_keeps _ _ _ _ _).candid
  · exact (recordOutcome_keeps _ _ _ _ _).candid
  · exact (recordOutcome_keeps _ _ _ _ _).candid

theorem reconcileReview_candid (r : ReconcileReview) : Candid KeepsAccepted Loud (reconcileReview S reports r) := by
  unfold reconcileReview
  refine Candid.bind (Within.read _) fun found => ?_
  dsimp only
  split
  · exact (Within.ofExcept _).candid
  · refine Candid.bind (Within.ofExcept _) fun _ => ?_
    refine Candid.bind (verifyAccepted_keeps _ _) fun _ => ?_
    refine Candid.bind (synapsePaths_keeps _) fun _ => ?_
    refine Candid.bind (Within.failpoint _ _) fun _ => ?_
    refine Candid.bind (sidecarCall_keeps _ _ _) fun outcome => ?_
    exact reconcileOutcome_candid _ _ _ outcome

/-! ## The clean-up of a project -/

/-- The checks of the request pass, the project's tree is renamed, and then a scan of a site reports drift or another
error that is not internal. -/
def FailsRenamed (S : Services) (reports : Step → ReadFailure) (faults : Step → Outcome) (w : World) (r : CleanupProject) :
    Prop :=
  checkCleanup S r w = .ok () ∧ ∃ e, ¬ Accepted.Loud e ∧
    Accepted.FailsRenamed S.crates S.remover (fun step => reports (.deleteProject step)) r.deletion
      (faults ∘ Step.deleteProject) w.disk.root e

/-- The section does not delete a project whose tree it has renamed when a scan fails with such an error. -/
def ScansSettled (S : Services) (reports : Step → ReadFailure) (faults : Step → Outcome) (w : World) : Section → Prop
  | .cleanupProject r => ¬ FailsRenamed S reports faults w r
  | _ => True

theorem reported_io (e : StorageError) : reported .io e = e := by
  cases e <;> rfl

theorem checkCleanup_found {r : CleanupProject} {w : World} (h : checkCleanup S r w = .ok ()) : r.projectId ∈ w.projects := by
  unfold checkCleanup at h
  obtain ⟨⟨⟩, -, h⟩ := Outcome.bind_ok.mp h
  obtain ⟨⟨⟩, -, h⟩ := Outcome.bind_ok.mp h
  obtain ⟨⟨⟩, -, h⟩ := Outcome.bind_ok.mp h
  obtain ⟨project, hproject, -⟩ := Outcome.bind_ok.mp h
  unfold found at hproject
  split at hproject
  · rename_i heq
    exact Std.ExtTreeMap.mem_iff_isSome_getElem?.mpr (Option.isSome_iff_exists.mpr ⟨_, heq⟩)
  · cases hproject

variable {faults : Step → Outcome} {w : World}

/-- The world with another root. -/
def withRoot (w : World) (root : Root) : World := { w with disk := Store.setRoot root w.disk }

theorem deleteOnDisk_ends (r : CleanupProject) : Ends (deleteOnDisk S reports r) faults w
    (fun _ w' => w'.projects = w.projects ∧ Accepted.KeepsOthers r.projectId w.disk.root w'.disk.root)
    (fun e w' => Loud e ∨ KeepsAccepted w w' ∨ ∃ e, ¬ Accepted.Loud e ∧
      Accepted.FailsRenamed S.crates S.remover (fun step => reports (.deleteProject step)) r.deletion
        (faults ∘ Step.deleteProject) w.disk.root e) fun _ => True := by
  have hends : Ends (Accepted.deleteProject S.crates S.remover (fun step => reports (.deleteProject step)) r.deletion)
    (faults ∘ Step.deleteProject) w.disk.root _ _ _ := Accepted.deleteProject_ends _ _
  have hkeeps : Within (Accepted.KeepsOthers r.projectId) (Accepted.deleteProject S.crates S.remover
    (fun step => reports (.deleteProject step)) r.deletion) := Accepted.deleteProject_others _
  have hothers := hkeeps (faults ∘ Step.deleteProject) w.disk.root
  unfold deleteOnDisk storageCall onRoot onStore
  refine Ends.mapError (Ends.relabel (Ends.on (Ends.on ?_)))
  unfold Ends at hends hothers ⊢
  split
  · rename_i root heq
    rw [heq] at hothers
    exact ⟨rfl, hothers⟩
  · rename_i e root heq
    rw [heq] at hends
    rcases hends with hkeeps | hloud | hfails
    · exact .inr (.inl fun id => Prod.ext rfl (hkeeps id))
    · exact .inl (ofStorage_loud.mpr ((reported_io e).symm ▸ hloud))
    · by_cases hloud : Accepted.Loud e
      · exact .inl (ofStorage_loud.mpr ((reported_io e).symm ▸ hloud))
      · exact .inr (.inr ⟨e, hloud, hfails⟩)
  · exact trivial

/-- The other projects, in memory and on disk. -/
theorem dropProject_survivors (r : CleanupProject) {w' : World} (hprojects : w'.projects = w.projects)
    (hothers : Accepted.KeepsOthers r.projectId w.disk.root w'.disk.root) :
    ∀ id ∈ (dropProject r w').projects, accepted (dropProject r w') id = accepted w id := by
  intro id hid
  have hne : id ≠ r.projectId := by
    rintro rfl
    exact absurd hid (by simp [dropProject])
  refine Prod.ext ?_ (hothers id hne)
  change ((w'.projects.erase r.projectId)[id]?).map _ = _
  rw [Std.ExtTreeMap.getElem?_erase, hprojects]
  split
  · rename_i heq
    exact absurd (Std.LawfulEqCmp.eq_of_compare heq).symm hne
  · rfl

theorem cleanupProject_ends (r : CleanupProject) (hsettled : ¬ FailsRenamed S reports faults w r) :
    Ends (cleanupProject S reports r) faults w (fun _ _ => True)
      (fun e w' => Loud e ∨ ∀ id ∈ w'.projects, accepted w' id = accepted w id) fun _ => True := by
  unfold cleanupProject
  refine Ends.bind (Ends.read (fun _ hcheck => ?_) fun _ _ => .inr fun _ _ => rfl)
  refine Ends.bind ((deleteOnDisk_ends r).mono (fun _ w' hw' => ?_) (fun e w' he => ?_) fun _ h => h)
  · refine Ends.bind (Ends.change (Ends.read (fun _ _ => trivial) fun _ _ => .inr ?_))
    exact dropProject_survivors r hw'.1 hw'.2
  · rcases he with hloud | hkeeps | hfails
    · exact .inl hloud
    · exact .inr fun id _ => hkeeps id
    · exact absurd ⟨hcheck, hfails⟩ hsettled

theorem ends_truthful {p : Program Step World ApiError Unit} (h : Ends p faults w (fun _ _ => True)
    (fun e w' => Loud e ∨ ∀ id ∈ w'.projects, accepted w' id = accepted w id) fun _ => True) :
    Truthful w (p faults w) := by
  intro e he hunchanged
  unfold Ends at h
  split at h
  · rename_i heq
    rw [heq] at he
    cases he
  · rename_i heq
    rw [heq] at he ⊢
    cases he
    exact h.resolve_left (not_loud.mpr hunchanged)
  · rename_i heq
    rw [heq] at he
    cases he

theorem candid_truthful {p : Program Step World ApiError Unit} (h : Candid KeepsAccepted Loud p) :
    Truthful w (p faults w) :=
  ends_truthful ((h faults w).mono (fun _ _ h => h) (fun _ _ h => h.imp_right fun hkeeps id _ => hkeeps id) fun _ h => h)

/-- The error says that Accepted is unchanged, and the tree of a project in memory is gone from its place. -/
theorem FailsRenamed.untruthful {r : CleanupProject} (h : FailsRenamed S reports faults w r) :
    ¬ Truthful w (cleanupProject S reports r faults w) := by
  obtain ⟨hcheck, e, hquiet, hfails⟩ := h
  obtain ⟨root, hrun, hgone, hthere⟩ := hfails.run
  have hdelete : deleteOnDisk S reports r faults w = (.error (ApiError.ofStorage e), withRoot w root) := by
    unfold deleteOnDisk storageCall onRoot onStore mapError relabel Program.on
    dsimp only
    rw [hrun]
    dsimp only
    rw [reported_io]
    rfl
  have hcleanup : cleanupProject S reports r faults w = (.error (ApiError.ofStorage e), withRoot w root) := by
    unfold cleanupProject
    change Program.bind _ _ faults w = _
    unfold Program.bind Program.read Program.act
    dsimp only
    rw [hcheck]
    change Program.bind _ _ faults w = _
    unfold Program.bind
    rw [hdelete]
  intro htruthful
  rw [hcleanup] at htruthful
  have hsame := htruthful _ rfl (not_loud.mp (fun hloud => hquiet (ofStorage_loud.mp hloud))) r.projectId
    (checkCleanup_found hcheck)
  have hdisk : Accepted.acceptedOf root r.projectId = Accepted.acceptedOf w.disk.root r.projectId :=
    congrArg Prod.snd hsame
  exact hthere (hdisk ▸ hgone)

/-- An error whose detail says that Accepted is unchanged is right, but for a deletion that has renamed the project's
tree when a scan of a site fails. -/
theorem envelopes_truthful_iff (S : Services) (reports : Step → ReadFailure) (request : Section) (faults : Step → Outcome)
    (w : World) : Truthful w (request.run S reports faults w) ↔ ScansSettled S reports faults w request := by
  cases request with
  | createTarget r => exact iff_of_true (candid_truthful (createTarget_keeps r).candid) trivial
  | createExport r => exact iff_of_true (candid_truthful (createExport_keeps r).candid) trivial
  | startProposal r =>
    have hstart : Within KeepsAccepted (Section.run S reports (.startProposal r)) :=
      Within.bind (startProposal_keeps r) fun _ => Within.pure _
    exact iff_of_true (candid_truthful hstart.candid) trivial
  | finishProposal r => exact iff_of_true (candid_truthful (finishProposal_keeps r).candid) trivial
  | createDecision r => exact iff_of_true (candid_truthful (createDecision_candid r)) trivial
  | reconcileReview r => exact iff_of_true (candid_truthful (reconcileReview_candid r)) trivial
  | cleanupContexts r => exact iff_of_true (candid_truthful (cleanupContexts_keeps r).candid) trivial
  | cleanupProposal r => exact iff_of_true (candid_truthful (cleanupProposal_keeps r).candid) trivial
  | cleanupArtifact r => exact iff_of_true (candid_truthful (cleanupArtifact_keeps r).candid) trivial
  | cleanupProject r =>
    exact ⟨fun htruthful hfails => hfails.untruthful htruthful, fun hsettled => ends_truthful (cleanupProject_ends r hsettled)⟩

end

/-! ## A scan that fails after the rename -/

section

/-- A store of SynapseGit that nothing can be read from or written to. -/
def unavailable : Synapse.SynapseGit where
  parseOid _ := none
  canonicalBytes _ := []
  canonicalize _ := none
  artifactManifestSha256 _ := []
  fromEntries _ _ := none
  errorCode _ := []
  putObject _ r := (.error (), r)
  putBlob _ r := (.error (), r)
  mapRegularFiles _ r := (.error (), r)
  validateHead _ _ := false
  updateRef _ _ r := (.error [], r)
  prepareAi _ _ := .error .serviceUnavailable
  executeAndPublishAi _ r := (.error .serviceUnavailable, r)
  prepareHumanDecision _ _ := .error .serviceUnavailable
  publishHumanDecision _ r := (.error .serviceUnavailable, r)
  publishDecision _ r := (.error [], r)
  parseReviewId _ := .error .storage
  newBinding _ := .error .storage
  createOrGetReview _ j := (.error .storage, j)
  registerDecisionIntent _ _ j := (.error .storage, j)
  transitionReviewState _ _ _ j := (.error .storage, j)

def sampleServices : Services where
  crates := sampleCrates
  git := unavailable
  remover := Root.sampleRemover
  isObject _ := true
  partly _ site := site
  exportVersion := "1.0.0".toList
  artifactLimits := ⟨1, 1, 1, 1⟩
  toVec _ := some [123, 125]
  canonicalManifestSha256 _ _ _ := Root.sampleRevision.pointer.canonicalManifestSha256
  receiptSha256 _ _ := none
  targetResolutionId _ := none

def sampleProject : Project where
  revisionId := Root.sampleRevision.pointer.revisionId
  acceptedManifestSha256 := Root.sampleRevision.pointer.artifactManifestSha256
  acceptedFiles := (∅ : Files).insert "index.html".toList [1]
  targets := ∅
  contexts := ∅
  proposal := none
  history := []

/-- The server with the project of `sampleRoot`; its proposal on disk has not got a review. -/
def sampleWorld : World where
  projects := (∅ : Std.ExtTreeMap Text Project compare).insert Root.sampleRevision.projectId sampleProject
  reviews := ∅
  approvals := ∅
  exports := ∅
  publications := ∅
  aiAttempts := AiAttempts.start
  disk := Store.emptyStore.setRoot Root.sampleRoot
  targets _ := ⟨none, [], ∅, [], []⟩
  synapse _ := ⟨⟨∅, ∅⟩, ⟨∅, ∅⟩⟩

def sampleCleanup : CleanupProject where
  checked := .ok ()
  projectId := Root.sampleRevision.projectId
  expectedRevisionId := sampleProject.revisionId
  expectedManifestSha256 := sampleProject.acceptedManifestSha256
  confirmation := Root.sampleRevision.projectId
  nonce := List.replicate 32 '0'

/-- An I/O error where the scan of the deleted site comes. -/
def scanFaults : Step → Outcome
  | .deleteProject step => Accepted.scanFaults step
  | _ => .done

theorem sample_checked : checkCleanup sampleServices sampleCleanup sampleWorld = .ok () := rfl

/-- The error says that the Accepted state is unchanged, and the site of the project is no longer in its place. -/
theorem deletion_untruthful :
    ¬ Truthful sampleWorld ((Section.cleanupProject sampleCleanup).run sampleServices (fun _ => .drift) scanFaults sampleWorld) := by
  have hquiet : ¬ Accepted.Loud .drift := by rintro (h | h) <;> cases h
  exact FailsRenamed.untruthful ⟨sample_checked, .drift, hquiet, Accepted.sample_failsRenamed⟩

end
end LpStudio.Server.Requests
