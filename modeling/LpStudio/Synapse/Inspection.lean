import LpStudio.Synapse.Beginnings

/-! # Inspections
`inspect_proposal`: what a recovered proposal is compared with, read off its review and its commits. It is read the same
in every state after.
-/
namespace LpStudio.Synapse
open Str Fault Fault.Program Ancestry Outcome

inductive InspectStep where
  | openJournal | review | openRepository | proposalRef | proposalHead | baseHead | proposal
  | current | currentHead | chain | digests
  | controls (step : ControlsStep)

section
variable (K : Crates) (G : SynapseGit) (config : SidecarConfig)

/-- The receipt of a proposal, by the manifests of its commit and of its base. -/
def inspectedReceipt (id : Text) (binding : ReviewBinding) (r : Repository) :
    Except SidecarError SidecarProposalReceipt := do
  let base ← manifestDigestAtCommit G r config.artifactLimits binding.expectedDecisionHead
  let artifact ← manifestDigestAtCommit G r config.artifactLimits binding.proposalHead
  let context ← reviewContextDigestFromProposal G r K binding.proposalHead
  return ⟨id, base, artifact, context⟩

def inspectProposal (id : Text) : Program InspectStep State SidecarError SidecarProposalReceipt := do
  ofExcept (parseReviewId G id)
  failpoint .storage .openJournal
  let review ← look .storage .review fun s => getReview s.journal id
  ofExcept (validateReviewBinding K G config review.binding)
  failpoint .storage .openRepository
  let live ← readRepository .storage .proposalRef fun r => required r.refs[review.binding.proposalRefName]?
  if live ≠ review.binding.proposalHead then throw .integrity else
    readRepository .integrity .proposalHead fun r =>
      if G.validateHead review.binding.proposalHead r then .ok () else .error .integrity
    readRepository .integrity .baseHead fun r =>
      if G.validateHead review.binding.expectedDecisionHead r then .ok () else .error .integrity
    readRepository .storage .proposal fun r => do
      requireSingleParentValue (← loadValue G r review.binding.proposalHead .commit) review.binding.expectedDecisionHead
    let _ ← readControls K G config .controls review.binding.expectedDecisionHead
    let current ← readRepository .storage .current fun r => required r.refs[review.binding.decisionRefName]?
    readRepository .integrity .currentHead fun r => if G.validateHead current r then .ok () else .error .integrity
    let contained ← readRepository .storage .chain fun r =>
      decisionChainContainsCommit G r current review.binding.expectedDecisionHead
    if contained then
      readRepository .storage .digests fun r => inspectedReceipt K G config id review.binding r
    else throw .integrity

end

variable {K : Crates} {G : SynapseGit} {D : Text} {config : SidecarConfig} {id : Text} {s s' : State}
  {who : Option Text} {P : Text → Prop}

/-- A receipt is read off the commits of a review. -/
structure Inspected (K : Crates) (G : SynapseGit) (limits : ArtifactLimits) (id : Text) (s : State) (review : Review)
    (receipt : SidecarProposalReceipt) : Prop where
  found : s.journal.reviews[id]? = some review
  reviewId : receipt.reviewId = id
  base : manifestDigestAtCommit G s.repository limits review.binding.expectedDecisionHead =
    .ok receipt.baseArtifactManifestSha256
  artifact : manifestDigestAtCommit G s.repository limits review.binding.proposalHead =
    .ok receipt.artifactManifestSha256
  context : reviewContextDigestFromProposal G s.repository K review.binding.proposalHead = .ok receipt.reviewContextSha256

theorem inspectedReceipt_ok {review : Review} {receipt : SidecarProposalReceipt}
    (hreview : s.journal.reviews[id]? = some review)
    (h : inspectedReceipt K G config id review.binding s.repository = .ok receipt) :
    Inspected K G config.artifactLimits id s review receipt := by
  obtain ⟨base, hbase, h⟩ := bind_ok.mp h
  obtain ⟨artifact, hartifact, h⟩ := bind_ok.mp h
  obtain ⟨context, hcontext, h⟩ := bind_ok.mp h
  obtain rfl := pure_ok.mp h
  exact ⟨hreview, rfl, hbase, hartifact, hcontext⟩

theorem inspectProposal_climbs {faults : InspectStep → Fault.Outcome} : Climbs (Keeps K G D P who)
    (inspectProposal K G config id) faults s
    (fun receipt s' => s' = s ∧ ∃ review, Inspected K G config.artifactLimits id s review receipt) fun _ _ => True := by
  refine Climbs.bind (V := fun _ s' => s' = s) (Climbs.ofExcept (fun _ _ => rfl) fun _ _ => True.intro) ?_
  rintro - s₁ - rfl
  refine Climbs.bind (V := fun _ s' => s' = s₁) (Climbs.failpoint (fun _ => rfl) fun _ => True.intro) ?_
  rintro - s₂ - rfl
  refine Climbs.bind (V := fun review s' => s' = s₂ ∧ s₂.journal.reviews[id]? = some review)
    (Climbs.look (fun _ h _ => ⟨rfl, getReview_ok h⟩) (fun _ _ => True.intro) fun _ => True.intro) ?_
  rintro review s₃ - ⟨rfl, hreview⟩
  refine Climbs.bind (V := fun _ s' => s' = s₃) (Climbs.ofExcept (fun _ _ => rfl) fun _ _ => True.intro) ?_
  rintro - s₄ - rfl
  refine Climbs.bind (V := fun _ s' => s' = s₄) (Climbs.failpoint (fun _ => rfl) fun _ => True.intro) ?_
  rintro - s₅ - rfl
  refine Climbs.bind (V := fun _ s' => s' = s₅) (readRepository_any (fun _ _ => rfl) fun _ => True.intro) ?_
  rintro live s₆ - rfl
  split
  · exact Climbs.throw True.intro
  refine Climbs.bind (V := fun _ s' => s' = s₆) (readRepository_any (fun _ _ => rfl) fun _ => True.intro) ?_
  rintro - s₇ - rfl
  refine Climbs.bind (V := fun _ s' => s' = s₇) (readRepository_any (fun _ _ => rfl) fun _ => True.intro) ?_
  rintro - s₈ - rfl
  refine Climbs.bind (V := fun _ s' => s' = s₈) (readRepository_any (fun _ _ => rfl) fun _ => True.intro) ?_
  rintro - s₉ - rfl
  refine Climbs.bind readControls_any ?_
  rintro controls s₁₀ - rfl
  refine Climbs.bind (V := fun _ s' => s' = s₁₀) (readRepository_any (fun _ _ => rfl) fun _ => True.intro) ?_
  rintro current s₁₁ - rfl
  refine Climbs.bind (V := fun _ s' => s' = s₁₁) (readRepository_any (fun _ _ => rfl) fun _ => True.intro) ?_
  rintro - s₁₂ - rfl
  refine Climbs.bind (V := fun _ s' => s' = s₁₂) (readRepository_any (fun _ _ => rfl) fun _ => True.intro) ?_
  rintro contained s₁₃ - rfl
  split
  · exact readRepository_any (fun _ h => ⟨rfl, review, inspectedReceipt_ok hreview h⟩) fun _ => True.intro
  · exact Climbs.throw True.intro

/-! ## Later states -/

theorem reviewContextDigestFromProposal_mono {r r' : Repository} {proposalHead : Oid} {digest : Text} (h : Stays r r')
    (hread : reviewContextDigestFromProposal G r K proposalHead = .ok digest) :
    reviewContextDigestFromProposal G r' K proposalHead = .ok digest := by
  unfold reviewContextDigestFromProposal at hread ⊢
  rw [bind_ok] at hread ⊢
  obtain ⟨proposal, hproposal, hread⟩ := hread
  refine ⟨proposal, loadValue_mono h hproposal, ?_⟩
  rw [bind_ok] at hread ⊢
  obtain ⟨transitions, htransitions, hread⟩ := hread
  refine ⟨transitions, htransitions, ?_⟩
  split at hread
  · cases hread
  · next hone =>
    rw [if_neg hone]
    rw [bind_ok] at hread ⊢
    obtain ⟨oid, hoid, hread⟩ := hread
    refine ⟨oid, hoid, ?_⟩
    rw [bind_ok] at hread ⊢
    obtain ⟨activity, hactivity, hread⟩ := hread
    refine ⟨activity, loadValue_mono h hactivity, ?_⟩
    rw [bind_ok] at hread ⊢
    obtain ⟨name, hname, hread⟩ := hread
    refine ⟨name, hname, ?_⟩
    dsimp only at hread ⊢
    split at hread
    · cases hread
    · next htype =>
      rw [if_neg htype]
      rw [bind_ok] at hread ⊢
      obtain ⟨payload, hpayload, hread⟩ := hread
      refine ⟨payload, hpayload, ?_⟩
      rw [bind_ok] at hread ⊢
      obtain ⟨refs, hrefs, hread⟩ := hread
      refine ⟨refs, hrefs, ?_⟩
      split at hread
      · cases hread
      · next hcontexts =>
        rw [if_neg hcontexts]
        rw [bind_ok] at hread ⊢
        obtain ⟨blobOid, hblobOid, hread⟩ := hread
        refine ⟨blobOid, hblobOid, ?_⟩
        split at hread
        · cases hread
        · next hkind =>
          rw [if_neg hkind]
          split at hread
          · next bytes hobject =>
            rw [h _ _ hobject]
            exact hread
          · cases hread

/-- What an inspection has shown can be read in every later state. -/
theorem Inspected.mono {limits : ArtifactLimits} {review : Review} {receipt : SidecarProposalReceipt}
    (h : Inspected K G limits id s review receipt) (hfollows : Follows G D s s') :
    ∃ review', Inspected K G limits id s' review' receipt := by
  obtain ⟨review', hreview', hbinding, -⟩ := hfollows.reviews id review h.found
  exact ⟨review', {
    found := hreview'
    reviewId := h.reviewId
    base := hbinding ▸ manifestDigestAtCommit_mono hfollows.stays h.base
    artifact := hbinding ▸ manifestDigestAtCommit_mono hfollows.stays h.artifact
    context := hbinding ▸ reviewContextDigestFromProposal_mono hfollows.stays h.context }⟩

theorem Inspected.unique {limits : ArtifactLimits} {review review' : Review} {receipt receipt' : SidecarProposalReceipt}
    (h : Inspected K G limits id s review receipt) (h' : Inspected K G limits id s review' receipt') :
    receipt = receipt' := by
  obtain rfl : review = review' := Option.some.inj (h.found.symm.trans h'.found)
  obtain ⟨reviewId, base, artifact, context⟩ := receipt
  obtain ⟨reviewId', base', artifact', context'⟩ := receipt'
  obtain rfl : reviewId = reviewId' := h.reviewId.trans h'.reviewId.symm
  obtain rfl : base = base' := Except.ok.inj (h.base.symm.trans h'.base)
  obtain rfl : artifact = artifact' := Except.ok.inj (h.artifact.symm.trans h'.artifact)
  obtain rfl : context = context' := Except.ok.inj (h.context.symm.trans h'.context)
  rfl

/-- The manifest that a receipt selects is one of the two that an inspection shows. -/
theorem IsReceipt.inspected {limits : ArtifactLimits} {r : Repository} {review : Review} {intent : DecisionIntent}
    {receipt : SidecarDecisionReceipt} {shown : SidecarProposalReceipt}
    (h : IsReceipt G limits r review.binding intent receipt)
    (hbase : manifestDigestAtCommit G r limits review.binding.expectedDecisionHead =
      .ok shown.baseArtifactManifestSha256)
    (hartifact : manifestDigestAtCommit G r limits review.binding.proposalHead = .ok shown.artifactManifestSha256) :
    receipt.reviewedArtifactManifestSha256 = if receipt.disposition = .adoptedUnchanged then shown.artifactManifestSha256
      else shown.baseArtifactManifestSha256 := by
  have hdigest := h.digest
  cases hdisposition : receipt.disposition with
  | adoptedUnchanged =>
    rw [hdisposition] at hdigest
    exact Except.ok.inj (hdigest.symm.trans hartifact)
  | rejected | deferred =>
    rw [hdisposition] at hdigest
    exact Except.ok.inj (hdigest.symm.trans hbase)

end LpStudio.Synapse
