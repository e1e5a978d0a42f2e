import LpStudio.Server.Approvals

/-! # The human gate
Whatever is asked of the server and whatever fails, a decision is registered only by a request that has used up an
approval of exactly this decision, and a project's Accepted state moves only to what its Proposal plans, once a receipt
of such a decision adopts it.
-/
namespace LpStudio.Server.Requests
open Str Fault Fault.Program Storage Outcome
open Accepted (ReadFailure)
open Synapse (ArtifactDisposition SidecarDecisionReceipt SidecarError Registers Reports Receipted Intended)

/-- The decision that may be registered, and the project of it. -/
def only (projectId reviewId : Text) (disposition : ArtifactDisposition) : Text → Option (Text × ArtifactDisposition) :=
  Function.update (fun _ => none) projectId (some (reviewId, disposition))

/-- No project changes, in memory or in its Accepted state, and a sidecar may register only the decision that is named. -/
structure Quiet (G : Synapse.SynapseGit) (who : Text → Option (Text × ArtifactDisposition)) (w w' : World) : Prop where
  guarded : Guarded G who w w'
  keeps : KeepsAccepted w w'
  projects : w'.projects = w.projects

instance (G : Synapse.SynapseGit) (who : Text → Option (Text × ArtifactDisposition)) : IsPreorder World (Quiet G who) where
  refl w := ⟨Std.Refl.refl (r := Guarded G who) w, Std.Refl.refl (r := KeepsAccepted) w, rfl⟩
  trans _ _ _ h h' := ⟨IsTrans.trans _ _ _ h.guarded h'.guarded, IsTrans.trans _ _ _ h.keeps h'.keeps,
    h'.projects.trans h.projects⟩

/-- What an adoption makes of the Accepted state of a project, on disk and in memory, and the receipt that it has. -/
structure Adopts (S : Services) (id : Text) (proposal : ProposalRecord) (w w' : World) : Prop where
  receipt : ∃ receipt, Receipted S.git S.artifactLimits (w'.synapse id) proposal.reviewId receipt ∧
    receipt.disposition = .adoptedUnchanged ∧ receipt.reviewedArtifactManifestSha256 = proposal.artifactManifestSha256
  memory : (accepted w' id).1 = (accepted w id).1 ∨ (accepted w' id).1 = some (planned proposal)
  pointer : pointer w' id = pointer w id ∨ pointer w' id = some (some (plannedCommit S id proposal).pointer)

/-- What becomes of the Accepted states when the review of a Proposal is settled. -/
structure Settles (S : Services) (id : Text) (proposal : ProposalRecord) (w w' : World) : Prop where
  others : ∀ other, other ≠ id → accepted w' other = accepted w other
  here : accepted w' id = accepted w id ∨ Adopts S id proposal w w'

section
variable {S : Services} {reports : Step → ReadFailure} {G : Synapse.SynapseGit} {w w' w₁ : World} {faults : Step → Outcome}
  {who : Text → Option (Text × ArtifactDisposition)} {id : Text} {proposal : ProposalRecord} {adopts : Prop} {M α : Type}

theorem Guarded.weaken (h : Guarded G (fun _ => none) w w') : Guarded G who w w' where
  approvals := h.approvals
  sidecars := fun id => (h.sidecars id).weaken

theorem Quiet.weaken (h : Quiet G (fun _ => none) w w') : Quiet G who w w' := ⟨h.guarded.weaken, h.keeps, h.projects⟩

theorem Project.accepted_eq {project : Project} (h : w.projects[id]? = some project) :
    (Requests.accepted w id).1 = some project.accepted := by
  unfold Requests.accepted
  rw [h]
  rfl

theorem memory_of_moves {project : Project} (hkeeps : KeepsAccepted w w₁) (hproject : w.projects[id]? = some project)
    (hmoves : Moves S id project.accepted proposal adopts w₁ w') : (accepted w' id).1 = (accepted w id).1 ∨
      (adopts ∧ (accepted w' id).1 = some (planned proposal)) := by
  rcases hmoves.1.memory with heq | heq | hplanned
  · exact .inl (heq.trans (congrArg Prod.fst (hkeeps id)))
  · exact .inl (heq.trans (Project.accepted_eq hproject).symm)
  · exact .inr hplanned

theorem keeps_of_moves {project : Project} (hkeeps : KeepsAccepted w w₁) (hproject : w.projects[id]? = some project)
    (hmoves : Moves S id project.accepted proposal adopts w₁ w') (hadopts : ¬adopts) : KeepsAccepted w w' := by
  intro other
  by_cases heq : other = id
  · subst heq
    refine Prod.ext ((memory_of_moves hkeeps hproject hmoves).resolve_right fun h => hadopts h.1) ?_
    exact (hmoves.1.disk.resolve_right hadopts).trans (congrArg Prod.snd (hkeeps other))
  · exact (hmoves.1.others other heq).trans (hkeeps other)

/-- What is adopted has a receipt at the end. -/
theorem settles_of_moves {project : Project} (hkeeps : KeepsAccepted w w₁) (hproject : w.projects[id]? = some project)
    (hmoves : Moves S id project.accepted proposal adopts w₁ w')
    (hreceipt : adopts → ∃ receipt, Receipted S.git S.artifactLimits (w₁.synapse id) proposal.reviewId receipt ∧
      receipt.disposition = .adoptedUnchanged ∧
      receipt.reviewedArtifactManifestSha256 = proposal.artifactManifestSha256) : Settles S id proposal w w' := by
  refine ⟨fun other hne => (hmoves.1.others other hne).trans (hkeeps other), ?_⟩
  by_cases hadopts : adopts
  · obtain ⟨receipt, hreceipted, hfacts⟩ := hreceipt hadopts
    have hsame : pointer w₁ id = pointer w id := congrArg (fun found => found.2.map Prod.fst) (hkeeps id)
    exact .inr ⟨⟨receipt, hreceipted.mono (hmoves.2.sidecars id), hfacts⟩,
      (memory_of_moves hkeeps hproject hmoves).imp_right (·.2), hsame ▸ hmoves.1.pointer⟩
  · exact .inl (keeps_of_moves hkeeps hproject hmoves hadopts id)

/-! ## Quiet steps -/

theorem verifyAccepted_quiet (projectId : Text) (project : Project) :
    Within (Quiet G who) (verifyAccepted S reports projectId project) :=
  Within.mapError (Within.look _ _ _) _

theorem synapsePaths_quiet (projectId : Text) : Within (Quiet G who) (synapsePaths projectId) := by
  have hprojects : Within (fun w w' : World => w'.projects = w.projects) (synapsePaths projectId) := by
    unfold synapsePaths onRoot onStore
    refine Within.mapError ?_ _
    intro faults w
    refine Ends.on ?_
    exact ends_trivial.mono (fun _ _ _ => rfl) (fun _ _ _ => rfl) fun _ _ => rfl
  have hguarded : Within (Guarded G who) (synapsePaths projectId) := synapsePaths_guarded projectId
  exact (Within.and hguarded (Within.and (synapsePaths_keeps projectId) hprojects)).mono
    fun _ _ h => ⟨h.1, h.2.1, h.2.2⟩

/-- A call of the sidecar that reports only receipts of its review. -/
theorem sidecarCall_reports {reviewId : Text} {label : M → Step}
    {p : Program M Synapse.State SidecarError Synapse.ReviewOutcome}
    (h : Reports S.git S.artifactLimits (who id) reviewId p) : Ends (sidecarCall id label p) faults w
      (fun outcome w' => Quiet S.git who w w' ∧ ∀ receipt, outcome = .decisionCommitted receipt →
        Receipted S.git S.artifactLimits (w'.synapse id) reviewId receipt)
      (fun _ w' => Quiet S.git who w w') fun w' => Quiet S.git who w w' := by
  have hquiet : ∀ state, Registers S.git (who id) (w.synapse id) state →
      Quiet S.git who w { w with synapse := Function.update w.synapse id state } :=
    fun state hstate => ⟨registers_update hstate, keepsAccepted_of rfl rfl, rfl⟩
  refine Ends.mapError (Ends.relabel (Ends.on ?_))
  refine Ends.mono (h _ _) (fun outcome state hstate => ⟨hquiet state hstate.1, ?_⟩)
    (fun _ state hstate => hquiet state hstate.1) fun state hstate => hquiet state hstate
  intro receipt hreceipt
  simpa using hstate.2 receipt hreceipt

/-! ## Decisions -/

/-- The request uses up an approval of its own decision. -/
structure Uses (S : Services) (r : CreateDecision) (binding : ApprovalBinding) (w w' : World) : Prop where
  expected : expectedBinding S r w = .ok binding
  grant : ∃ grant, w.approvals[r.tokenHash S]? = some grant ∧ grant.binding = binding ∧ r.now ≤ grant.expiresAt
  spent : w'.approvals[r.tokenHash S]? = none

/-- What a request for a decision may do. -/
inductive Decides (S : Services) (r : CreateDecision) (w w' : World) : Prop where
  | refused (h : Quiet S.git (fun _ => none) w w')
  | approved (binding : ApprovalBinding) (project : Project) (proposal : ProposalRecord) (uses : Uses S r binding w w')
      (found : w.projects[binding.projectId]? = some project) (pending : project.proposal = some proposal)
      (review : proposal.reviewId = r.reviewId)
      (guarded : Guarded S.git (only binding.projectId r.reviewId r.disposition) w w')
      (settles : Settles S binding.projectId proposal w w')
      (adopts : r.disposition = .adoptedUnchanged ∨ KeepsAccepted w w')

theorem refuse_ok {condition : Prop} [Decidable condition] {error : ApiError} {u : Unit}
    (h : refuse condition error = .ok u) : ¬condition := by
  unfold refuse at h
  split at h
  · cases h
  · assumption

theorem found_ok {o : Option α} {a : α} (h : found o = .ok a) : o = some a := by
  cases o with
  | none => cases h
  | some b => exact congrArg some (Except.ok.inj h)

theorem decidedProposal_ok {r : CreateDecision} {projectId : Text} {decided : Project × ProposalRecord}
    (h : decidedProposal r projectId w = .ok decided) : w.projects[projectId]? = some decided.1 ∧
      decided.1.proposal = some decided.2 ∧ decided.2.reviewId = r.reviewId := by
  unfold decidedProposal at h
  obtain ⟨project, hproject, h⟩ := bind_ok.mp h
  obtain ⟨⟨⟩, -, h⟩ := bind_ok.mp h
  obtain ⟨proposal, hproposal, h⟩ := bind_ok.mp h
  obtain ⟨⟨⟩, hpending, h⟩ := bind_ok.mp h
  cases h
  have hreview := refuse_ok hpending
  simp only [not_or, not_not] at hreview
  exact ⟨found_ok hproject, found_ok hproposal, hreview.2.2.2⟩

theorem eraseApproval_quiet (hash : Text) : Quiet G who w { w with approvals := w.approvals.erase hash } := by
  refine ⟨guarded_of (fun other grant h => ?_) rfl, keepsAccepted_of rfl rfl, rfl⟩
  rw [Std.ExtTreeMap.getElem?_erase] at h
  split at h
  · cases h
  · exact h

variable (G who) in
/-- Whether the approval is the one that the decision needs; if it is, the store stays as it is. -/
theorem validateApproval_ends {r : CreateDecision} {binding : ApprovalBinding} {result : Except ApiError Unit}
    (h : validateApproval S r binding w = (result, w')) : Quiet G who w w' ∧ (result = .ok () → w' = w ∧
      ∃ grant, w.approvals[r.tokenHash S]? = some grant ∧ grant.binding = binding ∧ r.now ≤ grant.expiresAt) := by
  have hrefl : Quiet G who w w := Std.Refl.refl w
  unfold validateApproval at h
  split at h
  · obtain ⟨rfl, rfl⟩ := Prod.mk.inj h
    exact ⟨hrefl, nofun⟩
  · next grant hgrant =>
    split at h
    · obtain ⟨rfl, rfl⟩ := Prod.mk.inj h
      exact ⟨eraseApproval_quiet _, nofun⟩
    · next hexpired =>
      split at h
      · obtain ⟨rfl, rfl⟩ := Prod.mk.inj h
        exact ⟨hrefl, nofun⟩
      · next hbinding =>
        obtain ⟨rfl, rfl⟩ := Prod.mk.inj h
        exact ⟨hrefl, fun _ => ⟨rfl, grant, hgrant, not_not.mp hbinding, not_lt.mp hexpired⟩⟩

variable (G who) in
theorem consumeApproval_ends {r : CreateDecision} {binding : ApprovalBinding} {result : Except ApiError Unit}
    (h : consumeApproval S r binding w = (result, w')) : Quiet G who w w' ∧ (result = .ok () →
      w'.approvals[r.tokenHash S]? = none ∧
      ∃ grant, w.approvals[r.tokenHash S]? = some grant ∧ grant.binding = binding ∧ r.now ≤ grant.expiresAt) := by
  unfold consumeApproval at h
  split at h
  · next w₁ heq =>
    obtain ⟨rfl, rfl⟩ := Prod.mk.inj h
    obtain ⟨-, hok⟩ := validateApproval_ends G (fun _ => none) heq
    obtain ⟨rfl, hgrant⟩ := hok rfl
    refine ⟨eraseApproval_quiet _, fun _ => ⟨?_, hgrant⟩⟩
    exact Std.ExtTreeMap.getElem?_erase_self
  · next e w₁ heq =>
    obtain ⟨rfl, rfl⟩ := Prod.mk.inj h
    exact ⟨(validateApproval_ends G who heq).1, nofun⟩

theorem only_self (projectId reviewId : Text) (disposition : ArtifactDisposition) :
    only projectId reviewId disposition projectId = some (reviewId, disposition) := Function.update_self ..

/-- A decision whose approval has been used up. -/
theorem decides_of_moves {r : CreateDecision} {binding : ApprovalBinding} {project : Project}
    (huses : Uses S r binding w w₁) (hproject : w.projects[binding.projectId]? = some project)
    (hpending : project.proposal = some proposal) (hreview : proposal.reviewId = r.reviewId)
    (hquiet : Quiet S.git (only binding.projectId r.reviewId r.disposition) w w₁)
    (hmoves : Moves S binding.projectId project.accepted proposal adopts w₁ w')
    (hdisposition : adopts → r.disposition = .adoptedUnchanged)
    (hreceipt : adopts → ∃ receipt, Receipted S.git S.artifactLimits (w₁.synapse binding.projectId) proposal.reviewId receipt ∧
      receipt.disposition = .adoptedUnchanged ∧
      receipt.reviewedArtifactManifestSha256 = proposal.artifactManifestSha256) : Decides S r w w' := by
  have hspent : w'.approvals[r.tokenHash S]? = none := by
    cases hfound : w'.approvals[r.tokenHash S]? with
    | none => rfl
    | some grant => exact absurd (hmoves.2.approvals _ _ hfound) (by rw [huses.spent]; exact nofun)
  refine .approved binding project proposal ⟨huses.expected, huses.grant, hspent⟩ hproject hpending hreview
    (IsTrans.trans _ _ _ hquiet.guarded hmoves.2.weaken) (settles_of_moves hquiet.keeps hproject hmoves hreceipt) ?_
  by_cases hadopts : adopts
  · exact .inl (hdisposition hadopts)
  · exact .inr (keeps_of_moves hquiet.keeps hproject hmoves hadopts)

theorem createDecision_ends (hG : S.git.Lawful S.crates) (r : CreateDecision) :
    Ends (createDecision S reports r) faults w (fun _ w' => Decides S r w w') (fun _ w' => Decides S r w w')
      fun w' => Decides S r w w' := by
  unfold createDecision
  refine Ends.bind (Ends.read (fun binding hbinding => ?_) fun _ _ => .refused (Std.Refl.refl w))
  refine Ends.bind (Ends.act (fun _ w₁ hvalidate => ?_) fun _ w₁ hvalidate => .refused (validateApproval_ends _ _ hvalidate).1)
  obtain ⟨hquiet₁, -⟩ := validateApproval_ends S.git (fun _ => none) hvalidate
  refine Ends.bind (Ends.read (fun decided hdecided => ?_) fun _ _ => .refused hquiet₁)
  obtain ⟨project, proposal⟩ := decided
  obtain ⟨hproject, hpending, hreview⟩ := decidedProposal_ok hdecided
  rw [hquiet₁.projects] at hproject
  -- the checks of the project before the approval is used up
  have hverify : Within (Quiet S.git fun _ => none) (verifyAccepted S reports binding.projectId project) :=
    verifyAccepted_quiet _ _
  refine Ends.bind ((hverify faults w₁).mono (fun _ w₂ h₂ => ?_) (fun _ _ h => .refused (IsTrans.trans _ _ _ hquiet₁ h))
    fun _ h => .refused (IsTrans.trans _ _ _ hquiet₁ h))
  have hquiet₂ := IsTrans.trans _ _ _ hquiet₁ h₂
  refine Ends.bind ((synapsePaths_quiet binding.projectId faults w₂).mono (fun _ w₃ h₃ => ?_)
    (fun _ _ h => .refused (IsTrans.trans _ _ _ hquiet₂ h)) fun _ h => .refused (IsTrans.trans _ _ _ hquiet₂ h))
  have hquiet₃ := IsTrans.trans _ _ _ hquiet₂ h₃
  refine Ends.bind (Ends.failpoint ?_ (.refused hquiet₃) (.refused hquiet₃))
  refine Ends.bind (Ends.act (fun _ w₄ hconsume => ?_) fun _ w₄ hconsume =>
    .refused (IsTrans.trans _ _ _ hquiet₃ (consumeApproval_ends _ _ hconsume).1))
  obtain ⟨h₄, hspent⟩ := consumeApproval_ends S.git (fun _ => none) hconsume
  obtain ⟨hnone, grant, hgrant, hsame, htime⟩ := hspent rfl
  have hquiet₄ := IsTrans.trans _ _ _ hquiet₃ h₄
  have huses : ∀ {w₅}, Guarded S.git (only binding.projectId r.reviewId r.disposition) w₄ w₅ → Uses S r binding w w₅ := by
    intro w₅ hguarded
    refine ⟨hbinding, ⟨grant, hquiet₃.guarded.approvals _ _ hgrant, hsame, htime⟩, ?_⟩
    cases hfound : w₅.approvals[r.tokenHash S]? with
    | none => rfl
    | some later => exact absurd (hguarded.approvals _ _ hfound) (by rw [hnone]; exact nofun)
  have hasks : ∀ {w₅}, Quiet S.git (only binding.projectId r.reviewId r.disposition) w₄ w₅ →
      Quiet S.git (only binding.projectId r.reviewId r.disposition) w w₅ :=
    fun h => IsTrans.trans _ _ _ hquiet₄.weaken h
  -- the decision of the sidecar
  have hreports : Reports S.git S.artifactLimits (only binding.projectId r.reviewId r.disposition binding.projectId)
      r.reviewId (Synapse.decide S.crates S.git (sidecarConfig S binding.projectId proposal) r.reviewId r.disposition
        r.rationale (encode r.intentId)) := by
    rw [only_self]
    exact Synapse.decide_reports hG
  have hunsettled : ∀ {w₅ w'}, Quiet S.git (only binding.projectId r.reviewId r.disposition) w₄ w₅ →
      Moves S binding.projectId project.accepted proposal False w₅ w' → Decides S r w w' := fun h hmoves =>
    decides_of_moves (huses h.guarded) hproject hpending hreview (hasks h) hmoves False.elim False.elim
  refine Ends.bind (Ends.rescue ((sidecarCall_reports hreports).mono (fun outcome w₅ h₅ => ?_) (fun _ w₅ h₅ => ?_)
    fun w₅ h₅ => hunsettled h₅ (Std.Refl.refl w₅)))
  · obtain ⟨h₅, hreceipt⟩ := h₅
    have hmoves : Within (Moves S binding.projectId project.accepted proposal (r.disposition = .adoptedUnchanged ∧
        ∃ receipt, outcome = .decisionCommitted receipt ∧ receipt.disposition = .adoptedUnchanged ∧
          receipt.reviewedArtifactManifestSha256 = proposal.artifactManifestSha256))
        (settleOutcome S r binding.projectId project proposal outcome) :=
      settleOutcome_moves r project outcome fun receipt houtcome hd hd' hreviewed => ⟨hd, receipt, houtcome, hd', hreviewed⟩
    refine hmoves.ends fun w' hw' => decides_of_moves (huses h₅.guarded) hproject hpending hreview (hasks h₅) hw' (·.1) ?_
    rintro ⟨-, receipt, houtcome, hfacts⟩
    exact ⟨receipt, hreview ▸ hreceipt receipt houtcome, hfacts⟩
  · refine Ends.bind (Ends.change (Ends.throw (hunsettled h₅ ⟨?_, guarded_same rfl rfl⟩)))
    exact (setOutcome_keeps _ _).lands

/-! ## Reconciliations -/

/-- What a request for a reconciliation may do. -/
structure Reconciles (S : Services) (r : ReconcileReview) (w w' : World) : Prop where
  guarded : Guarded S.git (fun _ => none) w w'
  settles : KeepsAccepted w w' ∨ ∃ id project proposal, w.projects[id]? = some project ∧
    project.proposal = some proposal ∧ proposal.reviewId = r.reviewId ∧ Settles S id proposal w w'

theorem Quiet.reconciles {r : ReconcileReview} (h : Quiet S.git (fun _ => none) w w') : Reconciles S r w w' :=
  ⟨h.guarded, .inl h.keeps⟩

theorem reconcileReview_ends (hG : S.git.Lawful S.crates) (r : ReconcileReview) :
    Ends (reconcileReview S reports r) faults w (fun _ w' => Reconciles S r w w') (fun _ w' => Reconciles S r w w')
      fun w' => Reconciles S r w w' := by
  have hsame : Quiet S.git (fun _ => none) w w := Std.Refl.refl w
  unfold reconcileReview
  refine Ends.bind (Ends.read (fun found hfound => ?_) fun _ _ => hsame.reconciles)
  obtain ⟨id, project⟩ := found
  unfold reviewProject at hfound
  obtain ⟨⟨⟩, -, hfound⟩ := bind_ok.mp hfound
  obtain ⟨owner, -, hfound⟩ := bind_ok.mp hfound
  obtain ⟨project', hproject, hfound⟩ := bind_ok.mp hfound
  cases hfound
  have hproject := found_ok hproject
  dsimp only
  split
  · exact Ends.ofExcept (fun _ _ => hsame.reconciles) fun _ _ => hsame.reconciles
  · next proposal hpending =>
    refine Ends.bind (Ends.ofExcept (fun _ hreview => ?_) fun _ _ => hsame.reconciles)
    have hreview : proposal.reviewId = r.reviewId := not_not.mp (refuse_ok hreview)
    have hverify : Within (Quiet S.git fun _ => none) (verifyAccepted S reports id project) := verifyAccepted_quiet _ _
    refine Ends.bind ((hverify faults w).mono (fun _ w₁ h₁ => ?_) (fun _ _ h => h.reconciles) fun _ h => h.reconciles)
    refine Ends.bind ((synapsePaths_quiet id faults w₁).mono (fun _ w₂ h₂ => ?_)
      (fun _ _ h => (IsTrans.trans _ _ _ h₁ h).reconciles) fun _ h => (IsTrans.trans _ _ _ h₁ h).reconciles)
    have hquiet₂ := IsTrans.trans _ _ _ h₁ h₂
    refine Ends.bind (Ends.failpoint ?_ hquiet₂.reconciles hquiet₂.reconciles)
    refine Ends.bind ((sidecarCall_reports (Synapse.resume_reports hG)).mono (fun outcome w₃ h₃ => ?_)
      (fun _ w₃ h₃ => (IsTrans.trans _ _ _ hquiet₂ h₃).reconciles) fun w₃ h₃ => (IsTrans.trans _ _ _ hquiet₂ h₃).reconciles)
    obtain ⟨h₃, hreceipt⟩ := h₃
    have hquiet₃ := IsTrans.trans _ _ _ hquiet₂ h₃
    have hmoves : Within (Moves S id project.accepted proposal (∃ receipt, outcome = .decisionCommitted receipt ∧
        receipt.disposition = .adoptedUnchanged ∧
          receipt.reviewedArtifactManifestSha256 = proposal.artifactManifestSha256))
        (reconcileOutcome S id project proposal outcome) :=
      reconcileOutcome_moves rfl fun receipt houtcome hd hreviewed => ⟨receipt, houtcome, hd, hreviewed⟩
    refine hmoves.ends fun w' hw' => ⟨IsTrans.trans _ _ _ hquiet₃.guarded hw'.2, .inr ⟨id, project, proposal, hproject,
      hpending, hreview, settles_of_moves hquiet₃.keeps hproject hw' ?_⟩⟩
    rintro ⟨receipt, houtcome, hfacts⟩
    exact ⟨receipt, hreview ▸ hreceipt receipt houtcome, hfacts⟩

end

end LpStudio.Server.Requests
