import LpStudio.Server.Gate
import LpStudio.Synapse.Numbered

/-! # Runs of the server
Requests one after another, each with its faults, until the process stops. What is on record as a decision, and what is
Accepted, goes back to an approval that was issued before and used up once.
-/
namespace LpStudio.Server.Requests
open Str Fault Fault.Program Storage Outcome
open Accepted (ReadFailure)
open Synapse (ArtifactDisposition SidecarDecisionReceipt Intended)

/-! ## What one request does -/

/-- An approval that a request may issue. -/
structure Issued (S : ApprovalServices) (r : CreateApproval) (grant : ApprovalGrant) (w : World) : Prop where
  review : w.reviews[r.reviewId]? = some grant.binding.projectId
  binding : ∃ project, w.projects[grant.binding.projectId]? = some project ∧
    approvedBinding S r grant.binding.projectId project = .ok grant.binding
  expires : grant.expiresAt = r.expiresAt

/-- What a request for an approval may do. -/
structure Approves (S : ApprovalServices) (r : CreateApproval) (w w' : World) : Prop where
  synapse : w'.synapse = w.synapse
  keeps : KeepsAccepted w w'
  approvals : ∀ (hash : Text) (grant : ApprovalGrant), w'.approvals[hash]? = some grant →
    w.approvals[hash]? = some grant ∨ (hash = r.tokenHash S ∧ Issued S r grant w)

/-- The Accepted states of all projects but one. -/
def KeepsOthers (id : Text) (w w' : World) : Prop := ∀ other, other ≠ id → accepted w' other = accepted w other

instance (id : Text) : IsPreorder World (KeepsOthers id) where
  refl _ _ _ := rfl
  trans _ _ _ h h' other hne := (h' other hne).trans (h other hne)

/-- What a request may do. -/
def Effects (S : ApprovalServices) : Request → World → World → Prop
  | .createApproval r => Approves S r
  | .serve (.createDecision r) => Decides S.toServices r
  | .serve (.reconcileReview r) => Reconciles S.toServices r
  | .serve (.cleanupProject r) => fun w w' => Guarded S.git (fun _ => none) w w' ∧ KeepsOthers r.projectId w w'
  | .serve _ => fun w w' => Guarded S.git (fun _ => none) w w' ∧ KeepsAccepted w w'

section
variable {S : ApprovalServices} {reports : Step → ReadFailure} {w w' : World} {faults : Step → Outcome}

theorem sweep_approves (r : CreateApproval) (now : ℤ) : Approves S r w (sweepExpiredApprovals now w) where
  synapse := rfl
  keeps := keepsAccepted_of rfl rfl
  approvals := fun _ _ h => .inl (filter_getElem? h)

theorem approvedBinding_projectId {r : CreateApproval} {projectId : Text} {project : Project} {binding : ApprovalBinding}
    (h : approvedBinding S r projectId project = .ok binding) : binding.projectId = projectId := by
  unfold approvedBinding at h
  split at h
  · cases h
  · obtain ⟨⟨⟩, -, h⟩ := bind_ok.mp h
    obtain ⟨⟨⟩, -, h⟩ := bind_ok.mp h
    cases h
    rfl

theorem approvedProject_ok {r : CreateApproval} {approved : Text × Project} (h : approvedProject r w = .ok approved) :
    w.reviews[r.reviewId]? = some approved.1 ∧ w.projects[approved.1]? = some approved.2 := by
  unfold approvedProject at h
  obtain ⟨⟨⟩, -, h⟩ := bind_ok.mp h
  obtain ⟨projectId, hreview, h⟩ := bind_ok.mp h
  obtain ⟨project, hproject, h⟩ := bind_ok.mp h
  cases h
  exact ⟨found_ok hreview, found_ok hproject⟩

theorem createApproval_ends (r : CreateApproval) :
    Ends (createApproval S reports r) faults w (fun _ w' => Approves S r w w') (fun _ w' => Approves S r w w')
      fun w' => Approves S r w w' := by
  have hsame : Approves S r w w := ⟨rfl, Std.Refl.refl (r := KeepsAccepted) w, fun _ _ h => .inl h⟩
  have hswept := sweep_approves (S := S) (w := w) r r.sweptAt
  unfold createApproval
  refine Ends.bind (Ends.ofExcept (fun _ _ => ?_) fun _ _ => hsame)
  refine Ends.bind (Ends.change (Ends.bind (Ends.read (fun approved happroved => ?_) fun _ _ => hswept)))
  obtain ⟨projectId, project⟩ := approved
  obtain ⟨hreview, hproject⟩ := approvedProject_ok happroved
  have hlook : Within Eq (verifyAccepted S.toServices reports projectId project) := Within.mapError (Within.look _ _ _) _
  refine Ends.bind ((hlook faults _).mono (fun _ w' h => ?_) (fun _ _ h => h ▸ hswept) fun _ h => h ▸ hswept)
  subst h
  refine Ends.bind (Ends.ofExcept (fun binding hbinding => ?_) fun _ _ => hswept)
  have hinserted : Approves S r w (insertApproval S r binding (sweepExpiredApprovals r.sweptAt w)) := by
    refine ⟨rfl, keepsAccepted_of rfl rfl, fun hash grant hgrant => ?_⟩
    by_cases heq : hash = r.tokenHash S
    · subst heq
      rw [insertApproval, Std.ExtTreeMap.getElem?_insert_self] at hgrant
      cases hgrant
      obtain rfl := approvedBinding_projectId hbinding
      exact .inr ⟨rfl, ⟨hreview, ⟨project, hproject, hbinding⟩, rfl⟩⟩
    · rw [insertApproval, Synapse.getElem?_insert_ne (Ne.symm heq)] at hgrant
      exact hswept.approvals hash grant hgrant
  exact Ends.bind (Ends.change (Ends.bind (Ends.ofExcept (fun _ _ => hinserted) fun _ _ => hinserted)))

theorem cleanupProject_others (r : CleanupProject) :
    Within (KeepsOthers r.projectId) (cleanupProject S.toServices reports r) := by
  have hdisk : Within (KeepsOthers r.projectId) (deleteOnDisk S.toServices reports r) := by
    unfold deleteOnDisk storageCall onRoot onStore
    refine Within.mapError (Within.relabel ?_) _
    have hroot : Within (fun s s' : Store => Accepted.KeepsOthers r.projectId s.root s'.root)
        ((Accepted.deleteProject S.crates S.remover (fun step => reports (.deleteProject step)) r.deletion).on
          Store.root Store.setRoot) := Within.on (Accepted.deleteProject_others r.deletion) fun _ _ hs => hs
    exact Within.on hroot fun w disk hs other hne => Prod.ext rfl (hs other hne)
  refine Within.bind (Within.read _) fun _ => Within.bind hdisk fun _ => Within.bind (Within.change fun w other hne => ?_)
    fun _ => Within.read _
  refine Prod.ext ?_ rfl
  change ((w.projects.erase r.projectId)[other]?).map _ = _
  rw [Std.ExtTreeMap.getElem?_erase, if_neg fun heq => hne (Std.LawfulEqCmp.eq_of_compare heq).symm]
  rfl

variable (reports) in
theorem run_effects (hG : S.git.Lawful S.crates) (request : Request) (faults : Step → Outcome) (w : World) :
    Effects S request w (request.run S reports faults w).2 := by
  cases request with
  | createApproval r => exact (createApproval_ends r).final
  | serve request =>
    cases request with
    | createDecision r => exact (createDecision_ends hG r).final
    | reconcileReview r => exact (reconcileReview_ends hG r).final
    | cleanupProject r => exact (Within.and (cleanupProject_guarded r) (cleanupProject_others r)).final faults w
    | createTarget r => exact (Within.and (createTarget_guarded r) (createTarget_keeps r)).final faults w
    | createExport r => exact (Within.and (createExport_guarded r) (createExport_keeps r)).final faults w
    | finishProposal r => exact (Within.and (finishProposal_guarded hG r) (finishProposal_keeps r)).final faults w
    | cleanupContexts r => exact (Within.and (cleanupContexts_guarded r) (cleanupContexts_keeps r)).final faults w
    | cleanupProposal r => exact (Within.and (cleanupProposal_guarded r) (cleanupProposal_keeps r)).final faults w
    | cleanupArtifact r => exact (Within.and (cleanupArtifact_guarded r) (cleanupArtifact_keeps r)).final faults w
    | startProposal r =>
      have hstart : Within (fun w w' => Guarded S.git (fun _ => none) w w' ∧ KeepsAccepted w w')
          (Section.run S.toServices reports (.startProposal r)) := by
        refine Within.and (Within.bind (startProposal_guarded r) fun _ => Within.pure _) ?_
        exact Within.bind (startProposal_keeps r) fun _ => Within.pure _
      exact hstart.final faults w

/-! ## What a request leaves -/

theorem Effects.approvals {request : Request} (h : Effects S request w w') {hash : Text} {grant : ApprovalGrant}
    (hgrant : w'.approvals[hash]? = some grant) : w.approvals[hash]? = some grant ∨
      ∃ r, request = .createApproval r ∧ hash = r.tokenHash S ∧ Issued S r grant w := by
  cases request with
  | createApproval r => exact (Approves.approvals h hash grant hgrant).imp_right fun hissued => ⟨r, rfl, hissued⟩
  | serve request =>
    refine .inl ?_
    cases request with
    | createDecision r =>
      rcases h with hquiet | ⟨_, _, _, _, _, _, _, hguarded⟩
      · exact hquiet.guarded.approvals hash grant hgrant
      · exact hguarded.approvals hash grant hgrant
    | reconcileReview r => exact (Reconciles.guarded h).approvals hash grant hgrant
    | _ => exact h.1.approvals hash grant hgrant

theorem expectedBinding_ok {r : CreateDecision} {binding : ApprovalBinding} {S : Services}
    (h : expectedBinding S r w = .ok binding) : binding.reviewId = r.reviewId ∧ binding.disposition = r.disposition := by
  unfold expectedBinding at h
  obtain ⟨⟨⟩, -, h⟩ := bind_ok.mp h
  obtain ⟨projectId, -, h⟩ := bind_ok.mp h
  obtain ⟨⟨⟩, -, h⟩ := bind_ok.mp h
  obtain ⟨project, -, h⟩ := bind_ok.mp h
  split at h
  · cases h
    exact ⟨rfl, rfl⟩
  · cases h

/-- A request for a decision uses up the approval of a token. -/
structure Spends (S : ApprovalServices) (r : CreateDecision) (grant : ApprovalGrant) (w w' : World) : Prop where
  pending : w.approvals[r.tokenHash S.toServices]? = some grant
  uses : Uses S.toServices r grant.binding w w'

/-- An intent that a request registers is for the decision whose approval it has used up. -/
theorem Effects.registered {request : Request} (h : Effects S request w w') {id reviewId : Text}
    {intent : Synapse.DecisionIntent} (hnone : (w.synapse id).journal.intents[reviewId]? = none)
    (hintent : (w'.synapse id).journal.intents[reviewId]? = some intent) :
    ∃ r grant, request = .serve (.createDecision r) ∧ Spends S r grant w w' ∧ grant.binding.projectId = id ∧
      grant.binding.reviewId = reviewId ∧ Intended S.git (w'.synapse id) reviewId grant.binding.disposition := by
  have hguarded : ¬Guarded S.git (fun _ => none) w w' := fun hguarded => by
    obtain ⟨_, hwho, -⟩ := (hguarded.sidecars id).fresh reviewId intent hnone hintent
    cases hwho
  cases request with
  | createApproval r =>
    rw [Approves.synapse h, hnone] at hintent
    cases hintent
  | serve request =>
    cases request with
    | createDecision r =>
      rcases h with hquiet | ⟨binding, project, proposal, huses, _, _, _, hregisters⟩
      · exact absurd hquiet.guarded hguarded
      · obtain ⟨disposition, hwho, hintended⟩ := (hregisters.sidecars id).fresh reviewId intent hnone hintent
        by_cases hid : id = binding.projectId
        · subst hid
          rw [only_self] at hwho
          cases hwho
          obtain ⟨grant, hgrant, rfl, htime⟩ := huses.grant
          obtain ⟨hreview, hdisposition⟩ := expectedBinding_ok huses.expected
          exact ⟨r, grant, rfl, ⟨hgrant, huses⟩, rfl, hreview, hdisposition ▸ hintended⟩
        · rw [only, Function.update_of_ne hid] at hwho
          cases hwho
    | reconcileReview r => exact absurd (Reconciles.guarded h) hguarded
    | _ => exact absurd h.1 hguarded

theorem Effects.kept {request : Request} (h : Effects S request w w') (id : Text) :
    (∀ (reviewId : Text) (intent : Synapse.DecisionIntent), (w.synapse id).journal.intents[reviewId]? = some intent →
      (w'.synapse id).journal.intents[reviewId]? = some intent) ∧
    ∀ reviewId disposition, Intended S.git (w.synapse id) reviewId disposition →
      Intended S.git (w'.synapse id) reviewId disposition := by
  have hregisters : ∃ who, Synapse.Registers S.git who (w.synapse id) (w'.synapse id) := by
    cases request with
    | createApproval r =>
      rw [Approves.synapse h]
      exact ⟨none, Std.Refl.refl (r := Synapse.Registers S.git none) (w.synapse id)⟩
    | serve request =>
      cases request with
      | createDecision r =>
        rcases h with hquiet | ⟨_, _, _, _, _, _, _, hguarded⟩
        · exact ⟨_, hquiet.guarded.sidecars id⟩
        · exact ⟨_, hguarded.sidecars id⟩
      | reconcileReview r => exact ⟨_, (Reconciles.guarded h).sidecars id⟩
      | _ => exact ⟨_, h.1.sidecars id⟩
  obtain ⟨who, hregisters⟩ := hregisters
  exact ⟨fun reviewId => hregisters.intents reviewId, fun _ _ hintended => hintended.mono hregisters⟩

/-- The Accepted state of a project goes with the project, or moves to what its Proposal plans. -/
theorem Effects.accepted {request : Request} (h : Effects S request w w') {id : Text}
    (hmoved : accepted w' id ≠ accepted w id) :
    (∃ r, request = .serve (.cleanupProject r) ∧ r.projectId = id) ∨
      ∃ project proposal, w.projects[id]? = some project ∧ project.proposal = some proposal ∧
        Adopts S.toServices id proposal w w' := by
  have hsettles : ∀ {other : Text} {project : Project} {proposal : ProposalRecord}, w.projects[other]? = some project →
      project.proposal = some proposal → Settles S.toServices other proposal w w' → ∃ project proposal,
        w.projects[id]? = some project ∧ project.proposal = some proposal ∧ Adopts S.toServices id proposal w w' := by
    intro other project proposal hproject hpending hsettles
    by_cases heq : id = other
    · subst heq
      exact ⟨project, proposal, hproject, hpending, hsettles.here.resolve_left hmoved⟩
    · exact absurd (hsettles.others id heq) hmoved
  cases request with
  | createApproval r => exact absurd (Approves.keeps h id) hmoved
  | serve request =>
    cases request with
    | createDecision r =>
      rcases h with hquiet | ⟨binding, project, proposal, _, hproject, hpending, _, _, hsettled⟩
      · exact absurd (hquiet.keeps id) hmoved
      · exact .inr (hsettles hproject hpending hsettled)
    | reconcileReview r =>
      rcases Reconciles.settles h with hkeeps | ⟨other, project, proposal, hproject, hpending, -, hsettled⟩
      · exact absurd (hkeeps id) hmoved
      · exact .inr (hsettles hproject hpending hsettled)
    | cleanupProject r =>
      by_cases heq : id = r.projectId
      · exact .inl ⟨r, rfl, heq.symm⟩
      · exact absurd (h.2 id heq) hmoved
    | _ => exact absurd (h.2 id) hmoved

end

/-! ## Runs -/

abbrev ServerEvent := Run.Event Process Turn (Option (Exit ApiError Unit))

/-- The event issues an approval under the digest of its token. -/
def Issues (S : ApprovalServices) (hash : Text) (grant : ApprovalGrant) (e : ServerEvent) : Prop :=
  ∃ r, e.call.request = .createApproval r ∧ hash = r.tokenHash S ∧ Issued S r grant e.before.world

/-- The event uses up an approval for its decision. -/
def Consumes (S : ApprovalServices) (hash : Text) (grant : ApprovalGrant) (e : ServerEvent) : Prop :=
  ∃ r, e.call.request = .serve (.createDecision r) ∧ hash = r.tokenHash S.toServices ∧
    Spends S r grant e.before.world e.after.world

/-- A decision on a review has an approval that one event issues and a later one uses up. -/
def Authorized (S : ApprovalServices) (past : List ServerEvent) (id reviewId : Text) (disposition : ArtifactDisposition) :
    Prop :=
  ∃ hash grant issue use, [issue, use].Sublist past ∧ Issues S hash grant issue ∧ Consumes S hash grant use ∧
    grant.binding.projectId = id ∧ grant.binding.reviewId = reviewId ∧ grant.binding.disposition = disposition

/-- What is pending was issued, and an intent was there at the start or is authorized. -/
structure Gated (S : ApprovalServices) (start : World) (past : List ServerEvent) (w : World) : Prop where
  approvals : ∀ (hash : Text) (grant : ApprovalGrant), w.approvals[hash]? = some grant → ∃ e ∈ past, Issues S hash grant e
  intents : ∀ (id reviewId : Text) (intent : Synapse.DecisionIntent),
    (w.synapse id).journal.intents[reviewId]? = some intent →
    (start.synapse id).journal.intents[reviewId]? = some intent ∨
      ∃ disposition, Intended S.git (w.synapse id) reviewId disposition ∧ Authorized S past id reviewId disposition

section
variable {S : ApprovalServices} {reports : Step → ReadFailure} {start : Process} {past later : List ServerEvent}
  {id reviewId hash : Text} {disposition : ArtifactDisposition} {grant : ApprovalGrant} {turns : List Turn}

theorem Authorized.append (h : Authorized S past id reviewId disposition) :
    Authorized S (past ++ later) id reviewId disposition := by
  obtain ⟨hash, grant, issue, use, hsublist, h⟩ := h
  exact ⟨hash, grant, issue, use, hsublist.trans (List.sublist_append_left past later), h⟩

variable (reports) in
theorem handle_effects (hG : S.git.Lawful S.crates) (s : Process) (turn : Turn) :
    (s.handle S reports turn).2.world = s.world ∨
      Effects S turn.request s.world (s.handle S reports turn).2.world := by
  have heffects := run_effects reports hG turn.request turn.faults s.world
  unfold Process.handle
  split
  · refine .inr ?_
    split
    · next heq =>
      rw [heq] at heffects
      exact heffects
    · next heq =>
      rw [heq] at heffects
      exact heffects
  · exact .inl rfl

variable (reports) in
/-- A step keeps what is said of everything that has happened. -/
theorem Gated.step (hG : S.git.Lawful S.crates) {s : Process} (h : Gated S start.world past s.world) (turn : Turn) :
    Gated S start.world (past ++ [⟨s, turn, (s.handle S reports turn).1, (s.handle S reports turn).2⟩])
      (s.handle S reports turn).2.world := by
  rcases handle_effects reports hG s turn with heq | heffects
  · rw [heq]
    refine ⟨fun hash grant hgrant => ?_, fun id reviewId intent hintent => ?_⟩
    · obtain ⟨e, he, hissues⟩ := h.approvals hash grant hgrant
      exact ⟨e, List.mem_append_left _ he, hissues⟩
    · rcases h.intents id reviewId intent hintent with hstart | ⟨disposition, hintended, hauthorized⟩
      · exact .inl hstart
      · exact .inr ⟨disposition, hintended, hauthorized.append⟩
  · refine ⟨fun hash grant hgrant => ?_, fun id reviewId intent hintent => ?_⟩
    · rcases heffects.approvals hgrant with hold | ⟨r, hrequest, hhash, hissued⟩
      · obtain ⟨e, he, hissues⟩ := h.approvals hash grant hold
        exact ⟨e, List.mem_append_left _ he, hissues⟩
      · exact ⟨_, List.mem_append_right _ List.mem_cons_self, r, hrequest, hhash, hissued⟩
    · cases hfound : (s.world.synapse id).journal.intents[reviewId]? with
      | some found =>
        obtain ⟨hkept, hintended⟩ := heffects.kept id
        rw [hkept reviewId found hfound] at hintent
        cases hintent
        rcases h.intents id reviewId _ hfound with hstart | ⟨disposition, hbefore, hauthorized⟩
        · exact .inl hstart
        · exact .inr ⟨disposition, hintended reviewId disposition hbefore, hauthorized.append⟩
      | none =>
        obtain ⟨r, grant, hrequest, hspends, hid, hreview, hintended⟩ := heffects.registered hfound hintent
        obtain ⟨issue, hissue, hissues⟩ := h.approvals _ grant hspends.pending
        refine .inr ⟨grant.binding.disposition, hintended, _, grant, issue,
          ⟨s, turn, (s.handle S reports turn).1, (s.handle S reports turn).2⟩, ?_, hissues, ⟨r, hrequest, rfl, hspends⟩, hid,
          hreview, rfl⟩
        exact (List.singleton_sublist.mpr hissue).append (List.Sublist.refl _)

theorem gated_start (hstart : start.world.approvals = ∅) : Gated S start.world [] start.world := by
  refine ⟨fun hash grant hgrant => ?_, fun _ _ _ hintent => .inl hintent⟩
  rw [hstart] at hgrant
  cases Std.ExtTreeMap.getElem?_empty.symm.trans hgrant

theorem gated_run (hG : S.git.Lawful S.crates) (hstart : start.world.approvals = ∅) {before after : List ServerEvent}
    (h : Run.events (Process.handle S reports) start turns = before ++ after) :
    ∃ turns' s, Gated S start.world before s.world ∧ after = Run.events (Process.handle S reports) s turns' := by
  have hstep : ∀ (past : List ServerEvent) (turn : Turn) (turns : List Turn) (s : Process),
      Gated S start.world past s.world → Gated S start.world
        (past ++ [⟨s, turn, (s.handle S reports turn).1, (s.handle S reports turn).2⟩]) (s.handle S reports turn).2.world :=
    fun _ turn _ _ hs => hs.step reports hG turn
  exact Run.events_cut_inv (I := fun past _ s => Gated S start.world past s.world) hstep (gated_start hstart) h

/-- An approval of a token that was not pending has been issued. -/
theorem issued_since (hG : S.git.Lawful S.crates) {s : Process} (hnone : s.world.approvals[hash]? = none)
    {before after : List ServerEvent} (h : Run.events (Process.handle S reports) s turns = before ++ after) :
    ∃ turns' s', (∀ grant, s'.world.approvals[hash]? = some grant → ∃ e ∈ before, Issues S hash grant e) ∧
      after = Run.events (Process.handle S reports) s' turns' := by
  have hstep : ∀ (past : List ServerEvent) (turn : Turn) (turns : List Turn) (s : Process),
      (∀ grant, s.world.approvals[hash]? = some grant → ∃ e ∈ past, Issues S hash grant e) →
      ∀ grant, (s.handle S reports turn).2.world.approvals[hash]? = some grant →
        ∃ e ∈ past ++ [⟨s, turn, (s.handle S reports turn).1, (s.handle S reports turn).2⟩], Issues S hash grant e := by
    intro past turn _ s hs grant hgrant
    have hold : s.world.approvals[hash]? = some grant →
        ∃ e ∈ past ++ [⟨s, turn, (s.handle S reports turn).1, (s.handle S reports turn).2⟩], Issues S hash grant e := by
      intro hpending
      obtain ⟨e, he, hissues⟩ := hs grant hpending
      exact ⟨e, List.mem_append_left _ he, hissues⟩
    rcases handle_effects reports hG s turn with heq | heffects
    · exact hold (heq ▸ hgrant)
    · rcases heffects.approvals hgrant with hpending | ⟨r, hrequest, hhash, hissued⟩
      · exact hold hpending
      · exact ⟨_, List.mem_append_right _ List.mem_cons_self, r, hrequest, hhash, hissued⟩
  have hfirst : ∀ grant, s.world.approvals[hash]? = some grant → ∃ e ∈ ([] : List ServerEvent), Issues S hash grant e := by
    intro grant hgrant
    rw [hnone] at hgrant
    cases hgrant
  exact Run.events_cut_inv (I := fun past _ s => ∀ grant, s.world.approvals[hash]? = some grant →
    ∃ e ∈ past, Issues S hash grant e) hstep hfirst h

end

/-! ## A run -/

def approvalServices : ApprovalServices where
  toServices := { sampleServices with
    git := Synapse.numbered sampleCrates
    artifactLimits := ⟨9, 9, 9, 9⟩
    receiptSha256 := fun _ _ => some [] }
  blocked _ := false
  formatTimestamp _ := some []

theorem approvalServices_lawful : approvalServices.git.Lawful approvalServices.crates := Synapse.numbered_lawful sampleCrates

def pendingProposal : ProposalRecord where
  id := Root.sampleProposalId
  reviewId := "r".toList
  baseRevisionId := sampleProject.revisionId
  baseArtifactManifestSha256 := sampleProject.acceptedManifestSha256
  artifactManifestSha256 := approvalServices.git.artifactManifestSha256 [("index.html".toList, [2])]
  reviewContextSha256 := []
  reviewContextJson := [123, 125]
  proposedFiles := (∅ : Files).insert "index.html".toList [2]
  status := .pendingReview
  reviewOutcome := .pendingReview
  external := false
  providerId := []
  reportedModel := []
  target := Targets.sampleElement
  recordedAt := "now".toList
  grantExpiresAt := "later".toList
  plannedRevisionId := "rev_".toList ++ List.replicate 32 '1'

abbrev sampleId : Text := Root.sampleRevision.projectId

/-- The project of `sampleRoot` with a Proposal that its sidecar has begun. -/
def pendingWorld : World :=
  { sampleWorld with
    projects := (∅ : Std.ExtTreeMap Text Project compare).insert sampleId
      { sampleProject with proposal := some pendingProposal }
    reviews := (∅ : Std.ExtTreeMap Text Text compare).insert "r".toList sampleId
    synapse := Function.update sampleWorld.synapse sampleId
      (Synapse.beginProposal sampleCrates approvalServices.git
        (sidecarConfig approvalServices.toServices sampleId pendingProposal)
        ⟨pendingProposal.id, [("index.html".toList, [1])], [("index.html".toList, [2])], [123, 125]⟩
        (fun _ => .done) (sampleWorld.synapse sampleId)).2 }

abbrev pendingServer : Process := ⟨pendingWorld, true⟩

theorem pendingServer_approvals : pendingServer.world.approvals = ∅ := rfl

def sampleApproval : CreateApproval where
  checked := .ok ()
  sessionId := "s".toList
  reviewId := "r".toList
  proposalId := Root.sampleProposalId
  expectedRevisionId := sampleProject.revisionId
  disposition := .adoptedUnchanged
  intentId := "i".toList
  token := "t".toList
  issuedAt := 0
  sweptAt := 0

def sampleAdoption : CreateDecision where
  checked := .ok ()
  sessionId := "s".toList
  reviewId := "r".toList
  approvalToken := "t".toList
  proposalId := Root.sampleProposalId
  expectedRevisionId := sampleProject.revisionId
  disposition := .adoptedUnchanged
  rationale := none
  intentId := "i".toList
  now := 1

/-- The sidecar fails before it has an intent; the review is reconciled, approved again and decided on. -/
def sampleTurns : List Turn :=
  [⟨.createApproval sampleApproval, fun _ => .done⟩,
    ⟨.serve (.createDecision sampleAdoption), fun
      | .decide .openJournal => .failed 0
      | _ => .done⟩,
    ⟨.serve (.reconcileReview ⟨.ok (), "r".toList⟩), fun _ => .done⟩,
    ⟨.createApproval sampleApproval, fun _ => .done⟩,
    ⟨.serve (.createDecision sampleAdoption), fun _ => .done⟩]

abbrev sampleEvents : List ServerEvent :=
  Run.events (Process.handle approvalServices fun _ => .drift) pendingServer sampleTurns

def sampleGrant : ApprovalGrant :=
  ⟨⟨"s".toList, sampleId, "r".toList, Root.sampleProposalId, pendingProposal.artifactManifestSha256,
    sampleProject.revisionId, .adoptedUnchanged, "i".toList⟩, approvalTtlSeconds⟩

/-- Whether a decision of the sample uses up its approval. -/
def usesGrant (e : ServerEvent) : Bool :=
  e.before.world.approvals[sampleAdoption.tokenHash approvalServices.toServices]? = some sampleGrant ∧
    (expectedBinding approvalServices.toServices sampleAdoption e.before.world).toOption = some sampleGrant.binding ∧
    e.after.world.approvals[sampleAdoption.tokenHash approvalServices.toServices]? = none

theorem consumes_of_usesGrant {e : ServerEvent} (hrequest : e.call.request = .serve (.createDecision sampleAdoption))
    (h : usesGrant e = true) :
    Consumes approvalServices (sampleAdoption.tokenHash approvalServices.toServices) sampleGrant e := by
  obtain ⟨hpending, hexpected, hspent⟩ := of_decide_eq_true h
  refine ⟨sampleAdoption, hrequest, rfl, hpending, ?_, ⟨sampleGrant, hpending, rfl, by decide⟩, hspent⟩
  cases hbinding : expectedBinding approvalServices.toServices sampleAdoption e.before.world with
  | ok binding =>
    rw [hbinding] at hexpected
    rw [Option.some.inj hexpected]
  | error e =>
    rw [hbinding] at hexpected
    cases hexpected

/-- Whether an event of the sample moves the Accepted state. -/
def movesAccepted (e : ServerEvent) : Bool :=
  (accepted e.after.world sampleId).1.map Prod.fst ≠ (accepted e.before.world sampleId).1.map Prod.fst

theorem accepted_of_movesAccepted {e : ServerEvent} (h : movesAccepted e = true) :
    accepted e.after.world sampleId ≠ accepted e.before.world sampleId :=
  fun heq => of_decide_eq_true h (congrArg (fun found => found.1.map Prod.fst) heq)

/-- The sidecar has no intent at first and one in the end; both decisions use up their approval, and the last moves the
Accepted state. -/
theorem sample_decides :
    (pendingServer.world.synapse sampleId).journal.intents["r".toList]?.isNone = true ∧
    ((Run.final (Process.handle approvalServices fun _ => .drift) pendingServer sampleTurns).world.synapse
      sampleId).journal.intents["r".toList]?.isSome = true ∧
    sampleEvents[1]?.any usesGrant = true ∧ sampleEvents[4]?.any usesGrant = true ∧
    sampleEvents.getLast?.any movesAccepted = true := by
  decide +kernel

/-! ## What is decided -/

section
variable {S : ApprovalServices} {reports : Step → ReadFailure}

/-- Every intent of a sidecar was there when the server started, or it states a decision that has an approval, issued by
one request and used up by a later one. -/
theorem decisions_authorized (hG : S.git.Lawful S.crates) (start : Process) (hstart : start.world.approvals = ∅)
    (turns : List Turn) (id reviewId : Text) (intent : Synapse.DecisionIntent)
    (hintent : ((Run.final (Process.handle S reports) start turns).world.synapse id).journal.intents[reviewId]? = some intent) :
    (start.world.synapse id).journal.intents[reviewId]? = some intent ∨
      ∃ disposition, Intended S.git ((Run.final (Process.handle S reports) start turns).world.synapse id) reviewId disposition ∧
        Authorized S (Run.events (Process.handle S reports) start turns) id reviewId disposition := by
  have hgated : Gated S start.world ([] ++ Run.events (Process.handle S reports) start turns)
      (Run.final (Process.handle S reports) start turns).world :=
    Run.events_final_inv (I := fun past s => Gated S start.world past s.world) (fun _ turn _ hs => hs.step reports hG turn) turns
      (gated_start hstart)
  exact hgated.intents id reviewId intent hintent

theorem decisions_authorized_sample : ∃ intent disposition,
    ((Run.final (Process.handle approvalServices fun _ => .drift) pendingServer sampleTurns).world.synapse
      sampleId).journal.intents["r".toList]? = some intent ∧
    Intended approvalServices.git
      ((Run.final (Process.handle approvalServices fun _ => .drift) pendingServer sampleTurns).world.synapse sampleId)
      "r".toList disposition ∧ Authorized approvalServices sampleEvents sampleId "r".toList disposition := by
  obtain ⟨hnone, hsome, -⟩ := sample_decides
  obtain ⟨intent, hintent⟩ := Option.isSome_iff_exists.mp hsome
  have hstated := @decisions_authorized approvalServices (fun _ => .drift) approvalServices_lawful pendingServer
    pendingServer_approvals sampleTurns sampleId "r".toList intent hintent
  rw [Option.isNone_iff_eq_none.mp hnone] at hstated
  obtain ⟨disposition, h⟩ := hstated.resolve_left nofun
  exact ⟨intent, disposition, hintent, h⟩

/-- Between two requests that use up approvals of the same token, the later of the two approvals is issued. -/
theorem approvals_used_once (hG : S.git.Lawful S.crates) (start : Process) (turns : List Turn)
    {before between after : List ServerEvent} {e e' : ServerEvent}
    (hrun : Run.events (Process.handle S reports) start turns = before ++ e :: (between ++ e' :: after)) {hash : Text}
    {grant grant' : ApprovalGrant} (h : Consumes S hash grant e) (h' : Consumes S hash grant' e') :
    ∃ issue ∈ between, Issues S hash grant' issue := by
  obtain ⟨turns', hrest⟩ := Run.events_split hrun
  obtain ⟨r, -, rfl, hspends⟩ := h
  obtain ⟨r', -, hhash, hspends'⟩ := h'
  obtain ⟨turns'', s', hissued, hafter⟩ := issued_since hG hspends.uses.spent hrest.symm
  cases turns'' with
  | nil => cases hafter
  | cons turn turns'' =>
    obtain ⟨rfl, -⟩ := List.cons.inj hafter
    exact hissued grant' (hhash ▸ hspends'.pending)

theorem approvals_used_once_sample : ∃ before e between e', sampleEvents = before ++ e :: (between ++ [e']) ∧
    Consumes approvalServices (sampleAdoption.tokenHash approvalServices.toServices) sampleGrant e ∧
    Consumes approvalServices (sampleAdoption.tokenHash approvalServices.toServices) sampleGrant e' ∧
    ∃ issue ∈ between, Issues approvalServices (sampleAdoption.tokenHash approvalServices.toServices) sampleGrant issue := by
  have hrun : ∃ before e between e', sampleEvents = before ++ e :: (between ++ [e']) ∧
      Consumes approvalServices (sampleAdoption.tokenHash approvalServices.toServices) sampleGrant e ∧
      Consumes approvalServices (sampleAdoption.tokenHash approvalServices.toServices) sampleGrant e' := by
    obtain ⟨-, -, hfirst, hsecond, -⟩ := sample_decides
    obtain ⟨e, he, hused⟩ := (Option.any_eq_true _ _).mp hfirst
    obtain ⟨e', he', hused'⟩ := (Option.any_eq_true _ _).mp hsecond
    obtain rfl := Option.some.inj he
    obtain rfl := Option.some.inj he'
    exact ⟨[_], _, [_, _], _, rfl, consumes_of_usesGrant rfl hused, consumes_of_usesGrant rfl hused'⟩
  obtain ⟨before, e, between, e', hrun, h, h'⟩ := hrun
  exact ⟨before, e, between, e', hrun, h, h',
    approvals_used_once approvalServices_lawful pendingServer sampleTurns hrun h h'⟩

end

end LpStudio.Server.Requests
