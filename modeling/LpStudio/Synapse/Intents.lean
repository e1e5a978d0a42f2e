import LpStudio.Lib.Replies
import LpStudio.Synapse.Decisions

/-! # Who registers an intent
Only a decision registers an intent, for its own review and its own disposition, and a receipt is one of the registered
intent. That is so of every call on the sidecar, from every state and under every fault.
-/
namespace LpStudio.Synapse
open Str Fault Fault.Program Outcome

variable {K : Crates} {G : SynapseGit} {config : SidecarConfig} {id : Text} {s s' : State}
  {who : Option (Text × ArtifactDisposition)} {disposition : ArtifactDisposition} {binding : ReviewBinding}
  {intent : DecisionIntent} {limits : ArtifactLimits} {receipt : SidecarDecisionReceipt}

/-- The review of a binding has the intent. -/
def HasIntent (s : State) (id : Text) (binding : ReviewBinding) (intent : DecisionIntent) : Prop :=
  (∃ review : Review, s.journal.reviews[id]? = some review ∧ review.binding = binding) ∧
    s.journal.intents[id]? = some intent

/-- The intent of a review states a disposition. -/
def Intended (G : SynapseGit) (s : State) (id : Text) (disposition : ArtifactDisposition) : Prop :=
  ∃ binding intent, HasIntent s id binding intent ∧
    dispositionFromFeedback G s.repository intent.feedbackOid binding.proposalHead = .ok disposition

/-- How a call moves the state that may register an intent of a review, or none. -/
structure Registers (G : SynapseGit) (who : Option (Text × ArtifactDisposition)) (s s' : State) : Prop where
  stays : Stays s.repository s'.repository
  bindings : ∀ (id : Text) (review : Review), s.journal.reviews[id]? = some review →
    ∃ review', s'.journal.reviews[id]? = some review' ∧ review'.binding = review.binding
  intents : ∀ (id : Text) (intent : DecisionIntent), s.journal.intents[id]? = some intent →
    s'.journal.intents[id]? = some intent
  fresh : ∀ (id : Text) (intent : DecisionIntent), s.journal.intents[id]? = none →
    s'.journal.intents[id]? = some intent → ∃ disposition, who = some (id, disposition) ∧ Intended G s' id disposition

theorem HasIntent.mono (h : HasIntent s id binding intent) (hs : Registers G who s s') : HasIntent s' id binding intent := by
  obtain ⟨⟨review, hreview, rfl⟩, hintent⟩ := h
  exact ⟨hs.bindings id review hreview, hs.intents id intent hintent⟩

theorem Intended.mono (h : Intended G s id disposition) (hs : Registers G who s s') : Intended G s' id disposition := by
  obtain ⟨binding, intent, hhas, hdisposition⟩ := h
  exact ⟨binding, intent, hhas.mono hs, dispositionFromFeedback_mono hs.stays hdisposition⟩

/-- A review has one intent, and that states one disposition. -/
theorem Intended.unique {other : ArtifactDisposition} (h : Intended G s id disposition) (h' : Intended G s id other) :
    disposition = other := by
  obtain ⟨binding, intent, ⟨⟨review, hreview, rfl⟩, hintent⟩, hdisposition⟩ := h
  obtain ⟨binding', intent', ⟨⟨review', hreview', rfl⟩, hintent'⟩, hdisposition'⟩ := h'
  rw [hreview] at hreview'
  cases hreview'
  rw [hintent] at hintent'
  cases hintent'
  exact Except.ok.inj (hdisposition.symm.trans hdisposition')

instance : IsPreorder State (Registers G who) where
  refl s := {
    stays := fun _ _ h => h
    bindings := fun _ review h => ⟨review, h, rfl⟩
    intents := fun _ _ h => h
    fresh := fun _ _ hnone h => by
      rw [hnone] at h
      cases h }
  trans _ s' _ h h' := {
    stays := fun oid object hobject => h'.stays oid object (h.stays oid object hobject)
    bindings := fun id review hreview => by
      obtain ⟨review', hreview', hbinding⟩ := h.bindings id review hreview
      obtain ⟨review'', hreview'', hbinding'⟩ := h'.bindings id review' hreview'
      exact ⟨review'', hreview'', hbinding'.trans hbinding⟩
    intents := fun id intent hintent => h'.intents id intent (h.intents id intent hintent)
    fresh := fun id intent hnone hintent => by
      cases hfound : s'.journal.intents[id]? with
      | none => exact h'.fresh id intent hfound hintent
      | some found =>
        obtain ⟨disposition, hwho, hintended⟩ := h.fresh id found hnone hfound
        exact ⟨disposition, hwho, hintended.mono h'⟩ }

/-- A call that registers nothing registers nothing else. -/
theorem Registers.weaken (h : Registers G none s s') : Registers G who s s' where
  stays := h.stays
  bindings := h.bindings
  intents := h.intents
  fresh := fun id intent hnone hintent => by
    obtain ⟨_, hwho, -⟩ := h.fresh id intent hnone hintent
    cases hwho

theorem registers_of_stays (h : Stays s.repository s'.repository) (hjournal : s'.journal = s.journal) :
    Registers G who s s' where
  stays := h
  bindings := fun id review hreview => ⟨review, by rw [hjournal]; exact hreview, rfl⟩
  intents := fun id intent hintent => by rw [hjournal]; exact hintent
  fresh := fun id intent hnone hintent => by
    rw [hjournal, hnone] at hintent
    cases hintent

/-! ## Steps -/

section
variable {L α : Type} {io : SidecarError} {label : L}

theorem readRepository_registers (f : Repository → Except SidecarError α) :
    Within (Registers G who) (readRepository io label f) := Within.look _ _ _

theorem callRepository_registers {f : Repository → Except SidecarError α × Repository} (h : ∀ r, Stays r (f r).2) :
    Within (Registers G who) (callRepository io label f) :=
  Within.call fun s => registers_of_stays (h s.repository) rfl

theorem callJournal_registers {f : Journal → Except JournalError α × Journal}
    (h : ∀ s : State, Registers G who s { s with journal := (f s.journal).2 }) :
    Within (Registers G who) (callJournal label f) := Within.call h

theorem putJson_registers (hG : G.Lawful K) (value : Json) : Within (Registers G who) (putJson G label value) :=
  callRepository_registers fun r => (hG.putObject (Prod.eta (G.putObject value r)).symm).1.objects

theorem mapFiles_registers (hG : G.Lawful K) (files : RegularFileManifest) :
    Within (Registers G who) (mapFiles G label files) :=
  callRepository_registers fun r => (hG.mapRegularFiles (Prod.eta (G.mapRegularFiles files r)).symm).objects

theorem readControls_registers (labels : ControlsStep → L) (commitOid : Oid) :
    Within (Registers G who) (readControls K G config labels commitOid) :=
  Within.bind (readRepository_registers _) fun _ => readRepository_registers _

end

/-! ## The state of a review -/

theorem registers_record (target : ReviewState) (s : State) : Registers G who s (record id target s) where
  stays := fun _ _ h => h
  bindings := fun other review hreview => by
    rw [record_reviews]
    split
    · next heq =>
      rw [heq] at hreview
      exact ⟨_, Option.map_eq_some_iff.mpr ⟨review, hreview, rfl⟩, rfl⟩
    · exact ⟨review, hreview, rfl⟩
  intents := fun _ _ h => h
  fresh := fun _ _ hnone h => by
    rw [show (record id target s).journal.intents = s.journal.intents from rfl, hnone] at h
    cases h

theorem transitionState_registers (hG : G.Lawful K) (target : ReviewState) (rounds : ℕ) (observed : ReviewState) :
    Within (Registers G who) (transitionState G id target rounds observed) := by
  induction rounds generalizing observed with
  | zero => exact Within.throw _
  | succ rounds ih =>
    unfold transitionState
    split
    · exact Within.pure _
    · refine Within.bind (Within.failpoint _ _) fun _ => Within.bind (callJournal_registers fun s => ?_) fun answer => ?_
      · rcases hG.transitionReviewState (Prod.eta (G.transitionReviewState id observed target s.journal)).symm with
          ⟨heq, -⟩ | ⟨-, -, heq⟩
        · rw [heq]
          exact Std.Refl.refl (r := Registers G who) s
        · rw [heq]
          exact registers_record target s
      · split
        · exact Within.pure _
        · exact ih _
        · exact Within.throw _

theorem transitionTo_registers (hG : G.Lawful K) (state target : ReviewState) :
    Within (Registers G who) (transitionTo G id state target) := by
  refine Within.bind (transitionState_registers hG target 3 state) fun reached => ?_
  split
  · exact Within.pure _
  · exact Within.throw _

/-- A new intent states the disposition that its feedback has. -/
theorem registers_register {review : Review} (hreview : s.journal.reviews[id]? = some review)
    (hnone : s.journal.intents[id]? = none)
    (hdisposition : dispositionFromFeedback G s.repository intent.feedbackOid review.binding.proposalHead = .ok disposition) :
    Registers G (some (id, disposition)) s (register id intent s) where
  stays := fun _ _ h => h
  bindings := fun _ found hfound => ⟨found, hfound, rfl⟩
  intents := fun other found hfound => by
    have hne : id ≠ other := by
      rintro rfl
      rw [hnone] at hfound
      cases hfound
    rw [register, getElem?_insert_ne hne]
    exact hfound
  fresh := fun other found hother hfound => by
    by_cases heq : id = other
    · subst heq
      exact ⟨disposition, rfl, review.binding, intent, ⟨⟨review, hreview, rfl⟩, Std.ExtTreeMap.getElem?_insert_self⟩,
        hdisposition⟩
    · rw [register, getElem?_insert_ne heq, hother] at hfound
      cases hfound

/-! ## Receipts -/

/-- A receipt of the intent of a review. -/
def Receipted (G : SynapseGit) (limits : ArtifactLimits) (s : State) (id : Text) (receipt : SidecarDecisionReceipt) : Prop :=
  ∃ binding intent, HasIntent s id binding intent ∧ IsReceipt G limits s.repository binding intent receipt

theorem Receipted.mono (h : Receipted G limits s id receipt) (hs : Registers G who s s') :
    Receipted G limits s' id receipt := by
  obtain ⟨binding, intent, hhas, hreceipt⟩ := h
  exact ⟨binding, intent, hhas.mono hs, hreceipt.mono hs.stays⟩

theorem Receipted.intended (h : Receipted G limits s id receipt) : Intended G s id receipt.disposition := by
  obtain ⟨binding, intent, hhas, hreceipt⟩ := h
  exact ⟨binding, intent, hhas, hreceipt.disposition⟩

/-- A receipt that the program answers with is one of the intent of the review. -/
def Reports (G : SynapseGit) (limits : ArtifactLimits) (who : Option (Text × ArtifactDisposition)) (id : Text) {L : Type}
    (p : Program L State SidecarError ReviewOutcome) : Prop :=
  ∀ faults s, Climbs (Registers G who) p faults s (fun outcome s' => ∀ receipt, outcome = .decisionCommitted receipt →
    Receipted G limits s' id receipt) fun _ _ => True

section
variable {L M α : Type} {p : Program L State SidecarError ReviewOutcome}

theorem Reports.climbs {faults : L → Fault.Outcome} (h : Reports G limits who id p) :
    Climbs (Registers G who) p faults s (fun outcome s' => ∀ receipt, outcome = .decisionCommitted receipt →
      Receipted G limits s' id receipt) fun _ _ => True := h faults s

theorem Reports.bind {p : Program L State SidecarError α} {k : α → Program L State SidecarError ReviewOutcome}
    (hp : Within (Registers G who) p) (hk : ∀ a, Reports G limits who id (k a)) : Reports G limits who id (p >>= k) :=
  fun faults s => Climbs.bind (hp.climbs faults s) fun a s' _ _ => hk a faults s'

/-- Whatever the program does, it answers with the outcome. -/
def Repeats (G : SynapseGit) (who : Option (Text × ArtifactDisposition)) (outcome : ReviewOutcome) {L : Type}
    (p : Program L State SidecarError ReviewOutcome) : Prop :=
  ∀ faults s, Climbs (Registers G who) p faults s (fun found _ => found = outcome) fun _ _ => True

theorem Repeats.pure (outcome : ReviewOutcome) :
    Repeats G who outcome (Pure.pure outcome : Program L State SidecarError ReviewOutcome) :=
  fun _ _ => Climbs.pure rfl

theorem Repeats.bind {outcome : ReviewOutcome} {p : Program L State SidecarError α}
    {k : α → Program L State SidecarError ReviewOutcome} (hp : Within (Registers G who) p)
    (hk : ∀ a, Repeats G who outcome (k a)) : Repeats G who outcome (p >>= k) :=
  fun faults s => Climbs.bind (hp.climbs faults s) fun a s' _ _ => hk a faults s'

/-- A program that goes on from an outcome repeats it or reports anew. -/
theorem Reports.andThen {k : ReviewOutcome → Program L State SidecarError ReviewOutcome} (hp : Reports G limits who id p)
    (hk : ∀ outcome, Repeats G who outcome (k outcome) ∨ Reports G limits who id (k outcome)) : Reports G limits who id (p >>= k) := by
  intro faults s
  refine Climbs.bind (hp faults s) fun outcome s' _ houtcome => ?_
  rcases hk outcome with hrepeats | hreports
  · refine (hrepeats faults s').mono (fun found s'' hs'' heq receipt hfound => ?_) fun _ _ _ h => h
    exact (houtcome receipt (heq ▸ hfound)).mono hs''
  · exact hreports faults s'

theorem Reports.throw (e : SidecarError) : Reports G limits who id (Program.throw e : Program L State SidecarError ReviewOutcome) :=
  fun _ _ => Climbs.throw trivial

theorem Reports.pure {outcome : ReviewOutcome} (h : ∀ receipt, outcome ≠ .decisionCommitted receipt) :
    Reports G limits who id (Pure.pure outcome : Program L State SidecarError ReviewOutcome) :=
  fun _ _ => Climbs.pure fun receipt heq => absurd heq (h receipt)

theorem Reports.relabel {f : L → M} (h : Reports G limits who id p) : Reports G limits who id (p.relabel f) :=
  fun faults s => Climbs.relabel (h (faults ∘ f) s)

end

theorem denial_reports {L : Type} {f : TransitionStep → L} (hG : G.Lawful K) (state : ReviewState) :
    Reports G limits who id (do
      (transitionTerminal G id state).relabel f
      pure .terminalDenial) :=
  Reports.bind (Within.relabel (transitionTo_registers hG state .terminalDenial)) fun _ => Reports.pure nofun

theorem markOutcomeUnknown_reports (hG : G.Lawful K) (state : ReviewState) (hasIntent : Bool) :
    Reports G limits who id (markOutcomeUnknown G id state hasIntent) := by
  unfold markOutcomeUnknown
  split
  · refine Reports.bind (transitionState_registers hG .outcomeUnknown 3 state) fun reached => ?_
    cases reached with
    | outcomeUnknown => exact Reports.pure nofun
    | terminalDenial => exact Reports.pure nofun
    | _ => exact Reports.throw _
  · exact Reports.throw _

theorem publishDecision_stays (hG : G.Lawful K) (decision : HumanDecision) (r : Repository) :
    Stays r (G.publishDecision decision r).2 := by
  rcases hG.publishDecision (Prod.eta (G.publishDecision decision r)).symm with ⟨-, hswap⟩ | ⟨-, hgrows⟩
  · exact hswap.objects
  · exact hgrows.objects

theorem validateCommittedCandidate_registers (hG : G.Lawful K) (binding : ReviewBinding) (intent : DecisionIntent) :
    Within (Registers G who) (validateCommittedCandidate K G config binding intent) := by
  refine Within.bind (readRepository_registers _) fun _ => Within.bind (readRepository_registers _) fun controls => ?_
  refine Within.bind (callRepository_registers fun r => ?_) fun _ => ?_
  · have hstays := publishDecision_stays hG (authority controls binding intent) r
    split
    · next heq =>
      rw [heq] at hstays
      exact hstays
    · next heq =>
      rw [heq] at hstays
      exact hstays
  · refine Within.bind (readRepository_registers _) fun _ => Within.bind (readRepository_registers _) fun contained => ?_
    split
    · exact Within.pure _
    · exact Within.throw _

section
variable {faults : ReconcileStep → Fault.Outcome}

theorem decisionReceipt_reports {review : Review} (h : HasIntent s id review.binding intent) :
    Climbs (Registers G who) (decisionReceipt G config review.binding intent) faults s
      (fun receipt s' => Receipted G config.artifactLimits s' id receipt) fun _ _ => True :=
  decisionReceipt_climbs.mono (fun _ s' _ hreceipt => by
    obtain ⟨rfl, hreceipt⟩ := hreceipt
    exact ⟨review.binding, intent, h, hreceipt⟩) fun _ _ _ h => h

theorem reconcileRefs_reports {review : Review} {found : Option DecisionIntent} (hG : G.Lawful K)
    (h : ∀ intent, found = some intent → HasIntent s id review.binding intent) (proposal decision : Option Oid) :
    Climbs (Registers G who) (reconcileRefs K G config id review found proposal decision) faults s
      (fun outcome s' => ∀ receipt, outcome = .decisionCommitted receipt → Receipted G config.artifactLimits s' id receipt)
      fun _ _ => True := by
  have hdeny : Reports G config.artifactLimits who id (do
      (transitionTerminal G id review.state).relabel ReconcileStep.settle
      pure .terminalDenial) := denial_reports hG review.state
  unfold reconcileRefs
  dsimp only
  split
  · exact hdeny faults s
  refine Climbs.bind ((Within.ofExcept _).climbs faults s) fun current s₁ hs₁ _ => ?_
  split
  · refine Climbs.ofExcept (fun outcome houtcome receipt heq => ?_) fun _ _ => trivial
    rw [heq] at houtcome
    unfold undecided at houtcome
    split at houtcome <;> cases houtcome
  split
  · exact hdeny faults s₁
  · next intent =>
    split
    · exact Climbs.throw trivial
    refine Climbs.bind ((readRepository_registers _).climbs faults s₁) fun contained s₂ hs₂ _ => ?_
    split
    · refine Climbs.bind ((validateCommittedCandidate_registers hG _ _).climbs faults s₂) fun _ s₃ hs₃ _ => ?_
      have hsettle : Within (Registers G who) ((transitionCommitted G id review.state).relabel ReconcileStep.settle) :=
        Within.relabel (transitionTo_registers hG _ _)
      refine Climbs.bind (hsettle.climbs faults s₃) fun _ s₄ hs₄ _ => ?_
      refine Climbs.bind (decisionReceipt_reports
        (((((h intent rfl).mono hs₁).mono hs₂).mono hs₃).mono hs₄)) fun receipt s₅ _ hreceipt => ?_
      exact Climbs.pure fun found heq => by
        cases heq
        exact hreceipt
    · exact hdeny faults s₂

end

theorem reconcileParsed_reports (hG : G.Lawful K) : Reports G config.artifactLimits who id (reconcileParsed K G config id) := by
  refine Reports.bind (Within.failpoint _ _) fun _ => Reports.andThen ?_ fun outcome => .inl ?_
  · refine Reports.bind (Within.failpoint _ _) fun _ faults s => ?_
    refine Climbs.bind (V := fun review s' => s'.journal.reviews[id]? = some review) (Climbs.look
      (fun review h _ => getReview_ok h) (fun _ _ => trivial) fun _ => trivial) fun review s₁ _ hreview => ?_
    refine Climbs.bind (V := fun _ s' => s'.journal.reviews[id]? = some review)
      (Climbs.ofExcept (fun _ _ => hreview) fun _ _ => trivial) fun _ s₂ _ hreview => ?_
    refine Climbs.bind (V := fun found s' => ∀ intent, found = some intent → HasIntent s' id review.binding intent)
      (Climbs.look (fun found h _ => ?_) (fun _ _ => trivial) fun _ => trivial) fun found s₃ _ hfound => ?_
    · cases h
      exact fun intent hintent => ⟨⟨review, hreview, rfl⟩, hintent⟩
    have hrefs : Within (Registers G who) (attempt (do
        failpoint .storage .openRepository
        let proposal ← readRepository .storage .proposalRef fun r => .ok r.refs[review.binding.proposalRefName]?
        let decision ← readRepository .storage .decisionRef fun r => .ok r.refs[review.binding.decisionRefName]?
        pure (proposal, decision) : Program ReconcileStep State SidecarError (Option Oid × Option Oid))) :=
      Within.attempt (Within.bind (Within.failpoint _ _) fun _ => Within.bind (readRepository_registers _) fun _ =>
        Within.bind (readRepository_registers _) fun _ => Within.pure _)
    refine Climbs.bind (hrefs.climbs faults s₃) fun refs s₄ hs₄ _ => ?_
    split
    · exact Reports.relabel (markOutcomeUnknown_reports hG _ _) faults s₄
    · exact reconcileRefs_reports hG (fun intent heq => (hfound intent heq).mono hs₄) _ _
  · exact Repeats.bind (Within.failpoint _ _) fun _ => Repeats.pure outcome

theorem transitionRetryable_reports (hG : G.Lawful K) : Reports G config.artifactLimits who id (transitionRetryable K G config id) := by
  refine Reports.bind (Within.failpoint _ _) fun _ => Reports.bind (Within.look _ _ _) fun review => ?_
  refine Reports.bind (Within.relabel (transitionState_registers hG .retryableFailure 3 review.state)) fun reached => ?_
  cases reached with
  | retryableFailure => exact Reports.pure nofun
  | outcomeUnknown => exact Reports.pure nofun
  | terminalDenial => exact Reports.pure nofun
  | decisionCommitted => exact Reports.relabel (reconcileParsed_reports hG)
  | pendingReview => exact Reports.throw _

/-! ## Publication -/

section
variable {L : Type}

theorem validateLiveBinding_registers (proposalRef decisionRef proposalHead proposal : L) (binding : ReviewBinding) :
    Within (Registers G who) (validateLiveBinding K G config proposalRef decisionRef proposalHead proposal binding) := by
  refine Within.bind (Within.ofExcept _) fun _ => ?_
  refine Within.bind (readRepository_registers _) fun _ => Within.bind (readRepository_registers _) fun _ => ?_
  split
  · exact Within.throw _
  split
  · exact Within.throw _
  · exact Within.bind (readRepository_registers _) fun _ => readRepository_registers _

theorem callSynapse_registers (hG : G.Lawful K) (binding : ReviewBinding) (intent : DecisionIntent)
    (disposition : ArtifactDisposition) : Within (Registers G who) (callSynapse K G config binding intent disposition) := by
  refine Within.bind (Within.failpoint _ _) fun _ => Within.bind ?_ fun _ => Within.failpoint _ _
  unfold publishRecoveredDecision
  split
  · exact Within.throw _
  refine Within.bind (Within.failpoint _ _) fun _ => Within.bind (validateLiveBinding_registers _ _ _ _ _) fun _ => ?_
  refine Within.bind (readRepository_registers _) fun _ => Within.bind (readRepository_registers _) fun controls => ?_
  refine Within.bind (readRepository_registers _) fun found => ?_
  split
  · exact Within.throw _
  refine Within.bind (readRepository_registers _) fun _ => Within.bind (readRepository_registers _) fun _ => ?_
  refine Within.bind (Within.failpoint _ _) fun _ => Within.bind (callRepository_registers fun r => ?_) fun receipt => ?_
  · rcases hG.publishHumanDecision (Prod.eta (G.publishHumanDecision (authority controls binding intent) r)).symm with
      ⟨-, hswap⟩ | ⟨-, hgrows⟩
    · exact hswap.objects
    · exact hgrows.objects
  · refine Within.bind (Within.failpoint _ _) fun _ => ?_
    split
    · exact Within.throw _
    · exact Within.pure _

end

/-! ## Decisions -/

section
variable {L : Type} {faults : L → Fault.Outcome}

/-- The registered intent states the disposition of the request. -/
theorem registerDecisionIntent_registers {before register after : L} {request : DecisionIntentRequest} {review : Review}
    (hG : G.Lawful K) (hreview : s.journal.reviews[id]? = some review)
    (hdisposition : dispositionFromFeedback G s.repository request.feedbackOid review.binding.proposalHead = .ok disposition) :
    Climbs (Registers G (some (id, disposition))) (registerDecisionIntent G before register after id request) faults s
      (fun _ _ => True) fun _ _ => True := by
  refine Climbs.bind (V := fun _ s' => s' = s) (Climbs.failpoint (fun _ => rfl) fun _ => trivial) ?_
  rintro - s' - rfl
  refine Climbs.bind (V := fun _ _ => True) (Climbs.call ?_ (fun _ _ _ _ => trivial) (fun _ _ _ _ => trivial) trivial trivial)
    fun answer s₂ _ _ => ?_
  · rcases hG.registerDecisionIntent (Prod.eta (G.registerDecisionIntent id request s'.journal)).symm with
      ⟨heq, -⟩ | ⟨intent, -, -, hfresh, rfl, heq⟩
    · rw [heq]
      exact Std.Refl.refl (r := Registers G _) s'
    · rw [heq]
      exact registers_register hreview (Std.ExtTreeMap.getElem?_eq_none hfresh) hdisposition
  · refine Climbs.bind ((Within.ofExcept _).climbs faults s₂) fun intent s₃ _ _ => ?_
    exact (Within.bind (Within.failpoint _ _) fun _ => Within.pure _).climbs faults s₃

end

theorem createDecisionIntent_registers {review : Review} {idempotencyKey : Bytes} {faults : IntentStep → Fault.Outcome}
    (hG : G.Lawful K) (hreview : s.journal.reviews[id]? = some review) :
    Climbs (Registers G (some (id, disposition)))
      (createDecisionIntent K G config id review.binding disposition idempotencyKey) faults s
      (fun _ _ => True) fun _ _ => True := by
  refine Climbs.bind ((Within.failpoint _ _).climbs faults s) fun _ s₁ hs₁ _ => ?_
  refine Climbs.bind ((validateLiveBinding_registers _ _ _ _ _).climbs faults s₁) fun _ s₂ hs₂ _ => ?_
  refine Climbs.bind ((readRepository_registers _).climbs faults s₂) fun _ s₃ hs₃ _ => ?_
  refine Climbs.bind ((readRepository_registers _).climbs faults s₃) fun controls s₄ hs₄ _ => ?_
  refine Climbs.bind ((readRepository_registers _).climbs faults s₄) fun snapshot s₅ hs₅ _ => ?_
  refine Climbs.bind ((Within.failpoint _ _).climbs faults s₅) fun _ s₆ hs₆ _ => ?_
  refine Climbs.bind ((putJson_loads hG (fun _ hgrows => registers_of_stays hgrows.objects rfl) feedbackRecord_kind
    nofun).mono (fun _ _ _ h => h) fun _ _ _ _ => trivial) ?_
  rintro feedbackOid s₇ hs₇ ⟨-, hfeedback⟩
  refine Climbs.bind ((Within.failpoint _ _).climbs faults s₇) fun _ s₈ hs₈ _ => ?_
  refine Climbs.bind ((Within.failpoint _ _).climbs faults s₈) fun _ s₉ hs₉ _ => ?_
  refine Climbs.bind ((putJson_registers hG _).climbs faults s₉) fun candidateHead s₁₀ hs₁₀ _ => ?_
  refine Climbs.bind ((Within.failpoint _ _).climbs faults s₁₀) fun _ s₁₁ hs₁₁ _ => ?_
  refine Climbs.bind ((Within.ofExcept _).climbs faults s₁₁) fun request s₁₂ hs₁₂ _ => ?_
  have hbefore : Registers G (some (id, disposition)) s s₇ :=
    IsTrans.trans _ _ _ hs₁ (IsTrans.trans _ _ _ hs₂ (IsTrans.trans _ _ _ hs₃ (IsTrans.trans _ _ _ hs₄
      (IsTrans.trans _ _ _ hs₅ (IsTrans.trans _ _ _ hs₆ hs₇)))))
  have hafter : Registers G (some (id, disposition)) s₇ s₁₂ :=
    IsTrans.trans _ _ _ hs₈ (IsTrans.trans _ _ _ hs₉ (IsTrans.trans _ _ _ hs₁₀ (IsTrans.trans _ _ _ hs₁₁ hs₁₂)))
  obtain ⟨review', hreview', hbinding⟩ := (IsTrans.trans _ _ _ hbefore hafter).bindings id review hreview
  refine registerDecisionIntent_registers hG hreview' ?_
  rw [hbinding]
  exact feedbackRecord_disposition (loadValue_mono hafter.stays hfeedback)

theorem decisionIntent_registers {review : Review} {idempotencyKey : Bytes} {faults : DecideStep → Fault.Outcome}
    (hG : G.Lawful K) (hreview : s.journal.reviews[id]? = some review) :
    Climbs (Registers G (some (id, disposition)))
      (decisionIntent K G config id review.binding disposition idempotencyKey) faults s
      (fun _ _ => True) fun _ _ => True := by
  refine Climbs.bind (V := fun _ s' => s' = s) (Climbs.look (fun _ _ _ => rfl) (fun _ _ => trivial) fun _ => trivial) ?_
  rintro found s' - rfl
  split
  · next existing =>
    refine Climbs.bind (V := fun _ s => s = s') (Climbs.failpoint (fun _ => rfl) fun _ => trivial) ?_
    rintro - s - rfl
    refine Climbs.bind (V := fun found s' => s' = s ∧
        dispositionFromFeedback G s.repository existing.feedbackOid review.binding.proposalHead = .ok found)
      (Climbs.look (fun _ h _ => ⟨rfl, h⟩) (fun _ _ => trivial) fun _ => trivial) ?_
    rintro found s' - ⟨rfl, hfound⟩
    split
    · exact Climbs.throw trivial
    · next hsame =>
      rw [not_not] at hsame
      refine Climbs.bind (V := fun _ s => s = s') (Climbs.ofExcept (fun _ _ => rfl) fun _ _ => trivial) ?_
      rintro request s - rfl
      exact registerDecisionIntent_registers hG hreview (hsame ▸ hfound)
  · exact Climbs.relabel (createDecisionIntent_registers hG hreview)

/-- A decision registers no intent but one of its review that states its disposition. -/
theorem decide_reports {rationale : Option Text} {idempotencyKey : Bytes} (hG : G.Lawful K) :
    Reports G config.artifactLimits (some (id, disposition)) id (decide K G config id disposition rationale idempotencyKey) := by
  refine Reports.bind (Within.ofExcept _) fun _ => Reports.bind (Within.ofExcept _) fun _ => ?_
  refine Reports.bind (Within.ofExcept _) fun _ => Reports.bind (Within.failpoint _ _) fun _ faults s => ?_
  refine Climbs.bind (V := fun review s' => s'.journal.reviews[id]? = some review) (Climbs.look
    (fun review h _ => getReview_ok h) (fun _ _ => trivial) fun _ => trivial) fun review s₁ _ hreview => ?_
  refine Climbs.bind (V := fun _ s' => s'.journal.reviews[id]? = some review)
    (Climbs.ofExcept (fun _ _ => hreview) fun _ _ => trivial) fun _ s₂ _ hreview => ?_
  refine Climbs.bind (decisionIntent_registers hG hreview) fun intent s₃ _ _ => ?_
  have hcall : Within (Registers G (some (id, disposition)))
      (attempt ((callSynapse K G config review.binding intent disposition).relabel DecideStep.call)) :=
    Within.attempt (Within.relabel (callSynapse_registers hG _ _ _))
  refine Reports.climbs (Reports.andThen (Reports.relabel (reconcileParsed_reports hG)) fun observed => ?_)
  cases observed with
  | pendingReview | retryableFailure =>
    refine .inr (Reports.bind hcall fun published => ?_)
    split
    · exact Reports.relabel (reconcileParsed_reports hG)
    · refine Reports.andThen (Reports.relabel (reconcileParsed_reports hG)) fun outcome => ?_
      split
      · refine .inr ?_
        split
        · exact Reports.relabel (transitionRetryable_reports hG)
        · exact denial_reports hG _
      · exact .inl (Repeats.pure outcome)
  | _ => exact .inl (Repeats.pure _)

/-! ## Resumptions -/

theorem settlePublication_reports (hG : G.Lawful K) (publicationError : SidecarError) (outcome : ReviewOutcome) :
    Repeats G who outcome (settlePublication K G config id publicationError outcome) ∨
      Reports G config.artifactLimits who id (settlePublication K G config id publicationError outcome) := by
  cases outcome with
  | decisionCommitted receipt => exact .inl (Repeats.pure _)
  | terminalDenial => exact .inl (Repeats.pure _)
  | pendingReview =>
    refine .inr ?_
    unfold settlePublication
    dsimp only
    split
    · exact Reports.relabel (transitionRetryable_reports hG)
    · exact denial_reports hG _
  | retryableFailure =>
    refine .inr ?_
    unfold settlePublication
    dsimp only
    split
    · exact Reports.pure nofun
    · exact denial_reports hG _
  | outcomeUnknown =>
    refine .inr ?_
    unfold settlePublication
    dsimp only
    split
    · exact Reports.pure nofun
    · exact denial_reports hG _

/-- A resumption registers no intent. -/
theorem resume_reports (hG : G.Lawful K) : Reports G config.artifactLimits who id (resume K G config id) := by
  have hreconcile : Reports G config.artifactLimits who id (reconcile K G config id) :=
    Reports.bind (Within.ofExcept _) fun _ => reconcileParsed_reports hG
  refine Reports.andThen (Reports.relabel hreconcile) fun observed => ?_
  have hpublication : ∀ binding intent, Within (Registers G who) (recoveredPublication K G config binding intent) :=
    fun binding intent => Within.bind (Within.failpoint _ _) fun _ => Within.bind (readRepository_registers _) fun _ =>
      Within.relabel (callSynapse_registers hG _ _ _)
  cases observed with
  | decisionCommitted receipt => exact .inl (Repeats.bind (Within.ofExcept _) fun _ => Repeats.pure _)
  | terminalDenial => exact .inl (Repeats.bind (Within.ofExcept _) fun _ => Repeats.pure _)
  | pendingReview | retryableFailure | outcomeUnknown =>
    refine .inr (Reports.bind (Within.ofExcept _) fun _ => Reports.bind (Within.failpoint _ _) fun _ => ?_)
    refine Reports.bind (Within.look _ _ _) fun review => Reports.bind (Within.ofExcept _) fun _ => ?_
    split
    · exact Reports.relabel (reconcileParsed_reports hG)
    refine Reports.bind (Within.look _ _ _) fun found => ?_
    split
    · exact Reports.pure nofun
    split
    · exact Reports.throw _
    · refine Reports.bind (Within.attempt (hpublication _ _)) fun published => ?_
      split
      · exact Reports.relabel (reconcileParsed_reports hG)
      · exact Reports.andThen (Reports.relabel (reconcileParsed_reports hG)) fun outcome =>
          settlePublication_reports hG _ outcome

/-! ## Proposals -/

theorem ensureBootstrap_registers (hG : G.Lawful K) (accepted : RegularFileManifest) :
    Within (Registers G who) (ensureBootstrap K G config accepted) := by
  have hexpected : Within (Registers G who) (expectedControls K G config) :=
    Within.bind (putJson_registers hG _) fun _ => Within.bind (putJson_registers hG _) fun _ =>
      Within.bind (putJson_registers hG _) fun _ => Within.bind (putJson_registers hG _) fun _ =>
        Within.bind (putJson_registers hG _) fun _ => Within.pure _
  refine Within.bind (readRepository_registers _) fun current => ?_
  split
  · exact Within.bind (readControls_registers _ _) fun _ => Within.pure _
  refine Within.bind (readRepository_registers _) fun _ => Within.bind hexpected fun controls => ?_
  refine Within.bind (mapFiles_registers hG _) fun mapped => Within.bind (putJson_registers hG _) fun controlTree => ?_
  refine Within.bind (putJson_registers hG _) fun snapshot => Within.bind (putJson_registers hG _) fun baseHead => ?_
  refine Within.bind (Within.failpoint _ _) fun _ => Within.bind (callRepository_registers fun r => ?_) fun updated => ?_
  · rcases hG.updateRef (Prod.eta (G.updateRef config.decisionRef baseHead r)).symm with ⟨-, hswap⟩ | ⟨-, hgrows⟩
    · exact hswap.objects
    · exact hgrows.objects
  · split
    · exact Within.pure _
    split
    · refine Within.bind (readRepository_registers _) fun _ => ?_
      exact Within.bind (readControls_registers _ _) fun _ => Within.pure _
    · exact Within.throw _

theorem registers_addReview {binding : ReviewBinding} (hfresh : id ∉ s.journal.reviews) :
    Registers G who s (addReview id binding s) where
  stays := fun _ _ h => h
  bindings := fun other found hfound => by
    have hne : id ≠ other := by
      rintro rfl
      exact hfresh (Std.ExtTreeMap.mem_iff_isSome_getElem?.mpr (by rw [hfound]; rfl))
    exact ⟨found, (getElem?_insert_ne hne).trans hfound, rfl⟩
  intents := fun _ _ h => h
  fresh := fun _ _ hnone h => by
    rw [show (addReview id binding s).journal.intents = s.journal.intents from rfl, hnone] at h
    cases h

theorem registerReview_registers (hG : G.Lawful K) (operationKey : Text) (proposalHead baseHead : Oid)
    (digests : ProposalDigests) :
    Within (Registers G who) (registerReview K G config operationKey proposalHead baseHead digests) := by
  refine Within.bind (Within.ofExcept _) fun _ => Within.bind (Within.failpoint _ _) fun _ => ?_
  refine Within.bind (callJournal_registers fun s => ?_) fun _ => Within.bind (Within.ofExcept _) fun _ => Within.pure _
  generalize ({ projectScope := (WorkflowIds.fromKey K config.projectKey).project, .. } : ReviewBinding) = binding
  rcases hG.createOrGetReview (Prod.eta (G.createOrGetReview binding s.journal)).symm with
    ⟨heq, -⟩ | ⟨id, -, hfresh, -, heq⟩
  · rw [heq]
    exact Std.Refl.refl (r := Registers G who) s
  · rw [heq]
    exact registers_addReview hfresh

theorem replayExistingProposal_registers (hG : G.Lawful K) (operationKey : Text) (proposalHead : Oid)
    (digests : ProposalDigests) :
    Within (Registers G who) (replayExistingProposal K G config operationKey proposalHead digests) := by
  refine Within.bind (readRepository_registers _) fun _ => Within.bind (readRepository_registers _) fun baseHead => ?_
  refine Within.bind (readRepository_registers _) fun current => ?_
  split
  · exact Within.throw _
  · refine Within.bind (readRepository_registers _) fun _ => Within.bind (readControls_registers _ _) fun _ => ?_
    exact Within.relabel (registerReview_registers hG _ _ _ _)

theorem proposalHasTerminalDenial_registers (proposalRef : Text) (proposalHead : Oid) :
    Within (Registers G who) (proposalHasTerminalDenial K G config proposalRef proposalHead) := by
  refine Within.bind (readRepository_registers _) fun _ => Within.bind (readRepository_registers _) fun baseHead => ?_
  refine Within.bind (readRepository_registers _) fun _ => Within.bind (readControls_registers _ _) fun _ => ?_
  refine Within.bind (readRepository_registers _) fun _ => Within.bind (readRepository_registers _) fun _ => ?_
  refine Within.bind (readRepository_registers _) fun _ => Within.bind (readRepository_registers _) fun contained => ?_
  split
  · refine Within.bind (Within.ofExcept _) fun _ => Within.bind (Within.ofExcept _) fun _ => ?_
    exact Within.bind (Within.failpoint _ _) fun _ => Within.look _ _ _
  · exact Within.throw _

theorem refuseActiveReviews_registers (baseHead : Oid) (proposals : List (Text × Oid)) :
    Within (Registers G who) (refuseActiveReviews K G config baseHead proposals) := by
  induction proposals with
  | nil => exact Within.pure _
  | cons proposal proposals ih =>
    refine Within.bind (readRepository_registers _) fun decided => ?_
    split
    · exact ih
    refine Within.bind (Within.relabel (proposalHasTerminalDenial_registers _ _)) fun denied => ?_
    split
    · exact ih
    · exact Within.throw _

theorem writeProposal_registers (hG : G.Lawful K) (input : ProposalInput) (canonicalContext : Bytes) (baseHead : Oid)
    (controls : Controls) :
    Within (Registers G who) (writeProposal K G config input canonicalContext baseHead controls) := by
  refine Within.bind (mapFiles_registers hG _) fun mapped => Within.bind (callRepository_registers fun r => ?_)
    fun contextBlob => ?_
  · exact (hG.putBlob (Prod.eta (G.putBlob canonicalContext r)).symm).objects
  · refine Within.bind (putJson_registers hG _) fun _ => Within.bind (putJson_registers hG _) fun _ => ?_
    refine Within.bind (readRepository_registers _) fun base => Within.bind (putJson_registers hG _) fun _ => ?_
    exact Within.bind (putJson_registers hG _) fun _ => Within.pure _

theorem publishProposal_registers (hG : G.Lawful K) (input : ProposalInput) (baseHead : Oid) (digests : ProposalDigests)
    (proposal : AiProposal) : Within (Registers G who) (publishProposal K G config input baseHead digests proposal) := by
  refine Within.bind (readRepository_registers _) fun _ => Within.bind (callRepository_registers fun r => ?_)
    fun published => ?_
  · rcases hG.executeAndPublishAi (Prod.eta (G.executeAndPublishAi proposal r)).symm with ⟨-, hswap⟩ | ⟨-, hgrows⟩
    · exact hswap.objects
    · exact hgrows.objects
  split
  · split
    · exact Within.throw _
    · exact Within.relabel (registerReview_registers hG _ _ _ _)
  split
  · refine Within.bind (Within.failpoint _ _) fun _ => Within.bind (readRepository_registers _) fun existing => ?_
    split
    · exact Within.throw _
    · exact Within.relabel (replayExistingProposal_registers hG _ _ _)
  · exact Within.throw _

/-- A proposal registers no intent. -/
theorem beginProposal_registers (hG : G.Lawful K) (input : ProposalInput) :
    Within (Registers G who) (beginProposal K G config input) := by
  refine Within.bind (Within.ofExcept _) fun _ => Within.bind (Within.ofExcept _) fun canonicalContext => ?_
  refine Within.bind (Within.failpoint _ _) fun _ => ?_
  refine Within.bind (Within.relabel (ensureBootstrap_registers hG _)) fun bootstrap => ?_
  refine Within.bind (readRepository_registers _) fun current => ?_
  split
  · exact Within.throw _
  refine Within.bind (readRepository_registers _) fun refs => ?_
  split
  · exact Within.relabel (replayExistingProposal_registers hG _ _ _)
  · refine Within.bind (refuseActiveReviews_registers _ _) fun _ => ?_
    refine Within.bind (writeProposal_registers hG _ _ _ _) fun proposal => ?_
    exact publishProposal_registers hG _ _ _ _

end LpStudio.Synapse
