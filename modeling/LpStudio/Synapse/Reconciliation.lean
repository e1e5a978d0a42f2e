import LpStudio.Synapse.Invariant

/-! # Reconciliation keeps the invariant
What a reconciliation leaves and what its outcome says about the state: the outcome is the recorded state, a receipt is
read off the registered intent, and an undecided outcome is one at the base of the review, unless the repository could
not be read.
-/
namespace LpStudio.Synapse
open Str Fault Fault.Program Ancestry Outcome

variable {K : Crates} {G : SynapseGit} {D : Text} {config : SidecarConfig} {id : Text} {s s' : State} {review : Review}
  {intent : DecisionIntent} {who : Option Text} {P : Text → Prop}

/-! ## Steps -/

section
variable {L α : Type} {io : SidecarError} {label : L} {faults : L → Fault.Outcome} {V : α → State → Prop}
  {E : SidecarError → State → Prop} {R : State → State → Prop} [IsPreorder State R]

theorem readRepository_climbs {f : Repository → Except SidecarError α}
    (hok : ∀ a, f s.repository = .ok a → faults label = .done → V a s) (herror : ∀ e, f s.repository = .error e → E e s)
    (hE : faults label ≠ .done → E io s) : Climbs R (readRepository io label f) faults s V E :=
  Climbs.look hok herror hE

/-- A read whose own errors do not matter. -/
theorem readRepository_any {f : Repository → Except SidecarError α} (hok : ∀ a, f s.repository = .ok a → V a s)
    (hE : ∀ e, E e s) : Climbs R (readRepository io label f) faults s V E :=
  readRepository_climbs (fun a h _ => hok a h) (fun e _ => hE e) fun _ => hE io

theorem callRepository_climbs {f : Repository → Except SidecarError α × Repository}
    (hR : R s { s with repository := (f s.repository).2 })
    (hok : ∀ a r', f s.repository = (.ok a, r') → V a { s with repository := r' })
    (herror : ∀ e r', f s.repository = (.error e, r') → E e { s with repository := r' })
    (hE : E io s) (hE' : E io { s with repository := (f s.repository).2 }) :
    Climbs R (callRepository io label f) faults s V E := by
  refine Climbs.call hR (fun a s' heq _ => ?_) (fun e s' heq _ => ?_) hE hE'
  · obtain ⟨hanswer, rfl⟩ := Prod.mk.inj heq
    exact hok a _ (Prod.ext hanswer rfl)
  · obtain ⟨hanswer, rfl⟩ := Prod.mk.inj heq
    exact herror e _ (Prod.ext hanswer rfl)

theorem callJournal_climbs {f : Journal → Except JournalError α × Journal} {V : Except JournalError α → State → Prop}
    (hR : R s { s with journal := (f s.journal).2 })
    (hV : V (f s.journal).1 { s with journal := (f s.journal).2 }) (hE : E .storage s)
    (hE' : E .storage { s with journal := (f s.journal).2 }) :
    Climbs R (callJournal label f) faults s V E := by
  refine Climbs.call hR (fun a s' heq _ => ?_) (fun e s' heq _ => ?_) hE hE'
  · obtain ⟨hanswer, rfl⟩ := Prod.mk.inj heq
    exact Except.ok.inj hanswer ▸ hV
  · cases (Prod.mk.inj heq).1

end

/-! ## The recorded state -/

/-- Nothing but the recorded state of a review changes. -/
def SameButState (s s' : State) : Prop :=
  s'.repository = s.repository ∧ s'.journal.intents = s.journal.intents

/-- The review is recorded in a state. -/
def RecordedAs (id : Text) (s : State) (state : ReviewState) : Prop :=
  (s.journal.reviews[id]?).map (·.state) = some state

theorem RecordedAs.found {state : ReviewState} (h : RecordedAs id s state) :
    ∃ review, s.journal.reviews[id]? = some review ∧ review.state = state := Option.map_eq_some_iff.mp h

theorem not_final_of_not_settled {observed target : ReviewState} (h : ¬settled observed target = true) :
    ¬Final observed := by
  rintro (rfl | rfl)
  · exact h (by cases target <;> rfl)
  · exact h (by cases target <;> rfl)

section
variable {target observed : ReviewState} {faults : TransitionStep → Fault.Outcome}

theorem transitionState_climbs (hG : G.Lawful K) (hobserved : RecordedAs id s observed)
    (hallowed : Allowed G D s id target) (rounds : ℕ) :
    Climbs (Keeps K G D P (some id)) (transitionState G id target rounds observed) faults s
      (fun reached s' => SameButState s s' ∧ RecordedAs id s' reached) fun _ s' => SameButState s s' := by
  induction rounds generalizing observed with
  | zero => exact Climbs.throw ⟨rfl, rfl⟩
  | succ rounds ih =>
    unfold transitionState
    split
    · exact Climbs.pure ⟨⟨rfl, rfl⟩, hobserved⟩
    · next hsettled =>
      obtain ⟨review, hreview, hstate⟩ := hobserved.found
      have hfinal : ¬Final review.state := hstate ▸ not_final_of_not_settled hsettled
      refine Climbs.bind (Climbs.failpoint (V := fun _ s' => s' = s) (fun _ => rfl) fun _ => ⟨rfl, rfl⟩) ?_
      rintro - s' - rfl
      have hlaw := hG.transitionReviewState (Prod.eta (G.transitionReviewState id observed target s'.journal)).symm
      refine Climbs.bind (V := fun answer s'' =>
        (s'' = s' ∧ ∃ e, answer = .error e ∧ ∀ actual, e = .stateConflict actual → RecordedAs id s' actual) ∨
          (answer = .ok target ∧ s'' = record id target s')) (callJournal_climbs ?_ ?_ ⟨rfl, rfl⟩ ?_) ?_
      · rcases hlaw with ⟨heq, -⟩ | ⟨-, -, heq⟩
        · rw [heq]
          exact Std.Refl.refl (r := Keeps K G D P (some id)) s'
        · rw [heq]
          exact keeps_record hreview hfinal hallowed
      · rcases hlaw with ⟨heq, herror⟩ | ⟨hanswer, -, heq⟩
        · exact .inl ⟨by rw [heq], herror⟩
        · exact .inr ⟨hanswer, by rw [heq]; rfl⟩
      · rcases hlaw with ⟨heq, -⟩ | ⟨-, -, heq⟩
        · rw [heq]
          exact ⟨rfl, rfl⟩
        · rw [heq]
          exact ⟨rfl, rfl⟩
      · rintro answer s'' - (⟨rfl, e, rfl, hconflict⟩ | ⟨rfl, rfl⟩)
        · cases e with
          | stateConflict actual => exact ih (hconflict actual rfl)
          | _ => exact Climbs.throw ⟨rfl, rfl⟩
        · refine Climbs.pure ⟨⟨rfl, rfl⟩, ?_⟩
          unfold RecordedAs
          rw [record_reviews, if_pos rfl, hreview]
          rfl

theorem transitionTo_climbs (hG : G.Lawful K) (hobserved : RecordedAs id s observed)
    (hallowed : Allowed G D s id target) :
    Climbs (Keeps K G D P (some id)) (transitionTo G id observed target) faults s
      (fun _ s' => SameButState s s' ∧ RecordedAs id s' target) fun _ s' => SameButState s s' := by
  refine Climbs.bind (transitionState_climbs hG hobserved hallowed 3) ?_
  rintro reached s' - ⟨hsame, hreached⟩
  split
  · next heq => exact Climbs.pure ⟨hsame, heq ▸ hreached⟩
  · exact Climbs.throw hsame

end

/-! ## What an outcome says -/

def recordedState : ReviewOutcome → ReviewState
  | .pendingReview => .pendingReview
  | .retryableFailure => .retryableFailure
  | .outcomeUnknown => .outcomeUnknown
  | .terminalDenial => .terminalDenial
  | .decisionCommitted _ => .decisionCommitted

/-- A receipt of the intent of a review: its disposition, and the manifest of the commit that it selects. -/
structure IsReceipt (G : SynapseGit) (limits : ArtifactLimits) (r : Repository) (binding : ReviewBinding)
    (intent : DecisionIntent) (receipt : SidecarDecisionReceipt) : Prop where
  disposition : dispositionFromFeedback G r intent.feedbackOid binding.proposalHead = .ok receipt.disposition
  digest : manifestDigestAtCommit G r limits (selectedCommit binding receipt.disposition) =
    .ok receipt.reviewedArtifactManifestSha256
  snapshot : receipt.selectedSnapshot = selectedSnapshot receipt.disposition

theorem IsReceipt.mono {limits : ArtifactLimits} {r r' : Repository} {binding : ReviewBinding}
    {receipt : SidecarDecisionReceipt} (h : IsReceipt G limits r binding intent receipt) (hstays : Stays r r') :
    IsReceipt G limits r' binding intent receipt where
  disposition := dispositionFromFeedback_mono hstays h.disposition
  digest := manifestDigestAtCommit_mono hstays h.digest
  snapshot := h.snapshot

/-- The outcome is what is recorded of the review, and a receipt is one of the registered intent. -/
structure Answers (G : SynapseGit) (limits : ArtifactLimits) (id : Text) (s : State) (outcome : ReviewOutcome) : Prop where
  recorded : RecordedAs id s (recordedState outcome)
  receipt : ∀ receipt, outcome = .decisionCommitted receipt → ∃ (review : Review) (intent : DecisionIntent),
    s.journal.reviews[id]? = some review ∧ s.journal.intents[id]? = some intent ∧
      IsReceipt G limits s.repository review.binding intent receipt

/-- What a reconciliation from `s` leaves. While the outcome is not final the decision is at the base of the review,
unless the outcome is unknown and the repository was not readable. -/
structure Seen (G : SynapseGit) (D : Text) (limits : ArtifactLimits) (id : Text) (readable : Prop) (s s' : State)
    (outcome : ReviewOutcome) : Prop extends Answers G limits id s' outcome where
  refs : s'.repository.refs = s.repository.refs
  base : ¬Final (recordedState outcome) → (outcome = .outcomeUnknown → readable) →
    ∀ review : Review, s'.journal.reviews[id]? = some review →
      s'.repository.refs[D]? = some review.binding.expectedDecisionHead

/-- A denial that is recorded. -/
theorem Answers.denied {limits : ArtifactLimits} (h : RecordedAs id s .terminalDenial) :
    Answers G limits id s .terminalDenial where
  recorded := h
  receipt := nofun

/-- An outcome that is recorded as final, and is no receipt. -/
theorem Seen.denied {limits : ArtifactLimits} {readable : Prop} (h : RecordedAs id s' .terminalDenial)
    (hrefs : s'.repository.refs = s.repository.refs) : Seen G D limits id readable s s' .terminalDenial where
  toAnswers := .denied h
  refs := hrefs
  base := fun hfinal => absurd (.inr rfl) hfinal

theorem Seen.unknown {limits : ArtifactLimits} {readable : Prop} (h : RecordedAs id s' .outcomeUnknown)
    (hrefs : s'.repository.refs = s.repository.refs) (hreadable : ¬readable) :
    Seen G D limits id readable s s' .outcomeUnknown where
  recorded := h
  refs := hrefs
  base := fun _ hunknown => absurd (hunknown rfl) hreadable
  receipt := nofun

/-- A review at the base of the decision may be denied. -/
theorem Invariant.allowed (hs : Invariant K G D s) (hreview : s.journal.reviews[id]? = some review)
    (hbase : s.repository.refs[D]? = some review.binding.expectedDecisionHead) : Allowed G D s id .terminalDenial := by
  intro intent hintent
  obtain ⟨found, hfound, hcandidate⟩ := hs.intents id intent hintent
  rw [hreview] at hfound
  cases hfound
  exact hs.not_decided hbase hcandidate

/-! ## Reconciliation -/

section
variable {faults : TransitionStep → Fault.Outcome}

theorem markOutcomeUnknown_climbs {limits : ArtifactLimits} {readable : Prop} (hG : G.Lawful K)
    (hrecorded : RecordedAs id s review.state) (hreadable : ¬readable) (hasIntent : Bool) :
    Climbs (Keeps K G D P (some id)) (markOutcomeUnknown G id review.state hasIntent) faults s
      (fun outcome s' => Seen G D limits id readable s s' outcome) fun _ _ => True := by
  have hallowed : Allowed G D s id .outcomeUnknown := True.intro
  unfold markOutcomeUnknown
  split
  · refine Climbs.bind ((transitionState_climbs hG hrecorded hallowed 3).mono (fun _ _ _ h => h)
      fun _ _ _ _ => True.intro) ?_
    rintro reached s' - ⟨hsame, hreached⟩
    have hrefs : s'.repository.refs = s.repository.refs := by rw [hsame.1]
    cases reached with
    | outcomeUnknown => exact Climbs.pure (Seen.unknown hreached hrefs hreadable)
    | decisionCommitted => exact Climbs.throw True.intro
    | terminalDenial => exact Climbs.pure (Seen.denied hreached hrefs)
    | pendingReview => exact Climbs.throw True.intro
    | retryableFailure => exact Climbs.throw True.intro
  · exact Climbs.throw True.intro

end

/-- Refs and journal stay. -/
def SameRefs (s s' : State) : Prop := s'.repository.refs = s.repository.refs ∧ s'.journal = s.journal

section
variable {faults : ReconcileStep → Fault.Outcome}

theorem validateCommittedCandidate_climbs {current : Oid} (hG : G.Lawful K)
    (hcurrent : s.repository.refs[review.binding.decisionRefName]? = some current)
    (hmoved : current ≠ review.binding.expectedDecisionHead) :
    Climbs (Keeps K G D P who) (validateCommittedCandidate K G config review.binding intent) faults s
      (fun _ s' => SameRefs s s') fun _ _ => True := by
  refine Climbs.bind (V := fun _ s' => s' = s) (readRepository_any (fun _ _ => rfl) fun _ => True.intro) ?_
  rintro - s' - rfl
  refine Climbs.bind (V := fun _ s'' => s'' = s') (readRepository_any (fun _ _ => rfl) fun _ => True.intro) ?_
  rintro controls s'' - rfl
  have hlaw := hG.publishDecision (Prod.eta (G.publishDecision (authority controls review.binding intent)
    s''.repository)).symm
  have hgrows : s''.repository.Grows (G.publishDecision (authority controls review.binding intent) s''.repository).2 := by
    rcases hlaw with ⟨-, hswap⟩ | ⟨-, hgrows⟩
    · have hexpected := hswap.expected
      rw [show (authority controls review.binding intent).decisionRef = review.binding.decisionRefName from rfl,
        hcurrent] at hexpected
      exact absurd (Option.some.inj hexpected) hmoved
    · exact hgrows
  refine Climbs.bind (V := fun _ s' => SameRefs s'' s') (E := fun _ _ => True) ?_ ?_
  · refine callRepository_climbs ?_ (fun _ r' heq => ?_) (fun _ _ _ => True.intro) True.intro True.intro
    · refine keeps_of_grows ?_ rfl
      split
      · next receipt r' heq =>
        rw [heq] at hgrows
        exact hgrows
      · next code r' heq =>
        rw [heq] at hgrows
        exact hgrows
    · split at heq
      · next receipt r' heq' =>
        obtain ⟨-, rfl⟩ := Prod.mk.inj heq
        rw [heq'] at hgrows
        exact ⟨hgrows.refs, rfl⟩
      · next code r' heq' =>
        obtain ⟨-, rfl⟩ := Prod.mk.inj heq
        rw [heq'] at hgrows
        exact ⟨hgrows.refs, rfl⟩
  · rintro - s₁ - hsame
    refine Climbs.bind (V := fun _ s' => SameRefs s'' s') (readRepository_any (fun _ _ => hsame) fun _ => True.intro) ?_
    rintro found s₂ - hsame
    refine Climbs.bind (V := fun _ s' => SameRefs s'' s') (readRepository_any (fun _ _ => hsame) fun _ => True.intro) ?_
    rintro contained s₃ - hsame
    split
    · exact Climbs.pure hsame
    · exact Climbs.throw True.intro

theorem decisionReceipt_climbs {R : State → State → Prop} [IsPreorder State R] :
    Climbs R (decisionReceipt G config review.binding intent) faults s (fun receipt s' => s' = s ∧
      IsReceipt G config.artifactLimits s.repository review.binding intent receipt) fun _ _ => True := by
  refine Climbs.bind (V := fun disposition s' => s' = s ∧
      dispositionFromFeedback G s.repository intent.feedbackOid review.binding.proposalHead = .ok disposition)
    (readRepository_any (fun _ h => ⟨rfl, h⟩) fun _ => True.intro) ?_
  rintro disposition s' - ⟨rfl, hdisposition⟩
  refine Climbs.bind (V := fun digest s'' => s'' = s' ∧ manifestDigestAtCommit G s'.repository config.artifactLimits
      (selectedCommit review.binding disposition) = .ok digest)
    (readRepository_any (fun _ h => ⟨rfl, h⟩) fun _ => True.intro) ?_
  rintro digest s'' - ⟨rfl, hdigest⟩
  exact Climbs.pure ⟨rfl, hdisposition, hdigest, rfl⟩

/-- The outcome that is answered at the base of the review. -/
theorem undecided_seen {limits : ArtifactLimits} {readable : Prop} {outcome : ReviewOutcome}
    (hrecorded : RecordedAs id s review.state) (hreview : s.journal.reviews[id]? = some review)
    (hbase : s.repository.refs[D]? = some review.binding.expectedDecisionHead)
    (h : undecided review.state = .ok outcome) : Seen G D limits id readable s s outcome := by
  have hstate : recordedState outcome = review.state ∧ ∀ receipt, outcome ≠ .decisionCommitted receipt := by
    unfold undecided at h
    split at h <;> next heq =>
      cases h
      try exact ⟨heq.symm, nofun⟩
  exact {
    recorded := hstate.1 ▸ hrecorded
    refs := rfl
    base := fun _ _ found hfound => by
      rw [hreview] at hfound
      cases hfound
      exact hbase
    receipt := fun receipt heq => absurd heq (hstate.2 receipt) }

theorem reconcileRefs_climbs {readable : Prop} (hG : G.Lawful K) (hs : Invariant K G D s)
    (hreview : s.journal.reviews[id]? = some review) :
    Climbs (Keeps K G D P (some id)) (reconcileRefs K G config id review s.journal.intents[id]?
        s.repository.refs[review.binding.proposalRefName]? s.repository.refs[review.binding.decisionRefName]?) faults s
      (fun outcome s' => Seen G D config.artifactLimits id readable s s' outcome) fun _ _ => True := by
  obtain ⟨hD, -, hproposal⟩ := hs.bindings id review hreview
  have hrecorded : RecordedAs id s review.state := by
    unfold RecordedAs
    rw [hreview]
    rfl
  have hdeny : Allowed G D s id .terminalDenial → Climbs (Keeps K G D P (some id))
      (do
        (transitionTerminal G id review.state).relabel .settle
        pure .terminalDenial : Program ReconcileStep State SidecarError ReviewOutcome) faults s
      (fun outcome s' => Seen G D config.artifactLimits id readable s s' outcome) fun _ _ => True := by
    intro hallowed
    refine Climbs.bind (Climbs.relabel ((transitionTo_climbs hG hrecorded hallowed).mono (fun _ _ _ h => h)
      fun _ _ _ _ => True.intro)) ?_
    rintro - s' - ⟨hsame, hdenied⟩
    exact Climbs.pure (Seen.denied hdenied (by rw [hsame.1]))
  unfold reconcileRefs
  rw [if_neg (not_not.mpr hproposal)]
  refine Climbs.bind (V := fun current s' => s' = s ∧ s.repository.refs[review.binding.decisionRefName]? = some current)
    (Climbs.ofExcept (fun current h => ⟨rfl, required_ok.mp h⟩) fun _ _ => True.intro) ?_
  rintro current s' - ⟨rfl, hcurrent⟩
  split
  · next hbase =>
    rw [hD, hbase] at hcurrent
    exact Climbs.ofExcept (fun _ h => undecided_seen hrecorded hreview hcurrent h) fun _ _ => True.intro
  · next hmoved =>
    split
    · next hnone =>
      refine hdeny fun intent hintent => ?_
      rw [hnone] at hintent
      cases hintent
    · next intent hintent =>
      split
      · exact Climbs.throw True.intro
      · obtain ⟨chain, hchain⟩ := hs.chain current (hD ▸ hcurrent)
        refine Climbs.bind (V := fun contained s'' => s'' = s' ∧ (contained = true ↔ intent.candidateHead ∈ chain))
          (readRepository_any (fun _ h => ⟨rfl, decisionChainContainsCommit_ok hchain h⟩) fun _ => True.intro) ?_
        rintro contained s'' - ⟨rfl, hcontained⟩
        split
        · next htrue =>
          have hdecided : Decided G D s'' intent.candidateHead :=
            ⟨current, hD ▸ hcurrent, hchain.descends_iff.mpr (hcontained.mp htrue)⟩
          refine Climbs.bind (validateCommittedCandidate_climbs hG hcurrent hmoved) ?_
          rintro - s₁ hkeeps₁ ⟨hrefs, hjournal⟩
          obtain ⟨hs₁, hadvances₁⟩ := hkeeps₁ hs
          have hrecorded₁ : RecordedAs id s₁ review.state := by
            unfold RecordedAs
            rw [hjournal]
            exact hrecorded
          have hallowed : Allowed G D s₁ id .decisionCommitted :=
            ⟨intent, by rw [hjournal]; exact hintent, hdecided.mono hadvances₁.stays (by rw [hrefs])⟩
          refine Climbs.bind (Climbs.relabel ((transitionTo_climbs hG hrecorded₁ hallowed).mono
            (fun _ _ _ h => h) fun _ _ _ _ => True.intro)) ?_
          rintro - s₂ hkeeps₂ ⟨⟨hrepository, hintents⟩, hcommitted⟩
          refine Climbs.bind decisionReceipt_climbs ?_
          rintro receipt s₃ - ⟨rfl, hreceipt⟩
          obtain ⟨review₂, hreview₂, hbinding, -⟩ := (hkeeps₂ hs₁).2.reviews id review (by rw [hjournal]; exact hreview)
          refine Climbs.pure {
            recorded := hcommitted
            refs := by rw [hrepository, hrefs]
            base := fun hfinal => absurd (.inl rfl) hfinal
            receipt := fun receipt' heq => ?_ }
          cases heq
          exact ⟨review₂, intent, hreview₂, by rw [hintents, hjournal]; exact hintent, hbinding ▸ hreceipt⟩
        · next hfalse =>
          refine hdeny fun found hfound => ?_
          rw [hintent] at hfound
          cases hfound
          rintro ⟨head, hhead, hdescends⟩
          rw [← hD, hcurrent] at hhead
          cases hhead
          exact hfalse (hcontained.mpr (hchain.descends_iff.mp hdescends))

/-- The reads of a reconciliation reach the repository and its refs. -/
def Readable (faults : ReconcileStep → Fault.Outcome) : Prop :=
  faults .openRepository = .done ∧ faults .proposalRef = .done ∧ faults .decisionRef = .done

/-- The steps of every reconciliation that answers. -/
def reconcileLooks : List ReconcileStep := [.openJournal, .review, .intent, .queryBefore, .queryAfter]

theorem reconcileParsedInner_climbs (hG : G.Lawful K) (hs : Invariant K G D s) :
    Climbs (Keeps K G D P (some id)) (reconcileParsedInner K G config id) faults s
      (fun outcome s' => Seen G D config.artifactLimits id (Readable faults) s s' outcome ∧
        faults .openJournal = .done ∧ faults .review = .done ∧ faults .intent = .done) fun _ _ => True := by
  refine Climbs.bind (V := fun _ s' => s' = s ∧ faults .openJournal = .done)
    (Climbs.failpoint (fun hdone => ⟨rfl, hdone⟩) fun _ => True.intro) ?_
  rintro - s' - ⟨rfl, hopenJournal⟩
  refine Climbs.bind (V := fun review s'' => s'' = s' ∧ s'.journal.reviews[id]? = some review ∧ faults .review = .done)
    (Climbs.look (fun review h hdone => ⟨rfl, ?_, hdone⟩) (fun _ _ => True.intro) fun _ => True.intro) ?_
  · unfold getReview at h
    split at h
    · next heq =>
      cases h
      exact heq
    · cases h
  rintro review s'' - ⟨rfl, hreview, hreviewDone⟩
  refine Climbs.bind (V := fun _ s' => s' = s'') (Climbs.ofExcept (fun _ _ => rfl) fun _ _ => True.intro) ?_
  rintro - s' - rfl
  refine Climbs.bind (V := fun intent s'' => s'' = s' ∧ intent = s'.journal.intents[id]? ∧ faults .intent = .done)
    (Climbs.look (fun _ h hdone => ⟨rfl, (Except.ok.inj h).symm, hdone⟩) (fun _ _ => True.intro) fun _ => True.intro) ?_
  rintro intent s'' - ⟨rfl, rfl, hintentDone⟩
  refine Climbs.bind (E := fun _ _ => True) (V := fun refs s' => s' = s'' ∧
      ((∃ e, refs = .error e) ∧ ¬Readable faults ∨
        refs = .ok (s''.repository.refs[review.binding.proposalRefName]?,
          s''.repository.refs[review.binding.decisionRefName]?))) (Climbs.attempt ?_) ?_
  · refine Climbs.bind (V := fun _ s' => s' = s'') (Climbs.failpoint (fun _ => rfl)
      fun hfault => ⟨rfl, .inl ⟨⟨_, rfl⟩, fun h => hfault h.1⟩⟩) ?_
    rintro - s' - rfl
    refine Climbs.bind (V := fun proposal s'' => s'' = s' ∧ proposal = s'.repository.refs[review.binding.proposalRefName]?)
      (readRepository_climbs (fun _ h _ => ⟨rfl, (Except.ok.inj h).symm⟩) (fun _ h => by cases h)
        fun hfault => ⟨rfl, .inl ⟨⟨_, rfl⟩, fun h => hfault h.2.1⟩⟩) ?_
    rintro proposal s'' - ⟨rfl, rfl⟩
    refine Climbs.bind (V := fun decision s' => s' = s'' ∧
        decision = s''.repository.refs[review.binding.decisionRefName]?)
      (readRepository_climbs (fun _ h _ => ⟨rfl, (Except.ok.inj h).symm⟩) (fun _ h => by cases h)
        fun hfault => ⟨rfl, .inl ⟨⟨_, rfl⟩, fun h => hfault h.2.2⟩⟩) ?_
    rintro decision s' - ⟨rfl, rfl⟩
    exact Climbs.pure ⟨rfl, .inr rfl⟩
  · have hdone := And.intro hopenJournal (And.intro hreviewDone hintentDone)
    rintro refs s' - ⟨rfl, ⟨⟨e, rfl⟩, hunreadable⟩ | rfl⟩
    · refine Climbs.relabel ((markOutcomeUnknown_climbs hG ?_ hunreadable _).mono (fun _ _ _ h => ⟨h, hdone⟩)
        fun _ _ _ h => h)
      unfold RecordedAs
      rw [hreview]
      rfl
    · exact (reconcileRefs_climbs hG hs hreview).mono (fun _ _ _ h => ⟨h, hdone⟩) fun _ _ _ h => h

theorem reconcileParsed_climbs (hG : G.Lawful K) (hs : Invariant K G D s) :
    Climbs (Keeps K G D P (some id)) (reconcileParsed K G config id) faults s
      (fun outcome s' => Seen G D config.artifactLimits id (Readable faults) s s' outcome ∧
        ∀ step ∈ reconcileLooks, faults step = .done) fun _ _ => True := by
  refine Climbs.bind (V := fun _ s' => s' = s ∧ faults .queryBefore = .done)
    (Climbs.failpoint (fun hdone => ⟨rfl, hdone⟩) fun _ => True.intro) ?_
  rintro - s' - ⟨rfl, hbefore⟩
  refine Climbs.bind (reconcileParsedInner_climbs hG hs) ?_
  rintro outcome s'' - ⟨hseen, hopenJournal, hreview, hintent⟩
  refine Climbs.bind (V := fun _ s' => s' = s'' ∧ faults .queryAfter = .done)
    (Climbs.failpoint (fun hdone => ⟨rfl, hdone⟩) fun _ => True.intro) ?_
  rintro - s₁ - ⟨rfl, hafter⟩
  refine Climbs.pure ⟨hseen, fun step hstep => ?_⟩
  simp only [reconcileLooks, List.mem_cons, List.not_mem_nil, or_false] at hstep
  rcases hstep with rfl | rfl | rfl | rfl | rfl
  · exact hopenJournal
  · exact hreview
  · exact hintent
  · exact hbefore
  · exact hafter

end

end LpStudio.Synapse
