import LpStudio.Lib.Run
import LpStudio.Synapse.Inspection
import LpStudio.Synapse.Numbered

/-! # Runs of the sidecar
The calls on the repository and the journal of one project, in any order, each with its own configuration and with a
fault at any of its steps. A resumption that records a denial needs the repository once: one whose two reconciliations
both cannot read it denies what it has published before.
-/
namespace LpStudio.Synapse
open Str Fault Fault.Program Ancestry Outcome

inductive Operation where
  | beginProposal (input : ProposalInput) (faults : BeginStep → Fault.Outcome)
  | reconcile (id : Text) (faults : ReconcileStep → Fault.Outcome)
  | decide (id : Text) (disposition : ArtifactDisposition) (privateRationale : Option Text) (idempotencyKey : Bytes)
      (faults : DecideStep → Fault.Outcome)
  | resume (id : Text) (faults : ResumeStep → Fault.Outcome)
  | inspectProposal (id : Text) (faults : InspectStep → Fault.Outcome)

/-- The review that an operation is about. -/
def Operation.about : Operation → Option Text
  | .beginProposal .. => none
  | .reconcile id _ => some id
  | .decide id .. => some id
  | .resume id _ => some id
  | .inspectProposal id _ => some id

/-- A resumption reads the repository in one of the reconciliations that it answers by. -/
def Operation.Sighted : Operation → Prop
  | .resume _ faults => Readable (faults ∘ .first) ∨ Readable (faults ∘ .again)
  | _ => True

/-- A call on the sidecar of a project. -/
structure Call (projectKey : Text) (limits : ArtifactLimits) where
  config : SidecarConfig
  operation : Operation
  project : config.projectKey = projectKey
  limits : config.artifactLimits = limits
  sighted : operation.Sighted

inductive Reply where
  | proposal (exit : Exit SidecarError SidecarProposalReceipt)
  | review (exit : Exit SidecarError ReviewOutcome)

def Reply.outcome : Reply → Option ReviewOutcome
  | .review (.value outcome) => some outcome
  | _ => none

section
variable {projectKey : Text} {limits : ArtifactLimits} (K : Crates) (G : SynapseGit)

def serve (s : State) (call : Call projectKey limits) : Reply × State :=
  match call.operation with
  | .beginProposal input faults =>
    let result := beginProposal K G call.config input faults s
    (.proposal result.1, result.2)
  | .reconcile id faults =>
    let result := reconcile K G call.config id faults s
    (.review result.1, result.2)
  | .decide id disposition privateRationale idempotencyKey faults =>
    let result := decide K G call.config id disposition privateRationale idempotencyKey faults s
    (.review result.1, result.2)
  | .resume id faults =>
    let result := resume K G call.config id faults s
    (.review result.1, result.2)
  | .inspectProposal id faults =>
    let result := inspectProposal K G call.config id faults s
    (.proposal result.1, result.2)

end

/-- A project before its first call. -/
def State.empty : State where
  repository := ⟨∅, ∅⟩
  journal := ⟨∅, ∅⟩

/-- The ref of a project's decisions. -/
def decisionRefOf (projectKey : Text) : Text := "decision/artifact/".toList ++ projectKey

/-- A ref of a project's proposals. -/
def IsProposalRef (projectKey name : Text) : Prop :=
  (stripPrefix ("proposal/artifact/".toList ++ projectKey ++ ['/']) name).isSome = true

variable {K : Crates} {G : SynapseGit} {projectKey : Text} {limits : ArtifactLimits} {s s' : State} {id : Text}

/-! ## One call -/

/-- What a call leaves, and what an outcome that it answers says. -/
theorem serve_climbs (hG : G.Lawful K) (call : Call projectKey limits) (hs : Invariant K G (decisionRefOf projectKey) s) :
    Keeps K G (decisionRefOf projectKey) (IsProposalRef projectKey) call.operation.about s (serve K G s call).2 ∧
      ∀ id outcome, call.operation.about = some id → (serve K G s call).1.outcome = some outcome →
        Answers G limits id (serve K G s call).2 outcome := by
  obtain ⟨config, operation, hproject, rfl, hsighted⟩ := call
  have hreview : ∀ {L : Type} {p : Program L State SidecarError ReviewOutcome} {faults : L → Fault.Outcome} {id : Text},
      Climbs (Keeps K G (decisionRefOf projectKey) (IsProposalRef projectKey) (some id)) p faults s
        (fun outcome s' => Answers G config.artifactLimits id s' outcome) (fun _ _ => True) →
      Keeps K G (decisionRefOf projectKey) (IsProposalRef projectKey) (some id) s (p faults s).2 ∧
        ∀ other outcome, some id = some other → (Reply.review (p faults s).1).outcome = some outcome →
          Answers G config.artifactLimits other (p faults s).2 outcome := by
    intro L p faults id hclimbs
    refine ⟨hclimbs.final, fun other outcome hother houtcome => ?_⟩
    cases hother
    cases hexit : (p faults s).1 with
    | value found =>
      rw [hexit] at houtcome
      cases houtcome
      exact hclimbs.value hexit
    | error e =>
      rw [hexit] at houtcome
      cases houtcome
    | stop =>
      rw [hexit] at houtcome
      cases houtcome
  cases operation with
  | beginProposal input faults =>
    have hD : config.decisionRef = decisionRefOf projectKey := by
      rw [← hproject]
      rfl
    have hP : ∀ name, IsProposalRef projectKey name → (stripPrefix (config.proposalPrefix ++ ['/']) name).isSome := by
      rw [← hproject]
      exact fun _ h => h
    exact ⟨(beginProposal_climbs hG hs hD hP).final, nofun⟩
  | inspectProposal id faults => exact ⟨inspectProposal_climbs.final, fun _ _ _ houtcome => by cases houtcome⟩
  | reconcile id faults =>
    exact hreview ((reconcile_climbs hG hs).mono (fun _ _ _ h => h.toAnswers) fun _ _ _ h => h)
  | decide id disposition privateRationale idempotencyKey faults => exact hreview (decide_climbs hG hs)
  | resume id faults => exact hreview (resume_climbs hG hs hsighted)

theorem serve_invariant (hG : G.Lawful K) (call : Call projectKey limits) (hs : Invariant K G (decisionRefOf projectKey) s) :
    Invariant K G (decisionRefOf projectKey) (serve K G s call).2 := ((serve_climbs hG call hs).1 hs).1

theorem serve_advances (hG : G.Lawful K) (call : Call projectKey limits) (hs : Invariant K G (decisionRefOf projectKey) s) :
    Advances G (decisionRefOf projectKey) (IsProposalRef projectKey) call.operation.about s (serve K G s call).2 := ((serve_climbs hG call hs).1 hs).2

theorem invariant_empty : Invariant K G (decisionRefOf projectKey) State.empty := by
  have hnone : ∀ {β : Type} {name : Text}, (∅ : Std.ExtTreeMap Text β compare)[name]? = none :=
    Std.ExtTreeMap.getElem?_empty
  exact {
    chain := fun head hhead => by cases hnone.symm.trans hhead
    bindings := fun id review hreview => by cases hnone.symm.trans hreview
    entities := fun id other review review' hreview _ _ => by cases hnone.symm.trans hreview
    intents := fun id intent hintent => by cases hnone.symm.trans hintent
    denied := fun id review intent hreview _ _ => by cases hnone.symm.trans hreview
    committed := fun id review hreview _ => by cases hnone.symm.trans hreview }

theorem serve_follows (hG : G.Lawful K) (call : Call projectKey limits) (hs : Invariant K G (decisionRefOf projectKey) s) :
    Follows G (decisionRefOf projectKey) s (serve K G s call).2 :=
  (serve_advances hG call hs).toFollows

/-! ## Publications -/

/-- The candidate of the intent of a review is a commit of the decision. -/
def Published (G : SynapseGit) (D : Text) (id : Text) (s : State) : Prop :=
  ∃ intent, s.journal.intents[id]? = some intent ∧ Decided G D s intent.candidateHead

/-- An event whose call is about a review, and moves the decision ref. -/
def publishes (id : Text) (e : Run.Event State (Call projectKey limits) Reply) : Bool :=
  Decidable.decide (e.call.operation.about = some id ∧
    e.after.repository.refs[decisionRefOf projectKey]? ≠ e.before.repository.refs[decisionRefOf projectKey]?)

section
variable {D : Text} {P : Text → Prop} {who : Option Text} {intent : DecisionIntent}

theorem Published.mono (h : Published G D id s) (hfollows : Follows G D s s') : Published G D id s' := by
  obtain ⟨intent, hintent, hdecided⟩ := h
  exact ⟨intent, hfollows.intents id intent hintent, hfollows.decided _ hdecided⟩

/-- The candidate of an intent is on top of the base of its review. -/
theorem Invariant.candidate_parents {review : Review} (hs : Invariant K G D s)
    (hreview : s.journal.reviews[id]? = some review) (hintent : s.journal.intents[id]? = some intent) :
    Candidate K G s.repository id review.binding intent := by
  obtain ⟨found, hfound, hcandidate⟩ := hs.intents id intent hintent
  rw [hreview] at hfound
  cases hfound
  exact hcandidate

/-- A call that moves the decision ref past the base of a review publishes its intent. -/
theorem Advances.published (hs' : Invariant K G D s') (h : Advances G D P (some id) s s')
    (hmoved : s'.repository.refs[D]? ≠ s.repository.refs[D]?) : Published G D id s' := by
  rcases h.decision with hsame | ⟨hwho, -⟩ | ⟨other, review, intent, hwho, -, hintent, -, hhead⟩
  · exact absurd hsame hmoved
  · cases hwho
  · cases hwho
    obtain ⟨chain, hchain⟩ := hs'.chain _ hhead
    exact ⟨intent, hintent, _, hhead, chain, hchain, hchain.head_mem⟩

/-- The decision ref has left the base of a review that is published. -/
theorem Advances.same_of_published (hs : Invariant K G D s)
    (h : Advances G D P (some id) s s') (hpublished : Published G D id s) :
    s'.repository.refs[D]? = s.repository.refs[D]? := by
  rcases h.decision with hsame | ⟨hwho, -⟩ | ⟨other, review, intent, hwho, hreview, hintent, hbase, -⟩
  · exact hsame
  · cases hwho
  · cases hwho
    obtain ⟨found, hfound, hdecided⟩ := hpublished
    rw [h.intents id found hfound] at hintent
    cases hintent
    obtain ⟨review', hreview', hcandidate⟩ := hs.intents id _ hfound
    obtain ⟨review'', hreview'', hbinding, -⟩ := h.reviews id review' hreview'
    rw [hreview] at hreview''
    cases hreview''
    exact absurd hdecided (hs.not_decided (hbinding ▸ hbase) hcandidate)

/-- A review comes to be published only by a call about it that moves the decision ref. -/
theorem Advances.moved_of_published (hs : Invariant K G D s) (hs' : Invariant K G D s') (h : Advances G D P who s s')
    (hnot : ¬Published G D id s) (hpublished : Published G D id s') :
    who = some id ∧ s'.repository.refs[D]? ≠ s.repository.refs[D]? := by
  obtain ⟨intent, hintent, hdecided⟩ := hpublished
  obtain ⟨review, hreview, hcandidate⟩ := hs'.intents id intent hintent
  have hold : ∀ {found}, s.journal.intents[id]? = some found → found = intent := by
    intro found hfound
    rw [h.intents id found hfound] at hintent
    exact Option.some.inj hintent
  rcases h.decision with hsame | ⟨hwho, hnone, base, hbase, hroot⟩ |
    ⟨other, review', intent', hwho, hreview', hintent', hbase, hmoved⟩
  · cases hfound : s.journal.intents[id]? with
    | some found =>
      obtain rfl := hold hfound
      exact absurd ⟨found, hfound, (hs.decided_iff h.stays hsame).mp hdecided⟩ hnot
    | none =>
      obtain ⟨review', -, hreview', hbase⟩ := h.registered id intent hfound hintent
      rw [hreview] at hreview'
      cases hreview'
      exact absurd hdecided (hs'.not_decided (hsame.trans hbase) hcandidate)
  · have hchain : Chain (parents G s'.repository) base [base] := .root hroot
    obtain ⟨head, hhead, hdescends⟩ := hdecided
    rw [hbase] at hhead
    cases hhead
    rw [hchain.descends_iff, List.mem_singleton] at hdescends
    have hparents := hcandidate.parents
    rw [hdescends, hroot] at hparents
    cases hparents
  · have hcandidate' := hs'.candidate_parents hreview' hintent'
    have hne : s'.repository.refs[D]? ≠ s.repository.refs[D]? := by
      rw [hmoved, hbase]
      intro heq
      obtain ⟨chain, hchain⟩ := hs.chain _ hbase
      have hmem := hchain.head_mem
      rw [← Option.some.inj heq] at hmem
      exact (hchain.mono (parents_mono h.stays)).not_mem_of_child hcandidate'.parents hmem
    rcases (hs.moved_iff h.stays hbase hmoved hcandidate'.parents).mp hdecided with heq | hdecided
    · obtain rfl := hs'.entities id other review review' hreview hreview' (hcandidate.entity_eq hcandidate' heq)
      exact ⟨hwho, hne⟩
    · cases hfound : s.journal.intents[id]? with
      | some found =>
        obtain rfl := hold hfound
        exact absurd ⟨found, hfound, hdecided⟩ hnot
      | none =>
        obtain ⟨-, hwho', -⟩ := h.registered id intent hfound hintent
        exact ⟨hwho', hne⟩

end

/-! ## Runs -/

/-- The review that an event answers on, with the outcome. -/
def answer (e : Run.Event State (Call projectKey limits) Reply) : Option (Text × ReviewOutcome) :=
  e.call.operation.about.bind fun id => e.reply.outcome.map fun outcome => (id, outcome)

/-- The review that an event inspects, with what is shown. -/
def inspection (e : Run.Event State (Call projectKey limits) Reply) : Option (Text × SidecarProposalReceipt) :=
  match e.call.operation, e.reply with
  | .inspectProposal id _, .proposal (.value receipt) => some (id, receipt)
  | _, _ => none

section
variable {calls : List (Call projectKey limits)}

theorem event_invariant (hG : G.Lawful K) {e : Run.Event State (Call projectKey limits) Reply}
    (he : e ∈ Run.events (serve K G) State.empty calls) : Invariant K G (decisionRefOf projectKey) e.before ∧
      e.reply = (serve K G e.before e.call).1 ∧ e.after = (serve K G e.before e.call).2 :=
  Run.events_inv (fun _ call => serve_invariant hG call) invariant_empty e he

theorem event_final (hG : G.Lawful K) {e : Run.Event State (Call projectKey limits) Reply}
    (he : e ∈ Run.events (serve K G) State.empty calls) :
    Follows G (decisionRefOf projectKey) e.after (Run.final (serve K G) State.empty calls) := by
  have hstep : ∀ s (call : Call projectKey limits), Invariant K G (decisionRefOf projectKey) s →
      Invariant K G (decisionRefOf projectKey) (serve K G s call).2 := fun _ call => serve_invariant hG call
  have hle : ∀ s (call : Call projectKey limits), Invariant K G (decisionRefOf projectKey) s →
      Follows G (decisionRefOf projectKey) s (serve K G s call).2 := fun _ call => serve_follows hG call
  exact Run.events_le_final hstep hle invariant_empty e he

theorem event_answers (hG : G.Lawful K) {e : Run.Event State (Call projectKey limits) Reply}
    (he : e ∈ Run.events (serve K G) State.empty calls) {outcome : ReviewOutcome} (h : answer e = some (id, outcome)) :
    Invariant K G (decisionRefOf projectKey) e.after ∧ Answers G limits id e.after outcome := by
  obtain ⟨hs, hreply, hafter⟩ := event_invariant hG he
  obtain ⟨found, habout, houtcome⟩ := Option.bind_eq_some_iff.mp h
  obtain ⟨outcome', houtcome, heq⟩ := Option.map_eq_some_iff.mp houtcome
  cases heq
  rw [hreply] at houtcome
  rw [hafter]
  exact ⟨serve_invariant hG e.call hs, (serve_climbs hG e.call hs).2 id outcome habout houtcome⟩

theorem final_invariant (hG : G.Lawful K) :
    Invariant K G (decisionRefOf projectKey) (Run.final (serve K G) State.empty calls) :=
  Run.final_inv (fun _ call => serve_invariant hG call) calls invariant_empty

theorem countP_publishes_le (hG : G.Lawful K) :
    (Run.events (serve K G) State.empty calls).countP (publishes id) ≤ 1 := by
  have hstep : ∀ s (call : Call projectKey limits), Invariant K G (decisionRefOf projectKey) s →
      Invariant K G (decisionRefOf projectKey) (serve K G s call).2 := fun _ call => serve_invariant hG call
  have hhit : ∀ s (call : Call projectKey limits), Invariant K G (decisionRefOf projectKey) s →
      publishes id ⟨s, call, (serve K G s call).1, (serve K G s call).2⟩ = true →
      Published G (decisionRefOf projectKey) id (serve K G s call).2 := by
    intro s call hs h
    obtain ⟨habout, hmoved⟩ := of_decide_eq_true h
    exact (habout ▸ serve_advances hG call hs).published (serve_invariant hG call hs) hmoved
  have hnot : ∀ s (call : Call projectKey limits), Invariant K G (decisionRefOf projectKey) s →
      Published G (decisionRefOf projectKey) id s →
      publishes id ⟨s, call, (serve K G s call).1, (serve K G s call).2⟩ = false := by
    intro s call hs hpublished
    refine decide_eq_false fun h => h.2 ?_
    exact (h.1 ▸ serve_advances hG call hs).same_of_published hs hpublished
  exact Run.countP_events_le_one hstep (fun _ call hs h => h.mono (serve_follows hG call hs)) hnot hhit calls
    invariant_empty

theorem published_iff (hG : G.Lawful K) :
    Published G (decisionRefOf projectKey) id (Run.final (serve K G) State.empty calls) ↔
      (Run.events (serve K G) State.empty calls).countP (publishes id) = 1 := by
  constructor
  · intro h
    have hempty : ¬Published G (decisionRefOf projectKey) id State.empty := by
      rintro ⟨intent, hintent, -⟩
      cases Std.ExtTreeMap.getElem?_empty.symm.trans hintent
    have hnew : ∀ s (call : Call projectKey limits), Invariant K G (decisionRefOf projectKey) s →
        ¬Published G (decisionRefOf projectKey) id s → Published G (decisionRefOf projectKey) id (serve K G s call).2 →
        publishes id ⟨s, call, (serve K G s call).1, (serve K G s call).2⟩ = true := by
      intro s call hs hold hnew
      exact decide_eq_true ((serve_advances hG call hs).moved_of_published hs (serve_invariant hG call hs) hold hnew)
    have hpos := Run.countP_events_pos (fun _ call => serve_invariant hG call) hnew calls invariant_empty hempty h
    exact Nat.le_antisymm (countP_publishes_le hG) hpos
  · intro h
    obtain ⟨e, he, hpublishes⟩ := List.countP_pos_iff.mp (h ▸ Nat.one_pos)
    obtain ⟨hs, -, hafter⟩ := event_invariant hG he
    obtain ⟨habout, hmoved⟩ := of_decide_eq_true hpublishes
    have hadvances := serve_advances hG e.call hs
    have hs' := serve_invariant hG e.call hs
    rw [← hafter] at hadvances hs'
    exact ((habout ▸ hadvances).published hs' hmoved).mono (event_final hG he)

theorem event_inspected (hG : G.Lawful K) {e : Run.Event State (Call projectKey limits) Reply}
    (he : e ∈ Run.events (serve K G) State.empty calls) {shown : SidecarProposalReceipt}
    (h : inspection e = some (id, shown)) : ∃ review, Inspected K G limits id e.after review shown := by
  obtain ⟨-, hreply, hafter⟩ := event_invariant hG he
  rw [hafter]
  obtain ⟨before, ⟨config, operation, hproject, rfl, hsighted⟩, reply, after⟩ := e
  cases operation with
  | inspectProposal other faults =>
    have hclimbs : Climbs (Keeps K G (decisionRefOf projectKey) (IsProposalRef projectKey) none)
        (inspectProposal K G config other) faults before _ _ := inspectProposal_climbs
    cases reply with
    | proposal exit =>
      cases exit with
      | value receipt =>
        cases h
        obtain ⟨hsame, hinspected⟩ := hclimbs.value (Reply.proposal.inj hreply.symm)
        change ∃ review, Inspected K G _ id (inspectProposal K G config id faults before).2 review shown
        rw [hsame]
        exact hinspected
      | _ => cases h
    | review exit => cases h
  | _ => cases h

/-- A review that is answered as final is recorded so ever after. -/
theorem Answers.later {outcome : ReviewOutcome} (h : Answers G limits id s outcome)
    (hfinal : Final (recordedState outcome)) {D : Text} (hfollows : Follows G D s s') :
    RecordedAs id s' (recordedState outcome) := by
  obtain ⟨review, hreview, hstate⟩ := h.recorded.found
  obtain ⟨review', hreview', -, hsame⟩ := hfollows.reviews id review hreview
  unfold RecordedAs
  rw [hreview', Option.map_some, hsame (hstate ▸ hfinal), hstate]

/-- Receipts of a review are the same. -/
theorem Answers.receipt_unique {receipt receipt' : SidecarDecisionReceipt} {D : Text}
    (h : Answers G limits id s (.decisionCommitted receipt)) (h' : Answers G limits id s' (.decisionCommitted receipt'))
    (hfollows : Follows G D s s') : receipt = receipt' := by
  obtain ⟨review, intent, hreview, hintent, hreceipt⟩ := h.receipt receipt rfl
  obtain ⟨review', intent', hreview', hintent', hreceipt'⟩ := h'.receipt receipt' rfl
  obtain ⟨found, hfound, hbinding, -⟩ := hfollows.reviews id review hreview
  rw [hreview'] at hfound
  cases hfound
  rw [hfollows.intents id intent hintent] at hintent'
  cases hintent'
  have hreceipt := hreceipt.mono hfollows.stays
  rw [hbinding] at hreceipt'
  obtain ⟨disposition, digest, snapshot⟩ := receipt
  obtain ⟨disposition', digest', snapshot'⟩ := receipt'
  obtain rfl : disposition = disposition' := Except.ok.inj (hreceipt.disposition.symm.trans hreceipt'.disposition)
  obtain rfl : digest = digest' := Except.ok.inj (hreceipt.digest.symm.trans hreceipt'.digest)
  obtain rfl : snapshot = snapshot' := hreceipt.snapshot.trans hreceipt'.snapshot.symm
  rfl

end

/-! ## A run -/

def sampleConfig : SidecarConfig :=
  ⟨"p".toList, "creator".toList, "agent".toList, "now".toList, "later".toList, ⟨9, 9, 9, 9⟩⟩

def sampleCall (operation : Operation) (sighted : operation.Sighted) : Call "p".toList ⟨9, 9, 9, 9⟩ :=
  ⟨sampleConfig, operation, rfl, rfl, sighted⟩

def sampleProposal : Operation :=
  .beginProposal ⟨"op".toList, [("index.html".toList, [1])], [("index.html".toList, [2])], [123, 125]⟩ fun _ => .done

/-- The publication reaches the repository, and the process stops before it is recorded. -/
def sampleDecision : Operation :=
  .decide "r".toList .adoptedUnchanged none [1] fun
    | .call .publishAfter => .stopped 0
    | _ => .done

/-- A proposal is begun and decided on, and reconciled once the process is back. -/
def sampleCalls : List (Call "p".toList ⟨9, 9, 9, 9⟩) :=
  [sampleCall sampleProposal True.intro, sampleCall sampleDecision True.intro,
    sampleCall (.reconcile "r".toList fun _ => .done) True.intro]

abbrev sampleGit : SynapseGit := numbered sampleCrates

/-- The event answers with a receipt. -/
def receives (e : Run.Event State (Call projectKey limits) Reply) : Bool :=
  match answer e with
  | some (_, .decisionCommitted _) => true
  | _ => false

/-- The publication of the sample is the call that stopped, and no other; the last call answers with the receipt. -/
theorem sample_publishes :
    (Run.events (serve sampleCrates sampleGit) State.empty sampleCalls).countP (publishes "r".toList) = 1 ∧
      (Run.events (serve sampleCrates sampleGit) State.empty sampleCalls).countP receives = 1 := by
  decide +kernel

/-- The repository cannot be opened when a resumption reconciles, and can when it publishes. -/
def unsightedFaults : ResumeStep → Fault.Outcome
  | .first .openRepository | .again .openRepository => .failed 0
  | _ => .done

/-- Such a resumption denies what has been published before. -/
example : (resume sampleCrates sampleGit sampleConfig "r".toList unsightedFaults
    (Run.final (serve sampleCrates sampleGit) State.empty (sampleCalls.take 2))).1 = .value .terminalDenial := by
  decide +kernel

/-- The repository and the journal of a project are consistent after any calls, and never more than one proposal is
neither decided on nor denied. -/
theorem consistent_of_run (hG : G.Lawful K) (calls : List (Call projectKey limits)) :
    Invariant K G (decisionRefOf projectKey) (Run.final (serve K G) State.empty calls) ∧
      OneOpen G (decisionRefOf projectKey) (IsProposalRef projectKey) (Run.final (serve K G) State.empty calls) := by
  have hempty : OneOpen G (decisionRefOf projectKey) (IsProposalRef projectKey) State.empty := by
    intro name other head head' _ _ _ _ hhead
    cases Std.ExtTreeMap.getElem?_empty.symm.trans hhead
  have hboth : ∀ s (call : Call projectKey limits),
      Invariant K G (decisionRefOf projectKey) s ∧ OneOpen G (decisionRefOf projectKey) (IsProposalRef projectKey) s →
      Invariant K G (decisionRefOf projectKey) (serve K G s call).2 ∧
        OneOpen G (decisionRefOf projectKey) (IsProposalRef projectKey) (serve K G s call).2 :=
    fun s call hs => ⟨serve_invariant hG call hs.1, (serve_advances hG call hs.1).opens hs.2⟩
  exact Run.final_inv hboth calls ⟨invariant_empty, hempty⟩

theorem consistent_of_run_sample :
    Invariant sampleCrates sampleGit (decisionRefOf "p".toList)
        (Run.final (serve sampleCrates sampleGit) State.empty sampleCalls) ∧
      OneOpen sampleGit (decisionRefOf "p".toList) (IsProposalRef "p".toList)
        (Run.final (serve sampleCrates sampleGit) State.empty sampleCalls) :=
  consistent_of_run (numbered_lawful sampleCrates) sampleCalls

/-- The calls of the sample, and an inspection before and after them. -/
def inspectedCalls : List (Call "p".toList ⟨9, 9, 9, 9⟩) :=
  sampleCalls.take 1 ++ sampleCall (.inspectProposal "r".toList fun _ => .done) True.intro :: sampleCalls.drop 1 ++
    [sampleCall (.inspectProposal "r".toList fun _ => .done) True.intro]

end LpStudio.Synapse
